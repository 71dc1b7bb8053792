import CryptoBallot.Identifier
import CryptoBallot.Cryptid
import Mathlib.Data.List.Nodup

/-!
# The transactions of an election

`PartialDecryptionTransaction` and `DecryptionTransaction` are those of
`src/cryptoballot/src/decryption.rs` (lines 12-28 and 180-188), field for
field.  The other kinds, the envelope `SignedTransaction` and `ValidationError`
are not in `src/`; they are modelled from the spec (§3, §7) with the fields the
two validators read.  A `Signed<T>` is its inner transaction: the signature is
checked before `validate_tx` and never read by it.
-/

namespace CryptoBallot

/-- Modelled from the spec: a trustee of the election roster. -/
structure Trustee where
  id : Uuid
  index : UInt8
  publicKey : PublicKey
deriving DecidableEq

/-- Modelled from the spec: the mix-net configuration of an election. -/
structure MixConfig where
  numShuffles : UInt8
deriving DecidableEq

/-- Modelled from the spec: `ElectionTransaction`. -/
structure ElectionTransaction where
  id : Identifier
  trustees : List Trustee
  trusteesThreshold : Nat
  mixnet : Option MixConfig
deriving DecidableEq

/-- A search that finds the only entry passing its test. -/
theorem find?_eq_some_of_unique {α : Type} {p : α → Bool} {l : List α} {a : α} (ha : a ∈ l)
    (hp : p a) (hu : ∀ b ∈ l, p b → b = a) : l.find? p = some a := by
  induction l with
  | nil => cases ha
  | cons x xs ih =>
    by_cases hx : p x
    · rw [List.find?_cons_of_pos _ hx, hu x (List.mem_cons_self _ _) hx]
    · rw [List.find?_cons_of_neg _ hx]
      rcases List.mem_cons.1 ha with rfl | ha
      · exact absurd hp hx
      · exact ih ha fun b hb => hu b (List.mem_cons_of_mem _ hb)

namespace ElectionTransaction

/-- Modelled from the spec: `get_full_trustees`, the roster in its order. -/
def getFullTrustees (self : ElectionTransaction) : List Trustee :=
  self.trustees

/-- Modelled from the spec: `get_trustee(id)`, the first roster entry with that id. -/
def getTrustee (self : ElectionTransaction) (trusteeId : Uuid) : Option Trustee :=
  self.trustees.find? (·.id == trusteeId)

variable {self : ElectionTransaction} {u : Uuid} {T : Trustee}

theorem getTrustee_eq_some (h : self.getTrustee u = some T) : T ∈ self.trustees ∧ T.id = u :=
  ⟨List.mem_of_find?_eq_some h, by simpa using List.find?_some h⟩

/-- With distinct roster ids, `get_trustee` finds every roster entry by its id. -/
theorem getTrustee_of_mem (hids : (self.trustees.map (·.id)).Nodup) (hT : T ∈ self.trustees) :
    self.getTrustee T.id = some T :=
  find?_eq_some_of_unique hT (by simp) fun _ hb hbT =>
    List.inj_on_of_nodup_map hids hb hT (by simpa using hbT)

end ElectionTransaction

/-- Modelled from the spec: `VoteTransaction`. -/
structure VoteTransaction where
  id : Identifier
  encryptedVote : Ciphertext
deriving DecidableEq

/-- Modelled from the spec: `MixTransaction`. -/
structure MixTransaction where
  id : Identifier
  mixIndex : UInt8
  reencryption : List Ciphertext
deriving DecidableEq

/-- Modelled from the spec: `KeyGenPublicKeyTransaction`. -/
structure KeyGenPublicKeyTransaction where
  id : Identifier
  trusteeId : Uuid
  trusteePublicKey : PublicKey
  publicKeyProof : PublicKeyProof
deriving DecidableEq

/-- `PartialDecryptionTransaction`. -/
structure PartialDecryptionTransaction where
  id : Identifier
  electionId : Identifier
  upstreamId : Identifier
  upstreamIndex : Nat
  trusteeId : Uuid
  trusteePublicKey : PublicKey
  partialDecryption : DecryptShare
deriving DecidableEq

/-- `DecryptionTransaction`. -/
structure DecryptionTransaction where
  id : Identifier
  electionId : Identifier
  voteId : Identifier
  trustees : List Uuid
  decryptedVote : List UInt8
deriving DecidableEq

/-- Modelled from the spec: `SignedTransaction`, one variant per kind.  The
kinds whose fields no validator here reads carry their identifier only. -/
inductive SignedTransaction where
  | election (tx : ElectionTransaction)
  | keyGenCommitment (id : Identifier)
  | keyGenShare (id : Identifier)
  | keyGenPublicKey (tx : KeyGenPublicKeyTransaction)
  | vote (tx : VoteTransaction)
  | votingEnd (id : Identifier)
  | mix (tx : MixTransaction)
  | partialDecryption (tx : PartialDecryptionTransaction)
  | decryption (tx : DecryptionTransaction)
deriving DecidableEq

namespace SignedTransaction

/-- `id()`. -/
def id : SignedTransaction → Identifier
  | .election tx => tx.id
  | .keyGenCommitment id => id
  | .keyGenShare id => id
  | .keyGenPublicKey tx => tx.id
  | .vote tx => tx.id
  | .votingEnd id => id
  | .mix tx => tx.id
  | .partialDecryption tx => tx.id
  | .decryption tx => tx.id

/-- `transaction_type()`. -/
def transactionType : SignedTransaction → TransactionType
  | .election _ => .election
  | .keyGenCommitment _ => .keyGenCommitment
  | .keyGenShare _ => .keyGenShare
  | .keyGenPublicKey _ => .keyGenPublicKey
  | .vote _ => .vote
  | .votingEnd _ => .votingEnd
  | .mix _ => .mix
  | .partialDecryption _ => .partialDecryption
  | .decryption _ => .decryption

/-- `Option<ElectionTransaction>::from(tx)`. -/
def asElection? : SignedTransaction → Option ElectionTransaction
  | .election tx => some tx
  | _ => none

/-- `Option<VoteTransaction>::from(tx)`. -/
def asVote? : SignedTransaction → Option VoteTransaction
  | .vote tx => some tx
  | _ => none

/-- `Option<MixTransaction>::from(tx)`. -/
def asMix? : SignedTransaction → Option MixTransaction
  | .mix tx => some tx
  | _ => none

/-- `Option<KeyGenPublicKeyTransaction>::from(tx)`. -/
def asKeyGenPublicKey? : SignedTransaction → Option KeyGenPublicKeyTransaction
  | .keyGenPublicKey tx => some tx
  | _ => none

/-- `Option<PartialDecryptionTransaction>::from(tx)`. -/
def asPartialDecryption? : SignedTransaction → Option PartialDecryptionTransaction
  | .partialDecryption tx => some tx
  | _ => none

/-- `Option<DecryptionTransaction>::from(tx)`. -/
def asDecryption? : SignedTransaction → Option DecryptionTransaction
  | .decryption tx => some tx
  | _ => none

/-- `tx.into()` towards one kind, a `From` impl that panics on any other kind
(as the `From<Transaction>` impls of `transaction.rs` do). -/
def into {ε α : Type} (project : SignedTransaction → Option α) (tx : SignedTransaction) :
    Except (Fault ε) α :=
  match project tx with
  | some a => .ok a
  | none => .error (.panic "wrong transaction type expected")

variable {tx : SignedTransaction}

@[simp] theorem asElection?_eq_some {e : ElectionTransaction} :
    tx.asElection? = some e ↔ tx = .election e := by
  cases tx <;> simp [asElection?]

@[simp] theorem asVote?_eq_some {v : VoteTransaction} : tx.asVote? = some v ↔ tx = .vote v := by
  cases tx <;> simp [asVote?]

@[simp] theorem asMix?_eq_some {m : MixTransaction} : tx.asMix? = some m ↔ tx = .mix m := by
  cases tx <;> simp [asMix?]

@[simp] theorem asKeyGenPublicKey?_eq_some {kg : KeyGenPublicKeyTransaction} :
    tx.asKeyGenPublicKey? = some kg ↔ tx = .keyGenPublicKey kg := by
  cases tx <;> simp [asKeyGenPublicKey?]

@[simp] theorem asPartialDecryption?_eq_some {p : PartialDecryptionTransaction} :
    tx.asPartialDecryption? = some p ↔ tx = .partialDecryption p := by
  cases tx <;> simp [asPartialDecryption?]

@[simp] theorem into_eq_ok {ε α : Type} {project : SignedTransaction → Option α}
    {tx : SignedTransaction} {a : α} : (into project tx : Except (Fault ε) α) = .ok a ↔ project tx = some a := by
  unfold into; split <;> simp_all

/-- `into()` panics exactly on a transaction of another kind. -/
@[simp] theorem panics_into {ε α : Type} {project : SignedTransaction → Option α} {tx : SignedTransaction} :
    Panics (into project tx : Except (Fault ε) α) ↔ project tx = none := by
  unfold into; split <;> simp_all [Panics]

theorem neverErr_into {ε α : Type} (project : SignedTransaction → Option α) (tx : SignedTransaction) :
    NeverErr (into project tx : Except (Fault ε) α) := by
  intro e; unfold into; split <;> simp

/-- `into()` over a list: the transactions converted when all are of the kind,
otherwise the panic. -/
theorem mapM_into {ε α : Type} {project : SignedTransaction → Option α} :
    ∀ l : List SignedTransaction, (l.mapM (into project) : Except (Fault ε) (List α)) =
      if ∀ tx ∈ l, (project tx).isSome then .ok (l.filterMap project)
      else .error (.panic "wrong transaction type expected")
  | [] => rfl
  | tx :: l => by
    rw [List.mapM_cons, mapM_into l]
    cases h : project tx <;> split_ifs <;> simp_all [into, bind, Except.bind, pure, Except.pure]

end SignedTransaction

/-- Modelled from the spec: `ValidationError`, the variants the validators and
the store return (§7; the source's spelling `MisingVotingEndTransaction`). -/
inductive ValidationError where
  | transactionNotFound (id : Identifier)
  | wrongTransactionKind (id : Identifier)
  | trusteeDoesNotExist (id : Uuid)
  | identifierBadComposition
  | misingVotingEndTransaction
  | invalidUpstreamIndex
  | wrongMixSelected
  | invalidUpstreamID
  | trusteePublicKeyMismatch (id : Uuid)
  | partialDecryptionProofFailed
  | notEnoughShares (required got : Nat)
  | voteDecryptionFailed (e : ThresholdError)
  | voteDecryptionMismatch
deriving DecidableEq

/-- A call returning `Result<α, ValidationError>`: `Ok`, an `Err`, or a panic. -/
abbrev Outcome (α : Type) := Except (Fault ValidationError) α

end CryptoBallot
