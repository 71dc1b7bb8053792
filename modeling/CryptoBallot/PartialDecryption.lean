import CryptoBallot.Store

/-!
# Transaction 8: partial decryption

`src/cryptoballot/src/decryption.rs`, lines 30-172: `new`, `build_id` and
`validate_tx` of `PartialDecryptionTransaction`.  `validate_tx` looks up the
election, finds the first trustee of the roster with the declared id and key,
recomputes the identifier with that trustee's index, requires the election's
`VotingEnd`, takes the ciphertext from the upstream vote or mix, and checks the
share against the trustee's `KeyGenPublicKey` transaction.

`validateTx_eq_ok` says once what an accepted partial decryption satisfies;
the later modules use it and never unfold `validateTx`.
-/

namespace CryptoBallot

/-- The identifier of an election's `VotingEnd`: its unique id is `[0; 16]`. -/
def votingEndId (electionId : Identifier) : Identifier :=
  Identifier.new electionId .votingEnd (List.replicate 16 0)

/-- The identifier a trustee's `KeyGenPublicKey` transaction is stored under. -/
def keygenId (electionId : Identifier) (trusteeId : Uuid) : Identifier :=
  Identifier.new electionId .keyGenPublicKey trusteeId.asBytes.toList

/-- A trustee's key identifier names the trustee: the unique id is its 16 bytes. -/
theorem keygenId_inj {e e' : Identifier} {u u' : Uuid} (h : keygenId e u = keygenId e' u') : u = u' := by
  have := congrArg Mathlib.Vector.toList (Option.some.inj (congrArg Identifier.uniqueId h))
  simp only [keygenId, Identifier.new_uniqueId] at this
  rw [uniqueOf_toList_of_length u.asBytes.toList_length,
    uniqueOf_toList_of_length u'.asBytes.toList_length] at this
  obtain ⟨a⟩ := u
  obtain ⟨a'⟩ := u'
  exact congrArg Uuid.mk (Subtype.ext this)

/-- `keygenId` reads only the election bytes of its first argument. -/
theorem keygenId_congr {e e' : Identifier} (h : e.electionId = e'.electionId) (u : Uuid) :
    keygenId e u = keygenId e' u :=
  Identifier.new_congr h

namespace PartialDecryptionTransaction

/-- `build_id(election_id, upstream_id, trustee_index)`: the upstream's type
byte, the first 14 bytes of its unique id and the trustee index, under the
election's prefix; it unwraps the upstream's unique id. -/
def buildId (electionId upstreamId : Identifier) (trusteeIndex : UInt8) : Outcome Identifier := do
  let uniqueId ← unwrap upstreamId.uniqueId
  let uniqueInfo := upstreamId.transactionType.toU8 :: uniqueId.toList.take 14 ++ [trusteeIndex]
  pure (Identifier.new electionId .partialDecryption uniqueInfo)

/-- `new(...)`, which calls `build_id`. -/
def new (electionId upstreamId : Identifier) (upstreamIndex : Nat) (trusteeId : Uuid)
    (trusteeIndex : UInt8) (trusteePublicKey : PublicKey) (partialDecryption : DecryptShare) :
    Outcome PartialDecryptionTransaction := do
  let id ← buildId electionId upstreamId trusteeIndex
  pure { id, electionId, upstreamId, upstreamIndex, trusteeId, trusteePublicKey, partialDecryption }

/-- Lines 80-82, `inputs()`: the election and the upstream transaction. -/
def inputs (self : PartialDecryptionTransaction) : List Identifier :=
  [self.electionId, self.upstreamId]

/-- Lines 89-97: the first trustee of the roster with the declared id and key. -/
def findTrustee (election : ElectionTransaction) (self : PartialDecryptionTransaction) :
    Option Trustee :=
  election.getFullTrustees.find? fun t =>
    t.id == self.trusteeId && t.publicKey == self.trusteePublicKey

/-- Lines 114-145: the ciphertext the share is about, from the vote or from the
mix. -/
def upstreamCiphertext (store : MemStore) (election : ElectionTransaction)
    (self : PartialDecryptionTransaction) : Outcome Ciphertext :=
  match self.upstreamId.transactionType with
  | .vote => do
      require (self.upstreamIndex = 0) .invalidUpstreamIndex
      return (← store.getVote self.upstreamId).encryptedVote
  | .mix => do
      let mix ← store.getMix self.upstreamId
      match election.mixnet with
      | some mixConfig => require (mixConfig.numShuffles = mix.mixIndex) .wrongMixSelected
      | none => throw (.err .invalidUpstreamID)
      require (self.upstreamIndex < mix.reencryption.length) .invalidUpstreamIndex
      swapRemove mix.reencryption self.upstreamIndex
  | _ => throw (.err .invalidUpstreamID)

/-- `validate_tx(store)`. -/
def validateTx (crypto : Cryptid) (self : PartialDecryptionTransaction) (store : MemStore) :
    Outcome Unit := do
  let election ← store.getElection self.electionId
  let trustee := findTrustee election self
  require trustee.isSome (.trusteeDoesNotExist self.trusteeId)
  let trustee ← unwrap trustee
  require ((← buildId self.electionId self.upstreamId trustee.index) = self.id)
    .identifierBadComposition
  require (store.getTransaction (votingEndId self.electionId)).isSome .misingVotingEndTransaction
  let ciphertext ← upstreamCiphertext store election self
  let publicKey ← store.getKeygenPublicKey (keygenId self.electionId self.trusteeId)
  require (self.trusteeId = publicKey.trusteeId ∧ self.trusteePublicKey = publicKey.trusteePublicKey)
    (.trusteePublicKeyMismatch self.trusteeId)
  require (crypto.verify self.partialDecryption publicKey.publicKeyProof ciphertext)
    .partialDecryptionProofFailed

variable {crypto : Cryptid} {p : PartialDecryptionTransaction} {s : MemStore}

theorem buildId_eq_ok {e u : Identifier} {i : UInt8} {id : Identifier} :
    (buildId e u i = .ok id) ↔ ∃ uid, u.uniqueId = some uid ∧
      id = Identifier.new e .partialDecryption (u.transactionType.toU8 :: uid.toList.take 14 ++ [i]) := by
  simp only [buildId, Except.bind_eq_ok, unwrap_eq_ok, Except.pure_eq_ok]
  exact exists_congr fun _ => and_congr_right fun _ => eq_comm

theorem buildId_transactionType {e u : Identifier} {i : UInt8} {id : Identifier}
    (h : buildId e u i = .ok id) : id.transactionType = .partialDecryption := by
  obtain ⟨_, _, rfl⟩ := buildId_eq_ok.1 h
  rfl

theorem findTrustee_eq_some {e : ElectionTransaction} {T : Trustee} (h : findTrustee e p = some T) :
    T ∈ e.trustees ∧ T.id = p.trusteeId ∧ T.publicKey = p.trusteePublicKey := by
  have := List.find?_some h
  simp only [Bool.and_eq_true, beq_iff_eq] at this
  exact ⟨List.mem_of_find?_eq_some h, this⟩

/-- With distinct roster ids, the declared trustee is found when its id and key
are those of a roster entry. -/
theorem findTrustee_of_mem {e : ElectionTransaction} {T : Trustee}
    (hids : (e.trustees.map (·.id)).Nodup) (hT : T ∈ e.trustees) (hid : T.id = p.trusteeId)
    (hpk : T.publicKey = p.trusteePublicKey) : findTrustee e p = some T :=
  find?_eq_some_of_unique hT (by simp [hid, hpk]) fun _ hb hbp =>
    List.inj_on_of_nodup_map hids hb hT (by simp only [Bool.and_eq_true, beq_iff_eq] at hbp; rw [hbp.1, hid])

/-- What `build_id` keeps of its arguments: the election bytes, the upstream's
type, the first 14 bytes of the upstream's unique id and the trustee index;
two calls that build the same identifier agree on these and on nothing more. -/
theorem buildId_eq_buildId {e e' u u' : Identifier} {i i' : UInt8} {id : Identifier}
    (h : buildId e u i = .ok id) (h' : buildId e' u' i' = .ok id) :
    e.electionId = e'.electionId ∧ u.transactionType = u'.transactionType ∧
      u.uniqueId.map (·.toList.take 14) = u'.uniqueId.map (·.toList.take 14) ∧ i = i' := by
  obtain ⟨uid, hu, rfl⟩ := buildId_eq_ok.1 h
  obtain ⟨uid', hu', heq⟩ := buildId_eq_ok.1 h'
  simp only [Identifier.new, Identifier.mk.injEq, Option.some.injEq, true_and] at heq
  have hlen : ∀ (t : TransactionType) (w : Mathlib.Vector UInt8 16) (j : UInt8),
      (t.toU8 :: w.toList.take 14 ++ [j]).length = 16 := by simp
  have hq := congrArg Mathlib.Vector.toList heq.2
  rw [uniqueOf_toList_of_length (hlen ..), uniqueOf_toList_of_length (hlen ..), List.cons_append,
    List.cons_append, List.cons.injEq] at hq
  obtain ⟨htake, hi⟩ := List.append_inj hq.2 (by simp)
  exact ⟨heq.1, TransactionType.toU8_injective hq.1, by simp [hu, hu', htake],
    List.singleton_injective hi⟩

theorem new_eq_ok {e u : Identifier} {i : Nat} {tid : Uuid} {tidx : UInt8} {pk : PublicKey}
    {share : DecryptShare} :
    new e u i tid tidx pk share = .ok p ↔ ∃ id, buildId e u tidx = .ok id ∧
      p = { id := id, electionId := e, upstreamId := u, upstreamIndex := i, trusteeId := tid,
            trusteePublicKey := pk, partialDecryption := share } := by
  simp only [new, Except.bind_eq_ok, Except.pure_eq_ok]
  exact exists_congr fun _ => and_congr_right fun _ => eq_comm

/-- The ciphertext comes from a stored vote (index 0), or from a stored mix of
an election with a mix-net whose `num_shuffles` equals the mix's index. -/
theorem upstreamCiphertext_eq_ok {e : ElectionTransaction} {c : Ciphertext} :
    upstreamCiphertext s e p = .ok c ↔
      (p.upstreamId.transactionType = .vote ∧ p.upstreamIndex = 0 ∧
        ∃ v, s.getVote p.upstreamId = .ok v ∧ v.encryptedVote = c) ∨
      (p.upstreamId.transactionType = .mix ∧ ∃ mix, s.getMix p.upstreamId = .ok mix ∧
        ∃ mc, e.mixnet = some mc ∧ mc.numShuffles = mix.mixIndex ∧
        mix.reencryption[p.upstreamIndex]? = some c) := by
  unfold upstreamCiphertext
  split
  · rename_i h
    simp [h, Except.bind_eq_ok, Except.map_eq_ok]
  · rename_i h
    simp only [h, Except.bind_eq_ok, reduceCtorEq, false_and, true_and, false_or]
    refine exists_congr fun mix => and_congr_right fun _ => ?_
    cases e.mixnet with
    | none => simp [Except.bind_eq_ok]
    | some mc =>
      simp only [Except.bind_eq_ok, require_eq_ok, swapRemove_eq_ok, exists_const, Option.some.injEq,
        exists_eq_left']
      exact ⟨fun ⟨h1, _, h3⟩ => ⟨h1, h3⟩,
        fun ⟨h1, h3⟩ => ⟨h1, (List.getElem?_eq_some_iff.1 h3).1, h3⟩⟩
  · rename_i h1 h2
    simp only [Except.throw_ne_ok, false_iff, not_or, not_and]
    exact ⟨fun h => absurd h h1, fun h => absurd h h2⟩

/-- **What an accepted partial decryption satisfies**: every check of
`validate_tx`, in order, with the values it found. -/
theorem validateTx_eq_ok :
    p.validateTx crypto s = .ok () ↔
      ∃ election, s.getElection p.electionId = .ok election ∧
      ∃ trustee, findTrustee election p = some trustee ∧
        buildId p.electionId p.upstreamId trustee.index = .ok p.id ∧
        (s.getTransaction (votingEndId p.electionId)).isSome ∧
      ∃ c, upstreamCiphertext s election p = .ok c ∧
      ∃ kg, s.getKeygenPublicKey (keygenId p.electionId p.trusteeId) = .ok kg ∧
        p.trusteeId = kg.trusteeId ∧ p.trusteePublicKey = kg.trusteePublicKey ∧
        crypto.verify p.partialDecryption kg.publicKeyProof c = true := by
  simp only [validateTx, Except.bind_eq_ok, require_eq_ok, unwrap_eq_ok, exists_const,
    exists_eq_left, exists_and_left, and_assoc]
  constructor
  · rintro ⟨e, he, -, t, ht, id, hid, rfl, rest⟩
    exact ⟨e, he, t, ht, hid, rest⟩
  · rintro ⟨e, he, t, ht, hid, rest⟩
    exact ⟨e, he, by simp [ht], t, ht, p.id, hid, rfl, rest⟩

/-- `build_id` panics exactly on an upstream identifier without a unique id. -/
@[simp] theorem buildId_panics {e u : Identifier} {i : UInt8} :
    Panics (buildId e u i) ↔ u.uniqueId = none := by
  simp [buildId, panics_bind]

/-- Taking the ciphertext never panics: `swap_remove` is called only after the
index was checked against the length of the re-encryptions. -/
@[simp] theorem not_panics_upstreamCiphertext {e : ElectionTransaction} :
    ¬Panics (upstreamCiphertext s e p) := by
  unfold upstreamCiphertext
  split
  · simp [panics_bind, MemStore.getVote]
  · cases e.mixnet <;> simp [panics_bind, MemStore.getMix]
  · simp

/-- **When `validate_tx` of a partial decryption panics**: exactly when the
election is found, a roster trustee has the declared id and key, and the
upstream identifier has no unique id, so that `build_id` unwraps `None` before
the upstream's type is looked at. -/
theorem validateTx_panics_iff :
    Panics (p.validateTx crypto s) ↔ ∃ e, s.getElection p.electionId = .ok e ∧
      (findTrustee e p).isSome ∧ p.upstreamId.uniqueId = none := by
  simp only [validateTx, panics_bind, MemStore.getElection, MemStore.not_panics_getAs,
    not_panics_require, require_eq_ok, panics_unwrap, unwrap_eq_ok, buildId_panics,
    not_panics_upstreamCiphertext, MemStore.getKeygenPublicKey, false_or, and_false, exists_false,
    or_false, exists_const]
  refine exists_congr fun e => and_congr_right fun _ => ?_
  cases findTrustee e p <;> simp

theorem upstreamCiphertext_set_of_ne {e : ElectionTransaction} {tx : SignedTransaction}
    (h : p.upstreamId ≠ tx.id) : upstreamCiphertext (s.set tx) e p = upstreamCiphertext s e p := by
  simp only [upstreamCiphertext, MemStore.getVote, MemStore.getMix, MemStore.getAs_set_of_ne h]

/-- **What `validate_tx` reads**: storing a transaction under any identifier other
than the election's, its `VotingEnd`'s, the upstream's and the trustee's key's
leaves the verdict as it was. -/
theorem validateTx_set_of_ne {tx : SignedTransaction} (h1 : p.electionId ≠ tx.id)
    (h2 : votingEndId p.electionId ≠ tx.id) (h3 : p.upstreamId ≠ tx.id)
    (h4 : keygenId p.electionId p.trusteeId ≠ tx.id) :
    p.validateTx crypto (s.set tx) = p.validateTx crypto s := by
  simp only [validateTx, MemStore.getElection, MemStore.getKeygenPublicKey, MemStore.getAs_set_of_ne h1,
    MemStore.getAs_set_of_ne h4, MemStore.getTransaction_set_of_ne h2, upstreamCiphertext_set_of_ne h3]

/-- `validate_tx` of a partial decryption reads the store at four identifiers:
the election, its `VotingEnd`, the upstream transaction and the trustee's key. -/
theorem validateTx_frame {s' : MemStore}
    (he : s'.getTransaction p.electionId = s.getTransaction p.electionId)
    (hend : s'.getTransaction (votingEndId p.electionId) = s.getTransaction (votingEndId p.electionId))
    (hu : s'.getTransaction p.upstreamId = s.getTransaction p.upstreamId)
    (hk : s'.getTransaction (keygenId p.electionId p.trusteeId) =
      s.getTransaction (keygenId p.electionId p.trusteeId)) :
    p.validateTx crypto s' = p.validateTx crypto s := by
  simp only [validateTx, upstreamCiphertext, MemStore.getElection, MemStore.getVote, MemStore.getMix,
    MemStore.getKeygenPublicKey, MemStore.getAs_congr he, MemStore.getAs_congr hu, MemStore.getAs_congr hk, hend]

theorem validateTx_congr {s' : MemStore} (hsame : ∀ k, s'.getTransaction k = s.getTransaction k) :
    p.validateTx crypto s' = p.validateTx crypto s :=
  validateTx_frame (hsame _) (hsame _) (hsame _) (hsame _)

end PartialDecryptionTransaction
end CryptoBallot
