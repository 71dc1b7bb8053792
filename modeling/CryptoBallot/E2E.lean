import CryptoBallot.Decryption

/-!
# `command_e2e`: validate, then store

`src/cryptoballot_cli/src/command_e2e.rs`, lines 6-57.  The command reads a
list of signed transactions, requires the first to be an election, and then
validates each transaction against the store built so far, storing it under
its id when it is accepted and exiting at the first failure.  `print-votes`
lists the `decrypted_vote` of every transaction `get_multiple` returns under the
election's `Decryption` identifiers.

The validators of the kinds other than the two of `decryption.rs` are not in
`src/`; `SignedTransaction.validate` takes them as a parameter.  The loop's
`match` catches `Err` only: a panic inside `validate` unwinds through
`command_e2e` and is a panic of the command, not its "Failed to validate"
exit, so the model returns `Fault.panic` for it and `Fault.err` for the exits.

`validateAndSet_eq_ok_iff` says what a run that reaches the end stores: every
transaction stored in turn, each accepted on the store of the ones before it.
-/

namespace CryptoBallot

/-- `tx.validate(&store)`: the validator of the transaction's kind.  The checks
the envelope makes before `validate_tx` (the signature, and the type byte of
the id against the kind; spec §4.2) are left out. -/
def SignedTransaction.validate (crypto : Cryptid)
    (validateOther : SignedTransaction → MemStore → Outcome Unit) (tx : SignedTransaction)
    (store : MemStore) : Outcome Unit :=
  match tx with
  | .partialDecryption p => p.validateTx crypto store
  | .decryption d => d.validateTx crypto store
  | _ => validateOther tx store

/-- Lines 34-42: each transaction validated against the store and then stored;
the first `Err` ends the run with the transaction's id and the error, and a
panic inside `validate` is the run's panic. -/
def validateAndSet (validate : SignedTransaction → MemStore → Outcome Unit) :
    MemStore → List SignedTransaction → Except (Fault (Identifier × ValidationError)) MemStore
  | store, [] => .ok store
  | store, tx :: txs =>
    match validate tx store with
    | .ok () => validateAndSet validate (store.set tx) txs
    | .error (.err e) => .error (.err (tx.id, e))
    | .error (.panic msg) => .error (.panic msg)

/-- The `std::process::exit(1)` calls of `command_e2e` before printing. -/
inductive E2eExit where
  | noTransactions
  | firstNotElection
  | failedToValidate (id : Identifier) (e : ValidationError)
deriving DecidableEq

/-- Lines 17-44: the first transaction must be an election, whose id the
printing loops use; then the loop.  An exit is `Fault.err`, a panic in the
loop is `Fault.panic`. -/
def commandE2e (validate : SignedTransaction → MemStore → Outcome Unit)
    (transactions : List SignedTransaction) : Except (Fault E2eExit) (MemStore × Identifier) :=
  match transactions with
  | [] => .error (.err .noTransactions)
  | first :: _ =>
    if first.transactionType ≠ .election then .error (.err .firstNotElection)
    else match validateAndSet validate MemStore.empty transactions with
      | .ok store => .ok (store, first.id)
      | .error (.err (id, e)) => .error (.err (.failedToValidate id e))
      | .error (.panic msg) => .error (.panic msg)

/-- Lines 46-57, `print-votes`: the plaintext of every transaction stored under
the election's `Decryption` identifiers, each through `into()` and
`str::from_utf8(..).unwrap()` (Lean's `String.fromUTF8?`, which accepts the
same well-formed UTF-8). -/
def printVotes (store : MemStore) (electionId : Identifier) : Outcome (List String) :=
  (store.getMultiple electionId .decryption).mapM fun vote => do
    let vote ← SignedTransaction.into SignedTransaction.asDecryption? vote
    let vote := vote.decryptedVote
    unwrap (String.fromUTF8? vote.toByteArray)

variable {crypto : Cryptid} {s : MemStore} {d : DecryptionTransaction} {tx : SignedTransaction}

section Loop

variable {validate : SignedTransaction → MemStore → Outcome Unit} {txs txs' : List SignedTransaction}

theorem validateAndSet_cons_ok (h : validate tx s = .ok ()) :
    validateAndSet validate s (tx :: txs) = validateAndSet validate (s.set tx) txs := by
  simp [validateAndSet, h]

theorem validateAndSet_cons_eq_ok {s' : MemStore} :
    validateAndSet validate s (tx :: txs) = .ok s' ↔
      validate tx s = .ok () ∧ validateAndSet validate (s.set tx) txs = .ok s' := by
  rcases h : validate tx s with (e | msg) | u <;> simp [validateAndSet, h]

/-- A run over two lists is the run over the first, then over the second from where it stopped. -/
theorem validateAndSet_append :
    validateAndSet validate s (txs ++ txs') =
      validateAndSet validate s txs >>= fun s' => validateAndSet validate s' txs' := by
  induction txs generalizing s with
  | nil => rfl
  | cons tx txs ih =>
    rcases h : validate tx s with (e | msg) | ⟨⟩ <;> simp only [List.cons_append, validateAndSet, h]
    exacts [rfl, rfl, ih]

/-- **A run of transactions each accepted on the store it starts from, none of
which changes what another's validation reads, stores them all.** -/
theorem validateAndSet_eq_foldl (hacc : ∀ tx ∈ txs, validate tx s = .ok ())
    (hframe : ∀ tx ∈ txs, ∀ tx' ∈ txs, ∀ st : MemStore, validate tx (st.set tx') = validate tx st) :
    validateAndSet validate s txs = .ok (txs.foldl MemStore.set s) := by
  induction txs generalizing s with
  | nil => rfl
  | cons x xs ih =>
    rw [validateAndSet_cons_ok (hacc x (List.mem_cons_self _ _)), List.foldl_cons]
    refine ih (fun tx htx => ?_) fun tx htx tx' htx' => hframe tx (.tail _ htx) tx' (.tail _ htx')
    rw [hframe tx (.tail _ htx) x (List.mem_cons_self _ _)]
    exact hacc tx (.tail _ htx)

/-- Every transaction of the list is accepted on the store holding the ones
before it. -/
def Accepted (validate : SignedTransaction → MemStore → Outcome Unit) (s : MemStore)
    (txs : List SignedTransaction) : Prop :=
  ∀ i (h : i < txs.length), validate txs[i] ((txs.take i).foldl MemStore.set s) = .ok ()

theorem accepted_cons :
    Accepted validate s (tx :: txs) ↔ validate tx s = .ok () ∧ Accepted validate (s.set tx) txs :=
  ⟨fun h => ⟨h 0 (Nat.zero_lt_succ _), fun j hj => h (j + 1) (Nat.succ_lt_succ hj)⟩,
    fun ⟨hx, hxs⟩ i hi => by
      cases i with
      | zero => exact hx
      | succ j => exact hxs j (Nat.lt_of_succ_lt_succ hi)⟩

/-- **The loop returns `Ok` exactly when every transaction is accepted on the
store holding the ones before it**, and the store it returns is every
transaction stored in turn. -/
theorem validateAndSet_eq_ok_iff {s' : MemStore} :
    validateAndSet validate s txs = .ok s' ↔ Accepted validate s txs ∧ s' = txs.foldl MemStore.set s := by
  induction txs generalizing s with
  | nil => simp [validateAndSet, Accepted, eq_comm]
  | cons x xs ih => rw [validateAndSet_cons_eq_ok, ih, accepted_cons, and_assoc]; rfl

end Loop

section Command

variable {validate : SignedTransaction → MemStore → Outcome Unit} {txs : List SignedTransaction}

theorem commandE2e_eq_ok {store : MemStore} {electionId : Identifier} :
    commandE2e validate txs = .ok (store, electionId) ↔ ∃ first rest, txs = first :: rest ∧
      first.transactionType = .election ∧ electionId = first.id ∧
        validateAndSet validate .empty txs = .ok store := by
  rcases txs with _ | ⟨first, rest⟩
  · simp [commandE2e]
  · by_cases hf : first.transactionType = .election
    · rcases h : validateAndSet validate .empty (first :: rest) with (p | msg) | s <;>
        simp [commandE2e, hf, h, and_comm, eq_comm]
    · simp [commandE2e, hf]

end Command

namespace DecryptionTransaction

/-- Storing a transaction under a `Decryption` identifier leaves every partial
decryption lookup of `validate_tx` as it was. -/
theorem gatherPartials_set (htx : tx.id.transactionType = .decryption) (e : ElectionTransaction) :
    gatherPartials (s.set tx) e d = gatherPartials s e d := by
  unfold gatherPartials
  congr 1
  funext u
  refine Except.bind_congr fun _ _ => Except.bind_congr fun pid hpid => ?_
  refine MemStore.getAs_set_of_ne fun h => ?_
  have := PartialDecryptionTransaction.buildId_transactionType hpid
  rw [h, htx] at this
  cases this

/-- **Storing a decryption does not change what `validate_tx` says of another**,
as long as neither its election nor its vote identifier is a `Decryption`
identifier. -/
theorem validateTx_set_decryption (htx : tx.id.transactionType = .decryption)
    (he : d.electionId.transactionType ≠ .decryption) (hv : d.voteId.transactionType ≠ .decryption) :
    d.validateTx crypto (s.set tx) = d.validateTx crypto s := by
  have hne : ∀ k : Identifier, k.transactionType ≠ .decryption → k ≠ tx.id :=
    fun k hk h => hk (h ▸ htx)
  have hkeys : keygenPublicKeys (s.set tx) d.electionId = keygenPublicKeys s d.electionId := by
    rw [keygenPublicKeys, MemStore.getMultiple_set_of_not_mem (by simp [MemStore.InNamespace, htx]),
      keygenPublicKeys]
  simp only [validateTx, MemStore.getElection, MemStore.getVote,
    MemStore.getAs_set_of_ne (hne _ he), MemStore.getAs_set_of_ne (hne _ hv),
    MemStore.getTransaction_set_of_ne (hne (votingEndId d.electionId) (by simp [votingEndId])),
    hkeys, gatherPartials_set htx]

end DecryptionTransaction
end CryptoBallot
