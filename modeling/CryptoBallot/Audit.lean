import CryptoBallot.Monotone

/-!
# What a verified run stores, and what re-validating it says

`command_e2e` (`command_e2e.rs`, lines 34-42) validates each transaction against
the store of the ones before it and stores it under its id.  The spec's promise
(§1) is that anyone holding the transactions can verify the election.  An
observer who re-validates the transactions of a verified run against the final
store agrees with the run on every partial decryption, and on every decryption
once the final store keeps its keys apart, as long as a transaction of the run
is replaced by a later one only when it is a decryption
(`verified_log_revalidates`): no lookup of `validate_tx` asks for a decryption.
The order in which the observer's store lists its transactions does not change
a verdict (`validateTx_order_free`).

`DecryptionTransaction::new` (`decryption.rs`, lines 190-212) builds its
identifier from the first 16 bytes of `vote_id.to_bytes()`, the vote's election
bytes and type byte; under the spec's layout of `Identifier` nothing of the
vote's own unique id is kept, and a verified run keeps at most one decryption
of an election's votes (`verified_store_one_new_decryption`).
-/

namespace CryptoBallot

variable {crypto : Cryptid} {validateOther : SignedTransaction → MemStore → Outcome Unit}
  {validate : SignedTransaction → MemStore → Outcome Unit}
  {txs pre post : List SignedTransaction} {tx : SignedTransaction} {store : MemStore} {electionId : Identifier}

/-- A transaction of a run the loop completes was accepted on the store of the ones before it. -/
theorem accepted_of_run (h : validateAndSet validate .empty (pre ++ tx :: post) = .ok store) :
    validate tx (pre.foldl MemStore.set .empty) = .ok () := by
  rw [validateAndSet_append] at h
  obtain ⟨s', hpre, hrest⟩ := Except.bind_eq_ok.1 h
  obtain ⟨-, rfl⟩ := validateAndSet_eq_ok_iff.1 hpre
  exact (validateAndSet_cons_eq_ok.1 hrest).1

theorem run_of_verified (h : commandE2e validate txs = .ok (store, electionId)) :
    validateAndSet validate .empty txs = .ok store := by
  obtain ⟨-, -, -, -, -, hrun⟩ := commandE2e_eq_ok.1 h
  exact hrun

/-- The store `command_e2e` verifies is every transaction of the list stored in turn. -/
theorem store_of_verified (h : commandE2e validate txs = .ok (store, electionId)) :
    store = txs.foldl MemStore.set .empty :=
  (validateAndSet_eq_ok_iff.1 (run_of_verified h)).2

/-- The sample election's log: the election, the three keys, the vote, its
`VotingEnd`, the partial decryptions of trustees 1 and 2, and the decryption. -/
def sampleRun : List SignedTransaction :=
  [.election sampleElection, .keyGenPublicKey (sampleKeygen (sampleTrustee 1)),
    .keyGenPublicKey (sampleKeygen (sampleTrustee 2)), .keyGenPublicKey (sampleKeygen (sampleTrustee 3)),
    .vote sampleVote, .votingEnd (votingEndId sampleElectionId),
    .partialDecryption (samplePartial (sampleTrustee 1)), .partialDecryption (samplePartial (sampleTrustee 2)),
    .decryption sampleDecryption]

/-- The store `command_e2e` verifies from the sample log. -/
def sampleRunStore : MemStore :=
  sampleRun.foldl MemStore.set .empty

/-- In a run the loop completes, in which a transaction is replaced by a later
one only when it is a decryption, the store of every prefix holds the keys of
its partial decryptions: each was accepted on the store before it, which held
its trustee's key, and the prefix's store keeps that key. -/
theorem partialsHaveKeys_of_run (hshared : (pre ++ post).Pairwise fun a b => a.id = b.id → a.asDecryption?.isSome)
    (h : validateAndSet (SignedTransaction.validate crypto validateOther) .empty (pre ++ post) = .ok store) :
    (pre.foldl MemStore.set .empty).PartialsHaveKeys := by
  intro k tx hk pd hpd
  obtain rfl := SignedTransaction.asPartialDecryption?_eq_some.1 hpd
  obtain ⟨hmem, rfl⟩ := MemStore.mem_of_getTransaction_foldl_set_empty hk
  obtain ⟨a, b, rfl⟩ := List.append_of_mem hmem
  rw [List.append_assoc, List.cons_append] at h
  have hacc : SignedTransaction.validate crypto validateOther (.partialDecryption pd)
      (a.foldl MemStore.set .empty) = .ok () := accepted_of_run h
  obtain ⟨-, -, T, -, hid, -, -, -, kg, hkg, hkid, -⟩ := PartialDecryptionTransaction.validateTx_eq_ok.1 hacc
  obtain ⟨tx', htx', hproj⟩ := MemStore.getAs_eq_ok.1 hkg
  obtain rfl := SignedTransaction.asKeyGenPublicKey?_eq_some.1 hproj
  obtain ⟨_, -, hpid⟩ := PartialDecryptionTransaction.buildId_eq_ok.1 hid
  have hkeep := MemStore.keepsReads_foldl_set_append (hshared.sublist (List.sublist_append_left _ post))
  refine ⟨_, _, hkeep.1 _ _ htx' rfl, ?_, kg, rfl, hkid.symm⟩
  simp [SignedTransaction.id, hpid, keygenId]

/-- A second vote of the sample election. -/
def secondVote : VoteTransaction :=
  ⟨Identifier.new sampleElectionId .vote (List.replicate 16 8), ⟨[6], [43]⟩⟩

/-- Trustee `T`'s partial decryption of the second vote, as `new` builds it. -/
def secondPartial (T : Trustee) : PartialDecryptionTransaction :=
  ⟨Identifier.new sampleElectionId .partialDecryption (4 :: List.replicate 14 8 ++ [T.index]),
    sampleElectionId, secondVote.id, 0, T.id, T.publicKey, sampleShare T⟩

/-- The decryption of the second vote by trustees 1 and 2. -/
def secondDecryption : DecryptionTransaction :=
  DecryptionTransaction.new sampleElectionId secondVote.id [(sampleTrustee 1).id, (sampleTrustee 2).id] [43]

/-- The sample log with the second vote cast and decrypted after the first. -/
def twoVoteRun : List SignedTransaction :=
  sampleRun.take 5 ++ .vote secondVote :: sampleRun.drop 5 ++
    [.partialDecryption (secondPartial (sampleTrustee 1)), .partialDecryption (secondPartial (sampleTrustee 2)),
      .decryption secondDecryption]

/-- The store `command_e2e` verifies from the two-vote log. -/
def twoVoteStore : MemStore :=
  twoVoteRun.foldl MemStore.set .empty

theorem twoVoteRun_verified :
    commandE2e (SignedTransaction.validate sampleCrypto fun _ _ => .ok ()) twoVoteRun =
      .ok (twoVoteStore, sampleElectionId) := by
  decide

/-- **Re-validating a verified log agrees with the run.**  When `command_e2e`
verifies a list in which a transaction is replaced by a later one only when it
is a decryption, every partial decryption of the list is accepted by
`validate_tx` on the final store; and so is every decryption, when the final
store holds only keys under key identifiers and no two keys of one trustee in
one election.  Each was accepted on the store of the transactions before it,
and the final store keeps what that store held of every kind `validate_tx` reads. -/
theorem verified_log_revalidates
    (h : commandE2e (SignedTransaction.validate crypto validateOther) txs = .ok (store, electionId))
    (hshared : txs.Pairwise fun a b => a.id = b.id → a.asDecryption?.isSome) :
    (∀ p, .partialDecryption p ∈ txs → p.validateTx crypto store = .ok ()) ∧
    (store.KeygenTrusteesDistinct → store.KeygenIdsHoldKeys →
      ∀ d, .decryption d ∈ txs → d.validateTx crypto store = .ok ()) := by
  have hrun := run_of_verified h
  obtain rfl := store_of_verified h
  have hat : ∀ tx ∈ txs, ∃ pre : List SignedTransaction,
      (pre.foldl MemStore.set .empty).KeepsReads (txs.foldl MemStore.set .empty) ∧
      (pre.foldl MemStore.set .empty).PartialsHaveKeys ∧
      SignedTransaction.validate crypto validateOther tx (pre.foldl MemStore.set .empty) = .ok () := by
    intro tx htx
    obtain ⟨pre, post, rfl⟩ := List.append_of_mem htx
    exact ⟨pre, MemStore.keepsReads_foldl_set_append hshared, partialsHaveKeys_of_run hshared hrun,
      accepted_of_run hrun⟩
  refine ⟨fun p hp => ?_, fun hdistinct hkinds d hd => ?_⟩
  · obtain ⟨pre, hkeep, -, hacc⟩ := hat _ hp
    exact PartialDecryptionTransaction.validateTx_of_keepsReads hkeep hacc
  · obtain ⟨pre, hkeep, hcover, hacc⟩ := hat _ hd
    exact DecryptionTransaction.validateTx_of_keepsReads hkeep hcover hdistinct hkinds hacc

/-- The decryption of the first vote, which the second's replaced in the store,
is accepted on the final store of the two-vote log. -/
theorem twoVoteRun_revalidates : sampleDecryption.validateTx sampleCrypto twoVoteStore = .ok () :=
  (verified_log_revalidates twoVoteRun_verified (by decide)).2 (by decide) (by decide) _ (by decide)

/-- **An observer's verdict does not depend on the order of its store.**  Two
stores that answer every identifier with the same transaction, one `HashMap`
iterated in two orders, give every partial decryption the same answer from
`validate_tx`, and every decryption too when no election has two keys of one
trustee: `validate_tx` reads the store by identifier, except for the election's
keys, which it lists with `get_multiple` and keys by trustee id. -/
theorem validateTx_order_free {s s' : MemStore} (hsame : ∀ k, s'.getTransaction k = s.getTransaction k) :
    (∀ p : PartialDecryptionTransaction, p.validateTx crypto s' = p.validateTx crypto s) ∧
    (s.KeygenTrusteesDistinct → ∀ d : DecryptionTransaction, d.validateTx crypto s' = d.validateTx crypto s) :=
  ⟨fun _ => PartialDecryptionTransaction.validateTx_congr hsame,
    fun hdistinct _ => DecryptionTransaction.validateTx_congr hsame hdistinct⟩

/-- The sample log stored in the reverse order. -/
def reversedRunStore : MemStore :=
  sampleRun.reverse.foldl MemStore.set .empty

theorem sample_validateTx_order_free :
    sampleDecryption.validateTx sampleCrypto reversedRunStore = sampleDecryption.validateTx sampleCrypto sampleRunStore :=
  (validateTx_order_free (MemStore.getTransaction_eq_of_perm (by decide))).2 (by decide) _

/-- **What `validate_tx` reads.**  `inputs()` names the election and the
upstream transaction or the vote; `validate_tx` of a partial decryption also
reads the election's `VotingEnd` and the trustee's key, and `validate_tx` of a
decryption the `VotingEnd`, the election's `PartialDecryption` identifiers and
the listing of its `KeyGenPublicKey` identifiers.  Two stores that agree there
give the same answer, whatever else they hold. -/
theorem validateTx_read_set {s s' : MemStore} :
    (∀ p : PartialDecryptionTransaction,
      (∀ k ∈ p.inputs ++ [votingEndId p.electionId, keygenId p.electionId p.trusteeId],
        s'.getTransaction k = s.getTransaction k) →
      p.validateTx crypto s' = p.validateTx crypto s) ∧
    (∀ d : DecryptionTransaction,
      (∀ k ∈ d.inputs ++ [votingEndId d.electionId], s'.getTransaction k = s.getTransaction k) →
      (∀ k, MemStore.InNamespace d.electionId .partialDecryption k → s'.getTransaction k = s.getTransaction k) →
      s'.getMultiple d.electionId .keyGenPublicKey = s.getMultiple d.electionId .keyGenPublicKey →
      d.validateTx crypto s' = d.validateTx crypto s) := by
  refine ⟨fun p h => ?_, fun d h hp hkeys => ?_⟩
  · simp only [PartialDecryptionTransaction.inputs, List.cons_append, List.nil_append, List.mem_cons, List.not_mem_nil,
      or_false, forall_eq_or_imp, forall_eq] at h
    exact PartialDecryptionTransaction.validateTx_frame h.1 h.2.2.1 h.2.1 h.2.2.2
  · simp only [DecryptionTransaction.inputs, List.cons_append, List.nil_append, List.mem_cons, List.not_mem_nil,
      or_false, forall_eq_or_imp, forall_eq] at h
    exact DecryptionTransaction.validateTx_frame h.1 h.2.2 h.2.1 hp hkeys

/-- Storing trustee 2's partial decryption leaves trustee 1's as it was. -/
theorem sample_read_set :
    (samplePartial (sampleTrustee 1)).validateTx sampleCrypto
        (sampleStore.set (.partialDecryption (samplePartial (sampleTrustee 2)))) =
      (samplePartial (sampleTrustee 1)).validateTx sampleCrypto sampleStore :=
  validateTx_read_set.1 _ (by decide)

/-- The log before its `VotingEnd` agrees with the sample log on the inputs of
trustee 1's partial decryption, and `validate_tx` rejects it there only. -/
example : (∀ k ∈ (samplePartial (sampleTrustee 1)).inputs,
      ((sampleRun.take 5).foldl MemStore.set .empty).getTransaction k = sampleStore.getTransaction k) ∧
    (samplePartial (sampleTrustee 1)).validateTx sampleCrypto ((sampleRun.take 5).foldl MemStore.set .empty) =
      .error (.err .misingVotingEndTransaction) ∧
    (samplePartial (sampleTrustee 1)).validateTx sampleCrypto sampleStore = .ok () := by
  decide

/-- In the store of a verified run, each transaction sits under its own identifier. -/
theorem verified_own_id (h : commandE2e validate txs = .ok (store, electionId)) {k : Identifier}
    (hk : store.getTransaction k = some tx) : tx.id = k := by
  obtain rfl := store_of_verified h
  exact (MemStore.mem_of_getTransaction_foldl_set_empty hk).2

/-- **A verified run keeps at most one decryption of an election's votes.**
`new` takes the identifier's unique id from the first 16 bytes of
`vote_id.to_bytes()`, the vote's election bytes and its type byte, so every
decryption it builds for a vote of the election gets one identifier, and each
replaces the one before it in the store.  When every transaction listed under
the election's `Decryption` identifiers is such a decryption, the listing that
`print-votes`, `print-tally` and `print-results` walk holds at most one. -/
theorem verified_store_one_new_decryption (h : commandE2e validate txs = .ok (store, electionId))
    (hnew : ∀ tx ∈ store.getMultiple electionId .decryption, ∃ E v L m,
      tx = .decryption (DecryptionTransaction.new E v L m) ∧ v.electionId = electionId.electionId ∧
        v.transactionType = .vote) :
    (store.getMultiple electionId .decryption).length ≤ 1 := by
  have hget : ∀ tx ∈ store.getMultiple electionId .decryption, store.getTransaction tx.id = some tx := by
    intro tx htx
    obtain ⟨k, hk, -⟩ := MemStore.mem_getMultiple.1 htx
    rwa [verified_own_id h hk]
  have hid : ∀ tx ∈ store.getMultiple electionId .decryption, tx.id = ⟨electionId.electionId, .decryption,
      some ⟨electionId.electionId.toList ++ [TransactionType.vote.toU8], by simp⟩⟩ := by
    intro tx htx
    obtain ⟨k, hk, hns⟩ := MemStore.mem_getMultiple.1 htx
    obtain ⟨E, v, L, m, rfl, hv, ht⟩ := hnew _ htx
    rw [MemStore.InNamespace_eq_true, ← verified_own_id h hk] at hns
    simp only [SignedTransaction.id, DecryptionTransaction.new_id] at hns ⊢
    simp only [hns.1, hv, ht]
  rcases hL : store.getMultiple electionId .decryption with _ | ⟨a, rest⟩
  · simp
  · rw [hL] at hget hid
    have hsub : a :: rest ⊆ [a] := fun b hb => List.mem_singleton.2 (Option.some.inj (by
      rw [← hget b hb, ← hget a (List.mem_cons_self _ _), hid b hb, hid a (List.mem_cons_self _ _)]))
    exact (List.subperm_of_subset (hL ▸ MemStore.getMultiple_nodup fun k tx hk => verified_own_id h hk) hsub).length_le

theorem sample_one_new_decryption : (twoVoteStore.getMultiple sampleElectionId .decryption).length ≤ 1 := by
  have hL : twoVoteStore.getMultiple sampleElectionId .decryption = [.decryption secondDecryption] := by decide
  refine verified_store_one_new_decryption twoVoteRun_verified fun tx htx => ?_
  rw [hL, List.mem_singleton] at htx
  exact ⟨_, _, _, _, htx, rfl, rfl⟩

/-- The decryptions of the two votes share an identifier. -/
example : sampleDecryption.id = secondDecryption.id := by
  decide

/-- Both votes were decrypted and both decryptions accepted, and the election's
`Decryption` namespace holds the second alone. -/
example : twoVoteStore.getMultiple sampleElectionId .decryption = [.decryption secondDecryption] := by
  decide

end CryptoBallot
