import CryptoBallot.Monotone

/-!
# Which inputs make the validators panic

`validate_tx` of a partial decryption calls `build_id(election_id, upstream_id,
trustee.index)` to check its own identifier (`decryption.rs`, line 103), and
`build_id` unwraps `upstream_id.unique_id` (line 60).  The upstream's type is
looked at only afterwards (line 115), so an upstream identifier without a
unique id, an election's own identifier for one, reaches the unwrap as soon as
the declared trustee is on the roster.  `validate_tx` of a decryption calls
`build_id(election_id, vote_id, index)` for its first listed trustee in the same
way.  Every other step returns `Ok` or an `Err`: the lookups, the checks,
`decrypt_vote`, and `swap_remove`, which comes after the index was checked
against the length.  Listing the keys panics in `into()` only on a transaction
of another kind under a `KeyGenPublicKey` identifier, which a store whose
lookups return the requested kinds never holds.

`validateTx_panics_iff_no_unique_id` says when each validator panics, on every
such store.
-/

namespace CryptoBallot

variable {crypto : Cryptid} {s : MemStore}

/-- With only keys under key identifiers, listing an election's keys never panics. -/
theorem DecryptionTransaction.not_panics_keygenPublicKeys (hkinds : s.KeygenIdsHoldKeys) (e : Identifier) :
    ¬Panics (DecryptionTransaction.keygenPublicKeys s e) := by
  rw [DecryptionTransaction.keygenPublicKeys_panics_iff]
  rintro ⟨tx, htx, hnone⟩
  obtain ⟨k, hk, hns⟩ := MemStore.mem_getMultiple.1 htx
  simpa [hnone] using hkinds k tx hk (MemStore.InNamespace_eq_true.1 hns).2

/-- **The validators panic exactly on identifiers without a unique id.**  On
every store whose lookups return transactions of the requested kind, `validate_tx`
of a partial decryption panics exactly when the election is found, a roster
trustee has the declared id and key, and the upstream identifier has no unique
id; `validate_tx` of a decryption panics exactly when the election, its
`VotingEnd` and the vote are found, the vote identifier has no unique id, and the
first listed trustee is on the roster.  Nothing else panics, `swap_remove`
included. -/
theorem validateTx_panics_iff_no_unique_id (hkinds : s.KeygenIdsHoldKeys) :
    (∀ p : PartialDecryptionTransaction, Panics (p.validateTx crypto s) ↔
      ∃ e, s.getElection p.electionId = .ok e ∧ (PartialDecryptionTransaction.findTrustee e p).isSome ∧
        p.upstreamId.uniqueId = none) ∧
    (∀ d : DecryptionTransaction, Panics (d.validateTx crypto s) ↔
      ∃ e, s.getElection d.electionId = .ok e ∧ (s.getTransaction (votingEndId d.electionId)).isSome ∧
        (∃ v, s.getVote d.voteId = .ok v) ∧ d.voteId.uniqueId = none ∧
        ∃ u rest, d.trustees = u :: rest ∧ (e.getTrustee u).isSome) := by
  refine ⟨fun p => PartialDecryptionTransaction.validateTx_panics_iff, fun d => ?_⟩
  simp only [DecryptionTransaction.validateTx_panics_iff, DecryptionTransaction.gatherPartials_panics_iff,
    DecryptionTransaction.not_panics_keygenPublicKeys hkinds, false_or]

/-- Trustee 1's partial decryption naming the election's own identifier as its upstream. -/
def electionUpstreamPartial : PartialDecryptionTransaction :=
  { samplePartial (sampleTrustee 1) with upstreamId := sampleElectionId }

theorem election_upstream_panics :
    sampleStore.KeygenIdsHoldKeys ∧ Panics (electionUpstreamPartial.validateTx sampleCrypto sampleStore) :=
  ⟨by decide, ((validateTx_panics_iff_no_unique_id (by decide : sampleStore.KeygenIdsHoldKeys)).1 _).2
    ⟨sampleElection, by decide, by decide, rfl⟩⟩

/-- The panic is `build_id`'s unwrap, where the code meant `Err(InvalidUpstreamID)`. -/
example : electionUpstreamPartial.validateTx sampleCrypto sampleStore =
    .error (.panic "called unwrap on a None value") := by
  decide

end CryptoBallot
