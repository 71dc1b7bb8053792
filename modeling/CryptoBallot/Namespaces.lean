import CryptoBallot.Runs

/-!
# What the identifiers of the decryption phase pin down

`build_id` (`decryption.rs`, lines 53-68) takes the election bytes from
`election_id` and, from the upstream identifier, only its type byte and the
first 14 of its 16 unique bytes; the trustee index fills the last byte.  So the
identifier of a partial decryption never records the upstream's election, the
last two bytes of its unique id, or `upstream_index`; and neither validator
compares the election bytes of `upstream_id`, `vote_id` or a decryption's own
`id` with `election_id`.

`validateTx_id_determines` says what an identifier does determine among the
accepted partial decryptions of one election; `colliding_partials_accepted`
shows two accepted partial decryptions of two votes under one identifier, and
`cross_election_accepted` a partial decryption and a decryption of one election
accepted on a vote of another.
-/

namespace CryptoBallot
namespace PartialDecryptionTransaction

variable {crypto : Cryptid} {s : MemStore} {p q : PartialDecryptionTransaction}

/-- **What the identifier of an accepted partial decryption determines.**  Two
partial decryptions of one election accepted on one store, when the election's
trustee indices are distinct, have the same identifier only if they come from
the same trustee and name upstreams of the same type whose unique ids agree on
their first 14 bytes. -/
theorem validateTx_id_determines {e : ElectionTransaction} (hE : p.electionId = q.electionId)
    (he : s.getElection p.electionId = .ok e) (hidx : (e.trustees.map (·.index)).Nodup)
    (hp : p.validateTx crypto s = .ok ()) (hq : q.validateTx crypto s = .ok ()) (hid : p.id = q.id) :
    p.trusteeId = q.trusteeId ∧ p.upstreamId.transactionType = q.upstreamId.transactionType ∧
      p.upstreamId.uniqueId.map (·.toList.take 14) = q.upstreamId.uniqueId.map (·.toList.take 14) := by
  obtain ⟨e₁, he₁, T, hT, hpid, -⟩ := validateTx_eq_ok.1 hp
  obtain ⟨e₂, he₂, T', hT', hqid, -⟩ := validateTx_eq_ok.1 hq
  obtain rfl : e₁ = e := Except.ok.inj (he₁.symm.trans he)
  obtain rfl : e₂ = e₁ := Except.ok.inj (he₂.symm.trans (hE ▸ he))
  obtain ⟨-, htype, htake, hindex⟩ := buildId_eq_buildId hpid (hE ▸ hid ▸ hqid)
  obtain ⟨hTmem, hTid, -⟩ := findTrustee_eq_some hT
  obtain ⟨hT'mem, hT'id, -⟩ := findTrustee_eq_some hT'
  obtain rfl : T = T' := List.inj_on_of_nodup_map hidx hTmem hT'mem hindex
  exact ⟨hTid.symm.trans hT'id, htype, htake⟩

end PartialDecryptionTransaction

/-- A second vote of the sample election whose unique id differs from the first's
only in its last two bytes. -/
def twinVote : VoteTransaction :=
  ⟨Identifier.new sampleElectionId .vote (List.replicate 14 9 ++ [1, 1]), ⟨[6], [43]⟩⟩

/-- Trustee `T`'s partial decryption of the vote `v`, as `new` builds it. -/
def partialOf (v : VoteTransaction) (T : Trustee) : PartialDecryptionTransaction :=
  ⟨Identifier.new sampleElectionId .partialDecryption (4 :: List.replicate 14 9 ++ [T.index]),
    sampleElectionId, v.id, 0, T.id, T.publicKey, sampleShare T⟩

theorem sample_id_determines :
    (partialOf sampleVote (sampleTrustee 1)).upstreamId.uniqueId.map (·.toList.take 14) =
      (partialOf twinVote (sampleTrustee 1)).upstreamId.uniqueId.map (·.toList.take 14) :=
  (PartialDecryptionTransaction.validateTx_id_determines rfl
    (by decide : (sampleStore.set (.vote twinVote)).getElection sampleElectionId = .ok sampleElection)
    (by decide) (by decide : (partialOf sampleVote (sampleTrustee 1)).validateTx sampleCrypto
      (sampleStore.set (.vote twinVote)) = .ok ()) (by decide) rfl).2.2

/-- Trustee 1's partial decryptions of two votes share an identifier, and both are
accepted: a store keyed by identifier keeps only one of them. -/
theorem colliding_partials_accepted :
    (sampleElection.trustees.map (·.index)).Nodup ∧
      (sampleStore.set (.vote twinVote)).getElection sampleElectionId = .ok sampleElection ∧
      (partialOf sampleVote (sampleTrustee 1)).validateTx sampleCrypto (sampleStore.set (.vote twinVote)) = .ok () ∧
      (partialOf twinVote (sampleTrustee 1)).validateTx sampleCrypto (sampleStore.set (.vote twinVote)) = .ok () ∧
      (partialOf sampleVote (sampleTrustee 1)).id = (partialOf twinVote (sampleTrustee 1)).id ∧
      (partialOf sampleVote (sampleTrustee 1)).upstreamId ≠ (partialOf twinVote (sampleTrustee 1)).upstreamId := by
  decide

/-- The identifier of another election. -/
def otherElectionId : Identifier :=
  ⟨⟨List.replicate 15 8, List.length_replicate _ _⟩, .election, none⟩

/-- A vote of that other election. -/
def otherVote : VoteTransaction :=
  ⟨Identifier.new otherElectionId .vote (List.replicate 16 9), ⟨[5], [42]⟩⟩

/-- The sample log with the other election's vote added, and then the partial
decryptions of trustees 1 and 2 of the sample election on that vote. -/
def crossStore : MemStore :=
  [.vote otherVote, .partialDecryption (partialOf otherVote (sampleTrustee 1)),
    .partialDecryption (partialOf otherVote (sampleTrustee 2))].foldl MemStore.set sampleStore

/-- A decryption of the sample election, of the other election's vote, stored in
the other election's namespace. -/
def crossDecryption : DecryptionTransaction :=
  ⟨Identifier.new otherElectionId .decryption (List.replicate 16 9), sampleElectionId, otherVote.id,
    [(sampleTrustee 1).id, (sampleTrustee 2).id], [42]⟩

/-- A partial decryption and a decryption of the sample election, both naming a
vote of another election and the decryption sitting in that election's
namespace, are accepted. -/
theorem cross_election_accepted :
    (partialOf otherVote (sampleTrustee 1)).validateTx sampleCrypto (sampleStore.set (.vote otherVote)) = .ok () ∧
      (partialOf otherVote (sampleTrustee 1)).upstreamId.electionId ≠ sampleElectionId.electionId ∧
      crossDecryption.validateTx sampleCrypto crossStore = .ok () ∧
      crossDecryption.voteId.electionId ≠ crossDecryption.electionId.electionId ∧
      crossDecryption.id.electionId ≠ crossDecryption.electionId.electionId := by
  decide

end CryptoBallot
