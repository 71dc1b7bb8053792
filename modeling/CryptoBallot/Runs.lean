import CryptoBallot.E2E

/-!
# Runs of the validate-then-set loop

What `command_e2e` stores when it is fed the transactions of the decryption
phase (`src/cryptoballot_cli/src/command_e2e.rs`, lines 34-42).

`HonestQuorum.decrypts` is the completeness of the two validators of
`decryption.rs` taken together: a quorum of honest trustees, each with its key
published and a share that verifies, gets its partial decryptions accepted one
after another, and then `DecryptionTransaction::new` naming the quorum in any
order is accepted, as long as only `KeyGenPublicKey` transactions sit under the
election's `KeyGenPublicKey` identifiers: `validate_tx` of the decryption lists
them all through `into()`, which panics on any other kind
(`stray_vote_breaks_honest_decryption`).  Three lookups must agree for that: the index the producer
passes to `new`, the roster entry `validate_tx` of a partial decryption finds
by id and key, and the roster entry `get_trustee` hands to `validate_tx` of the
decryption.  With distinct ids they are one trustee, and with distinct indices
no two partial decryptions of the quorum share an identifier.

`decryption_stored_twice` is the other side of the same loop: `validate_tx` of
a decryption never reads `self.id` (`// TODO: Validate ID`) and nothing asks
whether the vote was decrypted before, so the loop stores an accepted
decryption a second time under any other `Decryption` identifier.
-/

namespace CryptoBallot

/-- Trustee `T`'s partial decryption of a vote:
`PartialDecryptionTransaction::new(election_id, vote.id, 0, T.id, T.index, T.public_key, share)`. -/
def votePartial (E : Identifier) (v : VoteTransaction) (T : Trustee) (share : DecryptShare) :
    Outcome PartialDecryptionTransaction :=
  PartialDecryptionTransaction.new E v.id 0 T.id T.index T.publicKey share

/-- The premises of an honest decryption of the vote `v`: the store holds the
election `e` under the election identifier `E`, with distinct trustee ids and
indices, its `VotingEnd`, and `v` under its own vote identifier; every trustee
`T` of the quorum `Q` is on the roster, has its `KeyGenPublicKey` transaction
`kg T` (its id, its key) stored under `Identifier::new(E, KeyGenPublicKey, T.id)`,
and a share `share T` that verifies against the vote under that transaction's
proof; and `Q` reaches the threshold. -/
structure HonestQuorum (crypto : Cryptid) (s : MemStore) (E : Identifier) (e : ElectionTransaction)
    (v : VoteTransaction) (Q : List Trustee) (kg : Trustee → KeyGenPublicKeyTransaction)
    (share : Trustee → DecryptShare) : Prop where
  electionType : E.transactionType = .election
  election : s.getElection E = .ok e
  distinctIds : (e.trustees.map (·.id)).Nodup
  distinctIndices : (e.trustees.map (·.index)).Nodup
  votingEnd : (s.getTransaction (votingEndId E)).isSome
  voteType : v.id.transactionType = .vote
  vote : s.getVote v.id = .ok v
  quorum : e.trusteesThreshold ≤ Q.length
  trustee : ∀ T ∈ Q, T ∈ e.trustees ∧ s.getKeygenPublicKey (keygenId E T.id) = .ok (kg T) ∧
    (kg T).trusteeId = T.id ∧ (kg T).trusteePublicKey = T.publicKey ∧
    crypto.verify (share T) (kg T).publicKeyProof v.encryptedVote = true

namespace HonestQuorum

variable {crypto : Cryptid} {s : MemStore} {E : Identifier} {e : ElectionTransaction}
  {v : VoteTransaction} {Q : List Trustee} {kg : Trustee → KeyGenPublicKeyTransaction}
  {share : Trustee → DecryptShare} {ps : List PartialDecryptionTransaction}

/-- **An honest trustee's partial decryption is accepted.**  With distinct roster
ids, the trustee `validate_tx` finds by id and key is the one whose index the
producer passed to `new`, so the identifier it rebuilds is the one `new` built. -/
theorem validateTx_votePartial (h : HonestQuorum crypto s E e v Q kg share) {T : Trustee}
    (hT : T ∈ Q) {p : PartialDecryptionTransaction} (hp : votePartial E v T (share T) = .ok p) :
    p.validateTx crypto s = .ok () := by
  obtain ⟨hTe, hk, hkid, hkpk, hver⟩ := h.trustee T hT
  obtain ⟨pid, hpid, rfl⟩ := PartialDecryptionTransaction.new_eq_ok.1 hp
  exact PartialDecryptionTransaction.validateTx_eq_ok.2 ⟨e, h.election, T,
    PartialDecryptionTransaction.findTrustee_of_mem h.distinctIds hTe rfl rfl, hpid, h.votingEnd,
    v.encryptedVote, PartialDecryptionTransaction.upstreamCiphertext_eq_ok.2
      (.inl ⟨h.voteType, rfl, v, h.vote, rfl⟩), kg T, hk, hkid.symm, hkpk.symm, hver⟩

/-- Each partial decryption of the run is a quorum trustee's, with the fields
`new` gave it. -/
theorem mem_partials (hps : Q.mapM (fun T => votePartial E v T (share T)) = .ok ps)
    {p : PartialDecryptionTransaction} (hp : p ∈ ps) :
    ∃ T ∈ Q, votePartial E v T (share T) = .ok p ∧ p.electionId = E ∧ p.upstreamId = v.id ∧
      p.trusteeId = T.id ∧ PartialDecryptionTransaction.buildId E v.id T.index = .ok p.id := by
  obtain ⟨T, hT, hnew⟩ := (List.mem_of_mapM_eq_ok hps).1 hp
  obtain ⟨pid, hpid, rfl⟩ := PartialDecryptionTransaction.new_eq_ok.1 hnew
  exact ⟨T, hT, hnew, rfl, rfl, rfl, hpid⟩

/-- Two partial decryptions of the run with the same trustee id, or with the same
identifier, are one. -/
theorem partials_unique (h : HonestQuorum crypto s E e v Q kg share)
    (hps : Q.mapM (fun T => votePartial E v T (share T)) = .ok ps) {p q : PartialDecryptionTransaction}
    (hp : p ∈ ps) (hq : q ∈ ps) (hpq : p.trusteeId = q.trusteeId ∨ p.id = q.id) : p = q := by
  obtain ⟨T, hT, hnT, -, -, hpT, hpid⟩ := mem_partials hps hp
  obtain ⟨T', hT', hnT', -, -, hqT, hqid⟩ := mem_partials hps hq
  have hTT : T = T' := by
    rcases hpq with hid | hid
    · exact List.inj_on_of_nodup_map h.distinctIds (h.trustee T hT).1 (h.trustee T' hT').1
        (hpT.symm.trans (hid.trans hqT))
    · exact List.inj_on_of_nodup_map h.distinctIndices (h.trustee T hT).1 (h.trustee T' hT').1
        (PartialDecryptionTransaction.buildId_eq_buildId hpid (hid ▸ hqid)).2.2.2
  subst hTT
  exact Except.ok.inj (hnT.symm.trans hnT')

/-- Every quorum trustee has its partial decryption in the run, stored under the
identifier built from its index. -/
theorem exists_partial (hps : Q.mapM (fun T => votePartial E v T (share T)) = .ok ps) {T : Trustee}
    (hT : T ∈ Q) : ∃ p ∈ ps, p.trusteeId = T.id ∧
      PartialDecryptionTransaction.buildId E v.id T.index = .ok p.id := by
  obtain ⟨p, hnew⟩ := List.exists_of_mapM_eq_ok hps hT
  have hp := (List.mem_of_mapM_eq_ok hps).2 ⟨T, hT, hnew⟩
  obtain ⟨pid, hpid, rfl⟩ := PartialDecryptionTransaction.new_eq_ok.1 hnew
  exact ⟨_, hp, rfl, hpid⟩

/-- **The quorum's partial decryptions are stored one after another**, each
accepted on the store as the loop has it then: none is read by the validation
of another, which reads only identifiers of other types. -/
theorem partials_stored (h : HonestQuorum crypto s E e v Q kg share)
    (hps : Q.mapM (fun T => votePartial E v T (share T)) = .ok ps)
    (validateOther : SignedTransaction → MemStore → Outcome Unit) :
    validateAndSet (SignedTransaction.validate crypto validateOther) s (ps.map .partialDecryption) =
      .ok ((ps.map .partialDecryption).foldl MemStore.set s) := by
  refine validateAndSet_eq_foldl ?_ ?_ <;> simp only [List.forall_mem_map]
  · intro p hp
    obtain ⟨T, hT, hnew, -⟩ := mem_partials hps hp
    exact h.validateTx_votePartial hT hnew
  · intro p hp q hq st
    obtain ⟨_, -, -, hpe, hpu, -, -⟩ := mem_partials hps hp
    obtain ⟨_, -, -, -, -, -, hqid⟩ := mem_partials hps hq
    have hq := PartialDecryptionTransaction.buildId_transactionType hqid
    refine PartialDecryptionTransaction.validateTx_set_of_ne ?_ ?_ ?_ ?_ <;>
      refine Identifier.ne_of_transactionType_ne ?_ <;>
      simp [SignedTransaction.id, hq, hpe, hpu, h.electionType, h.voteType, votingEndId, keygenId]

/-- Storing the run's partial decryptions leaves every lookup of another type as it was. -/
theorem getTransaction_after_partials (hps : Q.mapM (fun T => votePartial E v T (share T)) = .ok ps)
    {k : Identifier} (hk : k.transactionType ≠ .partialDecryption) :
    ((ps.map .partialDecryption).foldl MemStore.set s).getTransaction k = s.getTransaction k :=
  MemStore.getTransaction_foldl_set_of_forall_ne <| List.forall_mem_map.2 fun p hp hq => by
    obtain ⟨_, -, -, -, -, -, hpid⟩ := mem_partials hps hp
    exact hk (hq ▸ PartialDecryptionTransaction.buildId_transactionType hpid)

/-- After the run, each of its partial decryptions is found under its identifier. -/
theorem getPartialDecryption_after_partials (h : HonestQuorum crypto s E e v Q kg share)
    (hps : Q.mapM (fun T => votePartial E v T (share T)) = .ok ps) {p : PartialDecryptionTransaction}
    (hp : p ∈ ps) : ((ps.map .partialDecryption).foldl MemStore.set s).getPartialDecryption p.id = .ok p :=
  MemStore.getAs_eq_ok.2 ⟨_, MemStore.getTransaction_foldl_set_of_unique (List.mem_map_of_mem _ hp)
    (List.forall_mem_map.2 fun _ hq hid => congrArg _ (h.partials_unique hps hq hp (.inr hid))), rfl⟩

/-- After the run, `gather_partials` of a decryption listing the quorum in any
order succeeds, and gathers exactly the run's partial decryptions. -/
theorem gatherPartials_after_partials (h : HonestQuorum crypto s E e v Q kg share)
    (hps : Q.mapM (fun T => votePartial E v T (share T)) = .ok ps) {L : List Uuid}
    (hL : L.Perm (Q.map (·.id))) (m : List UInt8) :
    ∃ gathered, DecryptionTransaction.gatherPartials ((ps.map .partialDecryption).foldl MemStore.set s) e
      (DecryptionTransaction.new E v.id L m) = .ok gathered ∧ ∀ a, a ∈ gathered ↔ a ∈ ps := by
  have hfound := fun p (hp : p ∈ ps) => h.getPartialDecryption_after_partials hps hp
  have hlisted : ∀ u ∈ L, ∃ T ∈ Q, e.getTrustee u = some T := fun u hu => by
    obtain ⟨T, hT, rfl⟩ := List.mem_map.1 (hL.subset hu)
    exact ⟨T, hT, e.getTrustee_of_mem h.distinctIds (h.trustee T hT).1⟩
  obtain ⟨gathered, hg⟩ : ∃ gathered, DecryptionTransaction.gatherPartials
      ((ps.map .partialDecryption).foldl MemStore.set s) e (DecryptionTransaction.new E v.id L m) =
        .ok gathered := List.mapM_eq_ok_of_forall fun u hu => by
    obtain ⟨T, hT, hget⟩ := hlisted u hu
    obtain ⟨p, hp, -, hpid⟩ := exists_partial hps hT
    exact ⟨p, Except.bind_eq_ok.2 ⟨T, okOr_eq_ok.2 hget, Except.bind_eq_ok.2 ⟨p.id, hpid, hfound p hp⟩⟩⟩
  refine ⟨gathered, hg, fun a => (DecryptionTransaction.mem_gatherPartials hg).trans ⟨?_, fun ha => ?_⟩⟩
  · rintro ⟨u, hu, T, hget, pid, hpid, ha⟩
    obtain ⟨T', hT', hget'⟩ := hlisted u hu
    obtain rfl := Option.some.inj (hget.symm.trans hget')
    obtain ⟨p, hp, -, hpid'⟩ := exists_partial hps hT'
    obtain rfl := Except.ok.inj (hpid.symm.trans hpid')
    obtain rfl := Except.ok.inj (ha.symm.trans (hfound p hp))
    exact hp
  · obtain ⟨T, hT, -, -, -, -, hpid⟩ := mem_partials hps ha
    exact ⟨T.id, hL.mem_iff.2 (List.mem_map_of_mem _ hT), T,
      e.getTrustee_of_mem h.distinctIds (h.trustee T hT).1, a.id, hpid, hfound a ha⟩

/-- **After the quorum's partial decryptions, a decryption listing the quorum in
any order is accepted.**  `get_trustee` finds each listed trustee, the identifier
built from its index holds its partial decryption, and the gathered list has the
run's entries in another order, which `decrypt_vote`'s maps do not see. -/
theorem validateTx_decryption (h : HonestQuorum crypto s E e v Q kg share)
    (hps : Q.mapM (fun T => votePartial E v T (share T)) = .ok ps)
    {pubkeys : List KeyGenPublicKeyTransaction}
    (hpubkeys : DecryptionTransaction.keygenPublicKeys s E = .ok pubkeys) {m : List UInt8}
    (hm : decryptVote crypto v.encryptedVote e.trusteesThreshold e.trustees pubkeys ps = .ok m)
    {L : List Uuid} (hL : L.Perm (Q.map (·.id))) :
    (DecryptionTransaction.new E v.id L m).validateTx crypto
      ((ps.map .partialDecryption).foldl MemStore.set s) = .ok () := by
  have hkeep := fun (k : Identifier) (hk : k.transactionType ≠ .partialDecryption) =>
    getTransaction_after_partials (s := s) hps hk
  obtain ⟨gathered, hg, hmem⟩ := h.gatherPartials_after_partials hps hL m
  have hdec : decryptVote crypto v.encryptedVote e.trusteesThreshold e.trustees pubkeys gathered = .ok m :=
    (decryptVote_congr (collectByTrustee_congr hmem fun a ha b hb hab =>
      h.partials_unique hps ((hmem a).1 ha) ((hmem b).1 hb) (.inl hab))).trans hm
  have hlen : e.trusteesThreshold ≤ gathered.length := by
    rw [List.length_of_mapM_eq_ok hg]
    exact h.quorum.trans_eq (hL.length_eq.trans (List.length_map _ _)).symm
  refine DecryptionTransaction.validateTx_eq_ok.2 ⟨e,
    (MemStore.getAs_congr (hkeep E (by rw [h.electionType]; decide))).trans h.election,
    by rw [hkeep _ (by simp [votingEndId])]; exact h.votingEnd, v,
    (MemStore.getAs_congr (hkeep v.id (by rw [h.voteType]; decide))).trans h.vote, pubkeys, ?_,
    gathered, hg, hlen, hdec⟩
  rw [DecryptionTransaction.keygenPublicKeys, MemStore.getMultiple_foldl_set_of_not_mem <|
    List.forall_mem_map.2 fun p hp => by
      obtain ⟨_, -, -, -, -, -, hpid⟩ := mem_partials hps hp
      simp [MemStore.InNamespace, SignedTransaction.id,
        PartialDecryptionTransaction.buildId_transactionType hpid]]
  exact hpubkeys

/-- **An honest quorum decrypts the vote.**  From a store with the election, its
`VotingEnd`, the vote and the quorum's keys, and only `KeyGenPublicKey`
transactions under the election's `KeyGenPublicKey` identifiers, the loop
accepts and stores each quorum trustee's partial decryption of the vote, and
then the decryption `DecryptionTransaction::new(E, v.id, L, m)` for every order
`L` of the quorum's ids, `m` being what `decrypt_vote` returns on the
election's roster, its stored keys and these partial decryptions. -/
theorem decrypts (h : HonestQuorum crypto s E e v Q kg share)
    (hkeys : ∀ tx ∈ s.getMultiple E .keyGenPublicKey, tx.asKeyGenPublicKey?.isSome)
    (validateOther : SignedTransaction → MemStore → Outcome Unit)
    (hps : Q.mapM (fun T => votePartial E v T (share T)) = .ok ps) {m : List UInt8}
    (hm : decryptVote crypto v.encryptedVote e.trusteesThreshold e.trustees
      ((s.getMultiple E .keyGenPublicKey).filterMap SignedTransaction.asKeyGenPublicKey?) ps = .ok m)
    {L : List Uuid} (hL : L.Perm (Q.map (·.id))) :
    ∃ s', validateAndSet (SignedTransaction.validate crypto validateOther) s
      (ps.map .partialDecryption ++ [.decryption (DecryptionTransaction.new E v.id L m)]) = .ok s' := by
  have hpubkeys : DecryptionTransaction.keygenPublicKeys s E =
      .ok ((s.getMultiple E .keyGenPublicKey).filterMap SignedTransaction.asKeyGenPublicKey?) := by
    rw [DecryptionTransaction.keygenPublicKeys_eq, if_pos hkeys]
  rw [validateAndSet_append, h.partials_stored hps validateOther]
  exact ⟨_, validateAndSet_cons_ok (show SignedTransaction.validate crypto validateOther (.decryption _) _ = .ok ()
    from h.validateTx_decryption hps hpubkeys hm hL)⟩

end HonestQuorum


/-! ## A two-of-three election -/

/-- Sixteen copies of a byte. -/
def bytes16 (b : UInt8) : Mathlib.Vector UInt8 16 :=
  ⟨List.replicate 16 b, List.length_replicate _ _⟩

/-- The identifier of the sample election: its election bytes, no unique id. -/
def sampleElectionId : Identifier :=
  ⟨⟨List.replicate 15 7, List.length_replicate _ _⟩, .election, none⟩

/-- Sample trustee `i`: id `[i; 16]`, index `i`, key `[i]`. -/
def sampleTrustee (i : UInt8) : Trustee :=
  ⟨⟨bytes16 i⟩, i, ⟨[i]⟩⟩

/-- Trustees 1, 2 and 3, any two of whom decrypt; no mix-net. -/
def sampleElection : ElectionTransaction :=
  ⟨sampleElectionId, [sampleTrustee 1, sampleTrustee 2, sampleTrustee 3], 2, none⟩

/-- Trustee `T`'s published key, with proof `[T.index]`. -/
def sampleKeygen (T : Trustee) : KeyGenPublicKeyTransaction :=
  ⟨keygenId sampleElectionId T.id, T.id, T.publicKey, ⟨[T.index]⟩⟩

def sampleVote : VoteTransaction :=
  ⟨Identifier.new sampleElectionId .vote (List.replicate 16 9), ⟨[5], [42]⟩⟩

/-- A stand-in for `cryptid`: a share verifies when it repeats the key's proof,
and the combination returns `c2`. -/
def sampleCrypto : Cryptid :=
  ⟨fun share proof _ => share.bytes == proof.bytes, fun c _ => .ok c.c2⟩

/-- Trustee `T`'s share of the sample vote. -/
def sampleShare (T : Trustee) : DecryptShare :=
  ⟨[T.index]⟩

/-- The log at `VotingEnd`: the election, the three keys and one vote. -/
def sampleStore : MemStore :=
  [.election sampleElection, .keyGenPublicKey (sampleKeygen (sampleTrustee 1)),
    .keyGenPublicKey (sampleKeygen (sampleTrustee 2)), .keyGenPublicKey (sampleKeygen (sampleTrustee 3)),
    .vote sampleVote, .votingEnd (votingEndId sampleElectionId)].foldl MemStore.set MemStore.empty

/-- Trustee `T`'s partial decryption of the sample vote, as `new` builds it. -/
def samplePartial (T : Trustee) : PartialDecryptionTransaction :=
  ⟨Identifier.new sampleElectionId .partialDecryption (4 :: List.replicate 14 9 ++ [T.index]),
    sampleElectionId, sampleVote.id, 0, T.id, T.publicKey, sampleShare T⟩

theorem sample_quorum_decrypts :
    ∃ s', validateAndSet (SignedTransaction.validate sampleCrypto fun _ _ => .ok ()) sampleStore
      ([samplePartial (sampleTrustee 1), samplePartial (sampleTrustee 2)].map .partialDecryption ++
        [.decryption (DecryptionTransaction.new sampleElectionId sampleVote.id
          [(sampleTrustee 2).id, (sampleTrustee 1).id] [42])]) = .ok s' := by
  have h : HonestQuorum sampleCrypto sampleStore sampleElectionId sampleElection sampleVote
      [sampleTrustee 1, sampleTrustee 2] sampleKeygen sampleShare :=
    ⟨rfl, by decide, by decide, by decide, by decide, rfl, by decide, by decide, by decide⟩
  exact h.decrypts (by decide) _ (by decide) (by decide) (by decide)

/-- A vote stored under a `KeyGenPublicKey` identifier of the sample election. -/
def strayVote : VoteTransaction :=
  ⟨Identifier.new sampleElectionId .keyGenPublicKey (List.replicate 16 5), ⟨[5], [42]⟩⟩

/-- The log at `VotingEnd` with a vote stored under one of the election's key identifiers. -/
def strayStore : MemStore :=
  sampleStore.set (.vote strayVote)

/-- Every premise of an honest decryption holds on the log with the stray vote:
the election, distinct ids and indices, the `VotingEnd`, the vote, the quorum's
keys and verifying shares, the partial decryptions `new` builds and the result
of `decrypt_vote` on the stored keys.  The partial decryptions are accepted, and
the decryption panics in `into()` while listing the election's keys. -/
theorem stray_vote_breaks_honest_decryption :
    HonestQuorum sampleCrypto strayStore sampleElectionId sampleElection sampleVote
        [sampleTrustee 1, sampleTrustee 2] sampleKeygen sampleShare ∧
      [sampleTrustee 1, sampleTrustee 2].mapM (fun T => votePartial sampleElectionId sampleVote T (sampleShare T)) =
        .ok [samplePartial (sampleTrustee 1), samplePartial (sampleTrustee 2)] ∧
      decryptVote sampleCrypto sampleVote.encryptedVote 2 sampleElection.trustees
        ((strayStore.getMultiple sampleElectionId .keyGenPublicKey).filterMap SignedTransaction.asKeyGenPublicKey?)
        [samplePartial (sampleTrustee 1), samplePartial (sampleTrustee 2)] = .ok [42] ∧
      validateAndSet (SignedTransaction.validate sampleCrypto fun _ _ => .ok ()) strayStore
        ([samplePartial (sampleTrustee 1), samplePartial (sampleTrustee 2)].map .partialDecryption ++
          [.decryption (DecryptionTransaction.new sampleElectionId sampleVote.id
            [(sampleTrustee 1).id, (sampleTrustee 2).id] [42])]) =
        .error (.panic "wrong transaction type expected") :=
  ⟨⟨rfl, by decide, by decide, by decide, by decide, rfl, by decide, by decide, by decide⟩, by decide,
    by decide, by decide⟩

/-! ## A decryption stored twice -/

/-- **The loop stores a decryption again under any other identifier.**
`validate_tx` of a decryption never reads `self.id` and nothing asks whether
the vote was decrypted before, so from any store on which a decryption with a
`Decryption` identifier is accepted, the loop accepts it, then the same
decryption under any other identifier, and keeps both: two decryptions of one
vote, at most one under `Identifier::new(election_id, Decryption, vote_id)`, the
second replacing whatever was stored under its identifier (another vote's
decryption, or any other transaction).  The election and the vote must not sit
under `Decryption` identifiers themselves, or storing the first copy could
replace them. -/
theorem decryption_stored_twice {crypto : Cryptid} {s : MemStore}
    {validateOther : SignedTransaction → MemStore → Outcome Unit} {d : DecryptionTransaction}
    {x : Identifier} (hd : d.validateTx crypto s = .ok ()) (hid : d.id.transactionType = .decryption)
    (hne : x ≠ d.id)
    (he : d.electionId.transactionType ≠ .decryption) (hv : d.voteId.transactionType ≠ .decryption) :
    ∃ s', validateAndSet (SignedTransaction.validate crypto validateOther) s
        [.decryption d, .decryption { d with id := x }] = .ok s' ∧
      s'.getTransaction d.id = some (.decryption d) ∧
      s'.getTransaction x = some (.decryption { d with id := x }) := by
  have h2 : ({ d with id := x } : DecryptionTransaction).validateTx crypto (s.set (.decryption d)) = .ok () := by
    rw [DecryptionTransaction.validateTx_with_id, DecryptionTransaction.validateTx_set_decryption
      (show (SignedTransaction.decryption d).id.transactionType = .decryption from hid) he hv, hd]
  refine ⟨(s.set (.decryption d)).set (.decryption { d with id := x }), ?_, ?_, ?_⟩
  · rw [validateAndSet_cons_ok (show SignedTransaction.validate crypto validateOther (.decryption d) s = .ok ()
      from hd), validateAndSet_cons_ok (show SignedTransaction.validate crypto validateOther
        (.decryption { d with id := x }) _ = .ok () from h2)]
    rfl
  · simp [SignedTransaction.id, Ne.symm hne]
  · simp [SignedTransaction.id]

/-- The sample log after the quorum's partial decryptions. -/
def sampleDecryptingStore : MemStore :=
  [samplePartial (sampleTrustee 1), samplePartial (sampleTrustee 2)].foldl
    (fun s p => s.set (.partialDecryption p)) sampleStore

/-- The decryption of the sample vote by trustees 1 and 2. -/
def sampleDecryption : DecryptionTransaction :=
  DecryptionTransaction.new sampleElectionId sampleVote.id [(sampleTrustee 1).id, (sampleTrustee 2).id] [42]

/-- Another `Decryption` identifier of the sample election, unique id `[0; 16]`. -/
def otherDecryptionId : Identifier :=
  Identifier.new sampleElectionId .decryption (List.replicate 16 0)

theorem sample_decryption_stored_twice :
    ∃ s', validateAndSet (SignedTransaction.validate sampleCrypto fun _ _ => .ok ()) sampleDecryptingStore
        [.decryption sampleDecryption, .decryption { sampleDecryption with id := otherDecryptionId }] = .ok s' ∧
      s'.getTransaction sampleDecryption.id = some (.decryption sampleDecryption) ∧
      s'.getTransaction otherDecryptionId = some (.decryption { sampleDecryption with id := otherDecryptionId }) :=
  decryption_stored_twice (by decide) rfl (by decide) (by decide) (by decide)

/-- After the two copies the vote is still stored, and the election's
`Decryption` namespace lists two decryptions of it. -/
example : ((sampleDecryptingStore.set (.decryption sampleDecryption)).set
      (.decryption { sampleDecryption with id := otherDecryptionId })).getVote sampleVote.id = .ok sampleVote ∧
    (((sampleDecryptingStore.set (.decryption sampleDecryption)).set
      (.decryption { sampleDecryption with id := otherDecryptionId })).getMultiple sampleElectionId .decryption).map
        (·.asDecryption?.map (·.voteId)) = [some sampleVote.id, some sampleVote.id] := by
  decide

end CryptoBallot
