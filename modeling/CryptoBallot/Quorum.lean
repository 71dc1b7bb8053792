import CryptoBallot.Runs
import Mathlib.Data.Finset.Card

/-!
# The quorum behind an accepted decryption

`validate_tx` of a decryption compares the length of the gathered list with the
threshold, and `decrypt_vote` then keys the gathered partial decryptions and the
election's keys by trustee id and walks the roster (`decryption.rs`, lines
255-332).  A repeated id in `trustees` is counted twice by the first check and
once by the maps; `finish` counts the shares the roster walk added.  The walk
adds one share per roster entry, so when the roster lists no id twice the
shares come from distinct trustees, each listed, and there are at least the
threshold of them (`validateTx_distinct_quorum`).  When the roster lists an id
under two indices the walk adds that trustee's share twice, and one listed
trustee repeated reaches a threshold of two (`repeated_trustee_decrypts`).
-/

namespace CryptoBallot

/-- Every `KeyGenPublicKey` transaction of the store sits under its own trustee's
identifier in its election, `Identifier::new(election_id, KeyGenPublicKey, trustee_id)`. -/
def MemStore.KeysAtOwnIds (s : MemStore) : Prop :=
  ∀ k kg, s.getTransaction k = some (.keyGenPublicKey kg) → k = keygenId k kg.trusteeId

instance (s : MemStore) : Decidable s.KeysAtOwnIds :=
  decidable_of_iff (∀ e ∈ s.inner, ∀ kg ∈ e.2.asKeyGenPublicKey?, e.1 = keygenId e.1 kg.trusteeId) <|
    (MemStore.forall_getTransaction (P := fun k tx => ∀ kg ∈ tx.asKeyGenPublicKey?,
      k = keygenId k kg.trusteeId)).symm.trans ⟨fun h k kg hk => h k _ hk kg rfl, fun h k _ hk kg hkg =>
        h k kg (SignedTransaction.asKeyGenPublicKey?_eq_some.1 hkg ▸ hk)⟩

/-- A `?` loop has no more distinct outputs, seen through any map, than distinct inputs. -/
theorem card_toFinset_map_le_of_mapM_eq_ok {ε α β γ : Type} [DecidableEq α] [DecidableEq γ]
    {f : α → Except ε β} (g : β → γ) :
    ∀ {l : List α} {r : List β}, l.mapM f = .ok r → (r.map g).toFinset.card ≤ l.toFinset.card
  | [], r, h => by
      rw [List.mapM_nil, Except.pure_eq_ok] at h
      simp [← h]
  | a :: l, r, h => by
      simp only [List.mapM_cons, Except.bind_eq_ok, Except.pure_eq_ok] at h
      obtain ⟨b, hb, r', hr', rfl⟩ := h
      have ih := card_toFinset_map_le_of_mapM_eq_ok g hr'
      simp only [List.map_cons, List.toFinset_cons]
      by_cases ha : a ∈ l
      · have hgb : g b ∈ (r'.map g).toFinset :=
          List.mem_toFinset.2 (List.mem_map_of_mem _ ((List.mem_of_mapM_eq_ok hr').2 ⟨a, ha, hb⟩))
        rwa [Finset.card_insert_of_mem hgb, Finset.card_insert_of_mem (List.mem_toFinset.2 ha)]
      · have hcard : (insert a l.toFinset).card = l.toFinset.card + 1 :=
          Finset.card_insert_of_not_mem (mt List.mem_toFinset.1 ha)
        rw [hcard]
        exact (Finset.card_insert_le _ _).trans (Nat.succ_le_succ ih)

/-- With distinct roster ids, the roster walk adds at most one share per distinct
trustee id among the partial decryptions. -/
theorem length_rosterShares_le {pubkeys : Uuid → Option KeyGenPublicKeyTransaction}
    {partials : List PartialDecryptionTransaction} {trustees : List Trustee}
    (hids : (trustees.map (·.id)).Nodup) :
    (rosterShares pubkeys (collectByTrustee (·.trusteeId) partials) trustees).length ≤
      (partials.map (·.trusteeId)).toFinset.card := by
  set found := trustees.filter fun T => (collectByTrustee (·.trusteeId) partials T.id).isSome
  have hle : (rosterShares pubkeys (collectByTrustee (·.trusteeId) partials) trustees).length ≤
      found.length := by
    rw [rosterShares, List.length_filterMap_eq_countP, ← List.countP_eq_length_filter]
    refine List.countP_mono_left fun T _ hT => ?_
    cases hp : collectByTrustee (·.trusteeId) partials T.id <;> simp_all
  have hsub : (found.map (·.id)).toFinset ⊆ (partials.map (·.trusteeId)).toFinset := by
    intro u hu
    simp only [found, List.mem_toFinset, List.mem_map, List.mem_filter] at hu ⊢
    obtain ⟨T, ⟨-, hs⟩, rfl⟩ := hu
    obtain ⟨pd, hpd⟩ := Option.isSome_iff_exists.1 hs
    exact ⟨pd, collectByTrustee_mem hpd⟩
  calc _ ≤ found.length := hle
    _ = (found.map (·.id)).toFinset.card := by
      rw [List.toFinset_card_of_nodup (hids.sublist ((List.filter_sublist _).map _)), List.length_map]
    _ ≤ _ := Finset.card_le_card hsub

namespace DecryptionTransaction

variable {crypto : Cryptid} {s : MemStore} {d : DecryptionTransaction}

/-- When each key sits under its trustee's identifier, the map `decrypt_vote`
builds from the listed keys is the store's lookup at those identifiers. -/
theorem collectByTrustee_keygenPublicKeys (hkeys : s.KeysAtOwnIds) {e : Identifier}
    {pks : List KeyGenPublicKeyTransaction} (h : keygenPublicKeys s e = .ok pks) :
    collectByTrustee (·.trusteeId) pks = fun u => (s.getKeygenPublicKey (keygenId e u)).toOption := by
  funext u
  rw [MemStore.getKeygenPublicKey, MemStore.getAs_toOption]
  -- every listed key of trustee `u` is the one stored under `u`'s identifier
  have hat : ∀ kg ∈ pks, kg.trusteeId = u →
      s.getTransaction (keygenId e u) = some (.keyGenPublicKey kg) := by
    intro kg hkg hu
    obtain ⟨k, hk, hns⟩ := (mem_keygenPublicKeys h).1 hkg
    rw [MemStore.InNamespace_eq_true] at hns
    rwa [← hu, ← keygenId_congr hns.1, ← hkeys k kg hk]
  by_cases hex : ∃ kg, s.getTransaction (keygenId e u) = some (.keyGenPublicKey kg)
  · obtain ⟨kg, hkg⟩ := hex
    obtain rfl : kg.trusteeId = u := (keygenId_inj (hkeys _ kg hkg)).symm
    have hmem : kg ∈ pks := (mem_keygenPublicKeys h).2 ⟨_, hkg, by simp [keygenId]⟩
    rw [collectByTrustee_of_unique hmem fun b hb hu =>
      SignedTransaction.keyGenPublicKey.inj (Option.some.inj ((hat b hb hu).symm.trans hkg)), hkg]
    rfl
  · push_neg at hex
    rw [collectByTrustee_eq_none fun kg hkg hu => hex kg (hat kg hkg hu)]
    refine (Option.bind_eq_none'.2 fun kg tx htx hkg => hex kg ?_).symm
    rw [← SignedTransaction.asKeyGenPublicKey?_eq_some.1 hkg]
    exact htx

/-- **An accepted decryption rests on a quorum of distinct listed trustees**, when
the election's roster lists no id twice.  At least `trustees_threshold` distinct
ids are listed; each is the id of a roster trustee with a partial decryption
stored under `build_id(election_id, vote_id, index)`; and the plaintext is the
combination, on the vote's ciphertext, of at least `trustees_threshold` shares,
one for each roster trustee, in roster order, whose id is the `trustee_id` of one
of those partial decryptions and whose key is stored under its identifier: the
trustee's index, that key's proof and the last such partial decryption's share. -/
theorem validateTx_distinct_quorum (hkeys : s.KeysAtOwnIds) (hd : d.validateTx crypto s = .ok ())
    {election : ElectionTransaction} (he : s.getElection d.electionId = .ok election)
    (hroster : (election.trustees.map (·.id)).Nodup) :
    election.trusteesThreshold ≤ d.trustees.toFinset.card ∧
    (∀ u ∈ d.trustees, ∃ T ∈ election.trustees, T.id = u ∧ ∃ pid pd,
      PartialDecryptionTransaction.buildId d.electionId d.voteId T.index = .ok pid ∧
        s.getPartialDecryption pid = .ok pd) ∧
    ∃ vote partials, s.getVote d.voteId = .ok vote ∧ gatherPartials s election d = .ok partials ∧
      election.trusteesThreshold ≤ (rosterShares
        (fun u => (s.getKeygenPublicKey (keygenId d.electionId u)).toOption)
        (collectByTrustee (·.trusteeId) partials) election.trustees).length ∧
      crypto.combine vote.encryptedVote (rosterShares
        (fun u => (s.getKeygenPublicKey (keygenId d.electionId u)).toOption)
        (collectByTrustee (·.trusteeId) partials) election.trustees) = .ok d.decryptedVote := by
  obtain ⟨election', he', -, vote, hv, pks, hpks, partials, hg, -, hdec⟩ := validateTx_eq_ok.1 hd
  obtain rfl : election' = election := Except.ok.inj (he'.symm.trans he)
  obtain ⟨hfin, hcomb⟩ := Decryption.le_of_finish_eq_ok (decryptVote_eq_ok.1 hdec)
  rw [collectByTrustee_keygenPublicKeys hkeys hpks] at hfin hcomb
  dsimp only at hfin hcomb
  refine ⟨?_, fun u hu => ?_, vote, partials, hv, hg, hfin, hcomb⟩
  · calc election'.trusteesThreshold
        ≤ (rosterShares _ (collectByTrustee (·.trusteeId) partials) election'.trustees).length := hfin
      _ ≤ (partials.map (·.trusteeId)).toFinset.card := length_rosterShares_le hroster
      _ ≤ d.trustees.toFinset.card := card_toFinset_map_le_of_mapM_eq_ok _ hg
  · obtain ⟨pd, hpd⟩ := List.exists_of_mapM_eq_ok hg hu
    obtain ⟨T, hT, hrest⟩ := Except.bind_eq_ok.1 hpd
    obtain ⟨pid, hpid, hget⟩ := Except.bind_eq_ok.1 hrest
    obtain ⟨hTmem, hTid⟩ := election'.getTrustee_eq_some (okOr_eq_ok.1 hT)
    exact ⟨T, hTmem, hTid, pid, pd, hpid, hget⟩

theorem sample_distinct_quorum :
    sampleElection.trusteesThreshold ≤ sampleDecryption.trustees.toFinset.card :=
  (validateTx_distinct_quorum (by decide)
    (by decide : sampleDecryption.validateTx sampleCrypto sampleDecryptingStore = .ok ())
    (by decide : sampleDecryptingStore.getElection sampleDecryption.electionId = .ok sampleElection)
    (by decide)).1

end DecryptionTransaction

/-- The sample roster with trustee 1 listed a second time, under index 2: the
indices stay distinct. -/
def repeatedElection : ElectionTransaction :=
  ⟨sampleElectionId, [sampleTrustee 1, { sampleTrustee 1 with index := 2 }], 2, none⟩

/-- That election, trustee 1's key, the vote, `VotingEnd` and trustee 1's
partial decryption. -/
def repeatedStore : MemStore :=
  [.election repeatedElection, .keyGenPublicKey (sampleKeygen (sampleTrustee 1)), .vote sampleVote,
    .votingEnd (votingEndId sampleElectionId),
    .partialDecryption (samplePartial (sampleTrustee 1))].foldl MemStore.set MemStore.empty

/-- Trustee 1 listed twice. -/
def repeatedDecryption : DecryptionTransaction :=
  DecryptionTransaction.new sampleElectionId sampleVote.id [(sampleTrustee 1).id, (sampleTrustee 1).id] [42]

/-- One trustee, listed twice, decrypts under a threshold of two: the roster walk
adds its share at both of its indices. -/
theorem repeated_trustee_decrypts :
    repeatedStore.KeysAtOwnIds ∧ repeatedStore.getElection sampleElectionId = .ok repeatedElection ∧
      repeatedDecryption.validateTx sampleCrypto repeatedStore = .ok () ∧
      repeatedDecryption.trustees.toFinset.card < repeatedElection.trusteesThreshold := by
  decide

end CryptoBallot
