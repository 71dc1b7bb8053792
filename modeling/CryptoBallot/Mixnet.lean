import CryptoBallot.Runs

/-!
# Decrypting after a mix-net

In an election with a mix-net of `num_shuffles` shuffles, the mixes are indexed
`0 .. num_shuffles - 1` and the spec asks that only the last one be decrypted
(§4.2, partial decryption rule 3: `mix.mix_index == mixnet.num_shuffles - 1`).
`validate_tx` of a partial decryption compares `num_shuffles` itself with the
mix's index (`decryption.rs`, line 127), and `validate_tx` of a decryption takes
its ciphertext from `get_vote(vote_id)` alone (line 246).

`validateTx_final_mix_rejected` is the first fact at one store: the final mix's
partial decryptions are rejected.  `final_mix_never_decrypted` is both facts
over every run of the loop in the decryption phase: no step accepts a partial
decryption of the final mix or a decryption of it.  The vote path, for its
part, never reads the mix-net configuration, so in an election with a mix-net
the votes themselves are decrypted (the example after the first theorem).
-/

namespace CryptoBallot

variable {crypto : Cryptid} {s st : MemStore} {k : Identifier} {mix : MixTransaction}

/-- One identifier holds one transaction: never a vote and a mix at once. -/
theorem MemStore.getVote_ne_of_getMix (hm : s.getMix k = .ok mix) (v : VoteTransaction) :
    s.getVote k ≠ .ok v := fun hv => by
  obtain ⟨tx, htx, hvx⟩ := getAs_eq_ok.1 hv
  obtain ⟨tx', htx', hmx⟩ := getAs_eq_ok.1 hm
  obtain rfl := Option.some.inj (htx.symm.trans htx')
  rw [SignedTransaction.asVote?_eq_some] at hvx
  subst hvx
  cases hmx

namespace PartialDecryptionTransaction

variable {p : PartialDecryptionTransaction} {e : ElectionTransaction}

/-- **The final mix's ciphertext is never taken**, on a store `st` whose votes
and mixes under the upstream identifier are those of `s`: that identifier holds
the mix and no vote, and the mix's index `num_shuffles - 1` is not `num_shuffles`. -/
theorem upstreamCiphertext_final_mix_ne_ok {mc : MixConfig} {c : Ciphertext} (hmc : e.mixnet = some mc)
    (hmix : s.getMix p.upstreamId = .ok mix) (hfinal : mix.mixIndex.toNat + 1 = mc.numShuffles.toNat)
    (hvote : ∀ v, st.getVote p.upstreamId = .ok v → s.getVote p.upstreamId = .ok v)
    (hmix' : ∀ mix', st.getMix p.upstreamId = .ok mix' → s.getMix p.upstreamId = .ok mix') :
    upstreamCiphertext st e p ≠ .ok c := fun hc => by
  rcases upstreamCiphertext_eq_ok.1 hc with ⟨-, -, v, hv, -⟩ | ⟨-, mix', hm, mc', hmc', heq, -⟩
  · exact MemStore.getVote_ne_of_getMix hmix v (hvote v hv)
  · obtain rfl := Except.ok.inj ((hmix' mix' hm).symm.trans hmix)
    obtain rfl := Option.some.inj (hmc'.symm.trans hmc)
    rw [heq] at hfinal
    omega

/-- **A partial decryption of the final mix is rejected.**  The last mix of a
chain of `num_shuffles` mixes has index `num_shuffles - 1`, and `validate_tx`
requires the index to be `num_shuffles` (`WrongMixSelected`). -/
theorem validateTx_final_mix_rejected {mc : MixConfig} (he : s.getElection p.electionId = .ok e)
    (hmc : e.mixnet = some mc) (hmix : s.getMix p.upstreamId = .ok mix)
    (hfinal : mix.mixIndex.toNat + 1 = mc.numShuffles.toNat) :
    p.validateTx crypto s ≠ .ok () := fun hp => by
  obtain ⟨e', he', -, -, -, -, c, hc, -⟩ := validateTx_eq_ok.1 hp
  obtain rfl : e' = e := Except.ok.inj (he'.symm.trans he)
  exact upstreamCiphertext_final_mix_ne_ok hmc hmix hfinal (fun _ h => h) (fun _ h => h) hc

end PartialDecryptionTransaction

/-- The sample election with a mix-net of one shuffle. -/
def mixElection : ElectionTransaction :=
  { sampleElection with mixnet := some ⟨1⟩ }

/-- The only mix of the chain, index 0, which re-encrypts the sample vote. -/
def finalMix : MixTransaction :=
  ⟨Identifier.new sampleElectionId .mix (0 :: List.replicate 15 1), 0, [⟨[5], [42]⟩]⟩

/-- The log at the end of the mix-net: the election, the three keys, the vote,
`VotingEnd` and the final mix. -/
def mixStore : MemStore :=
  [.election mixElection, .keyGenPublicKey (sampleKeygen (sampleTrustee 1)),
    .keyGenPublicKey (sampleKeygen (sampleTrustee 2)), .keyGenPublicKey (sampleKeygen (sampleTrustee 3)),
    .vote sampleVote, .votingEnd (votingEndId sampleElectionId), .mix finalMix].foldl MemStore.set MemStore.empty

/-- Trustee `T`'s partial decryption of the final mix's first ciphertext, as `new` builds it. -/
def mixPartial (T : Trustee) : PartialDecryptionTransaction :=
  ⟨Identifier.new sampleElectionId .partialDecryption (6 :: 0 :: List.replicate 13 1 ++ [T.index]),
    sampleElectionId, finalMix.id, 0, T.id, T.publicKey, sampleShare T⟩

theorem sample_final_mix_rejected :
    (mixPartial (sampleTrustee 1)).validateTx sampleCrypto mixStore = .error (.err .wrongMixSelected) ∧
      (mixPartial (sampleTrustee 1)).validateTx sampleCrypto mixStore ≠ .ok () :=
  ⟨by decide, PartialDecryptionTransaction.validateTx_final_mix_rejected
    (by decide : mixStore.getElection sampleElectionId = .ok mixElection) rfl
    (by decide : mixStore.getMix finalMix.id = .ok finalMix) (by decide)⟩

/-- In the election with a mix-net, a partial decryption of the vote itself is accepted. -/
example : (samplePartial (sampleTrustee 1)).validateTx sampleCrypto mixStore = .ok () := by
  decide

/-- The transactions of `st` are those of `s` under the same identifiers, or
partial decryptions and decryptions: what a run of the decryption phase adds. -/
def AddsOnlyDecryptions (s st : MemStore) : Prop :=
  ∀ k tx, st.getTransaction k = some tx → s.getTransaction k = some tx ∨
    tx.transactionType = .partialDecryption ∨ tx.transactionType = .decryption

namespace AddsOnlyDecryptions

theorem refl : AddsOnlyDecryptions s s :=
  fun _ _ h => .inl h

theorem set {tx : SignedTransaction} (h : AddsOnlyDecryptions s st)
    (htx : tx.transactionType = .partialDecryption ∨ tx.transactionType = .decryption) :
    AddsOnlyDecryptions s (st.set tx) := by
  intro k t hk
  rw [MemStore.getTransaction_set] at hk
  split_ifs at hk
  · cases hk
    exact .inr htx
  · exact h k t hk

/-- A lookup of a kind other than the two finds in `st` what `s` held. -/
theorem getAs {α : Type} {project : SignedTransaction → Option α} {a : α}
    (h : AddsOnlyDecryptions s st)
    (hproj : ∀ tx a, project tx = some a →
      tx.transactionType ≠ .partialDecryption ∧ tx.transactionType ≠ .decryption)
    (hst : st.getAs k project = .ok a) : s.getAs k project = .ok a := by
  obtain ⟨tx, htx, hp⟩ := MemStore.getAs_eq_ok.1 hst
  obtain ⟨h1, h2⟩ := hproj tx a hp
  exact MemStore.getAs_eq_ok.2 ⟨tx, (h k tx htx).resolve_right (not_or.2 ⟨h1, h2⟩), hp⟩

theorem getElection (h : AddsOnlyDecryptions s st) {e : ElectionTransaction}
    (hst : st.getElection k = .ok e) : s.getElection k = .ok e :=
  h.getAs (fun _ _ hp => by rw [SignedTransaction.asElection?_eq_some.1 hp]; exact ⟨nofun, nofun⟩) hst

theorem getVote (h : AddsOnlyDecryptions s st) {v : VoteTransaction}
    (hst : st.getVote k = .ok v) : s.getVote k = .ok v :=
  h.getAs (fun _ _ hp => by rw [SignedTransaction.asVote?_eq_some.1 hp]; exact ⟨nofun, nofun⟩) hst

theorem getMix (h : AddsOnlyDecryptions s st) (hst : st.getMix k = .ok mix) : s.getMix k = .ok mix :=
  h.getAs (fun _ _ hp => by rw [SignedTransaction.asMix?_eq_some.1 hp]; exact ⟨nofun, nofun⟩) hst

end AddsOnlyDecryptions

theorem AddsOnlyDecryptions.foldl_set {txs : List SignedTransaction} (h : AddsOnlyDecryptions s st)
    (hkinds : ∀ tx ∈ txs, tx.transactionType = .partialDecryption ∨ tx.transactionType = .decryption) :
    AddsOnlyDecryptions s (txs.foldl MemStore.set st) := by
  induction txs generalizing st with
  | nil => exact h
  | cons x xs ih => exact ih (h.set (hkinds x (List.mem_cons_self _ _))) fun t ht => hkinds t (.tail _ ht)

/-- Each transaction of a run of the decryption phase was accepted on a store
that adds only partial decryptions and decryptions to the one the run started from. -/
theorem accepted_on_of_run {validate : SignedTransaction → MemStore → Outcome Unit}
    {txs : List SignedTransaction} {s' : MemStore}
    (hkinds : ∀ tx ∈ txs, tx.transactionType = .partialDecryption ∨ tx.transactionType = .decryption)
    (hrun : validateAndSet validate s txs = .ok s') :
    ∀ tx ∈ txs, ∃ st, AddsOnlyDecryptions s st ∧ validate tx st = .ok () := by
  intro tx htx
  obtain ⟨i, hi, rfl⟩ := List.getElem_of_mem htx
  exact ⟨_, AddsOnlyDecryptions.refl.foldl_set fun t ht => hkinds t (List.mem_of_mem_take ht),
    (validateAndSet_eq_ok_iff.1 hrun).1 i hi⟩

/-- **No run of the decryption phase decrypts the final mix.**  From a store
holding an election with a mix-net and the final mix of its chain (index
`num_shuffles - 1`), a run of the loop over partial decryptions and decryptions
accepts no partial decryption of that mix for that election and no decryption
of it at all: the first fail the index check on every store the run reaches, and
a decryption must find a vote under `vote_id`. -/
theorem final_mix_never_decrypted {validateOther : SignedTransaction → MemStore → Outcome Unit}
    {E M : Identifier} {e : ElectionTransaction} {mc : MixConfig} (he : s.getElection E = .ok e)
    (hmc : e.mixnet = some mc) (hmix : s.getMix M = .ok mix)
    (hfinal : mix.mixIndex.toNat + 1 = mc.numShuffles.toNat) {txs : List SignedTransaction}
    (hkinds : ∀ tx ∈ txs, tx.transactionType = .partialDecryption ∨ tx.transactionType = .decryption)
    {s' : MemStore} (hrun : validateAndSet (SignedTransaction.validate crypto validateOther) s txs = .ok s') :
    ∀ tx ∈ txs, (∀ p, tx = .partialDecryption p → p.electionId = E → p.upstreamId ≠ M) ∧
      ∀ d, tx = .decryption d → d.voteId ≠ M := by
  intro tx htx
  obtain ⟨st, hst, hacc⟩ := accepted_on_of_run hkinds hrun tx htx
  constructor
  · rintro p rfl rfl rfl
    obtain ⟨e', he', -, -, -, -, c, hc, -⟩ := PartialDecryptionTransaction.validateTx_eq_ok.1 hacc
    obtain rfl : e' = e := Except.ok.inj ((hst.getElection he').symm.trans he)
    exact PartialDecryptionTransaction.upstreamCiphertext_final_mix_ne_ok hmc hmix hfinal
      (fun _ => hst.getVote) (fun _ => hst.getMix) hc
  · rintro d rfl rfl
    obtain ⟨-, -, -, vote, hv, -⟩ := DecryptionTransaction.validateTx_eq_ok.1 hacc
    exact MemStore.getVote_ne_of_getMix hmix vote (hst.getVote hv)

theorem sample_final_mix_never_decrypted :
    validateAndSet (SignedTransaction.validate sampleCrypto fun _ _ => .ok ()) mixStore
        [.partialDecryption (samplePartial (sampleTrustee 1))] =
      .ok (mixStore.set (.partialDecryption (samplePartial (sampleTrustee 1)))) ∧
      (samplePartial (sampleTrustee 1)).upstreamId ≠ finalMix.id :=
  ⟨by decide, (final_mix_never_decrypted (by decide : mixStore.getElection sampleElectionId = .ok mixElection)
    rfl (by decide : mixStore.getMix finalMix.id = .ok finalMix) (by decide) (by decide)
    (by decide : validateAndSet (SignedTransaction.validate sampleCrypto fun _ _ => .ok ()) mixStore
      [.partialDecryption (samplePartial (sampleTrustee 1))] =
        .ok (mixStore.set (.partialDecryption (samplePartial (sampleTrustee 1))))) _
    (List.mem_singleton_self _)).1 _ rfl rfl⟩

end CryptoBallot
