import CryptoBallot.Runs

/-!
# Acceptance as the log grows

The spec's lifecycle (§3) has transactions validated once and never removed or
changed, so a log only grows: `MemStore.Extends`.  Every lookup of
`validate_tx` of a partial decryption succeeds in the same way in a larger log,
so acceptance carries over unconditionally.  `validate_tx` of a decryption also
lists every `KeyGenPublicKey` transaction of the election through
`get_multiple` and `into()`, and keys the list by trustee id; a larger log can
make `into()` panic on a transaction of another kind stored under a
`KeyGenPublicKey` identifier (`keygen_namespace_breaks_decryption`), and can add
a key for a trustee whose partial decryption had none.  `validateTx_stable`
carries acceptance over once neither can happen.

The same two facts make the verdict of a decryption independent of the order
`get_multiple` lists the keys in, on stores that answer every lookup alike
(`DecryptionTransaction.validateTx_congr`): `into()` panics on the same listings,
and with no two keys of one trustee the map by trustee id is the same.
-/

namespace CryptoBallot
namespace MemStore

/-- Only `KeyGenPublicKey` transactions are stored under `KeyGenPublicKey` identifiers. -/
def KeygenIdsHoldKeys (s : MemStore) : Prop :=
  ∀ k tx, s.getTransaction k = some tx → k.transactionType = .keyGenPublicKey →
    tx.asKeyGenPublicKey?.isSome

/-- No two `KeyGenPublicKey` transactions stored under `KeyGenPublicKey`
identifiers of one election share a trustee id. -/
def KeygenTrusteesDistinct (s : MemStore) : Prop :=
  ∀ k tx, s.getTransaction k = some tx → ∀ k' tx', s.getTransaction k' = some tx' →
    ∀ kg ∈ tx.asKeyGenPublicKey?, ∀ kg' ∈ tx'.asKeyGenPublicKey?,
      k.transactionType = .keyGenPublicKey → InNamespace k .keyGenPublicKey k' = true →
        kg.trusteeId = kg'.trusteeId → k = k'

/-- Every partial decryption stored in the log has a `KeyGenPublicKey` transaction
of its trustee stored under a `KeyGenPublicKey` identifier of the election it is
stored under. -/
def PartialsHaveKeys (s : MemStore) : Prop :=
  ∀ k tx, s.getTransaction k = some tx → ∀ pd ∈ tx.asPartialDecryption?,
    ∃ i tx', s.getTransaction i = some tx' ∧ InNamespace k .keyGenPublicKey i = true ∧
      ∃ kg ∈ tx'.asKeyGenPublicKey?, kg.trusteeId = pd.trusteeId

instance (s : MemStore) : Decidable s.KeygenIdsHoldKeys :=
  decidable_of_iff' _ forall_getTransaction

instance (s : MemStore) : Decidable s.KeygenTrusteesDistinct :=
  decidable_of_iff (∀ e ∈ s.inner, ∀ e' ∈ s.inner, ∀ kg ∈ e.2.asKeyGenPublicKey?,
      ∀ kg' ∈ e'.2.asKeyGenPublicKey?, e.1.transactionType = .keyGenPublicKey →
        InNamespace e.1 .keyGenPublicKey e'.1 = true → kg.trusteeId = kg'.trusteeId → e.1 = e'.1)
    (by simp only [KeygenTrusteesDistinct, forall_getTransaction])

instance (s : MemStore) : Decidable s.PartialsHaveKeys :=
  decidable_of_iff (∀ e ∈ s.inner, ∀ pd ∈ e.2.asPartialDecryption?, ∃ e' ∈ s.inner,
      InNamespace e.1 .keyGenPublicKey e'.1 = true ∧ ∃ kg ∈ e'.2.asKeyGenPublicKey?, kg.trusteeId = pd.trusteeId)
    (by simp only [PartialsHaveKeys, forall_getTransaction, exists_getTransaction])

/-- Two keys of one trustee stored under `KeyGenPublicKey` identifiers of one election are one. -/
theorem KeygenTrusteesDistinct.key_eq {s : MemStore} (h : s.KeygenTrusteesDistinct) {E k k' : Identifier}
    {a b : KeyGenPublicKeyTransaction} (hk : s.getTransaction k = some (.keyGenPublicKey a))
    (hk' : s.getTransaction k' = some (.keyGenPublicKey b)) (hns : InNamespace E .keyGenPublicKey k)
    (hns' : InNamespace E .keyGenPublicKey k') (hab : a.trusteeId = b.trusteeId) : a = b := by
  rw [InNamespace_eq_true] at hns hns'
  obtain rfl := h k _ hk k' _ hk' a rfl b rfl hns.2 (by simp [hns, hns']) hab
  exact SignedTransaction.keyGenPublicKey.inj (Option.some.inj (hk.symm.trans hk'))

/-- `s'` keeps what a validation read in `s`: every transaction of `s` other
than a decryption, under its identifier, and a transaction under every
identifier that holds one in `s`.  A larger log keeps it, and so does the store
of a run that goes on to replace decryptions only. -/
def KeepsReads (s s' : MemStore) : Prop :=
  (∀ k tx, s.getTransaction k = some tx → tx.asDecryption? = none → s'.getTransaction k = some tx) ∧
    ∀ k, (s.getTransaction k).isSome → (s'.getTransaction k).isSome

variable {s s' : MemStore}

theorem Extends.keepsReads (hs : s.Extends s') : s.KeepsReads s' :=
  ⟨fun k tx h _ => hs k tx h, fun k h => by
    obtain ⟨tx, htx⟩ := Option.isSome_iff_exists.1 h
    simp [hs _ _ htx]⟩

/-- A lookup of any kind but a decryption finds in `s'` what it found in `s`. -/
theorem getAs_of_keepsReads {id : Identifier} {α : Type} {project : SignedTransaction → Option α} {a : α}
    (hs : s.KeepsReads s') (h : s.getAs id project = .ok a) (hproj : ∀ d, project (.decryption d) = none) :
    s'.getAs id project = .ok a := by
  obtain ⟨tx, htx, hp⟩ := getAs_eq_ok.1 h
  refine getAs_eq_ok.2 ⟨tx, hs.1 _ _ htx ?_, hp⟩
  cases tx <;> first | rfl | simp [hproj] at hp

theorem KeygenTrusteesDistinct.of_keepsReads (hs : s.KeepsReads s') (h : s'.KeygenTrusteesDistinct) :
    s.KeygenTrusteesDistinct := by
  intro k tx hk k' tx' hk' kg hkg kg' hkg'
  obtain rfl := SignedTransaction.asKeyGenPublicKey?_eq_some.1 hkg
  obtain rfl := SignedTransaction.asKeyGenPublicKey?_eq_some.1 hkg'
  exact h k _ (hs.1 _ _ hk rfl) k' _ (hs.1 _ _ hk' rfl) kg hkg kg' hkg'

/-- In a run from the empty store in which a transaction is replaced by a later
one only when it is a decryption, the store of the run keeps what the store of
each prefix had to read. -/
theorem keepsReads_foldl_set_append {pre post : List SignedTransaction}
    (h : (pre ++ post).Pairwise fun a b => a.id = b.id → a.asDecryption?.isSome) :
    (pre.foldl set empty).KeepsReads ((pre ++ post).foldl set empty) := by
  have hlater : ∀ k t, (pre.foldl set empty).getTransaction k = some t → t.asDecryption? = none →
      post.filter (·.id = k) = [] := by
    intro k t hk ht
    obtain ⟨hmem, rfl⟩ := mem_of_getTransaction_foldl_set_empty hk
    refine List.filter_eq_nil_iff.2 fun b hb hid => ?_
    simpa [ht] using (List.pairwise_append.1 h).2.2 t hmem b hb (of_decide_eq_true hid).symm
  refine ⟨fun k t hk ht => ?_, fun k hk => ?_⟩
  · rw [List.foldl_append, getTransaction_foldl_set, hlater k t hk ht]
    exact hk
  · rw [List.foldl_append, getTransaction_foldl_set]
    cases (post.filter (·.id = k)).getLast? <;> simp [hk]

end MemStore

variable {crypto : Cryptid} {s s' : MemStore}

namespace PartialDecryptionTransaction

variable {p : PartialDecryptionTransaction}

theorem upstreamCiphertext_of_keepsReads {e : ElectionTransaction} {c : Ciphertext} (hs : s.KeepsReads s')
    (h : upstreamCiphertext s e p = .ok c) : upstreamCiphertext s' e p = .ok c := by
  rcases upstreamCiphertext_eq_ok.1 h with ⟨ht, hi, v, hv, hc⟩ | ⟨ht, mix, hm, mc, hmc, heq, hc⟩
  · exact upstreamCiphertext_eq_ok.2 (.inl ⟨ht, hi, v, MemStore.getAs_of_keepsReads hs hv fun _ => rfl, hc⟩)
  · exact upstreamCiphertext_eq_ok.2 (.inr ⟨ht, mix, MemStore.getAs_of_keepsReads hs hm fun _ => rfl, mc, hmc, heq, hc⟩)

/-- An accepted partial decryption stays accepted in every store that keeps what
it read: no lookup of `validate_tx` asks for a decryption. -/
theorem validateTx_of_keepsReads (hs : s.KeepsReads s') (h : p.validateTx crypto s = .ok ()) :
    p.validateTx crypto s' = .ok () := by
  obtain ⟨e, he, T, hT, hid, hend, c, hc, kg, hkg, rest⟩ := validateTx_eq_ok.1 h
  exact validateTx_eq_ok.2 ⟨e, MemStore.getAs_of_keepsReads hs he fun _ => rfl, T, hT, hid, hs.2 _ hend, c,
    upstreamCiphertext_of_keepsReads hs hc, kg, MemStore.getAs_of_keepsReads hs hkg fun _ => rfl, rest⟩

/-- An accepted partial decryption stays accepted in every larger log. -/
theorem validateTx_of_extends (hs : s.Extends s') : p.validateTx crypto s = .ok () → p.validateTx crypto s' = .ok () :=
  validateTx_of_keepsReads hs.keepsReads

end PartialDecryptionTransaction

namespace DecryptionTransaction

variable {d : DecryptionTransaction}

theorem gatherPartials_of_keepsReads {e : ElectionTransaction} {partials : List PartialDecryptionTransaction}
    (hs : s.KeepsReads s') (h : gatherPartials s e d = .ok partials) : gatherPartials s' e d = .ok partials := by
  refine List.mapM_eq_ok.2 (List.Forall₂.imp (fun u pd hu => ?_) (List.mapM_eq_ok.1 h))
  obtain ⟨T, hT, hrest⟩ := Except.bind_eq_ok.1 hu
  obtain ⟨pid, hpid, hget⟩ := Except.bind_eq_ok.1 hrest
  exact Except.bind_eq_ok.2 ⟨T, hT, Except.bind_eq_ok.2 ⟨pid, hpid, MemStore.getAs_of_keepsReads hs hget fun _ => rfl⟩⟩

/-- When only keys sit under key identifiers, listing them never panics. -/
theorem keygenPublicKeys_ok (hkinds : s.KeygenIdsHoldKeys) (e : Identifier) :
    ∃ pks, keygenPublicKeys s e = .ok pks :=
  List.mapM_eq_ok_of_forall fun tx htx => by
    obtain ⟨k, hk, hns⟩ := MemStore.mem_getMultiple.1 htx
    obtain ⟨kg, hkg⟩ := Option.isSome_iff_exists.1 (hkinds k tx hk (MemStore.InNamespace_eq_true.1 hns).2)
    exact ⟨kg, SignedTransaction.into_eq_ok.2 hkg⟩

/-- With no two keys of one trustee in one election, the listing of an
election's keys gives the trustee of a key stored there that key. -/
theorem collectByTrustee_keygenPublicKeys_of_distinct (hdistinct : s.KeygenTrusteesDistinct)
    {E i : Identifier} {kg : KeyGenPublicKeyTransaction} (hi : s.getTransaction i = some (.keyGenPublicKey kg))
    (hns : MemStore.InNamespace E .keyGenPublicKey i) {pks : List KeyGenPublicKeyTransaction}
    (hpks : keygenPublicKeys s E = .ok pks) : collectByTrustee (·.trusteeId) pks kg.trusteeId = some kg := by
  rw [MemStore.InNamespace_eq_true] at hns
  refine collectByTrustee_of_unique ((mem_keygenPublicKeys hpks).2 ⟨i, hi, by simp [hns]⟩) fun b hb hbk => ?_
  obtain ⟨j, hj, hnsj⟩ := (mem_keygenPublicKeys hpks).1 hb
  rw [MemStore.InNamespace_eq_true] at hnsj
  obtain rfl : i = j := hdistinct i _ hi j _ hj kg rfl b rfl hns.2 (by simp [hns, hnsj]) hbk.symm
  exact SignedTransaction.keyGenPublicKey.inj (Option.some.inj (hj.symm.trans hi))

/-- When the partial decryptions of a log have their trustees' keys there, each
partial decryption a decryption gathers has its trustee's key stored under a
`KeyGenPublicKey` identifier of the decryption's election. -/
theorem key_of_mem_gatherPartials (hcover : s.PartialsHaveKeys) {e : ElectionTransaction}
    {partials : List PartialDecryptionTransaction} (hg : gatherPartials s e d = .ok partials)
    {pd : PartialDecryptionTransaction} (hpd : pd ∈ partials) :
    ∃ i kg, s.getTransaction i = some (.keyGenPublicKey kg) ∧
      MemStore.InNamespace d.electionId .keyGenPublicKey i ∧ kg.trusteeId = pd.trusteeId := by
  obtain ⟨_, -, _, -, pid, hpid, hget⟩ := (mem_gatherPartials hg).1 hpd
  obtain ⟨_, hpidtx, hproj⟩ := MemStore.getAs_eq_ok.1 hget
  obtain rfl := SignedTransaction.asPartialDecryption?_eq_some.1 hproj
  obtain ⟨i, _, hi, hns, kg, hkg, hkgid⟩ := hcover pid _ hpidtx pd rfl
  obtain rfl := SignedTransaction.asKeyGenPublicKey?_eq_some.1 hkg
  obtain ⟨_, _, rfl⟩ := PartialDecryptionTransaction.buildId_eq_ok.1 hpid
  exact ⟨i, kg, hi, by simpa using hns, hkgid⟩

/-- **An accepted decryption stays accepted in a store that keeps what it read**,
when that store holds only keys under key identifiers and no election there has
two keys of one trustee, and every partial decryption of the first store had its
trustee's key there: the listing of keys then gives every trustee with a partial
decryption the same key. -/
theorem validateTx_of_keepsReads (hs : s.KeepsReads s') (hcover : s.PartialsHaveKeys)
    (hdistinct : s'.KeygenTrusteesDistinct) (hkinds : s'.KeygenIdsHoldKeys)
    (hd : d.validateTx crypto s = .ok ()) : d.validateTx crypto s' = .ok () := by
  obtain ⟨e, he, hend, vote, hv, pks, hpks, partials, hg, hlen, hdec⟩ := validateTx_eq_ok.1 hd
  obtain ⟨pks', hpks'⟩ := keygenPublicKeys_ok hkinds d.electionId
  have hsame : ∀ T ∈ e.trustees, (collectByTrustee (·.trusteeId) partials T.id).isSome →
      collectByTrustee (·.trusteeId) pks' T.id = collectByTrustee (·.trusteeId) pks T.id := by
    intro T _ hT
    obtain ⟨pd, hpd⟩ := Option.isSome_iff_exists.1 hT
    obtain ⟨hpdmem, hpdid⟩ := collectByTrustee_mem hpd
    obtain ⟨i, kg, hi, hns, hkgid⟩ := key_of_mem_gatherPartials hcover hg hpdmem
    rw [← hpdid, ← hkgid, collectByTrustee_keygenPublicKeys_of_distinct hdistinct (hs.1 _ _ hi rfl) hns hpks',
      collectByTrustee_keygenPublicKeys_of_distinct (hdistinct.of_keepsReads hs) hi hns hpks]
  refine validateTx_eq_ok.2 ⟨e, MemStore.getAs_of_keepsReads hs he fun _ => rfl, hs.2 _ hend, vote,
    MemStore.getAs_of_keepsReads hs hv (fun _ => rfl), pks', hpks', partials, gatherPartials_of_keepsReads hs hg,
    hlen, ?_⟩
  rw [decryptVote_eq_ok] at hdec ⊢
  rwa [rosterShares_congr hsame]

/-- An accepted decryption stays accepted in a larger log, under the same conditions. -/
theorem validateTx_of_extends (hs : s.Extends s') (hcover : s.PartialsHaveKeys)
    (hdistinct : s'.KeygenTrusteesDistinct) (hkinds : s'.KeygenIdsHoldKeys) :
    d.validateTx crypto s = .ok () → d.validateTx crypto s' = .ok () :=
  validateTx_of_keepsReads hs.keepsReads hcover hdistinct hkinds

section Order

variable (hsame : ∀ k, s'.getTransaction k = s.getTransaction k)
include hsame

/-- With no two keys of one trustee in one election, two stores that answer
every lookup alike list an election's keys alike up to their order: the same
panic, or keys the map by trustee id reads alike. -/
theorem keygenPublicKeys_congr (hdistinct : s.KeygenTrusteesDistinct) (e : Identifier) :
    keygenPublicKeys s' e = keygenPublicKeys s e ∨ ∃ pks' pks, keygenPublicKeys s' e = .ok pks' ∧
      keygenPublicKeys s e = .ok pks ∧ collectByTrustee (·.trusteeId) pks' = collectByTrustee (·.trusteeId) pks := by
  simp only [keygenPublicKeys_eq, MemStore.mem_getMultiple_congr hsame]
  split_ifs
  · refine .inr ⟨_, _, rfl, rfl, collectByTrustee_congr (fun kg => ?_) fun a ha b hb hab => ?_⟩
    · simp only [List.mem_filterMap, MemStore.mem_getMultiple_congr hsame]
    · simp only [List.mem_filterMap, SignedTransaction.asKeyGenPublicKey?_eq_some, exists_eq_right,
        MemStore.mem_getMultiple_congr hsame, MemStore.mem_getMultiple] at ha hb
      obtain ⟨k, hk, hns⟩ := ha
      obtain ⟨k', hk', hns'⟩ := hb
      exact hdistinct.key_eq hk hk' hns hns' hab
  · exact .inl rfl

/-- With no two keys of one trustee in one election, `validate_tx` of a
decryption gives the same answer on two stores that answer every lookup alike,
whatever order `get_multiple` lists their keys in. -/
theorem validateTx_congr (hdistinct : s.KeygenTrusteesDistinct) : d.validateTx crypto s' = d.validateTx crypto s := by
  rcases keygenPublicKeys_congr hsame hdistinct d.electionId with hkeys | ⟨pks', pks, h', h, hc⟩
  · simp only [validateTx, MemStore.getElection, MemStore.getVote, MemStore.getAs_congr (hsame _), hsame, hkeys,
      gatherPartials_frame fun k _ => hsame k]
  · simp only [validateTx, MemStore.getElection, MemStore.getVote, MemStore.getAs_congr (hsame _), hsame, h', h,
      Except.ok_bind, gatherPartials_frame fun k _ => hsame k, decryptVote, hc]

end Order

end DecryptionTransaction

/-- **Acceptance survives the growth of the log.**  In every extension of a log,
every partial decryption accepted on the log is accepted; and every accepted
decryption is accepted too, when the partial decryptions of the log have their
trustees' keys there, and the extension stores only keys under key identifiers
and no two keys of one trustee in one election. -/
theorem validateTx_stable (hs : s.Extends s') :
    (∀ p : PartialDecryptionTransaction, p.validateTx crypto s = .ok () → p.validateTx crypto s' = .ok ()) ∧
    (s.PartialsHaveKeys → s'.KeygenTrusteesDistinct → s'.KeygenIdsHoldKeys →
      ∀ d : DecryptionTransaction, d.validateTx crypto s = .ok () → d.validateTx crypto s' = .ok ()) :=
  ⟨fun _ => PartialDecryptionTransaction.validateTx_of_extends hs,
    fun hcover hdistinct hkinds _ => DecryptionTransaction.validateTx_of_extends hs hcover hdistinct hkinds⟩

/-- The sample log after trustee 3 has also published its partial decryption. -/
def sampleLaterStore : MemStore :=
  sampleDecryptingStore.set (.partialDecryption (samplePartial (sampleTrustee 3)))

theorem sample_validateTx_stable :
    sampleDecryption.validateTx sampleCrypto sampleLaterStore = .ok () :=
  (validateTx_stable (by decide : sampleDecryptingStore.Extends sampleLaterStore)).2 (by decide) (by decide)
    (by decide) sampleDecryption (by decide)

/-- An extension of the sample log that keeps its partial decryptions covered and
its keys distinct, and in which the accepted decryption panics: `into()` meets
the vote in the listing of the election's keys. -/
theorem keygen_namespace_breaks_decryption :
    sampleDecryptingStore.Extends (sampleDecryptingStore.set (.vote strayVote)) ∧
      sampleDecryptingStore.PartialsHaveKeys ∧
      (sampleDecryptingStore.set (.vote strayVote)).KeygenTrusteesDistinct ∧
      sampleDecryption.validateTx sampleCrypto sampleDecryptingStore = .ok () ∧
      sampleDecryption.validateTx sampleCrypto (sampleDecryptingStore.set (.vote strayVote)) =
        .error (.panic "wrong transaction type expected") := by
  decide

end CryptoBallot
