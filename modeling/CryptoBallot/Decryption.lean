import CryptoBallot.PartialDecryption

/-!
# Transaction 9: decryption, and `decrypt_vote`

`src/cryptoballot/src/decryption.rs`, lines 190-332.  `validate_tx` looks up the
election, requires its `VotingEnd`, looks up the vote, collects every
`KeyGenPublicKey` transaction of the election through `get_multiple` and
`into()`, and for each listed trustee id the partial decryption stored at
`build_id(election_id, vote_id, index)`.  It counts the list, not the distinct
trustees, against the threshold, and compares `decrypt_vote` with the claimed
plaintext.  It never looks at `self.id` (`// TODO: Validate ID`).

`decrypt_vote` keys both lists by trustee id in a `HashMap` (a later entry
replaces an earlier one), walks the election roster in order and adds the share
of every trustee present in both maps, at the trustee's roster index.
-/

namespace CryptoBallot

/-- `iter.map(|tx| (tx.trustee_id, tx)).collect::<HashMap<_, _>>()`, read by `get`:
a later entry under an id replaces an earlier one. -/
def collectByTrustee {α : Type} (key : α → Uuid) (txs : List α) : Uuid → Option α :=
  txs.foldl (fun map tx id => if id = key tx then some tx else map id) fun _ => none

/-- Lines 317-327: the share each roster trustee contributes, in roster order,
when both maps hold its id. -/
def rosterShares (pubkeys : Uuid → Option KeyGenPublicKeyTransaction)
    (partials : Uuid → Option PartialDecryptionTransaction) (trustees : List Trustee) : List Share :=
  trustees.filterMap fun trustee =>
    match partials trustee.id, pubkeys trustee.id with
    | some pd, some pubkey => some (trustee.index.toNat, pubkey.publicKeyProof, pd.partialDecryption)
    | _, _ => none

/-- `decrypt_vote(encrypted_vote, trustees_threshold, trustees, pubkeys, partials)`. -/
def decryptVote (crypto : Cryptid) (encryptedVote : Ciphertext) (trusteesThreshold : Nat)
    (trustees : List Trustee) (pubkeys : List KeyGenPublicKeyTransaction)
    (partials : List PartialDecryptionTransaction) : Outcome (List UInt8) :=
  let pubkeys := collectByTrustee (·.trusteeId) pubkeys
  let partials := collectByTrustee (·.trusteeId) partials
  let decrypt := trustees.foldl (fun decrypt trustee =>
    match partials trustee.id, pubkeys trustee.id with
    | some pd, some pubkey =>
        decrypt.addShare trustee.index.toNat pubkey.publicKeyProof pd.partialDecryption
    | _, _ => decrypt) (Decryption.new trusteesThreshold encryptedVote)
  (decrypt.finish crypto).mapError fun e => .err (.voteDecryptionFailed e)

/-- A map collected from a list answers with the last entry under the id. -/
theorem collectByTrustee_eq {α : Type} (key : α → Uuid) (txs : List α) (id : Uuid) :
    collectByTrustee key txs id = (txs.filter (key · = id)).getLast? := by
  suffices ∀ m : Uuid → Option α, txs.foldl (fun map tx id => if id = key tx then some tx else map id) m id =
      ((txs.filter (key · = id)).getLast?).or (m id) by
    simpa using this fun _ => none
  induction txs with
  | nil => simp
  | cons x xs ih =>
    intro m
    rw [List.foldl_cons, ih]
    by_cases hx : key x = id
    · subst hx
      simp only [List.filter_cons, decide_True, if_true, List.getLast?_cons, ↓reduceIte]
      cases (xs.filter fun y => key y = key x).getLast? <;> rfl
    · simp [List.filter_cons, hx, Ne.symm hx]

section Collect

variable {α : Type} {key : α → Uuid} {l l' : List α} {a : α} {u : Uuid}

/-- What the map answers under an id is an entry of the list with that id. -/
theorem collectByTrustee_mem (h : collectByTrustee key l u = some a) : a ∈ l ∧ key a = u := by
  rw [collectByTrustee_eq] at h
  simpa using List.mem_of_getLast?_eq_some h

theorem collectByTrustee_eq_none (h : ∀ b ∈ l, key b ≠ u) : collectByTrustee key l u = none := by
  rw [collectByTrustee_eq, List.getLast?_eq_none_iff, List.filter_eq_nil_iff]
  simpa using h

/-- An entry that is the only one under its id is what the map answers. -/
theorem collectByTrustee_of_unique (ha : a ∈ l) (hu : ∀ b ∈ l, key b = key a → b = a) :
    collectByTrustee key l (key a) = some a := by
  cases h : collectByTrustee key l (key a) with
  | none =>
    rw [collectByTrustee_eq, List.getLast?_eq_none_iff, List.filter_eq_nil_iff] at h
    exact absurd (by simp) (h a ha)
  | some b =>
    obtain ⟨hb, hk⟩ := collectByTrustee_mem h
    rw [hu b hb hk]

/-- Two lists with the same entries, no two under one id, give the same map:
the order of the lists does not matter then. -/
theorem collectByTrustee_congr (hl : ∀ a, a ∈ l ↔ a ∈ l')
    (hinj : ∀ a ∈ l, ∀ b ∈ l, key a = key b → a = b) :
    collectByTrustee key l = collectByTrustee key l' := by
  funext u
  by_cases h : ∃ a ∈ l, key a = u
  · obtain ⟨a, ha, rfl⟩ := h
    rw [collectByTrustee_of_unique ha fun b hb hk => hinj b hb a ha hk,
      collectByTrustee_of_unique ((hl a).1 ha) fun b hb hk => hinj b ((hl b).2 hb) a ha hk]
  · push_neg at h
    rw [collectByTrustee_eq_none h, collectByTrustee_eq_none fun b hb => h b ((hl b).2 hb)]

/-- Reordering a list with distinct ids and adding entries under other ids
leaves what the map answers under an id that none of the added entries has. -/
theorem collectByTrustee_perm_append {l x : List α} (hl : (l.map key).Nodup) (hperm : l'.Perm (l ++ x))
    (hu : ∀ b ∈ x, key b ≠ u) : collectByTrustee key l' u = collectByTrustee key l u := by
  have hmem : ∀ b ∈ l', key b = u → b ∈ l := fun b hb hk =>
    (List.mem_append.1 (hperm.subset hb)).resolve_right fun hx => hu b hx hk
  by_cases h : ∃ a ∈ l, key a = u
  · obtain ⟨a, ha, rfl⟩ := h
    have huniq : ∀ b ∈ l, key b = key a → b = a := fun b hb hk => List.inj_on_of_nodup_map hl hb ha hk
    rw [collectByTrustee_of_unique ha huniq, collectByTrustee_of_unique
      (hperm.symm.subset (List.mem_append_left _ ha)) fun b hb hk => huniq b (hmem b hb hk) hk]
  · push_neg at h
    rw [collectByTrustee_eq_none h, collectByTrustee_eq_none fun b hb hk => h b (hmem b hb hk) hk]

end Collect

/-- Only the keys of the trustees with a partial decryption matter. -/
theorem rosterShares_congr {pubkeys pubkeys' : Uuid → Option KeyGenPublicKeyTransaction}
    {partials : Uuid → Option PartialDecryptionTransaction} {trustees : List Trustee}
    (h : ∀ T ∈ trustees, (partials T.id).isSome → pubkeys T.id = pubkeys' T.id) :
    rosterShares pubkeys partials trustees = rosterShares pubkeys' partials trustees := by
  refine List.filterMap_congr fun T hT => ?_
  cases hp : partials T.id with
  | none => rfl
  | some pd => rw [h T hT (by simp [hp])]

/-- The roster walk reads the two maps only at the roster's ids. -/
theorem rosterShares_congr_at {pubkeys pubkeys' : Uuid → Option KeyGenPublicKeyTransaction}
    {partials partials' : Uuid → Option PartialDecryptionTransaction} {trustees : List Trustee}
    (h : ∀ T ∈ trustees, pubkeys' T.id = pubkeys T.id ∧ partials' T.id = partials T.id) :
    rosterShares pubkeys' partials' trustees = rosterShares pubkeys partials trustees :=
  List.filterMap_congr fun T hT => by simp only [(h T hT).1, (h T hT).2]

/-- The roster walk adds exactly `rosterShares`, in roster order. -/
theorem foldl_addShare (pubkeys : Uuid → Option KeyGenPublicKeyTransaction)
    (partials : Uuid → Option PartialDecryptionTransaction) (trustees : List Trustee) (d : Decryption) :
    trustees.foldl (fun decrypt trustee =>
      match partials trustee.id, pubkeys trustee.id with
      | some pd, some pubkey =>
          decrypt.addShare trustee.index.toNat pubkey.publicKeyProof pd.partialDecryption
      | _, _ => decrypt) d =
    { d with shares := d.shares ++ rosterShares pubkeys partials trustees } := by
  induction trustees generalizing d with
  | nil => simp [rosterShares]
  | cons t ts ih =>
    rw [List.foldl_cons, ih]
    cases hp : partials t.id <;> cases hk : pubkeys t.id <;>
      simp [rosterShares, Decryption.addShare, hp, hk]

/-- **`decrypt_vote` is `finish` over the roster's shares.** -/
theorem decryptVote_eq_ok {crypto : Cryptid} {c : Ciphertext} {t : Nat} {trustees : List Trustee}
    {pubkeys : List KeyGenPublicKeyTransaction} {partials : List PartialDecryptionTransaction}
    {m : List UInt8} :
    decryptVote crypto c t trustees pubkeys partials = .ok m ↔
      (⟨t, c, rosterShares (collectByTrustee (·.trusteeId) pubkeys)
        (collectByTrustee (·.trusteeId) partials) trustees⟩ : Decryption).finish crypto = .ok m := by
  simp only [decryptVote, foldl_addShare, Decryption.new, List.nil_append]
  cases Decryption.finish crypto _ <;> simp [Except.mapError]

theorem decryptVote_congr {crypto : Cryptid} {c : Ciphertext} {t : Nat} {trustees : List Trustee}
    {pubkeys : List KeyGenPublicKeyTransaction} {partials partials' : List PartialDecryptionTransaction}
    (h : collectByTrustee (·.trusteeId) partials = collectByTrustee (·.trusteeId) partials') :
    decryptVote crypto c t trustees pubkeys partials = decryptVote crypto c t trustees pubkeys partials' := by
  simp only [decryptVote, h]

/-- `decrypt_vote` returns the plaintext or an `Err`; it never panics. -/
@[simp] theorem not_panics_decryptVote {crypto : Cryptid} {c : Ciphertext} {t : Nat}
    {trustees : List Trustee} {pubkeys : List KeyGenPublicKeyTransaction}
    {partials : List PartialDecryptionTransaction} : ¬Panics (decryptVote crypto c t trustees pubkeys partials) := by
  simp only [decryptVote]
  cases Decryption.finish crypto _ <;> simp [Except.mapError]

/-- `decrypt_vote` reads the keys and the partial decryptions only under the roster's ids. -/
theorem decryptVote_congr_roster {crypto : Cryptid} {c : Ciphertext} {t : Nat} {trustees : List Trustee}
    {K K' : List KeyGenPublicKeyTransaction} {P P' : List PartialDecryptionTransaction}
    (hK : ∀ T ∈ trustees, collectByTrustee (·.trusteeId) K' T.id = collectByTrustee (·.trusteeId) K T.id)
    (hP : ∀ T ∈ trustees, collectByTrustee (·.trusteeId) P' T.id = collectByTrustee (·.trusteeId) P T.id) :
    decryptVote crypto c t trustees K' P' = decryptVote crypto c t trustees K P := by
  simp only [decryptVote, foldl_addShare, rosterShares_congr_at fun T hT => ⟨hK T hT, hP T hT⟩]

namespace DecryptionTransaction

/-- `new(election_id, vote_id, trustees, decrypted_vote)`. -/
def new (electionId voteId : Identifier) (trustees : List Uuid) (decryptedVote : List UInt8) :
    DecryptionTransaction :=
  { id := Identifier.new electionId .decryption voteId.toBytes, electionId, voteId, trustees,
    decryptedVote }

/-- Lines 224-232, `inputs()`: the election and the vote. -/
def inputs (self : DecryptionTransaction) : List Identifier :=
  [self.electionId, self.voteId]

/-- Lines 248-253: the election's `KeyGenPublicKey` transactions, each through
`into()`. -/
def keygenPublicKeys (store : MemStore) (electionId : Identifier) :
    Outcome (List KeyGenPublicKeyTransaction) :=
  (store.getMultiple electionId .keyGenPublicKey).mapM
    (SignedTransaction.into SignedTransaction.asKeyGenPublicKey?)

/-- Lines 256-270: for each listed trustee id, the partial decryption stored at
`build_id(election_id, vote_id, index)` of its roster entry. -/
def gatherPartials (store : MemStore) (election : ElectionTransaction)
    (self : DecryptionTransaction) : Outcome (List PartialDecryptionTransaction) :=
  self.trustees.mapM fun trusteeId => do
    let trustee ← okOr (election.getTrustee trusteeId) (.trusteeDoesNotExist trusteeId)
    let partialId ← PartialDecryptionTransaction.buildId self.electionId self.voteId trustee.index
    store.getPartialDecryption partialId

/-- `validate_tx(store)`. -/
def validateTx (crypto : Cryptid) (self : DecryptionTransaction) (store : MemStore) :
    Outcome Unit := do
  let election ← store.getElection self.electionId
  require (store.getTransaction (votingEndId self.electionId)).isSome .misingVotingEndTransaction
  let vote ← store.getVote self.voteId
  let pubkeys ← keygenPublicKeys store self.electionId
  let partials ← gatherPartials store election self
  let requiredShares := election.trusteesThreshold
  require (¬partials.length < requiredShares) (.notEnoughShares requiredShares partials.length)
  let decrypted ← decryptVote crypto vote.encryptedVote election.trusteesThreshold
    election.trustees pubkeys partials
  require (decrypted = self.decryptedVote) .voteDecryptionMismatch

variable {crypto : Cryptid} {d : DecryptionTransaction} {s : MemStore}

/-- **What an accepted decryption satisfies**: every check of `validate_tx`,
with the values it found. -/
theorem validateTx_eq_ok :
    d.validateTx crypto s = .ok () ↔
      ∃ election, s.getElection d.electionId = .ok election ∧
        (s.getTransaction (votingEndId d.electionId)).isSome ∧
      ∃ vote, s.getVote d.voteId = .ok vote ∧
      ∃ pubkeys, keygenPublicKeys s d.electionId = .ok pubkeys ∧
      ∃ partials, gatherPartials s election d = .ok partials ∧
        election.trusteesThreshold ≤ partials.length ∧
        decryptVote crypto vote.encryptedVote election.trusteesThreshold election.trustees pubkeys
          partials = .ok d.decryptedVote := by
  simp only [validateTx, Except.bind_eq_ok, require_eq_ok, exists_const, not_lt, exists_eq_right]

/-- The listed keys are the `KeyGenPublicKey` transactions stored in the election's namespace. -/
theorem mem_keygenPublicKeys {e : Identifier} {pks : List KeyGenPublicKeyTransaction}
    {kg : KeyGenPublicKeyTransaction} (h : keygenPublicKeys s e = .ok pks) :
    kg ∈ pks ↔ ∃ k, s.getTransaction k = some (.keyGenPublicKey kg) ∧
      MemStore.InNamespace e .keyGenPublicKey k := by
  simp only [List.mem_of_mapM_eq_ok h, SignedTransaction.into_eq_ok, MemStore.mem_getMultiple,
    SignedTransaction.asKeyGenPublicKey?_eq_some]
  constructor
  · rintro ⟨_, ⟨k, hk, hns⟩, rfl⟩
    exact ⟨k, hk, hns⟩
  · rintro ⟨k, hk, hns⟩
    exact ⟨_, ⟨k, hk, hns⟩, rfl⟩

/-- The gathered partial decryptions are those stored at the identifiers built
from the listed trustees' roster indices. -/
theorem mem_gatherPartials {election : ElectionTransaction} {partials : List PartialDecryptionTransaction}
    {pd : PartialDecryptionTransaction} (h : gatherPartials s election d = .ok partials) :
    pd ∈ partials ↔ ∃ u ∈ d.trustees, ∃ T, election.getTrustee u = some T ∧
      ∃ pid, PartialDecryptionTransaction.buildId d.electionId d.voteId T.index = .ok pid ∧
        s.getPartialDecryption pid = .ok pd := by
  simp only [List.mem_of_mapM_eq_ok h, Except.bind_eq_ok, okOr_eq_ok]

/-- Listing the keys returns them or panics; it never returns `Err`. -/
theorem neverErr_keygenPublicKeys (e : Identifier) : NeverErr (keygenPublicKeys s e) :=
  NeverErr.mapM fun tx _ => SignedTransaction.neverErr_into _ tx

/-- Listing the keys panics exactly when a transaction of another kind sits
under a `KeyGenPublicKey` identifier of the election. -/
theorem keygenPublicKeys_panics_iff {e : Identifier} :
    Panics (keygenPublicKeys s e) ↔ ∃ tx ∈ s.getMultiple e .keyGenPublicKey, tx.asKeyGenPublicKey? = none := by
  rw [keygenPublicKeys, panics_mapM_of_neverErr fun tx _ => SignedTransaction.neverErr_into _ tx]
  simp only [SignedTransaction.panics_into]

/-- Gathering the partial decryptions panics exactly when the vote identifier
has no unique id and the first listed trustee is on the roster: `build_id` then
unwraps `None`, and a first trustee missing from the roster ends the loop with
an `Err` before. -/
theorem gatherPartials_panics_iff {election : ElectionTransaction} :
    Panics (gatherPartials s election d) ↔ d.voteId.uniqueId = none ∧
      ∃ u rest, d.trustees = u :: rest ∧ (election.getTrustee u).isSome := by
  unfold gatherPartials
  cases hu : d.voteId.uniqueId with
  | some uid =>
    simp only [reduceCtorEq, false_and, iff_false]
    refine not_panics_mapM fun u _ => ?_
    simp [panics_bind, PartialDecryptionTransaction.buildId_panics, hu, MemStore.getPartialDecryption]
  | none =>
    cases d.trustees with
    | nil =>
      rw [List.mapM_nil]
      simp
    | cons u rest =>
      simp only [List.mapM_cons, true_and, List.cons.injEq, exists_and_left, exists_eq', and_true]
      cases ht : election.getTrustee u <;>
        simp [ht, panics_bind, Except.bind_eq_ok, okOr, PartialDecryptionTransaction.buildId_eq_ok, hu]

/-- **When `validate_tx` of a decryption panics**: exactly when the election,
its `VotingEnd` and the vote are found, and then listing the keys or gathering
the partial decryptions panics; `decrypt_vote` and every check return `Err`. -/
theorem validateTx_panics_iff :
    Panics (d.validateTx crypto s) ↔ ∃ e, s.getElection d.electionId = .ok e ∧
      (s.getTransaction (votingEndId d.electionId)).isSome ∧ (∃ v, s.getVote d.voteId = .ok v) ∧
      (Panics (keygenPublicKeys s d.electionId) ∨ Panics (gatherPartials s e d)) := by
  simp only [validateTx, panics_bind, MemStore.getElection, MemStore.getVote, MemStore.not_panics_getAs,
    not_panics_require, require_eq_ok, not_panics_decryptVote, false_or, and_false, exists_false,
    or_false, exists_const, exists_and_right]
  refine exists_congr fun e => and_congr_right fun _ => and_congr_right fun _ => and_congr_right fun _ => ?_
  rcases (neverErr_keygenPublicKeys (s := s) d.electionId).panics_or_ok with hk | ⟨pks, hk⟩
  · exact iff_of_true (.inl hk) (.inl hk)
  · simp [hk]

/-- `validate_tx` reads every field but `id`. -/
theorem validateTx_with_id (x : Identifier) :
    ({ d with id := x } : DecryptionTransaction).validateTx crypto s = d.validateTx crypto s :=
  rfl

/-- Listing an election's keys: the keys, when every transaction listed under
its `KeyGenPublicKey` identifiers is one, otherwise the panic of `into()`. -/
theorem keygenPublicKeys_eq (s : MemStore) (e : Identifier) :
    keygenPublicKeys s e =
      if ∀ tx ∈ s.getMultiple e .keyGenPublicKey, tx.asKeyGenPublicKey?.isSome then
        .ok ((s.getMultiple e .keyGenPublicKey).filterMap SignedTransaction.asKeyGenPublicKey?)
      else .error (.panic "wrong transaction type expected") :=
  SignedTransaction.mapM_into _

/-- Gathering reads the store only under the election's `PartialDecryption` identifiers. -/
theorem gatherPartials_frame {s' : MemStore}
    (hp : ∀ k, MemStore.InNamespace d.electionId .partialDecryption k → s'.getTransaction k = s.getTransaction k)
    (e : ElectionTransaction) : gatherPartials s' e d = gatherPartials s e d := by
  unfold gatherPartials
  congr 1
  funext u
  refine Except.bind_congr fun _ _ => Except.bind_congr fun pid hpid => MemStore.getAs_congr (hp pid ?_)
  obtain ⟨_, -, rfl⟩ := PartialDecryptionTransaction.buildId_eq_ok.1 hpid
  simp

/-- `validate_tx` of a decryption reads the store at the election, its
`VotingEnd` and the vote, under the election's `PartialDecryption`
identifiers, and through the listing of its `KeyGenPublicKey` identifiers. -/
theorem validateTx_frame {s' : MemStore}
    (he : s'.getTransaction d.electionId = s.getTransaction d.electionId)
    (hend : s'.getTransaction (votingEndId d.electionId) = s.getTransaction (votingEndId d.electionId))
    (hv : s'.getTransaction d.voteId = s.getTransaction d.voteId)
    (hp : ∀ k, MemStore.InNamespace d.electionId .partialDecryption k → s'.getTransaction k = s.getTransaction k)
    (hkeys : s'.getMultiple d.electionId .keyGenPublicKey = s.getMultiple d.electionId .keyGenPublicKey) :
    d.validateTx crypto s' = d.validateTx crypto s := by
  simp only [validateTx, MemStore.getElection, MemStore.getVote, MemStore.getAs_congr he, MemStore.getAs_congr hv,
    hend, keygenPublicKeys, hkeys, gatherPartials_frame hp]

/-- The identifier `new` builds keeps of `vote_id.to_bytes()` the first 16
bytes: the vote's 15 election bytes and its type byte, and nothing of the
vote's own unique id. -/
theorem new_id (electionId voteId : Identifier) (trustees : List Uuid) (decryptedVote : List UInt8) :
    (new electionId voteId trustees decryptedVote).id =
      ⟨electionId.electionId, .decryption,
        some ⟨voteId.electionId.toList ++ [voteId.transactionType.toU8], by simp⟩⟩ := by
  simp only [new, Identifier.new, Identifier.toBytes, uniqueOf, List.append_assoc, List.cons_append,
    List.take_append_eq_append_take, Mathlib.Vector.toList_length]
  simp [List.take_of_length_le]

end DecryptionTransaction
end CryptoBallot
