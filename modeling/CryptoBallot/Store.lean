import CryptoBallot.Transaction

/-!
# The store

The validators read the log through the `Store` trait, and `command_e2e` uses
`MemStore`; neither is in `src/`.  Modelled from the spec (§6): a map from
identifiers to transactions (the list of its entries, keys distinct, carried as
a field), `set` storing a transaction under its own id,
`get_multiple(election_id, type)` listing what is stored under the identifiers
of one election and one type, and the typed accessors failing with
`TransactionNotFound` or `WrongTransactionKind`.  The spec's store is
append-only (§3: no in-place mutation; §6: `set` is append-only) and does not
say what `set` does with an identifier already taken; here it replaces the
entry, as a map's insert does.  That is this model's choice, not the spec's: a
store that refused the second transaction, or kept the first, would differ on
every run that reuses an identifier.  The order of `get_multiple` is
the order of the entries, which the spec leaves open: the validators' results
do not depend on it under the hypotheses that need it.
-/

namespace CryptoBallot

/-- Modelled from the spec: `MemStore`. -/
structure MemStore where
  inner : List (Identifier × SignedTransaction)
  nodup : (inner.map Prod.fst).Nodup

namespace MemStore

instance : DecidableEq MemStore := fun a b =>
  decidable_of_iff (a.inner = b.inner) ⟨fun h => by cases a; cases b; cases h; rfl, congrArg _⟩

/-- `MemStore::default()`. -/
def empty : MemStore :=
  ⟨[], List.nodup_nil⟩

/-- `get_transaction(id)`. -/
def getTransaction (self : MemStore) (id : Identifier) : Option SignedTransaction :=
  (self.inner.find? (·.1 == id)).map Prod.snd

/-- `set(tx)`: the transaction stored under its own id, replacing the entry
there (a choice of this model; the spec only calls `set` append-only). -/
def set (self : MemStore) (tx : SignedTransaction) : MemStore where
  inner := (tx.id, tx) :: self.inner.filter (·.1 != tx.id)
  nodup := by
    refine List.nodup_cons.2 ⟨?_, self.nodup.sublist ((List.filter_sublist _).map _)⟩
    simp

/-- Whether an identifier names a transaction of the election `electionId` and
of the type `txType`. -/
def InNamespace (electionId : Identifier) (txType : TransactionType) (id : Identifier) : Bool :=
  id.electionId == electionId.electionId && id.transactionType == txType

@[simp] theorem InNamespace_eq_true {e k : Identifier} {t : TransactionType} :
    InNamespace e t k = true ↔ k.electionId = e.electionId ∧ k.transactionType = t := by
  simp [InNamespace]

/-- `get_multiple(election_id, tx_type)`. -/
def getMultiple (self : MemStore) (electionId : Identifier) (txType : TransactionType) :
    List SignedTransaction :=
  (self.inner.filter (InNamespace electionId txType ·.1)).map Prod.snd

/-- The typed accessors, one definition: the transaction under `id`, as the
kind `project` keeps. -/
def getAs {α : Type} (self : MemStore) (id : Identifier)
    (project : SignedTransaction → Option α) : Outcome α :=
  match self.getTransaction id with
  | none => .error (.err (.transactionNotFound id))
  | some tx => okOr (project tx) (.wrongTransactionKind id)

/-- `get_election(id)`. -/
def getElection (self : MemStore) (id : Identifier) : Outcome ElectionTransaction :=
  self.getAs id SignedTransaction.asElection?

/-- `get_vote(id)`. -/
def getVote (self : MemStore) (id : Identifier) : Outcome VoteTransaction :=
  self.getAs id SignedTransaction.asVote?

/-- `get_mix(id)`. -/
def getMix (self : MemStore) (id : Identifier) : Outcome MixTransaction :=
  self.getAs id SignedTransaction.asMix?

/-- `get_keygen_public_key(id)`. -/
def getKeygenPublicKey (self : MemStore) (id : Identifier) : Outcome KeyGenPublicKeyTransaction :=
  self.getAs id SignedTransaction.asKeyGenPublicKey?

/-- `get_partial_decryption(id)`. -/
def getPartialDecryption (self : MemStore) (id : Identifier) :
    Outcome PartialDecryptionTransaction :=
  self.getAs id SignedTransaction.asPartialDecryption?

/-- `s'` holds every transaction of `s` under the same identifier. -/
def Extends (s s' : MemStore) : Prop :=
  ∀ id tx, s.getTransaction id = some tx → s'.getTransaction id = some tx

variable {s s' : MemStore} {id k : Identifier} {tx : SignedTransaction} {α : Type}
  {project : SignedTransaction → Option α} {a : α}


/-- The entries of a key-distinct list, looked up by `find?`. -/
theorem find?_map_snd_eq_some : ∀ {l : List (Identifier × SignedTransaction)},
    (l.map Prod.fst).Nodup → ((l.find? (·.1 == id)).map Prod.snd = some tx ↔ (id, tx) ∈ l)
  | [], _ => by simp
  | (k, t) :: rest, hnd => by
      rw [List.map_cons, List.nodup_cons] at hnd
      by_cases hk : k = id
      · subst hk
        have : (k, tx) ∉ rest := fun h => hnd.1 (List.mem_map.2 ⟨_, h, rfl⟩)
        simp [List.find?_cons, this, eq_comm]
      · simp [List.find?_cons, hk, find?_map_snd_eq_some hnd.2, Ne.symm hk]

@[simp] theorem getTransaction_empty : empty.getTransaction id = none :=
  rfl

theorem getTransaction_eq_some : s.getTransaction id = some tx ↔ (id, tx) ∈ s.inner :=
  find?_map_snd_eq_some s.nodup

/-- A statement about every stored transaction is one about the entries. -/
theorem forall_getTransaction {P : Identifier → SignedTransaction → Prop} :
    (∀ k tx, s.getTransaction k = some tx → P k tx) ↔ ∀ e ∈ s.inner, P e.1 e.2 :=
  ⟨fun h e he => h e.1 e.2 (getTransaction_eq_some.2 he), fun h k tx hk => h (k, tx) (getTransaction_eq_some.1 hk)⟩

theorem exists_getTransaction {P : Identifier → SignedTransaction → Prop} :
    (∃ k tx, s.getTransaction k = some tx ∧ P k tx) ↔ ∃ e ∈ s.inner, P e.1 e.2 :=
  ⟨fun ⟨k, tx, hk, hp⟩ => ⟨(k, tx), getTransaction_eq_some.1 hk, hp⟩,
    fun ⟨e, he, hp⟩ => ⟨e.1, e.2, getTransaction_eq_some.2 he, hp⟩⟩

instance (s s' : MemStore) : Decidable (s.Extends s') :=
  decidable_of_iff' _ forall_getTransaction

@[simp] theorem getTransaction_set :
    (s.set tx).getTransaction k = if k = tx.id then some tx else s.getTransaction k := by
  refine Option.ext fun t => ?_
  rw [Option.mem_def, Option.mem_def, getTransaction_eq_some]
  split_ifs with hk
  · subst hk; simp [set, Prod.ext_iff, eq_comm]
  · simp [set, hk, getTransaction_eq_some]

theorem getAs_eq_ok :
    s.getAs id project = .ok a ↔ ∃ tx, s.getTransaction id = some tx ∧ project tx = some a := by
  unfold getAs
  split <;> simp_all

/-- A typed lookup returns a transaction or an `Err`; it never panics. -/
@[simp] theorem not_panics_getAs : ¬Panics (s.getAs id project) := by
  unfold getAs; split <;> simp

@[simp] theorem getAs_set_of_ne (h : id ≠ tx.id) : (s.set tx).getAs id project = s.getAs id project := by
  simp [getAs, h]

theorem mem_getMultiple {e : Identifier} {t : TransactionType} :
    tx ∈ s.getMultiple e t ↔ ∃ k, s.getTransaction k = some tx ∧ InNamespace e t k := by
  simp [getMultiple, getTransaction_eq_some]

/-- Storing a transaction outside a namespace leaves that namespace's listing as it was. -/
theorem getMultiple_set_of_not_mem {e : Identifier} {t : TransactionType}
    (h : InNamespace e t tx.id = false) : (s.set tx).getMultiple e t = s.getMultiple e t := by
  simp only [getMultiple, set, List.filter_cons, h, Bool.false_eq_true, if_false, List.filter_filter]
  congr 2
  funext x
  by_cases hx : InNamespace e t x.1 = true
  · have : x.1 ≠ tx.id := fun hq => by simp [hq, h] at hx
    simp [hx, this]
  · simp [hx]

theorem getTransaction_set_of_ne (h : k ≠ tx.id) : (s.set tx).getTransaction k = s.getTransaction k := by
  simp [h]

@[simp] theorem getAs_toOption : (s.getAs id project).toOption = (s.getTransaction id).bind project := by
  unfold getAs
  split <;> rename_i tx h
  · rw [h]; rfl
  · rw [h, Option.some_bind]
    cases project tx <;> rfl

/-- A typed lookup reads only the transaction under its identifier. -/
theorem getAs_congr (h : s'.getTransaction id = s.getTransaction id) :
    s'.getAs id project = s.getAs id project := by
  simp [getAs, h]

/-- Two stores that answer every lookup alike list every namespace with the same transactions. -/
theorem mem_getMultiple_congr (hsame : ∀ k, s'.getTransaction k = s.getTransaction k) {e : Identifier}
    {t : TransactionType} : tx ∈ s'.getMultiple e t ↔ tx ∈ s.getMultiple e t := by
  simp only [mem_getMultiple, hsame]

/-- When every transaction sits under its own identifier, `get_multiple` lists none twice. -/
theorem getMultiple_nodup (hown : ∀ k tx, s.getTransaction k = some tx → tx.id = k) {e : Identifier}
    {t : TransactionType} : (s.getMultiple e t).Nodup := by
  refine List.Nodup.map_on (fun x hx y hy hxy => ?_) ((s.nodup.of_map _).filter _)
  have hx' := hown x.1 x.2 (getTransaction_eq_some.2 (List.mem_of_mem_filter hx))
  have hy' := hown y.1 y.2 (getTransaction_eq_some.2 (List.mem_of_mem_filter hy))
  exact Prod.ext (hx'.symm.trans (hxy ▸ hy')) hxy

/-- Stores holding the same entries in any order answer every lookup alike. -/
theorem getTransaction_eq_of_perm (h : s'.inner.Perm s.inner) (k : Identifier) :
    s'.getTransaction k = s.getTransaction k :=
  Option.ext fun tx => by simp only [Option.mem_def, getTransaction_eq_some, h.mem_iff]

section Runs

variable {txs : List SignedTransaction}

/-- Storing transactions under other identifiers leaves a lookup as it was. -/
theorem getTransaction_foldl_set_of_forall_ne (h : ∀ tx ∈ txs, tx.id ≠ k) :
    (txs.foldl set s).getTransaction k = s.getTransaction k := by
  induction txs generalizing s with
  | nil => rfl
  | cons x xs ih =>
    rw [List.foldl_cons, ih fun tx htx => h tx (List.mem_cons_of_mem _ htx),
      getTransaction_set_of_ne (Ne.symm (h x (List.mem_cons_self _ _)))]

/-- After storing transactions, one that is the only transaction stored under
its identifier is found there. -/
theorem getTransaction_foldl_set_of_unique (htx : tx ∈ txs) (hu : ∀ t ∈ txs, t.id = tx.id → t = tx) :
    (txs.foldl set s).getTransaction tx.id = some tx := by
  induction txs generalizing s with
  | nil => cases htx
  | cons x xs ih =>
    rw [List.foldl_cons]
    by_cases hxs : tx ∈ xs
    · exact ih hxs fun t ht => hu t (List.mem_cons_of_mem _ ht)
    · obtain rfl : x = tx := (List.mem_cons.1 htx).resolve_right hxs ▸ rfl
      rw [getTransaction_foldl_set_of_forall_ne fun t ht hq =>
        hxs (hu t (List.mem_cons_of_mem _ ht) hq ▸ ht)]
      simp

/-- Storing transactions outside a namespace leaves that namespace's listing as it was. -/
theorem getMultiple_foldl_set_of_not_mem {e : Identifier} {t : TransactionType}
    (h : ∀ tx ∈ txs, InNamespace e t tx.id = false) :
    (txs.foldl set s).getMultiple e t = s.getMultiple e t := by
  induction txs generalizing s with
  | nil => rfl
  | cons x xs ih =>
    rw [List.foldl_cons, ih fun tx htx => h tx (List.mem_cons_of_mem _ htx),
      getMultiple_set_of_not_mem (h x (List.mem_cons_self _ _))]

/-- **After storing a list, an identifier answers the last transaction of the
list stored under it**, and what it answered before when the list has none. -/
theorem getTransaction_foldl_set :
    (txs.foldl set s).getTransaction k = ((txs.filter (·.id = k)).getLast?).or (s.getTransaction k) := by
  induction txs generalizing s with
  | nil => simp
  | cons x xs ih =>
    rw [List.foldl_cons, ih, getTransaction_set]
    by_cases hx : x.id = k
    · subst hx
      simp only [List.filter_cons, decide_True, if_true, List.getLast?_cons, ↓reduceIte]
      cases (xs.filter fun y => y.id = x.id).getLast? <;> rfl
    · simp [List.filter_cons, hx, Ne.symm hx]

theorem getTransaction_foldl_set_empty :
    (txs.foldl set empty).getTransaction k = (txs.filter (·.id = k)).getLast? := by
  rw [getTransaction_foldl_set, getTransaction_empty, Option.or_none]

/-- In the store a run builds from the empty one, each transaction sits under
its own id and is one of the run's. -/
theorem mem_of_getTransaction_foldl_set_empty (h : (txs.foldl set empty).getTransaction k = some tx) :
    tx ∈ txs ∧ tx.id = k := by
  rw [getTransaction_foldl_set_empty] at h
  simpa using List.mem_filter.1 (List.mem_of_getLast?_eq_some h)

end Runs

end MemStore
end CryptoBallot
