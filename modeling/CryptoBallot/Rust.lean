import Mathlib.Data.Vector.Defs
import Mathlib.Data.List.Forall2

/-!
# What a call of the Rust code can end in

The functions of `cryptoballot` return `Result<T, E>`, and where they call
`unwrap`, index a slice, take a subslice or `swap_remove` an element they can
also panic.  A call is modelled as `Except (Fault E) T`: `.ok` is `Ok`,
`.error (.err e)` is `Err(e)` and `.error (.panic msg)` is a panic.  The
standard-library operations the source uses are below, each panicking exactly
where Rust's does; every other function of the model is written with them, so
a claim that some call "never panics" is a statement about these few places.
-/

namespace CryptoBallot

/-- How a call that did not return `Ok` ended: an `Err` of the function's own
error type, or a panic with the standard library's message. -/
inductive Fault (ε : Type) where
  | err (e : ε)
  | panic (msg : String)
deriving DecidableEq, Repr

instance instDecidableEqExcept {ε α : Type} [DecidableEq ε] [DecidableEq α] : DecidableEq (Except ε α)
  | .error a, .error b => if h : a = b then isTrue (h ▸ rfl) else isFalse fun h' => h (Except.error.inj h')
  | .ok a, .ok b => if h : a = b then isTrue (h ▸ rfl) else isFalse fun h' => h (Except.ok.inj h')
  | .error _, .ok _ => isFalse nofun
  | .ok _, .error _ => isFalse nofun

variable {ε α β : Type}

/-- **A `do` step returned `Ok` iff its first action did and so did the rest.** -/
theorem Except.bind_eq_ok {x : Except ε α} {f : α → Except ε β} {b : β} :
    x >>= f = .ok b ↔ ∃ a, x = .ok a ∧ f a = .ok b := by
  cases x <;> simp [bind, Except.bind]

theorem Except.map_eq_ok {x : Except ε α} {f : α → β} {b : β} :
    f <$> x = .ok b ↔ ∃ a, x = .ok a ∧ f a = b := by
  cases x <;> simp [Functor.map, Except.map]

@[simp] theorem Except.throw_ne_ok {e : ε} {a : α} : (throw e : Except ε α) ≠ .ok a :=
  fun h => Except.noConfusion h

/-- Two continuations that agree on every value the first step can return. -/
theorem Except.bind_congr {x : Except ε α} {f g : α → Except ε β} (h : ∀ a, x = .ok a → f a = g a) :
    x >>= f = x >>= g := by
  cases x with
  | error e => rfl
  | ok a => exact h a rfl

@[simp] theorem Except.ok_bind (a : α) (f : α → Except ε β) : Except.ok a >>= f = f a :=
  rfl

@[simp] theorem Except.pure_eq_ok {a b : α} : (pure a : Except ε α) = .ok b ↔ a = b := by
  simp [pure, Except.pure]

/-- **A `?` loop returned `Ok` iff every step did**, pairing each input with its output. -/
theorem List.mapM_eq_ok {f : α → Except ε β} : ∀ {l : List α} {r : List β},
    l.mapM f = .ok r ↔ List.Forall₂ (fun a b => f a = .ok b) l r
  | [], r => by rw [List.mapM_nil, Except.pure_eq_ok, List.forall₂_nil_left_iff, eq_comm]
  | a :: l, r => by
      simp only [List.mapM_cons, Except.bind_eq_ok, Except.pure_eq_ok]
      cases r with
      | nil => simp
      | cons b r =>
        simp only [List.forall₂_cons, List.mapM_eq_ok (l := l), List.cons.injEq]
        constructor
        · rintro ⟨b', hb, r', hr, rfl, rfl⟩; exact ⟨hb, hr⟩
        · rintro ⟨hb, hr⟩; exact ⟨b, hb, r, hr, rfl, rfl⟩

/-- The outputs of a `?` loop that returned `Ok` are the outputs of its inputs. -/
theorem List.mem_of_mapM_eq_ok {f : α → Except ε β} : ∀ {l : List α} {r : List β},
    l.mapM f = .ok r → ∀ {b : β}, b ∈ r ↔ ∃ a ∈ l, f a = .ok b
  | [], r, h, b => by
      rw [List.mapM_nil, Except.pure_eq_ok] at h
      simp [← h]
  | a :: l, r, h, b => by
      simp only [List.mapM_cons, Except.bind_eq_ok, Except.pure_eq_ok] at h
      obtain ⟨b', hb', r', hr', rfl⟩ := h
      rw [List.mem_cons, List.mem_of_mapM_eq_ok hr']
      constructor
      · rintro (rfl | ⟨x, hx, hfx⟩)
        · exact ⟨a, List.mem_cons_self _ _, hb'⟩
        · exact ⟨x, List.mem_cons_of_mem _ hx, hfx⟩
      · rintro ⟨x, hx, hfx⟩
        rcases List.mem_cons.1 hx with rfl | hx
        · exact .inl (Except.ok.inj (hfx.symm.trans hb'))
        · exact .inr ⟨x, hx, hfx⟩

/-- Every input of a `?` loop that returned `Ok` returned `Ok`. -/
theorem List.exists_of_mapM_eq_ok {f : α → Except ε β} : ∀ {l : List α} {r : List β},
    l.mapM f = .ok r → ∀ {a : α}, a ∈ l → ∃ b, f a = .ok b
  | [], _, _, _, ha => absurd ha (List.not_mem_nil _)
  | a :: l, r, h, x, hx => by
      simp only [List.mapM_cons, Except.bind_eq_ok, Except.pure_eq_ok] at h
      obtain ⟨b, hb, r', hr', rfl⟩ := h
      rcases List.mem_cons.1 hx with rfl | hx
      · exact ⟨b, hb⟩
      · exact List.exists_of_mapM_eq_ok hr' hx

/-- A `?` loop whose every step returns `Ok` returns `Ok`. -/
theorem List.mapM_eq_ok_of_forall {f : α → Except ε β} : ∀ {l : List α},
    (∀ a ∈ l, ∃ b, f a = .ok b) → ∃ r, l.mapM f = .ok r
  | [], _ => ⟨[], rfl⟩
  | a :: l, h => by
      obtain ⟨b, hb⟩ := h a (List.mem_cons_self _ _)
      obtain ⟨r, hr⟩ := List.mapM_eq_ok_of_forall fun x hx => h x (List.mem_cons_of_mem _ hx)
      exact ⟨b :: r, by rw [List.mapM_cons, hb, hr]; rfl⟩

theorem List.length_of_mapM_eq_ok {f : α → Except ε β} {l : List α} {r : List β}
    (h : l.mapM f = .ok r) : r.length = l.length :=
  (List.mapM_eq_ok.1 h).length_eq.symm

/-- `Option::unwrap` (and `Result::unwrap` where the error is not kept). -/
def unwrap (x : Option α) : Except (Fault ε) α :=
  match x with
  | some a => .ok a
  | none => .error (.panic "called unwrap on a None value")

/-- `option.ok_or(e)?`: the value, or the error `e`. -/
def okOr (x : Option α) (e : ε) : Except (Fault ε) α :=
  match x with
  | some a => .ok a
  | none => .error (.err e)

/-- `if !c { return Err(e) }`: the early return of a failed check. -/
def require (c : Prop) [Decidable c] (e : ε) : Except (Fault ε) Unit :=
  if c then .ok () else .error (.err e)

/-- `v[i]`, which panics past the end. -/
def index (v : List α) (i : Nat) : Except (Fault ε) α :=
  if h : i < v.length then .ok (v.get ⟨i, h⟩) else .error (.panic "index out of bounds")

/-- `&v[lo..hi]`, which panics when `hi` is past the end or `lo > hi`. -/
def slice (v : List α) (lo hi : Nat) : Except (Fault ε) (List α) :=
  if lo ≤ hi ∧ hi ≤ v.length then .ok ((v.take hi).drop lo)
  else .error (.panic "range index out of range for slice")

/-- `&v[lo..]`, which panics when `lo` is past the end. -/
def sliceFrom (v : List α) (lo : Nat) : Except (Fault ε) (List α) :=
  if lo ≤ v.length then .ok (v.drop lo) else .error (.panic "range start index out of range for slice")

/-- `<[T; n]>::try_from(slice)`: succeeds exactly on slices of length `n`. -/
def tryInto (n : Nat) (v : List α) : Option (Mathlib.Vector α n) :=
  if h : v.length = n then some ⟨v, h⟩ else none

/-- `v.swap_remove(i)`: the element at `i`, the last element moved into its
place; panics past the end.  Only the removed element is returned here, the
source drops the vector afterwards. -/
def swapRemove (v : List α) (i : Nat) : Except (Fault ε) α :=
  if h : i < v.length then .ok (v.get ⟨i, h⟩) else .error (.panic "swap_remove index out of bounds")

@[simp] theorem unwrap_eq_ok {x : Option α} {a : α} :
    (unwrap x : Except (Fault ε) α) = .ok a ↔ x = some a := by
  cases x <;> simp [unwrap]

@[simp] theorem require_eq_ok {c : Prop} [Decidable c] {e : ε} {u : Unit} :
    require c e = .ok u ↔ c := by
  unfold require; split <;> simp_all

@[simp] theorem okOr_eq_ok {x : Option α} {e : ε} {a : α} : okOr x e = .ok a ↔ x = some a := by
  cases x <;> simp [okOr]

@[simp] theorem swapRemove_eq_ok {v : List α} {i : Nat} {a : α} :
    (swapRemove v i : Except (Fault ε) α) = .ok a ↔ v[i]? = some a := by
  unfold swapRemove
  split
  · simp_all
  · simp_all [List.getElem?_eq_none]

@[simp] theorem tryInto_eq_some {n : Nat} {v : List α} {w : Mathlib.Vector α n} :
    tryInto n v = some w ↔ v = w.toList := by
  unfold tryInto
  split
  · exact ⟨fun h => by cases h; rfl, fun h => by subst h; rfl⟩
  · rename_i hl
    exact ⟨nofun, fun h => absurd (h ▸ w.2) hl⟩

/-- A call that may panic but never returns `Err`: the standard-library steps above. -/
def NeverErr (x : Except (Fault ε) α) : Prop :=
  ∀ e, x ≠ .error (.err e)

theorem NeverErr.bind {x : Except (Fault ε) α} {f : α → Except (Fault ε) β}
    (hx : NeverErr x) (hf : ∀ a, NeverErr (f a)) : NeverErr (x >>= f) := by
  intro e h
  cases x with
  | error e' => exact hx e (by rw [Except.error.inj h])
  | ok a => exact hf a e h

theorem neverErr_pure (a : α) : NeverErr (pure a : Except (Fault ε) α) :=
  fun _ h => Except.noConfusion h

theorem neverErr_unwrap (x : Option α) : NeverErr (unwrap x : Except (Fault ε) α) := by
  intro e; cases x <;> simp [unwrap]

theorem neverErr_index (v : List α) (i : Nat) : NeverErr (index v i : Except (Fault ε) α) := by
  intro e; unfold index; split <;> simp

theorem neverErr_slice (v : List α) (lo hi : Nat) : NeverErr (slice v lo hi : Except (Fault ε) _) := by
  intro e; unfold slice; split <;> simp

theorem neverErr_sliceFrom (v : List α) (lo : Nat) : NeverErr (sliceFrom v lo : Except (Fault ε) _) := by
  intro e; unfold sliceFrom; split <;> simp

/-- A `?` loop whose steps never return `Err` never does. -/
theorem NeverErr.mapM {f : α → Except (Fault ε) β} : ∀ {l : List α},
    (∀ a ∈ l, NeverErr (f a)) → NeverErr (l.mapM f)
  | [], _ => neverErr_pure _
  | a :: l, h => by
      rw [List.mapM_cons]
      exact (h a (List.mem_cons_self _ _)).bind fun _ =>
        (NeverErr.mapM fun x hx => h x (.tail _ hx)).bind fun _ => neverErr_pure _

/-- The call panicked, with any message. -/
def Panics (x : Except (Fault ε) α) : Prop :=
  ∃ msg, x = .error (.panic msg)

/-- **A `do` step panicked iff its first action did, or returned and the rest panicked.** -/
theorem panics_bind {x : Except (Fault ε) α} {f : α → Except (Fault ε) β} :
    Panics (x >>= f) ↔ Panics x ∨ ∃ a, x = .ok a ∧ Panics (f a) := by
  rcases x with (e | msg) | a <;> simp [Panics, bind, Except.bind]

@[simp] theorem not_panics_ok (a : α) : ¬Panics (.ok a : Except (Fault ε) α) :=
  fun ⟨_, h⟩ => Except.noConfusion h

@[simp] theorem not_panics_err (e : ε) : ¬Panics (.error (.err e) : Except (Fault ε) α) := by
  simp [Panics]

@[simp] theorem not_panics_pure (a : α) : ¬Panics (pure a : Except (Fault ε) α) :=
  not_panics_ok a

@[simp] theorem not_panics_throw_err (e : ε) : ¬Panics (throw (.err e) : Except (Fault ε) α) :=
  not_panics_err e

@[simp] theorem panics_map {x : Except (Fault ε) α} {f : α → β} : Panics (f <$> x) ↔ Panics x := by
  rcases x with (e | msg) | a <;> simp [Panics, Functor.map, Except.map]

@[simp] theorem not_panics_require {c : Prop} [Decidable c] (e : ε) : ¬Panics (require c e) := by
  unfold require; split <;> simp

@[simp] theorem not_panics_okOr (x : Option α) (e : ε) : ¬Panics (okOr x e) := by
  cases x <;> simp [okOr]

@[simp] theorem panics_unwrap {x : Option α} : Panics (unwrap x : Except (Fault ε) α) ↔ x = none := by
  cases x <;> simp [unwrap, Panics]

@[simp] theorem panics_swapRemove {v : List α} {i : Nat} :
    Panics (swapRemove v i : Except (Fault ε) α) ↔ v.length ≤ i := by
  unfold swapRemove; split <;> simp_all [Panics]

/-- A `?` loop whose steps never panic never does. -/
theorem not_panics_mapM {f : α → Except (Fault ε) β} : ∀ {l : List α},
    (∀ a ∈ l, ¬Panics (f a)) → ¬Panics (l.mapM f)
  | [], _ => not_panics_pure _
  | a :: l, h => by
      rw [List.mapM_cons, panics_bind]
      rintro (ha | ⟨b, -, hrest⟩)
      · exact h a (List.mem_cons_self _ _) ha
      · rw [panics_bind] at hrest
        obtain hl | ⟨_, -, hp⟩ := hrest
        · exact not_panics_mapM (fun x hx => h x (.tail _ hx)) hl
        · exact not_panics_pure _ hp

/-- A call that never returns `Err` returns `Ok` or panics. -/
theorem NeverErr.panics_or_ok {x : Except (Fault ε) α} (h : NeverErr x) : Panics x ∨ ∃ a, x = .ok a := by
  rcases x with (e | msg) | a
  · exact absurd rfl (h e)
  · exact .inl ⟨msg, rfl⟩
  · exact .inr ⟨a, rfl⟩

/-- A `?` loop whose steps never return `Err` panics exactly when one of its steps does. -/
theorem panics_mapM_of_neverErr {f : α → Except (Fault ε) β} : ∀ {l : List α},
    (∀ a ∈ l, NeverErr (f a)) → (Panics (l.mapM f) ↔ ∃ a ∈ l, Panics (f a))
  | [], _ => by rw [List.mapM_nil]; simp
  | a :: l, h => by
      have ih := panics_mapM_of_neverErr fun x hx => h x (.tail _ hx)
      simp only [List.mapM_cons, panics_bind, not_panics_pure, exists_const, and_false, or_false,
        exists_and_right, ih, List.mem_cons, exists_eq_or_imp]
      rcases (h a (List.mem_cons_self _ _)).panics_or_ok with ha | ha
      · simp [ha]
      · simp [ha, not_panics_ok]

end CryptoBallot
