import Mathlib.Data.List.Nodup

/-!
# Lists with unique keys

A linked list searched by a key stands for a finite map as long as no two of
its elements have one key.  `UniqueKeys key l` is that invariant; `get`, `adjust`
and `remove` are the three things a program does at a key.

Every fact about a change at one element follows from the same picture: an
element splits the list into what is before and after it, and neither part
has its key (`UniqueKeys.split`).  `adjust_split` and `remove_split` compute the
changes on that picture; the `get_*` lemmas read the same changes as updates
of the map.

## Main results

* `UniqueKeys.split` — the list around one of its elements.
* `adjust_split`, `remove_split` — a change touches that element only.
* `get_adjust`, `get_remove`, `get_rekey` — the changes as map updates.
-/

namespace MutTracker.Logic.Keyed

variable {α κ : Type} {key : α → κ} {l l₁ l₂ : List α} {x : α} {k k' : κ}

/-- No two elements have one key. -/
def UniqueKeys (key : α → κ) (l : List α) : Prop := (l.map key).Nodup

theorem uniqueKeys_cons :
    UniqueKeys key (x :: l) ↔ (∀ y ∈ l, key y ≠ key x) ∧ UniqueKeys key l := by
  simp [UniqueKeys]

/-- Before and after an element there is none with its key. -/
theorem UniqueKeys.split (h : UniqueKeys key l) (hx : x ∈ l) :
    ∃ l₁ l₂, l = l₁ ++ x :: l₂ ∧ (∀ y ∈ l₁, key y ≠ key x) ∧ ∀ y ∈ l₂, key y ≠ key x := by
  obtain ⟨l₁, l₂, rfl⟩ := List.append_of_mem hx
  refine ⟨l₁, l₂, rfl, fun y hy heq => ?_, fun y hy heq => ?_⟩
  · have hdisj := (List.nodup_append.1 (by simpa [UniqueKeys] using h)).2.2
    exact hdisj (key y) (List.mem_map_of_mem hy) (key x) (by simp) heq
  · have htail : UniqueKeys key (x :: l₂) :=
      (List.nodup_append.1 (by simpa [UniqueKeys] using h)).2.1
    exact (uniqueKeys_cons.1 htail).1 y hy heq

section

variable [DecidableEq κ]

/-- The first element with key `k`. -/
def get (key : α → κ) (k : κ) (l : List α) : Option α := l.find? fun x => key x = k

/-- Apply `f` to the elements with key `k`. -/
def adjust (key : α → κ) (k : κ) (f : α → α) (l : List α) : List α :=
  l.map fun x => if key x = k then f x else x

/-- Unlink the first element with key `k`. -/
def remove (key : α → κ) (k : κ) (l : List α) : List α := l.eraseP fun x => key x = k

/-! ## Looking up -/

@[simp] theorem get_nil : get key k [] = none := rfl

theorem get_cons : get key k (x :: l) = if key x = k then some x else get key k l := by
  unfold get
  by_cases h : key x = k <;> simp [h]

theorem get_eq_none : get key k l = none ↔ ∀ x ∈ l, key x ≠ k := by
  simp [get]

theorem mem_of_get (h : get key k l = some x) : x ∈ l := List.mem_of_find?_eq_some h

theorem key_of_get (h : get key k l = some x) : key x = k := by
  simpa using List.find?_some h

theorem get_append_of_none (h : ∀ y ∈ l₁, key y ≠ k) : get key k (l₁ ++ l₂) = get key k l₂ := by
  induction l₁ with
  | nil => rfl
  | cons y ys ih =>
      rw [List.cons_append, get_cons, if_neg (h y List.mem_cons_self)]
      exact ih fun z hz => h z (List.mem_cons_of_mem y hz)

/-! ## The list around an element -/

theorem UniqueKeys.get_of_mem (h : UniqueKeys key l) (hx : x ∈ l) : get key (key x) l = some x := by
  obtain ⟨l₁, l₂, rfl, h₁, -⟩ := h.split hx
  rw [get_append_of_none h₁, get_cons, if_pos rfl]

theorem UniqueKeys.get_eq_some (h : UniqueKeys key l) :
    get key k l = some x ↔ x ∈ l ∧ key x = k := by
  refine ⟨fun hget => ⟨mem_of_get hget, key_of_get hget⟩, ?_⟩
  rintro ⟨hx, rfl⟩
  exact h.get_of_mem hx

theorem adjust_of_none (f : α → α) (h : ∀ y ∈ l, key y ≠ k) : adjust key k f l = l := by
  unfold adjust
  exact (List.map_congr_left fun y hy => if_neg (h y hy)).trans (List.map_id l)

/-- Adjusting at an element's key changes that element only. -/
theorem adjust_split (f : α → α) (h₁ : ∀ y ∈ l₁, key y ≠ key x)
    (h₂ : ∀ y ∈ l₂, key y ≠ key x) :
    adjust key (key x) f (l₁ ++ x :: l₂) = l₁ ++ f x :: l₂ := by
  have hleft := adjust_of_none f h₁
  have hright := adjust_of_none f h₂
  unfold adjust at hleft hright ⊢
  rw [List.map_append, List.map_cons, hleft, hright, if_pos rfl]

/-- Removing at an element's key unlinks that element only. -/
theorem remove_split (h₁ : ∀ y ∈ l₁, key y ≠ key x) :
    remove key (key x) (l₁ ++ x :: l₂) = l₁ ++ l₂ := by
  unfold remove
  rw [List.eraseP_append_right _ fun y hy => by simpa using h₁ y hy,
    List.eraseP_cons_of_pos (by simp)]

theorem remove_of_none (h : ∀ y ∈ l, key y ≠ k) : remove key k l = l :=
  List.eraseP_of_forall_not fun y hy => by simpa using h y hy

/-! ## Changes as map updates -/

theorem uniqueKeys_remove (h : UniqueKeys key l) : UniqueKeys key (remove key k l) :=
  h.sublist (List.eraseP_sublist.map key)

theorem get_adjust {f : α → α} (hf : ∀ x, key (f x) = key x) :
    get key k' (adjust key k f l) =
      if k' = k then (get key k l).map f else get key k' l := by
  induction l with
  | nil => simp [adjust]
  | cons y ys ih =>
      have hcons : adjust key k f (y :: ys) =
          (if key y = k then f y else y) :: adjust key k f ys := rfl
      rw [hcons, get_cons, ih, get_cons, get_cons]
      by_cases hk : k' = k
      · by_cases hy : key y = k <;> simp [hy, hk, hf]
      · by_cases hy : key y = k <;> simp [hy, hk, Ne.symm hk, hf]

theorem get_remove (h : UniqueKeys key l) :
    get key k' (remove key k l) = if k' = k then none else get key k' l := by
  cases hget : get key k l with
  | none =>
      rw [remove_of_none (get_eq_none.1 hget)]
      by_cases hk : k' = k
      · rw [if_pos hk, hk, hget]
      · rw [if_neg hk]
  | some x =>
      obtain rfl := key_of_get hget
      obtain ⟨l₁, l₂, rfl, h₁, h₂⟩ := h.split (mem_of_get hget)
      rw [remove_split h₁]
      by_cases hk : k' = key x
      · subst hk
        rw [if_pos rfl]
        exact get_eq_none.2 fun y hy => (List.mem_append.1 hy).elim (h₁ y) (h₂ y)
      · rw [if_neg hk]
        simp [get, List.find?_append, Ne.symm hk]

/-- Giving an element a key of its own moves it in the map. -/
theorem get_rekey {f : α → α} (h : UniqueKeys key l) (hx : get key k l = some x)
    (hnew : key (f x) = k ∨ get key (key (f x)) l = none) :
    get key k' (adjust key k f l) =
      if k' = key (f x) then some (f x) else if k' = k then none else get key k' l := by
  obtain rfl := key_of_get hx
  obtain ⟨l₁, l₂, rfl, h₁, h₂⟩ := h.split (mem_of_get hx)
  rw [adjust_split f h₁ h₂]
  have hfree : ∀ y ∈ l₁, key y ≠ key (f x) := fun y hy => by
    rcases hnew with hold | hnone
    · rw [hold]; exact h₁ y hy
    · exact get_eq_none.1 hnone y (List.mem_append_left _ hy)
  by_cases hk : k' = key (f x)
  · subst hk
    rw [if_pos rfl, get_append_of_none hfree, get_cons, if_pos rfl]
  · rw [if_neg hk]
    by_cases hold : k' = key x
    · subst hold
      rw [if_pos rfl, get_append_of_none h₁, get_cons, if_neg (Ne.symm hk)]
      exact get_eq_none.2 h₂
    · rw [if_neg hold]
      simp [get, List.find?_append, Ne.symm hk, Ne.symm hold]

theorem uniqueKeys_rekey {f : α → α} (h : UniqueKeys key l) (hx : get key k l = some x)
    (hnew : key (f x) = k ∨ get key (key (f x)) l = none) :
    UniqueKeys key (adjust key k f l) := by
  obtain rfl := key_of_get hx
  obtain ⟨l₁, l₂, rfl, h₁, h₂⟩ := h.split (mem_of_get hx)
  rw [adjust_split f h₁ h₂]
  have hfree : ∀ y ∈ l₁ ++ l₂, key y ≠ key (f x) := fun y hy => by
    rcases hnew with hold | hnone
    · rw [hold]; exact (List.mem_append.1 hy).elim (h₁ y) (h₂ y)
    · refine get_eq_none.1 hnone y ?_
      rcases List.mem_append.1 hy with hy | hy <;> simp [hy]
  unfold UniqueKeys at h ⊢
  rw [List.perm_middle.map key |>.nodup_iff] at h ⊢
  rw [List.map_cons, List.nodup_cons] at h ⊢
  refine ⟨fun hmem => ?_, h.2⟩
  obtain ⟨y, hy, heq⟩ := List.mem_map.1 hmem
  exact hfree y hy heq

end

end MutTracker.Logic.Keyed
