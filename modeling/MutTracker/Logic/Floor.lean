/-!
# Floors of ordered lists, and stable insertion

The floor of `a` in a list is an element with the greatest key not above `a`.
In a list ordered by its keys a scan finds it, or finds the first element from
`a` on.  `insertAfter` puts an element after all that have keys not above its
own, so that a list built with it is ordered and keeps elements of one key in
the order in which they came.

## Main results

* `floor_of_split` — where a scan of an ordered list stops is a floor.
* `insertAfter_pairwise`, `filter_insertAfter` — insertion keeps order and is
  stable.
* `find_ordered` — the first element from `a` on, in an ordered list.
-/

namespace MutTracker.Logic

open Std

variable {α κ : Type} [LE κ] [LT κ] [Std.IsLinearOrder κ] [LawfulOrderLT κ] {key : α → κ} {a : κ}
  {x y : α} {l before after : List α}

/-- `x` has the greatest key in the list that is not above `a`. -/
structure IsFloor (key : α → κ) (a : κ) (l : List α) (x : α) : Prop where
  mem : x ∈ l
  le : key x ≤ a
  greatest : ∀ y ∈ l, key y ≤ a → key y ≤ key x

omit [LT κ] [LawfulOrderLT κ] in
/-- Two floors have one key. -/
theorem IsFloor.key_eq (h : IsFloor key a l x) (h' : IsFloor key a l y) : key x = key y :=
  le_antisymm (h'.greatest x h.mem h.le) (h.greatest y h'.mem h'.le)

omit [Std.IsLinearOrder κ] in
/-- In a strictly ordered list no two elements have one key. -/
theorem eq_of_key (h : l.Pairwise fun x y => key x < key y) (hx : x ∈ l) (hy : y ∈ l)
    (hkey : key x = key y) : x = y := by
  induction l with
  | nil => cases hx
  | cons z l ih =>
      obtain ⟨hz, hl⟩ := List.pairwise_cons.1 h
      rcases List.mem_cons.1 hx with rfl | hxl
      · rcases List.mem_cons.1 hy with rfl | hyl
        · rfl
        · exact absurd (hkey ▸ hz y hyl) lt_irrefl
      · rcases List.mem_cons.1 hy with rfl | hyl
        · exact absurd (hkey ▸ hz x hxl) lt_irrefl
        · exact ih hl hxl hyl

/-- An element of an ordered list that is not above `a` while the next one is. -/
theorem floor_of_split (h : (before ++ x :: after).Pairwise fun x y => key x < key y)
    (hle : key x ≤ a) (hnext : ∀ y ∈ after.head?, a < key y) :
    IsFloor key a (before ++ x :: after) x := by
  obtain ⟨_, hafter, hbefore⟩ := List.pairwise_append.1 h
  refine ⟨List.mem_append_right _ List.mem_cons_self, hle, ?_⟩
  intro y hy hya
  rcases List.mem_append.1 hy with hy | hy
  · exact le_of_lt (hbefore y hy x List.mem_cons_self)
  · rcases List.mem_cons.1 hy with rfl | hy
    · exact le_refl _
    · cases after with
      | nil => cases hy
      | cons z after =>
          have hz : a < key z := hnext z rfl
          have hzy : key z ≤ key y := by
            rcases List.mem_cons.1 hy with rfl | hy
            · exact le_refl _
            · exact le_of_lt
                ((List.pairwise_cons.1 (List.pairwise_cons.1 hafter).2).1 y hy)
          exact absurd (lt_of_lt_of_le hz hzy) (not_lt.2 hya)

/-! ## Stable insertion -/

variable [DecidableLT κ]

/-- Put `x` before the first element whose key is above its own. -/
def insertAfter (key : α → κ) (x : α) : List α → List α
  | [] => [x]
  | y :: l => if key x < key y then x :: y :: l else y :: insertAfter key x l

omit [LE κ] [Std.IsLinearOrder κ] [LawfulOrderLT κ] in
theorem mem_insertAfter : y ∈ insertAfter key x l ↔ y = x ∨ y ∈ l := by
  induction l with
  | nil => simp [insertAfter]
  | cons z l ih =>
      unfold insertAfter
      split
      · exact List.mem_cons
      · rw [List.mem_cons, ih, List.mem_cons]
        exact or_left_comm

theorem insertAfter_pairwise (x : α) (h : l.Pairwise fun x y => key x ≤ key y) :
    (insertAfter key x l).Pairwise fun x y => key x ≤ key y := by
  induction l with
  | nil => exact List.pairwise_singleton _ _
  | cons y l ih =>
      obtain ⟨hy, hl⟩ := List.pairwise_cons.1 h
      unfold insertAfter
      split
      · rename_i hlt
        refine List.pairwise_cons.2 ⟨?_, h⟩
        intro z hz
        rcases List.mem_cons.1 hz with rfl | hz
        · exact le_of_lt hlt
        · exact le_trans (le_of_lt hlt) (hy z hz)
      · rename_i hnlt
        refine List.pairwise_cons.2 ⟨?_, ih hl⟩
        intro z hz
        rcases mem_insertAfter.1 hz with rfl | hz
        · exact not_lt.1 hnlt
        · exact hy z hz

/-- Among the elements of one key, the one inserted last comes last. -/
theorem filter_insertAfter [DecidableEq κ] (k : κ) (h : l.Pairwise fun x y => key x ≤ key y) :
    (insertAfter key x l).filter (key · = k) =
      l.filter (key · = k) ++ if key x = k then [x] else [] := by
  induction l with
  | nil => simp only [insertAfter, List.filter_cons, List.filter_nil, List.nil_append,
      decide_eq_true_eq]
  | cons y l ih =>
      obtain ⟨hy, hl⟩ := List.pairwise_cons.1 h
      unfold insertAfter
      split
      · rename_i hlt
        -- all that come after have keys above that of `x`
        have habove : ∀ z ∈ y :: l, key x < key z := by
          intro z hz
          rcases List.mem_cons.1 hz with rfl | hz
          · exact hlt
          · exact lt_of_lt_of_le hlt (hy z hz)
        rw [List.filter_cons]
        by_cases hk : key x = k
        · have hnone : (y :: l).filter (key · = k) = [] := by
            rw [List.filter_eq_nil_iff]
            intro z hz heq
            have hz' : key z = k := by simpa using heq
            have hlt' := habove z hz
            rw [hz', ← hk] at hlt'
            exact lt_irrefl hlt'
          rw [hnone, if_pos (by simpa using hk), if_pos hk]
          rfl
        · rw [if_neg (by simpa using hk), if_neg hk, List.append_nil]
      · rw [List.filter_cons, List.filter_cons, ih hl]
        split <;> rfl

/-- The elements inserted one by one into a list. -/
def insertAll (key : α → κ) (sorted l : List α) : List α :=
  l.foldl (fun sorted x => insertAfter key x sorted) sorted

section InsertAll

variable {sorted : List α}

omit [LE κ] [Std.IsLinearOrder κ] [LawfulOrderLT κ] in
theorem mem_insertAll : y ∈ insertAll key sorted l ↔ y ∈ l ∨ y ∈ sorted := by
  induction l generalizing sorted with
  | nil => simp [insertAll]
  | cons x l ih =>
      have hrest : y ∈ insertAll key (insertAfter key x sorted) l ↔ _ := ih
      rw [mem_insertAfter] at hrest
      show y ∈ insertAll key (insertAfter key x sorted) l ↔ _
      rw [hrest, List.mem_cons]
      exact or_left_comm.trans or_assoc.symm

theorem insertAll_pairwise (h : sorted.Pairwise fun x y => key x ≤ key y) (l : List α) :
    (insertAll key sorted l).Pairwise fun x y => key x ≤ key y := by
  induction l generalizing sorted with
  | nil => exact h
  | cons x l ih => exact ih (insertAfter_pairwise x h)

theorem filter_insertAll [DecidableEq κ] (k : κ) (h : sorted.Pairwise fun x y => key x ≤ key y)
    (l : List α) :
    (insertAll key sorted l).filter (key · = k) =
      sorted.filter (key · = k) ++ l.filter (key · = k) := by
  induction l generalizing sorted with
  | nil => exact (List.append_nil _).symm
  | cons x l ih =>
      show (insertAll key (insertAfter key x sorted) l).filter (key · = k) = _
      rw [ih (insertAfter_pairwise x h), filter_insertAfter k h, List.append_assoc,
        List.filter_cons]
      by_cases hk : key x = k
      · rw [if_pos hk, if_pos (by simpa using hk)]
        rfl
      · rw [if_neg hk, if_neg (by simpa using hk)]
        rfl

/-- The first element of a key is the first that came. -/
theorem find_insertAll [DecidableEq κ] (k : κ) (l : List α) :
    (insertAll key [] l).find? (key · = k) = l.find? (key · = k) := by
  rw [← List.head?_filter, ← List.head?_filter, filter_insertAll k List.Pairwise.nil]
  rfl

end InsertAll

/-! ## The first element from a key on -/

variable [DecidableLE κ]

omit [DecidableLT κ] in
/-- The first element of an ordered list with a key from `a` on has the least such key, and
is the first of that key. -/
theorem find_ordered [DecidableEq κ] (h : l.Pairwise fun x y => key x ≤ key y)
    (hfind : l.find? (fun x => a ≤ key x) = some x) :
    a ≤ key x ∧ (∀ y ∈ l, a ≤ key y → key x ≤ key y) ∧ l.find? (key · = key x) = some x := by
  obtain ⟨hx, before, after, rfl, hbefore⟩ := List.find?_eq_some_iff_append.1 hfind
  have hax : a ≤ key x := by simpa using hx
  have hbelow : ∀ y ∈ before, key y < a := by
    intro y hy
    have hnot := hbefore y hy
    simp only [Bool.not_eq_true', decide_eq_false_iff_not] at hnot
    exact not_le.1 hnot
  obtain ⟨_, hafter, _⟩ := List.pairwise_append.1 h
  refine ⟨hax, ?_, ?_⟩
  · intro y hy hay
    rcases List.mem_append.1 hy with hy | hy
    · exact absurd (lt_of_lt_of_le (hbelow y hy) hay) lt_irrefl
    · rcases List.mem_cons.1 hy with rfl | hy
      · exact le_refl _
      · exact (List.pairwise_cons.1 hafter).1 y hy
  · refine List.find?_eq_some_iff_append.2 ⟨by simp, before, after, rfl, ?_⟩
    intro y hy
    simp only [Bool.not_eq_true', decide_eq_false_iff_not]
    intro heq
    have hlt := hbelow y hy
    rw [heq] at hlt
    exact lt_irrefl (lt_of_lt_of_le hlt hax)

end MutTracker.Logic
