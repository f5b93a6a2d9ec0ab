/-!
# Binary search trees

Insertion into a binary search tree without any balancing, and the height of its
subtrees.  `Shallow` says that no node has subtrees whose heights differ by more
than one: such a tree needs no rotation.

## Main results

* `mem_insert`, `insert_ordered` — an insertion adds its key, in order.
* `insert_of_find` — and changes nothing if the key is there.
* `height_insert` — a tree grows by at most one.
* `find_iff` — the search finds what is in the tree.
* `search_eq_first` — the search for an entry by its key, in any tree whose entries are
  in order.
* `Entered.pairwise`, `Entered.find` — an entry put in its place.
-/

namespace MutTracker.Logic

open Std

inductive SearchTree (α : Type) where
  | nil
  | node (left : SearchTree α) (key : α) (right : SearchTree α)
  deriving DecidableEq, Repr

namespace SearchTree

variable {α : Type}

/-- The keys from left to right. -/
def keys : SearchTree α → List α
  | nil => []
  | node l x r => l.keys ++ x :: r.keys

def height : SearchTree α → Nat
  | nil => 0
  | node l _ r => max l.height r.height + 1

/-- At no node do the heights of the subtrees differ by more than one. -/
def Shallow : SearchTree α → Prop
  | nil => True
  | node l _ r =>
      l.Shallow ∧ r.Shallow ∧ l.height ≤ r.height + 1 ∧ r.height ≤ l.height + 1

/-- The keys are in order. -/
def Ordered [LT α] (t : SearchTree α) : Prop := t.keys.Pairwise (· < ·)

theorem ordered_node [LT α] {l r : SearchTree α} {x : α} :
    (node l x r).Ordered ↔
      l.Ordered ∧ r.Ordered ∧ (∀ y ∈ l.keys, y < x) ∧ (∀ y ∈ r.keys, x < y) ∧
        ∀ y ∈ l.keys, ∀ z ∈ r.keys, y < z := by
  show (l.keys ++ x :: r.keys).Pairwise (· < ·) ↔ _
  rw [List.pairwise_append, List.pairwise_cons]
  constructor
  · rintro ⟨hl, ⟨hx, hr⟩, hlr⟩
    exact ⟨hl, hr, fun y hy => hlr y hy x List.mem_cons_self, hx,
      fun y hy z hz => hlr y hy z (List.mem_cons_of_mem x hz)⟩
  · rintro ⟨hl, hr, hlx, hx, hlr⟩
    refine ⟨hl, ⟨hx, hr⟩, ?_⟩
    intro y hy z hz
    rcases List.mem_cons.1 hz with rfl | hz
    · exact hlx y hy
    · exact hlr y hy z hz

variable [LE α] [LT α] [Std.IsLinearOrder α] [LawfulOrderLT α] [DecidableLT α]

def insert (a : α) : SearchTree α → SearchTree α
  | nil => node nil a nil
  | node l x r =>
      if a < x then node (l.insert a) x r
      else if x < a then node l x (r.insert a)
      else node l x r

/-- Whether the search finds the key. -/
def find (a : α) : SearchTree α → Bool
  | nil => false
  | node l x r => if a < x then l.find a else if x < a then r.find a else true

theorem mem_insert {a y : α} {t : SearchTree α} :
    y ∈ (t.insert a).keys ↔ y = a ∨ y ∈ t.keys := by
  induction t with
  | nil => simp [insert, keys]
  | node l x r ihl ihr =>
      unfold insert
      split
      · simp only [keys, List.mem_append, List.mem_cons, ihl]
        exact or_assoc
      · split
        · simp only [keys, List.mem_append, List.mem_cons, ihr]
          constructor
          · rintro (h | h | h | h)
            · exact .inr (.inl h)
            · exact .inr (.inr (.inl h))
            · exact .inl h
            · exact .inr (.inr (.inr h))
          · rintro (h | h | h | h)
            · exact .inr (.inr (.inl h))
            · exact .inl h
            · exact .inr (.inl h)
            · exact .inr (.inr (.inr h))
        · rename_i hxa hax
          have heq : x = a := le_antisymm (not_lt.1 hxa) (not_lt.1 hax)
          subst heq
          simp only [keys, List.mem_append, List.mem_cons]
          constructor
          · exact .inr
          · rintro (h | h)
            · exact .inr (.inl h)
            · exact h

theorem insert_ordered {a : α} {t : SearchTree α} (h : t.Ordered) : (t.insert a).Ordered := by
  induction t with
  | nil => exact List.pairwise_singleton _ _
  | node l x r ihl ihr =>
      obtain ⟨hl, hr, hlx, hxr, hlr⟩ := ordered_node.1 h
      unfold insert
      split
      · rename_i hlt
        refine ordered_node.2 ⟨ihl hl, hr, ?_, hxr, ?_⟩
        · intro y hy
          rcases mem_insert.1 hy with rfl | hy
          · exact hlt
          · exact hlx y hy
        · intro y hy z hz
          rcases mem_insert.1 hy with rfl | hy
          · exact lt_trans hlt (hxr z hz)
          · exact hlr y hy z hz
      · split
        · rename_i hgt
          refine ordered_node.2 ⟨hl, ihr hr, hlx, ?_, ?_⟩
          · intro y hy
            rcases mem_insert.1 hy with rfl | hy
            · exact hgt
            · exact hxr y hy
          · intro y hy z hz
            rcases mem_insert.1 hz with rfl | hz
            · exact lt_trans (hlx y hy) hgt
            · exact hlr y hy z hz
        · exact h

omit [LE α] [Std.IsLinearOrder α] [LawfulOrderLT α] in
/-- A tree grows by at most one. -/
theorem height_insert (a : α) (t : SearchTree α) :
    t.height ≤ (t.insert a).height ∧ (t.insert a).height ≤ t.height + 1 := by
  induction t with
  | nil => exact ⟨Nat.zero_le _, Nat.le_refl _⟩
  | node l x r ihl ihr =>
      unfold insert
      split
      · simp only [height]
        omega
      · split
        · simp only [height]
          omega
        · exact ⟨Nat.le_refl _, Nat.le_succ _⟩

/-- The search finds the keys of an ordered tree. -/
theorem find_iff {a : α} {t : SearchTree α} (h : t.Ordered) : t.find a = true ↔ a ∈ t.keys := by
  induction t with
  | nil => simp [find, keys]
  | node l x r ihl ihr =>
      obtain ⟨hl, hr, hlx, hxr, _⟩ := ordered_node.1 h
      unfold find keys
      rw [List.mem_append, List.mem_cons]
      split
      · rename_i hlt
        rw [ihl hl]
        constructor
        · exact .inl
        · rintro (hmem | rfl | hmem)
          · exact hmem
          · exact absurd hlt lt_irrefl
          · exact absurd (lt_trans hlt (hxr a hmem)) lt_irrefl
      · rename_i hxa
        split
        · rename_i hgt
          rw [ihr hr]
          constructor
          · exact fun hmem => .inr (.inr hmem)
          · rintro (hmem | rfl | hmem)
            · exact absurd (lt_trans hgt (hlx a hmem)) lt_irrefl
            · exact absurd hgt lt_irrefl
            · exact hmem
        · rename_i hax
          have heq : a = x := le_antisymm (not_lt.1 hax) (not_lt.1 hxa)
          exact ⟨fun _ => .inr (.inl heq), fun _ => rfl⟩

omit [LE α] [Std.IsLinearOrder α] [LawfulOrderLT α] in
/-- Inserting a key again changes nothing. -/
theorem insert_of_find {a : α} {t : SearchTree α} (h : t.find a = true) : t.insert a = t := by
  induction t with
  | nil => cases h
  | node l x r ihl ihr =>
      unfold find at h
      unfold insert
      split at h
      · rename_i hlt
        rw [if_pos hlt, ihl h]
      · rename_i hxa
        rw [if_neg hxa]
        split at h
        · rename_i hgt
          rw [if_pos hgt, ihr h]
        · rename_i hax
          rw [if_neg hax]

end SearchTree

/-! ## Entries with a key

Where the entries stand in the tree does not matter, as long as they are in order
from left to right. -/

namespace SearchTree

variable {α β : Type} {key : β → α} {a : α} {x : β} {l l' m : List β}

section Lists

variable [DecidableEq α]

/-- The first entry with the key. -/
def first (key : β → α) (a : α) (l : List β) : Option β := l.find? fun x => decide (key x = a)

theorem first_eq_none (h : ∀ y ∈ l, key y ≠ a) : first key a l = none := by
  rw [first, List.find?_eq_none]
  intro y hy
  simpa using h y hy

theorem first_append : first key a (l ++ l') = (first key a l).or (first key a l') :=
  List.find?_append

theorem first_cons : first key a (x :: l) = if key x = a then some x else first key a l := by
  rw [first, List.find?_cons]
  by_cases hx : key x = a
  · simp [hx]
  · simp [hx, first]

end Lists

variable [LT α]

/-- The entries are in the order of their keys. -/
def InOrder (key : β → α) (l : List β) : Prop := l.Pairwise fun x y => key x < key y

/-- An entry has been put in its place. -/
def Entered (key : β → α) (x : β) (l l' : List β) : Prop :=
  ∃ l₁ l₂, l = l₁ ++ l₂ ∧ l' = l₁ ++ x :: l₂ ∧ (∀ y ∈ l₁, key y < key x) ∧
    ∀ y ∈ l₂, key x < key y

theorem Entered.pairwise (h : Entered key x l l') (hl : InOrder key l) : InOrder key l' := by
  obtain ⟨l₁, l₂, rfl, rfl, hbefore, hafter⟩ := h
  obtain ⟨h₁, h₂, h₁₂⟩ := List.pairwise_append.1 hl
  apply List.pairwise_append.2
  refine ⟨h₁, List.pairwise_cons.2 ⟨hafter, h₂⟩, ?_⟩
  intro y hy z hz
  rcases List.mem_cons.1 hz with rfl | hz
  · exact hbefore y hy
  · exact h₁₂ y hy z hz

/-- An entry is put in its place also when greater entries follow the list. -/
theorem Entered.append (h : Entered key x l l') (hm : ∀ y ∈ m, key x < key y) :
    Entered key x (l ++ m) (l' ++ m) := by
  obtain ⟨l₁, l₂, rfl, rfl, hbefore, hafter⟩ := h
  refine ⟨l₁, l₂ ++ m, by simp, by simp, hbefore, ?_⟩
  intro y hy
  rcases List.mem_append.1 hy with hy | hy
  · exact hafter y hy
  · exact hm y hy

/-- An entry is put in its place also when smaller entries come before the list. -/
theorem Entered.prepend (h : Entered key x l l') (hm : ∀ y ∈ m, key y < key x) :
    Entered key x (m ++ l) (m ++ l') := by
  obtain ⟨l₁, l₂, rfl, rfl, hbefore, hafter⟩ := h
  refine ⟨m ++ l₁, l₂, by simp, by simp, ?_, hafter⟩
  intro y hy
  rcases List.mem_append.1 hy with hy | hy
  · exact hm y hy
  · exact hbefore y hy

/-- The entry that the search for a key finds. -/
def search [DecidableLT α] (key : β → α) (a : α) : SearchTree β → Option β
  | nil => none
  | node l x r =>
      if a < key x then l.search key a else if key x < a then r.search key a else some x

variable [LE α] [Std.IsLinearOrder α] [LawfulOrderLT α] [DecidableEq α]

omit [Std.IsLinearOrder α] in
theorem first_of_lt (h : ∀ y ∈ l, a < key y) : first key a l = none := by
  apply first_eq_none
  intro y hy heq
  have hlt := h y hy
  rw [heq] at hlt
  exact lt_irrefl hlt

omit [Std.IsLinearOrder α] in
theorem first_of_gt (h : ∀ y ∈ l, key y < a) : first key a l = none := by
  apply first_eq_none
  intro y hy heq
  have hlt := h y hy
  rw [heq] at hlt
  exact lt_irrefl hlt

omit [Std.IsLinearOrder α] in
theorem Entered.find (h : Entered key x l l') :
    first key a l' = if key x = a then some x else first key a l := by
  obtain ⟨l₁, l₂, rfl, rfl, hbefore, -⟩ := h
  rw [first_append, first_cons, first_append]
  by_cases hx : key x = a
  · have hnone : first key a l₁ = none := first_of_gt (hx ▸ hbefore)
    rw [if_pos hx, if_pos hx, hnone, Option.none_or]
  · rw [if_neg hx, if_neg hx]

/-- In an ordered tree the search finds what a search from left to right would find. -/
theorem search_eq_first [DecidableLT α] {t : SearchTree β} (h : InOrder key t.keys) :
    t.search key a = first key a t.keys := by
  induction t with
  | nil => rfl
  | node l x r ihl ihr =>
      obtain ⟨hl, hxr, hlx⟩ := List.pairwise_append.1 h
      obtain ⟨hx, hr⟩ := List.pairwise_cons.1 hxr
      unfold search keys
      rw [first_append, first_cons]
      by_cases hlt : a < key x
      · have hright : first key a r.keys = none :=
          first_of_lt fun y hy => lt_trans hlt (hx y hy)
        have hne : key x ≠ a := fun heq => lt_irrefl (heq ▸ hlt : a < a)
        rw [if_pos hlt, ihl hl, if_neg hne, hright, Option.or_none]
      · have hle : key x ≤ a := not_lt.1 hlt
        have hleft : first key a l.keys = none := by
          apply first_eq_none
          intro y hy heq
          exact absurd (hlx y hy x List.mem_cons_self) (not_lt.2 (heq ▸ hle))
        rw [if_neg hlt, hleft, Option.none_or]
        by_cases hgt : key x < a
        · have hne : key x ≠ a := fun heq => lt_irrefl (heq ▸ hgt : a < a)
          rw [if_pos hgt, if_neg hne, ihr hr]
        · have heq : key x = a := le_antisymm hle (not_lt.1 hgt)
          rw [if_neg hgt, if_pos heq]

end SearchTree

end MutTracker.Logic
