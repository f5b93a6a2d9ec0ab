import MutTracker.Logic.SearchTree
import MutTracker.Source.Avl

/-!
# The balanced tree, as a map

The rotations of `mut_resources_internal_add` leave wrong balances and parents behind,
and later insertions go by these.  But whatever it goes by, a rotation moves the
subtrees without changing the order of the resources from left to right.  So as long as
no null pointer is used, the tree is a search tree, and the lookup finds what it would
find in a list: the resource that the first insertion at the address has made.

## Main results

* `leftGrown_row`, `rightGrown_row` — a rotation keeps the resources in order.
* `internalAdd_puts` — what an insertion does to a search tree.
* `avlLookup_exact` — the lookups after any insertions, and the next insertion.
-/

namespace MutTracker.Source

open MutTracker.Logic SearchTree

/-- The address of a resource, and the pointer to it. -/
abbrev Spot := Word × Nat

def AvlResource.spot (n : AvlResource) : Spot := (n.addr, n.ptr)

namespace Avl

/-- The spots in their places. -/
def spots : Avl → SearchTree Spot
  | null => .nil
  | node n left right => .node left.spots n.spot right.spots

/-- The spots from left to right. -/
def row (t : Avl) : List Spot := t.spots.keys

theorem row_node (n : AvlResource) (left right : Avl) :
    (node n left right).row = left.row ++ n.spot :: right.row := rfl

end Avl

variable {t t' left right : Avl} {n : AvlResource} {p new r : Option Nat} {addr : Word}
  {flag f : Int} {l l' m : List Spot} {q : Nat}

/-- The lookup is the search in the spots. -/
theorem lookup_eq_search (addr : Word) (t : Avl) :
    mutResourcesInternalLookup addr t = (t.spots.search Prod.fst addr).map Prod.snd := by
  induction t with
  | null => rfl
  | node n left right ihl ihr =>
      unfold mutResourcesInternalLookup Avl.spots search
      by_cases hlt : addr < n.addr
      · have hlt' : addr < n.spot.1 := hlt
        rw [if_pos hlt, if_pos hlt', ihl]
      · have hlt' : ¬ addr < n.spot.1 := hlt
        rw [if_neg hlt, if_neg hlt']
        by_cases hgt : n.addr < addr
        · have hgt' : n.spot.1 < addr := hgt
          rw [if_pos hgt, if_pos hgt', ihr]
        · have hgt' : ¬ n.spot.1 < addr := hgt
          rw [if_neg hgt, if_neg hgt']
          rfl

/-! ## Rotations -/

theorem setParent_row (h : t.setParent p = some t') : t'.row = t.row := by
  cases t with
  | null => cases h
  | node n left right =>
      have heq := Option.some.inj h
      rw [← heq]
      rfl

/-- A rotation to the right, by whatever balances. -/
theorem leftGrown_row (h : mutResourcesLeftGrown n left right = some t') :
    t'.row = left.row ++ n.spot :: right.row := by
  cases left with
  | null => cases h
  | node p1 p1Left p1Right =>
      unfold mutResourcesLeftGrown at h
      dsimp only at h
      split at h
      · cases hset : p1Right.setParent (some n.ptr) with
        | none =>
            rw [hset] at h
            cases h
        | some p1Right' =>
            rw [hset] at h
            cases h
            simp [Avl.row_node, AvlResource.spot, setParent_row hset]
      · cases p1Right with
        | null => cases h
        | node p2 p2Left p2Right =>
            dsimp only at h
            cases hl : p2Left.setParent (some p1.ptr) with
            | none =>
                rw [hl] at h
                cases h
            | some p2Left' =>
                cases hr : p2Right.setParent (some n.ptr) with
                | none =>
                    rw [hl, hr] at h
                    cases h
                | some p2Right' =>
                    rw [hl, hr] at h
                    cases h
                    simp [Avl.row_node, AvlResource.spot, setParent_row hl, setParent_row hr]

/-- A rotation to the left keeps the row of spots. -/
theorem rightGrown_row (h : mutResourcesRightGrown n left right = some t') :
    t'.row = left.row ++ n.spot :: right.row := by
  cases right with
  | null => cases h
  | node p1 p1Left p1Right =>
      unfold mutResourcesRightGrown at h
      dsimp only at h
      split at h
      · cases h
        simp [Avl.row_node, AvlResource.spot]
      · cases p1Left with
        | null => cases h
        | node p2 p2Left p2Right =>
            cases h
            simp [Avl.row_node, AvlResource.spot]

/-! ## One insertion -/

/-- What an insertion makes of the spots from left to right, by what it returns: the
resource that is there, none when memory is full, or a new one in its place. -/
inductive Puts (new : Option Nat) (addr : Word) (l l' : List Spot) : Option Nat → Prop
  | found {q : Nat} (hfirst : first Prod.fst addr l = some (addr, q)) (hsame : l' = l) :
      Puts new addr l l' (some q)
  | full (hfirst : first Prod.fst addr l = none) (hnew : new = none) (hsame : l' = l) :
      Puts new addr l l' none
  | made {q : Nat} (hfirst : first Prod.fst addr l = none) (hnew : new = some q)
      (hentered : Entered Prod.fst (addr, q) l l') : Puts new addr l l' (some q)

/-- Greater spots after these make no difference. -/
theorem Puts.append (h : Puts new addr l l' r) (hm : ∀ y ∈ m, addr < y.1) :
    Puts new addr (l ++ m) (l' ++ m) r := by
  have hfirst : first Prod.fst addr (l ++ m) = first Prod.fst addr l := by
    rw [first_append, first_of_lt hm, Option.or_none]
  cases h with
  | found hfound hsame => exact .found (hfirst.trans hfound) (by rw [hsame])
  | full hnone hnew hsame => exact .full (hfirst.trans hnone) hnew (by rw [hsame])
  | made hnone hnew hentered => exact .made (hfirst.trans hnone) hnew (hentered.append hm)

/-- Smaller spots before these make no difference. -/
theorem Puts.prepend (h : Puts new addr l l' r) (hm : ∀ y ∈ m, y.1 < addr) :
    Puts new addr (m ++ l) (m ++ l') r := by
  have hfirst : first Prod.fst addr (m ++ l) = first Prod.fst addr l := by
    rw [first_append, first_of_gt hm, Option.none_or]
  cases h with
  | found hfound hsame => exact .found (hfirst.trans hfound) (by rw [hsame])
  | full hnone hnew hsame => exact .full (hfirst.trans hnone) hnew (by rw [hsame])
  | made hnone hnew hentered => exact .made (hfirst.trans hnone) hnew (hentered.prepend hm)

/-- What is returned is found from then on, and all else is found as before. -/
theorem Puts.first (h : Puts new addr l l' r) (a : Word) :
    SearchTree.first Prod.fst a l' =
      if a = addr then r.map (addr, ·) else SearchTree.first Prod.fst a l := by
  by_cases ha : a = addr
  · rw [if_pos ha, ha]
    cases h with
    | found hfirst hsame => rw [hsame, hfirst, Option.map_some]
    | full hfirst hnew hsame => rw [hsame, hfirst, Option.map_none]
    | made hfirst hnew hentered => rw [hentered.find, if_pos rfl, Option.map_some]
  · rw [if_neg ha]
    cases h with
    | found hfirst hsame => rw [hsame]
    | full hfirst hnew hsame => rw [hsame]
    | made hfirst hnew hentered => rw [hentered.find, if_neg (Ne.symm ha)]

theorem Puts.pairwise (h : Puts new addr l l' r) (hl : InOrder Prod.fst l) :
    InOrder Prod.fst l' := by
  cases h with
  | found hfirst hsame => rw [hsame]; exact hl
  | full hfirst hnew hsame => rw [hsame]; exact hl
  | made hfirst hnew hentered => exact hentered.pairwise hl

/-- An insertion into the left branch, whatever follows it. -/
theorem internalAdd_left (hlt : addr < n.addr)
    (h : mutResourcesInternalAdd new addr flag p (.node n left right) = some (t', f, r)) :
    ∃ left' f', mutResourcesInternalAdd new addr flag (some n.ptr) left = some (left', f', r) ∧
      t'.row = left'.row ++ n.spot :: right.row := by
  rw [mutResourcesInternalAdd, if_pos hlt] at h
  cases hrun : mutResourcesInternalAdd new addr flag (some n.ptr) left with
  | none =>
      rw [hrun] at h
      cases h
  | some result =>
      obtain ⟨left', f', r'⟩ := result
      rw [hrun] at h
      simp only [Option.bind_eq_bind, Option.bind_some] at h
      split at h
      · cases h
        exact ⟨left', _, rfl, rfl⟩
      · split at h
        · split at h
          · cases h
            exact ⟨left', _, rfl, rfl⟩
          · split at h
            · cases h
              exact ⟨left', _, rfl, rfl⟩
            · cases hrot : mutResourcesLeftGrown n left' right with
              | none =>
                  rw [hrot] at h
                  cases h
              | some t'' =>
                  rw [hrot] at h
                  cases h
                  exact ⟨left', _, rfl, leftGrown_row hrot⟩
        · cases h
          exact ⟨left', _, rfl, rfl⟩

/-- An insertion into the right branch. -/
theorem internalAdd_right (hlt : ¬ addr < n.addr) (hgt : n.addr < addr)
    (h : mutResourcesInternalAdd new addr flag p (.node n left right) = some (t', f, r)) :
    ∃ right' f', mutResourcesInternalAdd new addr flag (some n.ptr) right =
        some (right', f', r) ∧ t'.row = left.row ++ n.spot :: right'.row := by
  rw [mutResourcesInternalAdd, if_neg hlt, if_pos hgt] at h
  cases hrun : mutResourcesInternalAdd new addr flag (some n.ptr) right with
  | none =>
      rw [hrun] at h
      cases h
  | some result =>
      obtain ⟨right', f', r'⟩ := result
      rw [hrun] at h
      simp only [Option.bind_eq_bind, Option.bind_some] at h
      split at h
      · cases h
        exact ⟨right', _, rfl, rfl⟩
      · split at h
        · split at h
          · cases h
            exact ⟨right', _, rfl, rfl⟩
          · split at h
            · cases h
              exact ⟨right', _, rfl, rfl⟩
            · cases hrot : mutResourcesRightGrown n left right' with
              | none =>
                  rw [hrot] at h
                  cases h
              | some t'' =>
                  rw [hrot] at h
                  cases h
                  exact ⟨right', _, rfl, rightGrown_row hrot⟩
        · cases h
          exact ⟨right', _, rfl, rfl⟩

/-- What an insertion does to a search tree, if it uses no null pointer. -/
theorem internalAdd_puts (hord : InOrder Prod.fst t.row)
    (h : mutResourcesInternalAdd new addr flag p t = some (t', f, r)) :
    Puts new addr t.row t'.row r := by
  induction t generalizing p t' f with
  | null =>
      unfold mutResourcesInternalAdd at h
      cases new with
      | none =>
          cases h
          exact .full rfl rfl rfl
      | some q =>
          cases h
          refine .made rfl rfl ⟨[], [], rfl, rfl, ?_, ?_⟩
          · exact List.forall_mem_nil _
          · exact List.forall_mem_nil _
  | node n left right ihl ihr =>
      rw [Avl.row_node] at hord
      obtain ⟨hleft, hrest, hacross⟩ := List.pairwise_append.1 hord
      obtain ⟨hafter, hright⟩ := List.pairwise_cons.1 hrest
      have hbefore : ∀ y ∈ left.row, y.1 < n.addr := fun y hy =>
        hacross y hy n.spot List.mem_cons_self
      by_cases hlt : addr < n.addr
      · obtain ⟨left', f', hrun, hrow⟩ := internalAdd_left hlt h
        rw [hrow, Avl.row_node]
        apply (ihl hleft hrun).append
        intro y hy
        rcases List.mem_cons.1 hy with rfl | hy
        · exact hlt
        · exact BitVec.lt_trans hlt (hafter y hy)
      · by_cases hgt : n.addr < addr
        · obtain ⟨right', f', hrun, hrow⟩ := internalAdd_right hlt hgt h
          rw [hrow, Avl.row_node, List.append_cons left.row n.spot right.row,
            List.append_cons left.row n.spot right'.row]
          apply (ihr hright hrun).prepend
          intro y hy
          rcases List.mem_append.1 hy with hy | hy
          · exact BitVec.lt_trans (hbefore y hy) hgt
          · rw [List.mem_singleton.1 hy]
            exact hgt
        · have heq : n.addr = addr := BitVec.le_antisymm (BitVec.not_lt.1 hlt) (BitVec.not_lt.1 hgt)
          rw [mutResourcesInternalAdd, if_neg hlt, if_neg hgt] at h
          cases h
          refine .found ?_ rfl
          rw [Avl.row_node, first_append, first_of_gt (heq ▸ hbefore), Option.none_or, first_cons]
          exact (if_pos heq).trans (congrArg (fun a => some (a, n.ptr)) heq)

/-! ## Sequences of insertions -/

/-- The insertion, by its number, that made the resource at an address: the first one for
which there was memory. -/
def maker (cs : List AvlAdd) (a : Word) : Option Nat :=
  cs.findIdx? fun c => decide (c.addr = a) && !c.full

theorem maker_concat (cs : List AvlAdd) (c : AvlAdd) (a : Word) :
    maker (cs ++ [c]) a =
      (maker cs a).or (if c.addr = a ∧ c.full = false then some cs.length else none) := by
  unfold maker
  rw [List.findIdx?_append]
  by_cases hc : c.addr = a ∧ c.full = false
  · simp [hc]
  · have hno : (decide (c.addr = a) && !c.full) = false := by
      rw [Bool.eq_false_iff]
      intro h
      exact hc (by simpa using h)
    simp [hc, hno]

/-- The tree after some insertions: a search tree of what they made. -/
structure AvlMap.Made (s : AvlMap) (cs : List AvlAdd) : Prop where
  ordered : InOrder Prod.fst s.elems.row
  next : s.next = cs.length
  finds : ∀ a, first Prod.fst a s.elems.row = (maker cs a).map (a, ·)

theorem empty_made : AvlMap.empty.Made [] := ⟨List.Pairwise.nil, rfl, fun _ => rfl⟩

variable {s s' : AvlMap} {cs : List AvlAdd} {c : AvlAdd}

/-- What one more insertion returns is the resource there is at its address from then on. -/
theorem AvlMap.Made.returns (h : s.Made cs)
    (hputs : Puts (if c.full then none else some s.next) c.addr s.elems.row l r) :
    r = maker (cs ++ [c]) c.addr := by
  have hfinds := h.finds c.addr
  rw [maker_concat]
  cases hputs with
  | found hfirst hsame =>
      rw [hfirst] at hfinds
      obtain ⟨q, hq, heq⟩ := Option.map_eq_some_iff.1 hfinds.symm
      cases heq
      rw [hq, Option.some_or]
  | full hfirst hnew hsame =>
      rw [hfirst] at hfinds
      have hnone := Option.map_eq_none_iff.1 hfinds.symm
      have hfull : c.full = true := by
        by_contra hno
        rw [if_neg hno] at hnew
        cases hnew
      rw [hnone, Option.none_or, if_neg (by simp [hfull])]
  | made hfirst hnew hentered =>
      rw [hfirst] at hfinds
      have hnone := Option.map_eq_none_iff.1 hfinds.symm
      cases hfull : c.full with
      | true =>
          rw [if_pos hfull] at hnew
          cases hnew
      | false =>
          rw [if_neg (by simp [hfull])] at hnew
          rw [hnone, Option.none_or, if_pos ⟨rfl, rfl⟩, ← hnew, h.next]

/-- One more insertion. -/
theorem AvlMap.Made.add (h : s.Made cs) (hadd : s.add c = some s') : s'.Made (cs ++ [c]) := by
  unfold AvlMap.add at hadd
  cases hrun : mutResourcesInternalAdd (if c.full then none else some s.next) c.addr 0 none
      s.elems with
  | none =>
      rw [hrun] at hadd
      cases hadd
  | some result =>
      obtain ⟨t', f, r⟩ := result
      rw [hrun] at hadd
      cases hadd
      have hputs := internalAdd_puts h.ordered hrun
      have hreturns := h.returns hputs
      refine ⟨hputs.pairwise h.ordered, ?_, ?_⟩
      · rw [h.next, List.length_append]
        rfl
      · intro a
        rw [hputs.first a]
        by_cases ha : a = c.addr
        · rw [if_pos ha, ha, hreturns]
        · have hother : ¬ (c.addr = a ∧ c.full = false) := fun hc => ha hc.1.symm
          rw [if_neg ha, h.finds, maker_concat, if_neg hother, Option.or_none]

theorem AvlMap.Made.addAll (h : s.Made cs) {cs' : List AvlAdd} (hrun : s.addAll cs' = some s') :
    s'.Made (cs ++ cs') := by
  induction cs' generalizing s cs with
  | nil =>
      cases hrun
      rw [List.append_nil]
      exact h
  | cons c cs' ih =>
      unfold AvlMap.addAll at hrun
      cases hadd : s.add c with
      | none =>
          rw [hadd] at hrun
          cases hrun
      | some s₁ =>
          rw [hadd] at hrun
          have hrest := ih (h.add hadd) hrun
          rw [List.append_assoc] at hrest
          exact hrest

/-- After any insertions that use no null pointer, wrong rotations among them, the tree is a
search tree; the lookup finds at each address the resource that the first insertion there has
made; and the next insertion returns the one that is there then. -/
theorem avlLookup_exact (cs : List AvlAdd) (hrun : AvlMap.empty.addAll cs = some s) :
    InOrder Prod.fst s.elems.row ∧
      (∀ a, mutResourcesInternalLookup a s.elems = maker cs a) ∧
      ∀ c t f r, mutResourcesInternalAdd (if c.full then none else some s.next) c.addr 0 none
          s.elems = some (t, f, r) →
        r = maker (cs ++ [c]) c.addr := by
  have h : s.Made cs := empty_made.addAll hrun
  refine ⟨h.ordered, ?_, ?_⟩
  · intro a
    have hsearch : s.elems.spots.search Prod.fst a = (maker cs a).map (a, ·) :=
      (search_eq_first h.ordered).trans (h.finds a)
    rw [lookup_eq_search, hsearch, Option.map_map]
    exact Option.map_id'
  · intro c t f r hadd
    exact h.returns (internalAdd_puts h.ordered hadd)

/-- Three addresses one above the other: a rotation to the left, with parents left wrong. -/
theorem avlLookup_exact_rotated :
    ∃ s, AvlMap.empty.addAll [⟨1, false⟩, ⟨2, false⟩, ⟨3, false⟩] = some s ∧
      mutResourcesInternalLookup 1 s.elems = some 0 := by
  obtain ⟨s, hrun⟩ : ∃ s, AvlMap.empty.addAll [⟨1, false⟩, ⟨2, false⟩, ⟨3, false⟩] = some s :=
    Option.isSome_iff_exists.1 (by decide +kernel)
  have hfinds := (avlLookup_exact _ hrun).2.1 1
  exact ⟨s, hrun, hfinds.trans (by decide +kernel)⟩

end MutTracker.Source
