import MutTracker.Logic.SearchTree
import MutTracker.Source.Avl
import MutTracker.Source.Resources

/-!
# The balanced tree, as far as it is balanced

An insertion that needs no rotation keeps the tree a search tree with the right
balances and parents.  Every rotation goes wrong: to the left a null pointer is
used, or the old root keeps a parent it no longer has; to the right no parent is
changed at all.  So the tree is as it should be if and only if the addresses come in
an order in which plain insertion never makes the subtrees of a node differ by more
than one.

## Main results

* `add_found`, `add_full` — insertions that leave the tree as it is.
* `add_new` — an insertion that needs no rotation, and one that does.
* `avl_kept_iff` — which sequences of insertions keep the tree as it should be.
-/

namespace MutTracker.Source

open MutTracker.Logic

variable {t : Avl} {p : Option Nat} {new : Option Nat} {q : Nat} {addr : Word} {flag : Int}

namespace Avl

/-- The addresses in their places. -/
def shape : Avl → SearchTree Word
  | null => .nil
  | node n left right => .node left.shape n.addr right.shape

def ptrs : Avl → List Nat
  | null => []
  | node n left right => n.ptr :: (left.ptrs ++ right.ptrs)

/-- Every balance is the difference of the heights, and at most one. -/
def Balances : Avl → Prop
  | null => True
  | node n left right =>
      left.Balances ∧ right.Balances ∧
        n.balanced = (right.shape.height : Int) - left.shape.height ∧
        -1 ≤ n.balanced ∧ n.balanced ≤ 1

/-- Every parent field is the actual parent, that of the root being `p`. -/
def Parents (p : Option Nat) : Avl → Prop
  | null => True
  | node n left right =>
      n.parent = p ∧ left.Parents (some n.ptr) ∧ right.Parents (some n.ptr)

theorem Balances.shallow (h : t.Balances) : t.shape.Shallow := by
  induction t with
  | null => exact trivial
  | node n left right ihl ihr =>
      obtain ⟨hl, hr, hb, hge, hle⟩ := h
      refine ⟨ihl hl, ihr hr, ?_, ?_⟩
      · omega
      · omega

end Avl

/-! ## Looking up -/

theorem lookup_isSome (a : Word) (t : Avl) :
    (mutResourcesInternalLookup a t).isSome = t.shape.find a := by
  induction t with
  | null => rfl
  | node n left right ihl ihr =>
      unfold mutResourcesInternalLookup Avl.shape SearchTree.find
      split
      · exact ihl
      · split
        · exact ihr
        · rfl

/-! ## Insertions that leave the tree as it is -/

/-- An address that is there is found, whatever `malloc` would answer. -/
theorem add_found (h : t.shape.find addr = true) :
    ∃ r, mutResourcesInternalAdd new addr flag p t = some (t, 0, some r) := by
  induction t generalizing p with
  | null => cases h
  | node n left right ihl ihr =>
      unfold Avl.shape SearchTree.find at h
      unfold mutResourcesInternalAdd
      by_cases hlt : addr < n.addr
      · rw [if_pos hlt] at h ⊢
        obtain ⟨r, hr⟩ := ihl (p := some n.ptr) h
        refine ⟨r, ?_⟩
        rw [hr]
        rfl
      · rw [if_neg hlt] at h ⊢
        by_cases hgt : n.addr < addr
        · rw [if_pos hgt] at h ⊢
          obtain ⟨r, hr⟩ := ihr (p := some n.ptr) h
          refine ⟨r, ?_⟩
          rw [hr]
          rfl
        · rw [if_neg hgt]
          exact ⟨n.ptr, rfl⟩

/-- When memory is full a new address is not inserted. -/
theorem add_full (h : t.shape.find addr = false) :
    mutResourcesInternalAdd none addr flag p t = some (t, flag, none) := by
  induction t generalizing p with
  | null => rfl
  | node n left right ihl ihr =>
      unfold Avl.shape SearchTree.find at h
      unfold mutResourcesInternalAdd
      by_cases hlt : addr < n.addr
      · rw [if_pos hlt] at h ⊢
        rw [ihl h]
        rfl
      · rw [if_neg hlt] at h ⊢
        by_cases hgt : n.addr < addr
        · rw [if_pos hgt] at h ⊢
          rw [ihr h]
          rfl
        · rw [if_neg hgt] at h
          cases h

/-! ## Rotations -/

/-- A rotation to the right leaves the old root with a parent that it does not have. -/
theorem leftGrown_misplaced {n : AvlResource} {left right t' : Avl} (hn : n.parent = p)
    (hleft : left.Parents (some n.ptr)) (hown : n.ptr ∉ left.ptrs)
    (hapart : ∀ q ∈ left.ptrs, p ≠ some q)
    (h : mutResourcesLeftGrown n left right = some t') : ¬ t'.Parents p := by
  cases left with
  | null => cases h
  | node p1 p1Left p1Right =>
      obtain ⟨hp1, _, _⟩ := hleft
      unfold mutResourcesLeftGrown at h
      dsimp only at h
      split at h
      · cases hset : p1Right.setParent (some n.ptr) with
        | none =>
            rw [hset] at h
            cases h
        | some p1Right' =>
            rw [hset] at h
            cases h
            -- the old root is its own parent
            rintro ⟨_, _, hroot, _⟩
            have heq : some n.ptr = some p1.ptr := hp1.symm.trans hroot
            exact hown (Option.some.inj heq ▸ List.mem_cons_self)
      · cases p1Right with
        | null => cases h
        | node p2 p2Left p2Right =>
            dsimp only at h
            cases hl : p2Left.setParent (some p1.ptr) with
            | none =>
                rw [hl] at h
                cases h
            | some p2Left' =>
                cases hr : p2Right.setParent (some n.ptr) with
                | none =>
                    rw [hl, hr] at h
                    cases h
                | some p2Right' =>
                    rw [hl, hr] at h
                    cases h
                    -- the old root has the parent that it had
                    rintro ⟨_, _, hroot, _⟩
                    refine hapart p2.ptr ?_ (hn.symm.trans hroot)
                    exact List.mem_cons_of_mem _ (List.mem_append_right _ List.mem_cons_self)

/-- A rotation to the left leaves the old root with a parent that it does not have. -/
theorem rightGrown_misplaced {n : AvlResource} {left right t' : Avl} (hn : n.parent = p)
    (hright : right.Parents (some n.ptr)) (hroot : p ≠ some n.ptr)
    (hapart : ∀ q ∈ right.ptrs, p ≠ some q)
    (h : mutResourcesRightGrown n left right = some t') : ¬ t'.Parents p := by
  cases right with
  | null => cases h
  | node p1 p1Left p1Right =>
      obtain ⟨hp1, _, _⟩ := hright
      unfold mutResourcesRightGrown at h
      dsimp only at h
      split at h
      · cases h
        -- the new root has the old one for its parent
        rintro ⟨hnew, _⟩
        exact hroot (hnew.symm.trans hp1)
      · cases p1Left with
        | null => cases h
        | node p2 p2Left p2Right =>
            cases h
            rintro ⟨_, ⟨hold, _⟩, _⟩
            refine hapart p2.ptr ?_ (hn.symm.trans hold)
            exact List.mem_cons_of_mem _ (List.mem_append_left _ List.mem_cons_self)

/-! ## Inserting a new address -/

/-- What an insertion gives that needed no rotation: the flag says whether the tree has
grown. -/
structure Avl.Added (t t' : Avl) (p : Option Nat) (q : Nat) (addr : Word) (flag : Int) : Prop where
  shape : t'.shape = t.shape.insert addr
  balances : t'.Balances
  parents : t'.Parents p
  ptrs : t'.ptrs.Perm (q :: t.ptrs)
  grown : flag ≠ 0 ↔ t'.shape.height = t.shape.height + 1

/-- A resource whose left branch has one more, with the balance `b`. -/
theorem Avl.Added.left {left left' right : Avl} {n : AvlResource} {b f g : Int}
    (hl : left.Added left' (some n.ptr) q addr f) (hlt : addr < n.addr)
    (h : (Avl.node n left right).Balances) (hp : (Avl.node n left right).Parents p)
    (hb : b = (right.shape.height : Int) - left'.shape.height) (hge : -1 ≤ b) (hle : b ≤ 1)
    (hg : g ≠ 0 ↔ max left'.shape.height right.shape.height =
      max left.shape.height right.shape.height + 1) :
    (Avl.node n left right).Added (.node { n with balanced := b } left' right) p q addr g := by
  constructor
  · show SearchTree.node left'.shape n.addr right.shape =
      (SearchTree.node left.shape n.addr right.shape).insert addr
    rw [SearchTree.insert, if_pos hlt, hl.shape]
  · exact ⟨hl.balances, h.2.1, hb, hge, hle⟩
  · exact ⟨hp.1, hl.parents, hp.2.2⟩
  · show (n.ptr :: (left'.ptrs ++ right.ptrs)).Perm (q :: n.ptr :: (left.ptrs ++ right.ptrs))
    exact ((hl.ptrs.append_right right.ptrs).cons n.ptr).trans (List.Perm.swap _ _ _)
  · show g ≠ 0 ↔ max _ _ + 1 = max _ _ + 1 + 1
    rw [hg]
    omega

/-- A resource whose right branch has one more. -/
theorem Avl.Added.right {left right right' : Avl} {n : AvlResource} {b f g : Int}
    (hr : right.Added right' (some n.ptr) q addr f) (hgt : n.addr < addr)
    (h : (Avl.node n left right).Balances) (hp : (Avl.node n left right).Parents p)
    (hb : b = (right'.shape.height : Int) - left.shape.height) (hge : -1 ≤ b) (hle : b ≤ 1)
    (hg : g ≠ 0 ↔ max left.shape.height right'.shape.height =
      max left.shape.height right.shape.height + 1) :
    (Avl.node n left right).Added (.node { n with balanced := b } left right') p q addr g := by
  constructor
  · show SearchTree.node left.shape n.addr right'.shape =
      (SearchTree.node left.shape n.addr right.shape).insert addr
    have hnot : ¬ addr < n.addr := BitVec.not_lt.2 (BitVec.le_of_lt hgt)
    rw [SearchTree.insert, if_neg hnot, if_pos hgt, hr.shape]
  · exact ⟨h.1, hr.balances, hb, hge, hle⟩
  · exact ⟨hp.1, hp.2.1, hr.parents⟩
  · show (n.ptr :: (left.ptrs ++ right'.ptrs)).Perm (q :: n.ptr :: (left.ptrs ++ right.ptrs))
    have hperm : (left.ptrs ++ right'.ptrs).Perm (q :: (left.ptrs ++ right.ptrs)) :=
      (hr.ptrs.append_left left.ptrs).trans List.perm_middle
    exact (hperm.cons n.ptr).trans (List.Perm.swap _ _ _)
  · show g ≠ 0 ↔ max _ _ + 1 = max _ _ + 1 + 1
    rw [hg]
    omega

/-- What follows an insertion into the left branch. -/
theorem add_left {left left' right : Avl} {n : AvlResource} {f : Int} (hlt : addr < n.addr)
    (h : mutResourcesInternalAdd new addr flag (some n.ptr) left = some (left', f, some q)) :
    mutResourcesInternalAdd new addr flag p (.node n left right) =
      if f = 0 then some (.node n left' right, f, some q)
      else if n.balanced > 0 then some (.node { n with balanced := 0 } left' right, 0, some q)
      else if n.balanced = 0 then some (.node { n with balanced := -1 } left' right, f, some q)
      else (mutResourcesLeftGrown n left' right).map fun t => (t, 0, some q) := by
  rw [mutResourcesInternalAdd, if_pos hlt, h]
  by_cases hf : f = 0
  · subst hf
    rfl
  · rw [if_neg hf]
    simp only [Option.bind_eq_bind, Option.bind_some, reduceCtorEq, if_false, ne_eq, hf,
      not_false_eq_true, if_true]
    cases mutResourcesLeftGrown n left' right <;> rfl

/-- What follows an insertion into the right branch. -/
theorem add_right {left right right' : Avl} {n : AvlResource} {f : Int} (hgt : n.addr < addr)
    (h : mutResourcesInternalAdd new addr flag (some n.ptr) right = some (right', f, some q)) :
    mutResourcesInternalAdd new addr flag p (.node n left right) =
      if f = 0 then some (.node n left right', f, some q)
      else if n.balanced < 0 then some (.node { n with balanced := 0 } left right', 0, some q)
      else if n.balanced = 0 then some (.node { n with balanced := 1 } left right', f, some q)
      else (mutResourcesRightGrown n left right').map fun t => (t, 0, some q) := by
  have hnot : ¬ addr < n.addr := BitVec.not_lt.2 (BitVec.le_of_lt hgt)
  rw [mutResourcesInternalAdd, if_neg hnot, if_pos hgt, h]
  by_cases hf : f = 0
  · subst hf
    rfl
  · rw [if_neg hf]
    simp only [Option.bind_eq_bind, Option.bind_some, reduceCtorEq, if_false, ne_eq, hf,
      not_false_eq_true, if_true]
    cases mutResourcesRightGrown n left right' <;> rfl

/-- Either no rotation is needed and the insertion goes right, or one is and it does not. -/
def Avl.Inserts (t : Avl) (p : Option Nat) (q : Nat) (addr : Word)
    (o : Option (Avl × Int × Option Nat)) : Prop :=
  ((t.shape.insert addr).Shallow ∧ ∃ t' f, o = some (t', f, some q) ∧ t.Added t' p q addr f) ∨
    (¬ (t.shape.insert addr).Shallow ∧
      ∀ t' f r, o = some (t', f, r) → f = 0 ∧ r = some q ∧ ¬ t'.Parents p)

/-- The left branch of a resource is inserted into. -/
theorem inserts_left {left right : Avl} {n : AvlResource} (hlt : addr < n.addr)
    (h : (Avl.node n left right).Balances) (hp : (Avl.node n left right).Parents p)
    (hown : n.ptr ∉ left.ptrs) (hq : n.ptr ≠ q) (hapart : ∀ r ∈ left.ptrs, p ≠ some r)
    (hpq : p ≠ some q)
    (ih : left.Inserts (some n.ptr) q addr
      (mutResourcesInternalAdd (some q) addr flag (some n.ptr) left)) :
    (Avl.node n left right).Inserts p q addr
      (mutResourcesInternalAdd (some q) addr flag p (.node n left right)) := by
  have hshape : (Avl.node n left right).shape.insert addr =
      .node (left.shape.insert addr) n.addr right.shape := by
    rw [Avl.shape, SearchTree.insert, if_pos hlt]
  unfold Avl.Inserts
  rw [hshape]
  rcases ih with ⟨hshallow, left', f, hrun, hl⟩ | ⟨hsteep, hbad⟩
  · rw [add_left hlt hrun]
    have hheight := SearchTree.height_insert addr left.shape
    have hright := h.2.1.shallow
    have hb := h.2.2.1
    have hge := h.2.2.2.1
    have hle := h.2.2.2.2
    rw [← hl.shape] at hheight hshallow ⊢
    have hgrown := hl.grown
    by_cases hf : f = 0
    · have hsame : left'.shape.height = left.shape.height := by omega
      left
      refine ⟨⟨hshallow, hright, by omega, by omega⟩, _, f, if_pos hf, ?_⟩
      exact hl.left hlt h hp (by omega) hge hle (by omega)
    · have hmore : left'.shape.height = left.shape.height + 1 := hgrown.1 hf
      rw [if_neg hf]
      by_cases hpos : n.balanced > 0
      · left
        refine ⟨⟨hshallow, hright, by omega, by omega⟩, _, 0, if_pos hpos, ?_⟩
        exact hl.left hlt h hp (by omega) (by decide) (by decide) (by omega)
      · rw [if_neg hpos]
        by_cases hzero : n.balanced = 0
        · left
          refine ⟨⟨hshallow, hright, by omega, by omega⟩, _, f, if_pos hzero, ?_⟩
          exact hl.left hlt h hp (by omega) (by decide) (by decide) (by omega)
        · -- the left branch was the longer one
          right
          rw [if_neg hzero]
          refine ⟨fun hshallow => ?_, ?_⟩
          · have hdiff := hshallow.2.2.1
            omega
          · intro t' f' r hout
            obtain ⟨t'', hrot, heq⟩ := Option.map_eq_some_iff.1 hout
            cases heq
            have hmem : ∀ r ∈ left'.ptrs, r = q ∨ r ∈ left.ptrs := fun r hr =>
              List.mem_cons.1 (hl.ptrs.mem_iff.1 hr)
            refine ⟨rfl, rfl, leftGrown_misplaced hp.1 hl.parents ?_ ?_ hrot⟩
            · intro hmine
              rcases hmem _ hmine with heq | hmine
              · exact hq heq
              · exact hown hmine
            · intro r hr
              rcases hmem r hr with rfl | hr
              · exact hpq
              · exact hapart r hr
  · right
    refine ⟨fun hshallow => hsteep hshallow.1, ?_⟩
    intro t' f r hout
    cases hrun : mutResourcesInternalAdd (some q) addr flag (some n.ptr) left with
    | none =>
        rw [mutResourcesInternalAdd, if_pos hlt, hrun] at hout
        cases hout
    | some result =>
        obtain ⟨left', f', r'⟩ := result
        obtain ⟨rfl, rfl, hmisplaced⟩ := hbad left' f' r' hrun
        rw [add_left hlt hrun, if_pos rfl] at hout
        cases hout
        exact ⟨rfl, rfl, fun hp' => hmisplaced hp'.2.1⟩

/-- The right branch of a resource is inserted into. -/
theorem inserts_right {left right : Avl} {n : AvlResource} (hgt : n.addr < addr)
    (h : (Avl.node n left right).Balances) (hp : (Avl.node n left right).Parents p)
    (hroot : p ≠ some n.ptr) (hapart : ∀ r ∈ right.ptrs, p ≠ some r) (hpq : p ≠ some q)
    (ih : right.Inserts (some n.ptr) q addr
      (mutResourcesInternalAdd (some q) addr flag (some n.ptr) right)) :
    (Avl.node n left right).Inserts p q addr
      (mutResourcesInternalAdd (some q) addr flag p (.node n left right)) := by
  have hnot : ¬ addr < n.addr := BitVec.not_lt.2 (BitVec.le_of_lt hgt)
  have hshape : (Avl.node n left right).shape.insert addr =
      .node left.shape n.addr (right.shape.insert addr) := by
    rw [Avl.shape, SearchTree.insert, if_neg hnot, if_pos hgt]
  unfold Avl.Inserts
  rw [hshape]
  rcases ih with ⟨hshallow, right', f, hrun, hr⟩ | ⟨hsteep, hbad⟩
  · rw [add_right hgt hrun]
    have hheight := SearchTree.height_insert addr right.shape
    have hleft := h.1.shallow
    have hb := h.2.2.1
    have hge := h.2.2.2.1
    have hle := h.2.2.2.2
    rw [← hr.shape] at hheight hshallow ⊢
    have hgrown := hr.grown
    by_cases hf : f = 0
    · have hsame : right'.shape.height = right.shape.height := by omega
      left
      refine ⟨⟨hleft, hshallow, by omega, by omega⟩, _, f, if_pos hf, ?_⟩
      exact hr.right hgt h hp (by omega) hge hle (by omega)
    · have hmore : right'.shape.height = right.shape.height + 1 := hgrown.1 hf
      rw [if_neg hf]
      by_cases hneg : n.balanced < 0
      · left
        refine ⟨⟨hleft, hshallow, by omega, by omega⟩, _, 0, if_pos hneg, ?_⟩
        exact hr.right hgt h hp (by omega) (by decide) (by decide) (by omega)
      · rw [if_neg hneg]
        by_cases hzero : n.balanced = 0
        · left
          refine ⟨⟨hleft, hshallow, by omega, by omega⟩, _, f, if_pos hzero, ?_⟩
          exact hr.right hgt h hp (by omega) (by decide) (by decide) (by omega)
        · -- the right branch was the longer one
          right
          rw [if_neg hzero]
          refine ⟨fun hshallow => ?_, ?_⟩
          · have hdiff := hshallow.2.2.2
            omega
          · intro t' f' r hout
            obtain ⟨t'', hrot, heq⟩ := Option.map_eq_some_iff.1 hout
            cases heq
            refine ⟨rfl, rfl, rightGrown_misplaced hp.1 hr.parents hroot ?_ hrot⟩
            intro r hmem
            rcases List.mem_cons.1 (hr.ptrs.mem_iff.1 hmem) with rfl | hmem
            · exact hpq
            · exact hapart r hmem
  · right
    refine ⟨fun hshallow => hsteep hshallow.2.1, ?_⟩
    intro t' f r hout
    cases hrun : mutResourcesInternalAdd (some q) addr flag (some n.ptr) right with
    | none =>
        rw [mutResourcesInternalAdd, if_neg hnot, if_pos hgt, hrun] at hout
        cases hout
    | some result =>
        obtain ⟨right', f', r'⟩ := result
        obtain ⟨rfl, rfl, hmisplaced⟩ := hbad right' f' r' hrun
        rw [add_right hgt hrun, if_pos rfl] at hout
        cases hout
        exact ⟨rfl, rfl, fun hp' => hmisplaced hp'.2.2⟩

/-- A new address is inserted. -/
theorem add_new (hnew : t.shape.find addr = false) (hb : t.Balances) (hp : t.Parents p)
    (hn : t.ptrs.Nodup) (hq : q ∉ t.ptrs) (hapart : ∀ r ∈ t.ptrs, p ≠ some r)
    (hpq : p ≠ some q) :
    t.Inserts p q addr (mutResourcesInternalAdd (some q) addr flag p t) := by
  induction t generalizing p with
  | null =>
      left
      refine ⟨⟨trivial, trivial, by decide, by decide⟩, _, _, rfl, ?_⟩
      have hlevel : -1 ≤ (0 : Int) ∧ (0 : Int) ≤ 1 := by decide
      exact ⟨rfl, ⟨trivial, trivial, rfl, hlevel⟩, ⟨rfl, trivial, trivial⟩, List.Perm.refl _,
        iff_of_true (by decide) rfl⟩
  | node n left right ihl ihr =>
      obtain ⟨hown, hnodup⟩ := List.nodup_cons.1 hn
      obtain ⟨hnl, hnr, _⟩ := List.nodup_append.1 hnodup
      have hownl : n.ptr ∉ left.ptrs := fun hmem => hown (List.mem_append_left _ hmem)
      have hownr : n.ptr ∉ right.ptrs := fun hmem => hown (List.mem_append_right _ hmem)
      have hqn : n.ptr ≠ q := fun heq => hq (heq ▸ List.mem_cons_self)
      have hql : q ∉ left.ptrs := fun hmem =>
        hq (List.mem_cons_of_mem _ (List.mem_append_left _ hmem))
      have hqr : q ∉ right.ptrs := fun hmem =>
        hq (List.mem_cons_of_mem _ (List.mem_append_right _ hmem))
      unfold Avl.shape SearchTree.find at hnew
      by_cases hlt : addr < n.addr
      · rw [if_pos hlt] at hnew
        apply inserts_left hlt hb hp hownl hqn ?_ hpq
        · apply ihl hnew hb.1 hp.2.1 hnl hql
          · intro r hr heq
            exact hownl (Option.some.inj heq ▸ hr)
          · exact fun heq => hqn (Option.some.inj heq)
        · intro r hr
          exact hapart r (List.mem_cons_of_mem _ (List.mem_append_left _ hr))
      · rw [if_neg hlt] at hnew
        by_cases hgt : n.addr < addr
        · rw [if_pos hgt] at hnew
          apply inserts_right hgt hb hp (hapart n.ptr List.mem_cons_self) ?_ hpq
          · apply ihr hnew hb.2.1 hp.2.2 hnr hqr
            · intro r hr heq
              exact hownr (Option.some.inj heq ▸ hr)
            · exact fun heq => hqn (Option.some.inj heq)
          · intro r hr
            exact hapart r (List.mem_cons_of_mem _ (List.mem_append_right _ hr))
        · rw [if_neg hgt] at hnew
          cases hnew

/-! ## Sequences of insertions -/

/-- The tree is as it should be: a search tree of the addresses inserted, each of them once,
with the right balances and parents, in which the lookup finds these addresses, as it does
in a list of resources at these addresses. -/
structure AvlMap.Proper (s : AvlMap) : Prop where
  ordered : s.elems.shape.Ordered
  members : ∀ a, a ∈ s.elems.shape.keys ↔ a ∈ s.inserted
  balances : s.elems.Balances
  parents : s.elems.Parents none
  lookup : ∀ a, (mutResourcesInternalLookup a s.elems).isSome = true ↔ a ∈ s.inserted
  listed : ∀ rs : List Resource, (∀ a, (∃ r ∈ rs, r.addr = a) ↔ a ∈ s.inserted) →
    ∀ a, (mutResourcesInternalLookup a s.elems).isSome = (Keyed.get Resource.addr a rs).isSome

/-- The tree that plain insertion gives. -/
def plainAdd (t : SearchTree Word) (c : AvlAdd) : SearchTree Word :=
  if c.full then t else t.insert c.addr

def plainAll (t : SearchTree Word) (cs : List AvlAdd) : SearchTree Word := cs.foldl plainAdd t

/-- The invariant of the insertions that need no rotation. -/
structure AvlMap.Follows (s : AvlMap) (t : SearchTree Word) : Prop where
  shape : s.elems.shape = t
  ordered : t.Ordered
  members : ∀ a, a ∈ t.keys ↔ a ∈ s.inserted
  balances : s.elems.Balances
  parents : s.elems.Parents none
  nodup : s.elems.ptrs.Nodup
  fresh : ∀ r ∈ s.elems.ptrs, r < s.next

theorem empty_follows : AvlMap.empty.Follows .nil :=
  ⟨rfl, List.Pairwise.nil, fun _ => iff_of_false List.not_mem_nil List.not_mem_nil, trivial,
    trivial, List.nodup_nil, nofun⟩

variable {s s' : AvlMap} {tree : SearchTree Word}

theorem AvlMap.Follows.proper (h : s.Follows tree) : s.Proper := by
  have hlookup : ∀ a, (mutResourcesInternalLookup a s.elems).isSome = true ↔ a ∈ s.inserted := by
    intro a
    rw [lookup_isSome, h.shape, SearchTree.find_iff h.ordered, h.members]
  refine ⟨h.shape ▸ h.ordered, h.shape ▸ h.members, h.balances, h.parents, hlookup, ?_⟩
  intro rs hrs a
  rw [Bool.eq_iff_iff, hlookup, ← hrs, Keyed.get, List.find?_isSome]
  simp

/-- An insertion that returns null or finds its address changes nothing but the record. -/
theorem add_same (h : s.Follows tree) {c : AvlAdd}
    (hsame : c.full = true ∨ tree.find c.addr = true) :
    ∃ s', s.add c = some s' ∧ s'.Follows (plainAdd tree c) := by
  have hplain : plainAdd tree c = tree := by
    unfold plainAdd
    split
    · rfl
    · rename_i hfull
      exact SearchTree.insert_of_find (hsame.resolve_left hfull)
  have hnext : ∀ r ∈ s.elems.ptrs, r < s.next + 1 := fun r hr =>
    Nat.lt_succ_of_lt (h.fresh r hr)
  rw [hplain]
  by_cases hfind : tree.find c.addr = true
  · obtain ⟨r, hrun⟩ : ∃ r, mutResourcesInternalAdd (if c.full then none else some s.next) c.addr
        0 none s.elems = some (s.elems, 0, some r) := add_found (h.shape ▸ hfind)
    refine ⟨{ elems := s.elems, next := s.next + 1, inserted := c.addr :: s.inserted }, ?_, ?_⟩
    · rw [AvlMap.add, hrun]
      rfl
    · refine ⟨h.shape, h.ordered, ?_, h.balances, h.parents, h.nodup, hnext⟩
      intro a
      rw [h.members, List.mem_cons]
      refine ⟨.inr, ?_⟩
      rintro (rfl | hmem)
      · exact (h.members _).1 ((SearchTree.find_iff h.ordered).1 hfind)
      · exact hmem
  · have hfull : c.full = true := hsame.resolve_right hfind
    have hrun : mutResourcesInternalAdd none c.addr 0 none s.elems = some (s.elems, 0, none) :=
      add_full (h.shape ▸ Bool.eq_false_iff.2 hfind)
    refine ⟨{ elems := s.elems, next := s.next + 1, inserted := s.inserted }, ?_, ?_⟩
    · rw [AvlMap.add, if_pos hfull, hrun]
      rfl
    · exact ⟨h.shape, h.ordered, h.members, h.balances, h.parents, h.nodup, hnext⟩

/-- An insertion needs no rotation and goes right, or needs one and does not. -/
theorem add_step (h : s.Follows tree) (c : AvlAdd) :
    ((plainAdd tree c).Shallow ∧ ∃ s', s.add c = some s' ∧ s'.Follows (plainAdd tree c)) ∨
      (¬ (plainAdd tree c).Shallow ∧ ∀ s', s.add c = some s' → ¬ s'.Proper) := by
  by_cases hsame : c.full = true ∨ tree.find c.addr = true
  · obtain ⟨s', hrun, hs'⟩ := add_same h hsame
    exact .inl ⟨hs'.shape ▸ hs'.balances.shallow, s', hrun, hs'⟩
  · obtain ⟨hfull, hfind⟩ := not_or.1 hsame
    have hplain : plainAdd tree c = tree.insert c.addr := if_neg hfull
    have hq : s.next ∉ s.elems.ptrs := fun hmem => Nat.lt_irrefl _ (h.fresh _ hmem)
    have hinserts : s.elems.Inserts none s.next c.addr
        (mutResourcesInternalAdd (some s.next) c.addr 0 none s.elems) :=
      add_new (h.shape ▸ Bool.eq_false_iff.2 hfind) h.balances h.parents h.nodup hq
        (fun _ _ => nofun) nofun
    rw [hplain]
    unfold Avl.Inserts at hinserts
    rw [h.shape] at hinserts
    rcases hinserts with ⟨hshallow, t', f, hrun, hadded⟩ | ⟨hsteep, hbad⟩
    · left
      refine ⟨hshallow, { elems := t', next := s.next + 1, inserted := c.addr :: s.inserted },
        ?_, ?_⟩
      · rw [AvlMap.add, if_neg hfull, hrun]
        rfl
      · have hshape : t'.shape = tree.insert c.addr := hadded.shape.trans (by rw [h.shape])
        refine ⟨hshape, SearchTree.insert_ordered h.ordered, ?_, hadded.balances, hadded.parents,
          ?_, ?_⟩
        · intro a
          rw [SearchTree.mem_insert, h.members, List.mem_cons]
        · exact hadded.ptrs.nodup_iff.2 (List.nodup_cons.2 ⟨hq, h.nodup⟩)
        · intro r hr
          rcases List.mem_cons.1 (hadded.ptrs.mem_iff.1 hr) with rfl | hr
          · exact Nat.lt_succ_self _
          · exact Nat.lt_succ_of_lt (h.fresh r hr)
    · right
      refine ⟨hsteep, ?_⟩
      intro s' hs' hproper
      rw [AvlMap.add, if_neg hfull] at hs'
      cases hrun : mutResourcesInternalAdd (some s.next) c.addr 0 none s.elems with
      | none =>
          rw [hrun] at hs'
          cases hs'
      | some result =>
          obtain ⟨t', f, r⟩ := result
          rw [hrun] at hs'
          cases hs'
          exact (hbad t' f r hrun).2.2 hproper.parents

/-- What is so of a sequence from a tree that is as it should be. -/
theorem addAll_kept (h : s.Follows tree) (cs : List AvlAdd) :
    (∀ k, ∃ s', s.addAll (cs.take k) = some s' ∧ s'.Proper) ↔
      ∀ k, (plainAll tree (cs.take k)).Shallow := by
  have hnow : tree.Shallow := h.shape ▸ h.balances.shallow
  induction cs generalizing s tree with
  | nil =>
      refine iff_of_true ?_ ?_
      · intro k
        rw [List.take_nil]
        exact ⟨s, rfl, h.proper⟩
      · intro k
        rw [List.take_nil]
        exact hnow
  | cons c cs ih =>
      rcases add_step h c with ⟨hshallow, s₁, hrun, hs₁⟩ | ⟨hsteep, hbad⟩
      · have hrest := ih hs₁ hshallow
        have hadd : ∀ k, s.addAll ((c :: cs).take (k + 1)) = s₁.addAll (cs.take k) := by
          intro k
          rw [List.take_succ_cons, AvlMap.addAll, hrun]
          rfl
        constructor
        · intro hkept k
          cases k with
          | zero => exact hnow
          | succ k =>
              refine hrest.1 (fun k => ?_) k
              rw [← hadd]
              exact hkept (k + 1)
        · intro hall k
          cases k with
          | zero => exact ⟨s, rfl, h.proper⟩
          | succ k =>
              rw [hadd]
              exact hrest.2 (fun k => hall (k + 1)) k
      · refine iff_of_false ?_ ?_
        · intro hkept
          obtain ⟨s', hs', hproper⟩ := hkept 1
          rw [List.take_succ_cons, List.take_zero] at hs'
          cases hrun : s.add c with
          | none =>
              rw [AvlMap.addAll, hrun] at hs'
              cases hs'
          | some s₁ =>
              rw [AvlMap.addAll, hrun] at hs'
              cases hs'
              exact hbad _ hrun hproper
        · intro hall
          exact hsteep (hall 1)

/-- Along a sequence of insertions the tree stays as it should be if and only if plain
insertion of the same addresses never makes the subtrees of a node differ in height by
more than one. -/
theorem avl_kept_iff (cs : List AvlAdd) :
    (∀ k, ∃ s, AvlMap.empty.addAll (cs.take k) = some s ∧ s.Proper) ↔
      ∀ k, (plainAll .nil (cs.take k)).Shallow :=
  addAll_kept empty_follows cs

/-- Three addresses one below the other: a null pointer is used. -/
theorem avl_null_used :
    ¬ ∃ s, AvlMap.empty.addAll [⟨3, false⟩, ⟨2, false⟩, ⟨1, false⟩] = some s ∧ s.Proper := by
  rintro ⟨s, hrun, _⟩
  have hnull : AvlMap.empty.addAll [⟨3, false⟩, ⟨2, false⟩, ⟨1, false⟩] = none := by
    decide +kernel
  rw [hnull] at hrun
  cases hrun

end MutTracker.Source
