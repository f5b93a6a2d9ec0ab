import MutTracker.Source.Machine

/-!
# The balanced tree of resources

`mut_resources_internal_add` and `mut_resources_internal_lookup` of
`src/resources/avl/mut_resources.c`.  The misspelt recursive call is the function
itself, and `mut_exec_addr_lt` is `<`.

A subtree stands for the pointer to its root; the fields `left` and `right` are the
two subtrees, and `parent` is a pointer, known by the number that `malloc` gave it.
Using a null pointer as if it were a resource is `none`.
-/

namespace MutTracker.Source

/-- `mut_resource`, less `left`, `right` and what no insertion reads. -/
structure AvlResource where
  ptr : Nat
  addr : Word
  balanced : Int
  parent : Option Nat
  deriving DecidableEq, Repr

inductive Avl where
  | null
  | node (n : AvlResource) (left right : Avl)
  deriving DecidableEq, Repr

/-- `r->parent = p`. -/
def Avl.setParent (p : Option Nat) : Avl → Option Avl
  | .null => none
  | .node r left right => some (.node { r with parent := p } left right)

/-- The left branch has grown longer, and was the longer one. -/
def mutResourcesLeftGrown (n : AvlResource) (left right : Avl) : Option Avl :=
  match left with
  | .null => none
  | .node p1 p1Left p1Right =>
      if p1.balanced < 0 then do -- LR
        let tp := n.parent
        let p1Right ← p1Right.setParent (some n.ptr)
        let n := { n with parent := p1.parent, balanced := 0 }
        let p1 := { p1 with parent := tp }
        return .node p1 p1Left (.node n p1Right right)
      else -- double LR
        match p1Right with
        | .null => none
        | .node p2 p2Left p2Right => do
            let p2 := { p2 with parent := n.parent }
            let p1 := { p1 with parent := some p2.ptr }
            let p2Left ← p2Left.setParent (some p1.ptr)
            let p2Right ← p2Right.setParent (some n.ptr)
            let n := { n with balanced := if p2.balanced < 0 then 1 else 0 }
            let p1 := { p1 with balanced := if p2.balanced > 0 then -1 else 0 }
            let n := { n with balanced := 0 }
            return .node p2 (.node p1 p1Left p2Left) (.node n p2Right right)

/-- The right branch has grown longer, and was the longer one. -/
def mutResourcesRightGrown (n : AvlResource) (left right : Avl) : Option Avl :=
  match right with
  | .null => none
  | .node p1 p1Left p1Right =>
      if p1.balanced > 0 then -- RR
        let n := { n with balanced := 0 }
        some (.node p1 (.node n left p1Left) p1Right)
      else -- double RL
        match p1Left with
        | .null => none
        | .node p2 p2Left p2Right =>
            let n := { n with balanced := if p2.balanced > 0 then -1 else 0 }
            let p1 := { p1 with balanced := if p2.balanced < 0 then 1 else 0 }
            let n := { n with balanced := 0 }
            some (.node p2 (.node n left p2Left) (.node p1 p2Right p1Right))

/-- `new` is what `malloc` answers if it is called.  The tree, the flag `balanced` and the
resource returned. -/
def mutResourcesInternalAdd (new : Option Nat) (addr : Word) (balanced : Int)
    (parent : Option Nat) : Avl → Option (Avl × Int × Option Nat)
  | .null =>
      match new with
      | none => some (.null, balanced, none)
      | some ptr => some (.node { ptr, addr, balanced := 0, parent } .null .null, 1, some ptr)
  | .node n left right =>
      if addr < n.addr then do
        let (left, balanced, r) ← mutResourcesInternalAdd new addr balanced (some n.ptr) left
        if r = none then
          return (.node n left right, balanced, r)
        if balanced ≠ 0 then
          if n.balanced > 0 then
            return (.node { n with balanced := 0 } left right, 0, r)
          else if n.balanced = 0 then
            return (.node { n with balanced := -1 } left right, balanced, r)
          else
            return (← mutResourcesLeftGrown n left right, 0, r)
        return (.node n left right, balanced, r)
      else if n.addr < addr then do
        let (right, balanced, r) ← mutResourcesInternalAdd new addr balanced (some n.ptr) right
        if r = none then
          return (.node n left right, balanced, r)
        if balanced ≠ 0 then
          if n.balanced < 0 then
            return (.node { n with balanced := 0 } left right, 0, r)
          else if n.balanced = 0 then
            return (.node { n with balanced := 1 } left right, balanced, r)
          else
            return (← mutResourcesRightGrown n left right, 0, r)
        return (.node n left right, balanced, r)
      else
        some (.node n left right, 0, some n.ptr)

def mutResourcesInternalLookup (addr : Word) : Avl → Option Nat
  | .null => none
  | .node r left right =>
      if addr < r.addr then mutResourcesInternalLookup addr left
      else if r.addr < addr then mutResourcesInternalLookup addr right
      else some r.ptr

/-! ## Sequences of insertions -/

/-- An insertion, and whether memory is full if it asks for some. -/
structure AvlAdd where
  addr : Word
  full : Bool
  deriving DecidableEq, Repr

/-- The tree, how many insertions there were, which number the resources, and the addresses
for which a resource was returned. -/
structure AvlMap where
  elems : Avl
  next : Nat
  inserted : List Word
  deriving DecidableEq, Repr

def AvlMap.empty : AvlMap := { elems := .null, next := 0, inserted := [] }

def AvlMap.add (s : AvlMap) (c : AvlAdd) : Option AvlMap := do
  let (elems, _, r) ← mutResourcesInternalAdd (if c.full then none else some s.next) c.addr 0
    none s.elems
  let inserted := if r = none then s.inserted else c.addr :: s.inserted
  return { elems, next := s.next + 1, inserted }

def AvlMap.addAll (s : AvlMap) : List AvlAdd → Option AvlMap
  | [] => some s
  | c :: cs => do (← s.add c).addAll cs

end MutTracker.Source
