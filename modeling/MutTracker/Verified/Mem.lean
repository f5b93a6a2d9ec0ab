import MutTracker.Logic.Runs
import MutTracker.Source.Mem

/-!
# The debugging allocator, accounted for

Every node is in one of two lists, and the blocks held of the C library are exactly
those of the nodes: `Mem.Sound`.  From that the two counters are the sums they
should be, since all blocks fit into the address space, and closing gives everything
back.

A call that fails changes nothing if and only if it is `mut_mem__malloc`:
`mut_mem__realloc` takes back a count of `n_malloc`, or has put the old block into
`freed`, before it asks for the new one.

## Main results

* `malloc_fails`, `malloc_succeeds` — the two ways out of `mut_mem__malloc`.
* `step_sound` — every call keeps the accounts.
* `failed_kept_iff` — which failing calls leave the store as it was.
* `accounting_exact` — the accounts, the maxima and the end of every run.
-/

namespace MutTracker.Source.Debug

open MutTracker.Logic MutTracker.Logic.Prog MutTracker.Logic.Allocator

variable {alloc : Alloc} {s s' : Mem} {addr nBytes line : Word} {fileName : String}

/-! ## What is held -/

/-- The block of a node and the node itself. -/
def blocksOf (ns : List MemNode) : List Block :=
  ns.flatMap fun n => [⟨n.addr, n.nBytes⟩, ⟨n.ptr, sizeofMemNode⟩]

theorem blocksOf_cons (n : MemNode) (ns : List MemNode) :
    blocksOf (n :: ns) = ⟨n.addr, n.nBytes⟩ :: ⟨n.ptr, sizeofMemNode⟩ :: blocksOf ns := rfl

theorem blocksOf_append (ns ns' : List MemNode) :
    blocksOf (ns ++ ns') = blocksOf ns ++ blocksOf ns' := List.flatMap_append

/-- The bytes in the blocks of the nodes. -/
def totalBytes (ns : List MemNode) : Nat := (ns.map fun n => n.nBytes.toNat).sum

theorem totalBytes_cons (n : MemNode) (ns : List MemNode) :
    totalBytes (n :: ns) = n.nBytes.toNat + totalBytes ns := rfl

theorem totalBytes_append (ns ns' : List MemNode) :
    totalBytes (ns ++ ns') = totalBytes ns + totalBytes ns' := by
  unfold totalBytes
  rw [List.map_append, List.sum_append]

/-- The sizes of the blocks of nodes. -/
theorem sizes_blocksOf (ns : List MemNode) :
    ((blocksOf ns).map fun b => b.size.toNat).sum = totalBytes ns + 28 * ns.length := by
  induction ns with
  | nil => rfl
  | cons n ns ih =>
      rw [blocksOf_cons, totalBytes_cons, List.map_cons, List.map_cons, List.sum_cons,
        List.sum_cons, ih, List.length_cons]
      have hnode : (Block.mk n.ptr sizeofMemNode).size.toNat = 28 := rfl
      rw [hnode]
      show n.nBytes.toNat + _ = _
      omega

/-- The store is in order. -/
structure Mem.Sound (s : Mem) : Prop where
  held : s.held.Perm (blocksOf (s.inUse ++ s.freed))
  packed : Packed s.held
  bytes : s.nBytesInUse.toNat = totalBytes s.inUse
  blocks : s.nBlocksInUse.toNat = s.inUse.length
  maxBytes : s.nBytesInUse.toNat ≤ s.maxBytesInUse.toNat
  maxBlocks : s.nBlocksInUse.toNat ≤ s.maxBlocksInUse.toNat
  wrapped : s.wrapped = false

/-- The addresses in the two lists are pairwise distinct. -/
theorem Mem.Sound.unique (h : s.Sound) : Keyed.UniqueKeys MemNode.addr (s.inUse ++ s.freed) := by
  have hunique := (h.packed.perm h.held).unique
  unfold Keyed.UniqueKeys at hunique ⊢
  refine hunique.sublist ?_
  induction s.inUse ++ s.freed with
  | nil => exact List.Sublist.slnil
  | cons n ns ih =>
      rw [blocksOf_cons, List.map_cons, List.map_cons, List.map_cons]
      exact (ih.cons _).cons_cons _

theorem init_sound (report : Bool) (faults : List Bool) (bytes : Memory) :
    (mutMemInit report faults bytes).Sound :=
  ⟨List.Perm.nil, Packed.nil, rfl, rfl, Nat.le_refl 0, Nat.le_refl 0, rfl⟩

/-! ## The allocator below -/

theorem alloc_some {n a : Word} (h : alloc s.time s.held n = some a) :
    Mem.malloc alloc n s =
      .done (some a) { s with time := s.time + 1, held := ⟨a, n⟩ :: s.held } := by
  unfold Mem.malloc
  rw [read_bind, h]
  rfl

theorem alloc_none {n : Word} (h : alloc s.time s.held n = none) :
    Mem.malloc alloc n s = .done none { s with time := s.time + 1 } := by
  unfold Mem.malloc
  rw [read_bind, h]
  rfl

/-- A block that is held can be given back. -/
theorem release_held {a : Word} (h : ∃ b ∈ s.held, b.addr = a) :
    Mem.release a s = .done () { s with held := Keyed.remove Block.addr a s.held } := by
  have hany : (s.held.any fun b => b.addr == a) = true := by
    obtain ⟨b, hb, hba⟩ := h
    exact List.any_eq_true.2 ⟨b, hb, by simp [hba]⟩
  unfold Mem.release
  rw [read_bind, hany]
  rfl

/-- Giving back the block that came last. -/
theorem release_last {a n : Word} {held : List Block} (h : s.held = ⟨a, n⟩ :: held) :
    Mem.release a s = .done () { s with held } := by
  have hmem : ∃ b ∈ s.held, b.addr = a := by
    rw [h]
    exact ⟨⟨a, n⟩, List.mem_cons_self, rfl⟩
  have hback : Keyed.remove Block.addr a s.held = held := by
    rw [h]
    exact List.eraseP_cons_of_pos (by simp)
  rw [release_held hmem, hback]

/-! ## `mut_mem__malloc` -/

/-- The C library refuses the block or the node. -/
def Mem.Refused (alloc : Alloc) (s : Mem) (nBytes : Word) : Prop :=
  alloc s.time s.held nBytes = none ∨
    ∃ a, alloc s.time s.held nBytes = some a ∧
      alloc (s.time + 1) (⟨a, nBytes⟩ :: s.held) sizeofMemNode = none

/-- A refusal leaves everything as it was, but for the time. -/
theorem malloc_fails (h : s.Refused alloc nBytes) (line : Word) (fileName : String) :
    ∃ t, mutMemMalloc alloc nBytes line fileName s = .done none { s with time := t } := by
  unfold mutMemMalloc
  rcases h with hblock | ⟨a, hblock, hnode⟩
  · refine ⟨s.time + 1, ?_⟩
    rw [bind_done (alloc_none hblock)]
    rfl
  · refine ⟨s.time + 1 + 1, ?_⟩
    have hrefused : Mem.malloc alloc sizeofMemNode
        { s with time := s.time + 1, held := ⟨a, nBytes⟩ :: s.held } =
        .done none { s with time := s.time + 1 + 1, held := ⟨a, nBytes⟩ :: s.held } :=
      alloc_none hnode
    have hreleased : Mem.release a
        { s with time := s.time + 1 + 1, held := ⟨a, nBytes⟩ :: s.held } =
        .done () { s with time := s.time + 1 + 1 } := release_last rfl
    rw [bind_done (alloc_some hblock)]
    show (Mem.malloc alloc sizeofMemNode >>= _) _ = _
    rw [bind_done hrefused]
    show (Mem.release a >>= _) _ = _
    rw [bind_done hreleased]
    rfl

/-- The store with a block more. -/
def Mem.given (s : Mem) (node : MemNode) : Mem :=
  { s with
    time := s.time + 1 + 1
    held := ⟨node.ptr, sizeofMemNode⟩ :: ⟨node.addr, node.nBytes⟩ :: s.held }.enter node

/-- A `mut_mem_malloc` that is not refused enters a node for the block. -/
theorem malloc_succeeds (h : ¬ s.Refused alloc nBytes) :
    ∃ node : MemNode, node.nBytes = nBytes ∧ alloc s.time s.held nBytes = some node.addr ∧
      alloc (s.time + 1) (⟨node.addr, nBytes⟩ :: s.held) sizeofMemNode = some node.ptr ∧
      mutMemMalloc alloc nBytes line fileName s = .done (some node.addr) (s.given node) := by
  obtain ⟨hblock, hnode⟩ := not_or.1 h
  cases ha : alloc s.time s.held nBytes with
  | none => exact absurd ha hblock
  | some a =>
      cases hp : alloc (s.time + 1) (⟨a, nBytes⟩ :: s.held) sizeofMemNode with
      | none => exact absurd ⟨a, ha, hp⟩ hnode
      | some p =>
          refine ⟨{ ptr := p, addr := a, nBytes, malloc := ⟨line, some fileName⟩,
                    free := ⟨0, none⟩ }, rfl, rfl, hp, ?_⟩
          have hnode : Mem.malloc alloc sizeofMemNode
              { s with time := s.time + 1, held := ⟨a, nBytes⟩ :: s.held } =
              .done (some p) { s with
                time := s.time + 1 + 1
                held := ⟨p, sizeofMemNode⟩ :: ⟨a, nBytes⟩ :: s.held } := alloc_some hp
          unfold mutMemMalloc
          rw [bind_done (alloc_some ha)]
          show (Mem.malloc alloc sizeofMemNode >>= _) _ = _
          rw [bind_done hnode]
          rfl

/-! ## The accounts -/

/-- A maximum raised to a counter is not below it. -/
theorem le_raised (n max : Word) : n.toNat ≤ (if n > max then n else max).toNat := by
  split
  · exact Nat.le_refl _
  · rename_i hnot
    exact BitVec.not_lt.1 hnot

/-- Another block is counted. -/
theorem given_sound (law : Lawful alloc) (h : s.Sound) {node : MemNode}
    (hblock : alloc s.time s.held node.nBytes = some node.addr)
    (hnode : alloc (s.time + 1) (⟨node.addr, node.nBytes⟩ :: s.held) sizeofMemNode =
      some node.ptr) : (s.given node).Sound := by
  have hpacked : Packed (⟨node.ptr, sizeofMemNode⟩ :: ⟨node.addr, node.nBytes⟩ :: s.held) :=
    (h.packed.alloc law hblock).alloc law hnode
  have hperm : (⟨node.ptr, sizeofMemNode⟩ :: ⟨node.addr, node.nBytes⟩ :: s.held : List Block).Perm
      (blocksOf (node :: s.inUse ++ s.freed)) := by
    rw [List.cons_append, blocksOf_cons]
    exact (List.Perm.swap _ _ _).trans ((h.held.cons _).cons _)
  have hsizes := (hpacked.perm hperm).sizes_le
  rw [sizes_blocksOf, totalBytes_append, totalBytes_cons, List.length_append, List.length_cons]
    at hsizes
  refine ⟨hperm, hpacked, ?_, ?_, le_raised _ _, le_raised _ _, h.wrapped⟩
  · show (s.nBytesInUse + node.nBytes).toNat = totalBytes (node :: s.inUse)
    rw [BitVec.toNat_add, h.bytes, totalBytes_cons, Nat.mod_eq_of_lt (by omega)]
    exact Nat.add_comm _ _
  · show (s.nBlocksInUse + 1).toNat = (node :: s.inUse).length
    rw [BitVec.toNat_add, h.blocks, List.length_cons]
    show (s.inUse.length + 1) % 2 ^ 32 = _
    exact Nat.mod_eq_of_lt (by omega)

/-- A block of those in use is no longer counted. -/
theorem unlink_sound (h : s.Sound) {node : MemNode} (hnode : node ∈ s.inUse)
    (pos : MemSourcePos) : (s.unlink node pos).Sound := by
  have hunique : Keyed.UniqueKeys MemNode.addr s.inUse := by
    have hall := h.unique
    unfold Keyed.UniqueKeys at hall ⊢
    rw [List.map_append] at hall
    exact (List.nodup_append.1 hall).1
  obtain ⟨before, after, hsplit, hbefore, _⟩ := hunique.split hnode
  have hremove : Keyed.remove MemNode.addr node.addr s.inUse = before ++ after := by
    rw [hsplit]
    exact Keyed.remove_split hbefore
  have htotal : totalBytes s.inUse = node.nBytes.toNat + totalBytes (before ++ after) := by
    rw [hsplit, totalBytes_append, totalBytes_append, totalBytes_cons]
    omega
  have hlength : s.inUse.length = (before ++ after).length + 1 := by
    rw [hsplit, List.length_append, List.length_append, List.length_cons]
    omega
  have hbytes : node.nBytes ≤ s.nBytesInUse := by
    show node.nBytes.toNat ≤ s.nBytesInUse.toNat
    rw [h.bytes, htotal]
    exact Nat.le_add_right _ _
  have hblocks : (1 : Word) ≤ s.nBlocksInUse := by
    show 1 ≤ s.nBlocksInUse.toNat
    rw [h.blocks, hlength]
    exact Nat.le_add_left _ _
  refine ⟨?_, h.packed, ?_, ?_, ?_, ?_, ?_⟩
  · show s.held.Perm (blocksOf (Keyed.remove MemNode.addr node.addr s.inUse ++
      { node with free := pos } :: s.freed))
    rw [hremove]
    refine h.held.trans ?_
    rw [hsplit, List.append_assoc, List.cons_append, blocksOf_append, blocksOf_cons,
      List.append_assoc, blocksOf_append, blocksOf_append, blocksOf_append, blocksOf_cons]
    refine List.Perm.append_left _ ?_
    exact (List.perm_append_comm_assoc
      [⟨node.addr, node.nBytes⟩, ⟨node.ptr, sizeofMemNode⟩] (blocksOf after) (blocksOf s.freed))
  · show (s.nBytesInUse - node.nBytes).toNat =
      totalBytes (Keyed.remove MemNode.addr node.addr s.inUse)
    rw [BitVec.toNat_sub_of_le hbytes, h.bytes, hremove, htotal]
    exact Nat.add_sub_cancel_left _ _
  · show (s.nBlocksInUse - 1).toNat = (Keyed.remove MemNode.addr node.addr s.inUse).length
    rw [BitVec.toNat_sub_of_le hblocks, h.blocks, hremove, hlength]
    exact Nat.add_sub_cancel _ _
  · show (s.nBytesInUse - node.nBytes).toNat ≤ s.maxBytesInUse.toNat
    rw [BitVec.toNat_sub_of_le hbytes]
    exact Nat.le_trans (Nat.sub_le _ _) h.maxBytes
  · show (s.nBlocksInUse - 1).toNat ≤ s.maxBlocksInUse.toNat
    rw [BitVec.toNat_sub_of_le hblocks]
    exact Nat.le_trans (Nat.sub_le _ _) h.maxBlocks
  · show (s.wrapped || decide (s.nBytesInUse < node.nBytes) || decide (s.nBlocksInUse < 1)) = false
    rw [h.wrapped, decide_eq_false (BitVec.not_lt.2 hbytes),
      decide_eq_false (BitVec.not_lt.2 hblocks)]
    rfl

/-! ## Freeing and reallocating -/

theorem free_null : mutMemFree 0 line fileName s =
    .done () { s with nFree := s.nFree + 1, nFree0 := s.nFree0 + 1 } := rfl

/-- A block in use is filled and its node moved. -/
theorem free_found {n : MemNode} (haddr : addr ≠ 0)
    (hn : Keyed.get MemNode.addr addr s.inUse = some n) :
    mutMemFree addr line fileName s =
      .done () ({ s with
        nFree := s.nFree + 1, bytes := memset s.bytes addr 0xaa n.nBytes }.unlink n
          ⟨line, some fileName⟩) := by
  unfold mutMemFree
  simp only [update_bind, if_neg haddr, read_bind, hn]
  rfl

/-- The store when `mut_mem__realloc` calls `mut_mem__malloc`, with no block. -/
def Mem.reallocNull (s : Mem) : Mem :=
  { s with
    nRealloc := s.nRealloc + 1, nRealloc0 := s.nRealloc0 + 1, nMalloc := s.nMalloc - 1 }

/-- The store when `mut_mem__realloc` calls `mut_mem__malloc`, with the block of a node. -/
def Mem.reallocFound (s : Mem) (n : MemNode) (pos : MemSourcePos) : Mem :=
  { s with nRealloc := s.nRealloc + 1 }.unlink n pos

/-- What is done with the new block. -/
def Mem.copied (s : Mem) (n : MemNode) (newAddr nBytes : Word) : Mem :=
  { s with
    bytes := memset (memcpy s.bytes newAddr n.addr
      (if n.nBytes < nBytes then n.nBytes else nBytes)) n.addr 1 n.nBytes
    nMalloc := s.nMalloc - 1 }

theorem realloc_found {n : MemNode} (haddr : addr ≠ 0)
    (hn : Keyed.get MemNode.addr addr s.inUse = some n) {r : Option Word}
    (h : mutMemMalloc alloc nBytes line fileName
      (s.reallocFound n ⟨line, some fileName⟩) = .done r s') :
    mutMemRealloc alloc addr nBytes line fileName s =
      .done r (match r with
        | none => s'
        | some newAddr => s'.copied n newAddr nBytes) := by
  have hkey : n.addr = addr := Keyed.key_of_get hn
  subst hkey
  unfold mutMemRealloc
  simp only [update_bind, if_neg haddr, read_bind, hn]
  have hrun : mutMemMalloc alloc nBytes line fileName
      ({ s with nRealloc := s.nRealloc + 1 }.unlink n ⟨line, some fileName⟩) = .done r s' := h
  rw [bind_done hrun]
  cases r <;> rfl

/-! ## Calls -/

/-- The address is null or that of a block in use. -/
def Mem.Usable (s : Mem) (addr : Word) : Prop := addr = 0 ∨ ∃ n ∈ s.inUse, n.addr = addr

/-- A call on null or on a block in use. -/
def MemCall.Allowed (s : Mem) : MemCall → Prop
  | .malloc _ _ _ => True
  | .realloc addr _ _ _ => s.Usable addr
  | .free addr _ _ => s.Usable addr

/-- A call from one store to the next. -/
def MemStep (alloc : Alloc) (s : Mem) (c : MemCall) (s' : Mem) : Prop :=
  c.Allowed s ∧ ∃ r, c.run alloc s = .done r s'

/-- The maxima are raised to the counters. -/
structure Mem.Raised (s s' : Mem) : Prop where
  bytes : s'.maxBytesInUse = if s.maxBytesInUse.toNat < s'.nBytesInUse.toNat then s'.nBytesInUse
    else s.maxBytesInUse
  blocks : s'.maxBlocksInUse = if s.maxBlocksInUse.toNat < s'.nBlocksInUse.toNat then
    s'.nBlocksInUse else s.maxBlocksInUse

/-- As long as the counters are not above them the maxima stay. -/
theorem raised_same (hmax : s'.maxBytesInUse = s.maxBytesInUse)
    (hmax' : s'.maxBlocksInUse = s.maxBlocksInUse) (h : s'.Sound) : s.Raised s' := by
  constructor
  · have hle := h.maxBytes
    rw [hmax] at hle ⊢
    exact (if_neg (Nat.not_lt.2 hle)).symm
  · have hle := h.maxBlocks
    rw [hmax'] at hle ⊢
    exact (if_neg (Nat.not_lt.2 hle)).symm

/-- The node of an address in use. -/
theorem found_of_usable (h : s.Sound) (hne : addr ≠ 0) (husable : s.Usable addr) :
    ∃ n ∈ s.inUse, n.addr = addr ∧ Keyed.get MemNode.addr addr s.inUse = some n := by
  obtain ⟨n, hn, rfl⟩ := husable.resolve_left hne
  have hunique : Keyed.UniqueKeys MemNode.addr s.inUse := by
    have hall := h.unique
    unfold Keyed.UniqueKeys at hall ⊢
    rw [List.map_append] at hall
    exact (List.nodup_append.1 hall).1
  exact ⟨n, hn, rfl, hunique.get_of_mem hn⟩

/-- `mut_mem__malloc` keeps the accounts. -/
theorem malloc_sound (law : Lawful alloc) (h : s.Sound) (nBytes line : Word) (fileName : String) :
    ∃ r s', mutMemMalloc alloc nBytes line fileName s = .done r s' ∧ s'.Sound ∧ s.Raised s' := by
  by_cases hrefused : s.Refused alloc nBytes
  · obtain ⟨t, hrun⟩ := malloc_fails hrefused line fileName
    have hsound : ({ s with time := t } : Mem).Sound :=
      ⟨h.held, h.packed, h.bytes, h.blocks, h.maxBytes, h.maxBlocks, h.wrapped⟩
    exact ⟨none, _, hrun, hsound, raised_same rfl rfl hsound⟩
  · obtain ⟨node, rfl, hblock, hnode, hrun⟩ := malloc_succeeds hrefused
    exact ⟨some node.addr, _, hrun, given_sound law h hblock hnode, ⟨rfl, rfl⟩⟩

/-- Every call on null or on a block in use returns and keeps the accounts. -/
theorem step_sound (law : Lawful alloc) (h : s.Sound) (c : MemCall) (hc : c.Allowed s) :
    ∃ r s', c.run alloc s = .done r s' ∧ s'.Sound ∧ s.Raised s' := by
  cases c with
  | malloc nBytes line fileName => exact malloc_sound law h nBytes line fileName
  | free addr line fileName =>
      by_cases hnull : addr = 0
      · subst hnull
        have hsound : ({ s with nFree := s.nFree + 1, nFree0 := s.nFree0 + 1 } : Mem).Sound :=
          ⟨h.held, h.packed, h.bytes, h.blocks, h.maxBytes, h.maxBlocks, h.wrapped⟩
        exact ⟨none, _, bind_done free_null, hsound, raised_same rfl rfl hsound⟩
      · obtain ⟨n, hn, -, hget⟩ := found_of_usable h hnull hc
        have hfilled : ({ s with
            nFree := s.nFree + 1, bytes := memset s.bytes addr 0xaa n.nBytes } : Mem).Sound :=
          ⟨h.held, h.packed, h.bytes, h.blocks, h.maxBytes, h.maxBlocks, h.wrapped⟩
        have hsound := unlink_sound hfilled hn ⟨line, some fileName⟩
        exact ⟨none, _, bind_done (free_found hnull hget), hsound, raised_same rfl rfl hsound⟩
  | realloc addr nBytes line fileName =>
      by_cases hnull : addr = 0
      · subst hnull
        have hstart : s.reallocNull.Sound :=
          ⟨h.held, h.packed, h.bytes, h.blocks, h.maxBytes, h.maxBlocks, h.wrapped⟩
        obtain ⟨r, s', hrun, hsound, hraised⟩ := malloc_sound law hstart nBytes line fileName
        exact ⟨r, s', hrun, hsound, ⟨hraised.bytes, hraised.blocks⟩⟩
      · obtain ⟨n, hn, -, hget⟩ := found_of_usable h hnull hc
        have hcounted : ({ s with nRealloc := s.nRealloc + 1 } : Mem).Sound :=
          ⟨h.held, h.packed, h.bytes, h.blocks, h.maxBytes, h.maxBlocks, h.wrapped⟩
        have hstart : (s.reallocFound n ⟨line, some fileName⟩).Sound :=
          unlink_sound hcounted hn _
        obtain ⟨r, s', hrun, hsound, hraised⟩ := malloc_sound law hstart nBytes line fileName
        refine ⟨r, _, realloc_found hnull hget hrun, ?_⟩
        cases r with
        | none => exact ⟨hsound, ⟨hraised.bytes, hraised.blocks⟩⟩
        | some newAddr =>
            exact ⟨⟨hsound.held, hsound.packed, hsound.bytes, hsound.blocks, hsound.maxBytes,
              hsound.maxBlocks, hsound.wrapped⟩, ⟨hraised.bytes, hraised.blocks⟩⟩

/-! ## Closing -/

/-- A block that is held is given back, and the others stay. -/
theorem release_perm {b : Block} {rest : List Block} (h : s.held.Perm (b :: rest))
    (hpacked : Packed s.held) :
    ∃ held, Mem.release b.addr s = .done () { s with held } ∧ held.Perm rest ∧ Packed held := by
  have hmem : b ∈ s.held := h.mem_iff.2 List.mem_cons_self
  obtain ⟨before, after, hsplit, hbefore, _⟩ := hpacked.unique.split hmem
  have hremove : Keyed.remove Block.addr b.addr s.held = before ++ after := by
    rw [hsplit]
    exact Keyed.remove_split hbefore
  refine ⟨Keyed.remove Block.addr b.addr s.held, release_held ⟨b, hmem, rfl⟩, ?_,
    hpacked.remove b.addr⟩
  rw [hremove]
  rw [hsplit] at h
  exact (List.perm_middle.symm.trans h).cons_inv

/-- Both blocks of a node are given back. -/
theorem release_node {α : Type} {n : MemNode} {rest : List Block} {f : MemM α}
    (h : s.held.Perm (⟨n.addr, n.nBytes⟩ :: ⟨n.ptr, sizeofMemNode⟩ :: rest))
    (hpacked : Packed s.held) :
    ∃ held, held.Perm rest ∧ Packed held ∧
      (do Mem.release n.addr; Mem.release n.ptr; f) s = f { s with held } := by
  obtain ⟨held₁, hrun₁, hperm₁, hpacked₁⟩ := release_perm h hpacked
  obtain ⟨held₂, hrun₂, hperm₂, hpacked₂⟩ :=
    release_perm (s := { s with held := held₁ }) hperm₁ hpacked₁
  refine ⟨held₂, hperm₂, hpacked₂, ?_⟩
  rw [bind_done hrun₁, bind_done hrun₂]

/-- The blocks still in use are given back, and no longer counted. -/
theorem closeInUse_done {ns rest : List MemNode} (status : Nat)
    (h : s.held.Perm (blocksOf (ns ++ rest))) (hpacked : Packed s.held)
    (hbytes : s.nBytesInUse.toNat = totalBytes ns) (hblocks : s.nBlocksInUse.toNat = ns.length)
    (hwrapped : s.wrapped = false) :
    ∃ status' s', mutMemCloseInUse ns status s = .done status' s' ∧
      s'.held.Perm (blocksOf rest) ∧ Packed s'.held ∧ s'.nBytesInUse = 0 ∧ s'.nBlocksInUse = 0 ∧
      s'.wrapped = false ∧ s'.freed = s.freed := by
  induction ns generalizing s status with
  | nil =>
      exact ⟨status, s, rfl, h, hpacked, BitVec.eq_of_toNat_eq hbytes,
        BitVec.eq_of_toNat_eq hblocks, hwrapped, rfl⟩
  | cons n ns ih =>
      rw [totalBytes_cons] at hbytes
      rw [List.length_cons] at hblocks
      have hbytesle : n.nBytes ≤ s.nBytesInUse := by
        show n.nBytes.toNat ≤ s.nBytesInUse.toNat
        omega
      have hblocksle : (1 : Word) ≤ s.nBlocksInUse := by
        show 1 ≤ s.nBlocksInUse.toNat
        omega
      obtain ⟨held, hperm, hpacked', hrelease⟩ := release_node
        (s := { s with
          lines := s.lines ++ [MemLine.memoryLeak n.malloc n.addr n.nBytes]
          faults := s.faults.tail }.discount n)
        (f := mutMemCloseInUse ns (if !(s.faults.headD false) then status else 1)) h hpacked
      have hrun : mutMemCloseInUse (n :: ns) status s =
          mutMemCloseInUse ns (if !(s.faults.headD false) then status else 1)
            { ({ s with
              lines := s.lines ++ [.memoryLeak n.malloc n.addr n.nBytes]
              faults := s.faults.tail } : Mem).discount n with held } := hrelease
      rw [hrun]
      apply ih _ hperm hpacked'
      · show (s.nBytesInUse - n.nBytes).toNat = totalBytes ns
        rw [BitVec.toNat_sub_of_le hbytesle]
        omega
      · show (s.nBlocksInUse - 1).toNat = ns.length
        rw [BitVec.toNat_sub_of_le hblocksle]
        show s.nBlocksInUse.toNat - 1 = ns.length
        omega
      · show (s.wrapped || decide (s.nBytesInUse < n.nBytes) || decide (s.nBlocksInUse < 1)) =
          false
        rw [hwrapped, decide_eq_false (BitVec.not_lt.2 hbytesle),
          decide_eq_false (BitVec.not_lt.2 hblocksle)]
        rfl

/-- Closing gives back the blocks of the nodes that were freed. -/
theorem closeFreed_done {ns : List MemNode} (h : s.held.Perm (blocksOf ns))
    (hpacked : Packed s.held) :
    mutMemCloseFreed ns s = .done () { s with held := [] } := by
  induction ns generalizing s with
  | nil =>
      have hnone : s.held = [] := List.Perm.eq_nil h
      show Outcome.done () s = .done () { s with held := [] }
      rw [← hnone]
  | cons n ns ih =>
      obtain ⟨held, hperm, hpacked', hrelease⟩ :=
        release_node (f := mutMemCloseFreed ns) h hpacked
      have hrun : mutMemCloseFreed (n :: ns) s = mutMemCloseFreed ns { s with held } := hrelease
      rw [hrun]
      exact ih (s := { s with held }) hperm hpacked'

/-- Writing the report changes what is written. -/
theorem closeReport_done (ls : List MemLine) (status : Nat) (s : Mem) :
    ∃ status' lines faults, mutMemCloseReport ls status s =
      .done status' { s with lines, faults } := by
  induction ls generalizing s status with
  | nil => exact ⟨status, s.lines, s.faults, rfl⟩
  | cons l ls ih =>
      exact ih (if !(s.faults.headD false) then status else 2)
        { s with lines := s.lines ++ [l], faults := s.faults.tail }

/-- Closing passes both assertions and leaves nothing held. -/
theorem close_done (h : s.Sound) :
    ∃ status s', mutMemClose s = .done status s' ∧ s'.held = [] ∧ s'.wrapped = false := by
  obtain ⟨status, lines, faults, hreport⟩ :=
    closeReport_done (if s.report then s.reportLines else []) 0 s
  obtain ⟨status', s', hloop, hperm, hpacked, hbytes, hblocks, hwrapped, hfreed⟩ :=
    closeInUse_done (s := { s with lines, faults }) status h.held h.packed h.bytes
      h.blocks h.wrapped
  have hpass : (s'.nBytesInUse == 0) = true ∧ (s'.nBlocksInUse == 0) = true := by
    rw [hbytes, hblocks]
    exact ⟨rfl, rfl⟩
  have hfree : (mutMemCloseFreed s'.freed >>= fun _ => pure status') s' =
      .done status' { s' with held := [] } := by
    have hperm' : s'.held.Perm (blocksOf s'.freed) := by
      rw [hfreed]
      exact hperm
    rw [bind_done (closeFreed_done hperm' hpacked)]
    rfl
  refine ⟨status', { s' with held := [] }, ?_, rfl, hwrapped⟩
  unfold mutMemClose
  rw [read_bind, bind_done hreport, bind_done hloop, read_bind, hpass.1, hpass.2]
  exact hfree

/-! ## Every run -/

/-- A step keeps the accounts and raises the maxima. -/
theorem memStep_sound (law : Lawful alloc) {c : MemCall} (h : s.Sound)
    (hstep : MemStep alloc s c s') : s'.Sound ∧ s.Raised s' := by
  obtain ⟨hc, r, hrun⟩ := hstep
  obtain ⟨r', t, hrun', hsound, hraised⟩ := step_sound law h c hc
  rw [hrun] at hrun'
  injection hrun' with _ heq
  rw [heq]
  exact ⟨hsound, hraised⟩

theorem run_sound (law : Lawful alloc) {report : Bool} {faults : List Bool} {bytes : Memory}
    {calls : List MemCall} (hrun : Run (MemStep alloc) (mutMemInit report faults bytes) calls s) :
    s.Sound :=
  hrun.invariant (init_sound report faults bytes) fun _ _ _ ht hstep =>
    (memStep_sound law ht hstep).1

/-- After any sequence of calls on null or on blocks in use, some of them refused by
the C library: the counters are the sums over `in_use`, the addresses in both lists are
pairwise distinct, each maximum is the greatest value that its counter had, no
subtraction went below zero, each further call of this kind returns, and so does
`mut_mem_close`, which gives back every block held, each once. -/
theorem accounting_exact (law : Lawful alloc) {report : Bool} {faults : List Bool}
    {bytes : Memory} {calls : List MemCall}
    (hrun : Run (MemStep alloc) (mutMemInit report faults bytes) calls s) :
    (s.nBytesInUse.toNat = (s.inUse.map fun n => n.nBytes.toNat).sum ∧
      s.nBlocksInUse.toNat = s.inUse.length ∧
      ((s.inUse ++ s.freed).map MemNode.addr).Nodup ∧ s.wrapped = false) ∧
    ((∃ t, Through (MemStep alloc) (mutMemInit report faults bytes) calls s t ∧
        s.maxBytesInUse = t.nBytesInUse) ∧
      (∃ t, Through (MemStep alloc) (mutMemInit report faults bytes) calls s t ∧
        s.maxBlocksInUse = t.nBlocksInUse) ∧
      ∀ t, Through (MemStep alloc) (mutMemInit report faults bytes) calls s t →
        t.nBytesInUse.toNat ≤ s.maxBytesInUse.toNat ∧
          t.nBlocksInUse.toNat ≤ s.maxBlocksInUse.toNat) ∧
    (∀ c : MemCall, c.Allowed s → ∃ r s', c.run alloc s = .done r s') ∧
    s.held.Perm (blocksOf (s.inUse ++ s.freed)) ∧
    ∃ status s', mutMemClose s = .done status s' ∧ s'.held = [] ∧ s'.wrapped = false := by
  have h := run_sound law hrun
  have hfirst := init_sound report faults bytes
  have hkeep : ∀ t c t', Mem.Sound t → MemStep alloc t c t' → t'.Sound :=
    fun _ _ _ ht hstep => (memStep_sound law ht hstep).1
  have hbytes : Marks (MemStep alloc) Mem.Sound BitVec.toNat Mem.nBytesInUse Mem.maxBytesInUse :=
    fun _ _ _ ht hstep _ => (memStep_sound law ht hstep).2.bytes
  have hblocks :
      Marks (MemStep alloc) Mem.Sound BitVec.toNat Mem.nBlocksInUse Mem.maxBlocksInUse :=
    fun _ _ _ ht hstep _ => (memStep_sound law ht hstep).2.blocks
  refine ⟨⟨h.bytes, h.blocks, h.unique, h.wrapped⟩, ⟨?_, ?_, ?_⟩, ?_, h.held, close_done h⟩
  · exact hrun.attained hfirst hkeep hbytes rfl
  · exact hrun.attained hfirst hkeep hblocks rfl
  · intro t ht
    exact ⟨Run.highest ht hfirst hkeep hbytes rfl, Run.highest ht hfirst hkeep hblocks rfl⟩
  · intro c hc
    obtain ⟨r, s', hdone, _⟩ := step_sound law h c hc
    exact ⟨r, s', hdone⟩

/-! ## A computed run -/

instance (s : Mem) (addr : Word) : Decidable (s.Usable addr) :=
  inferInstanceAs (Decidable (addr = 0 ∨ ∃ n ∈ s.inUse, n.addr = addr))

instance (s : Mem) (c : MemCall) : Decidable (c.Allowed s) :=
  match c with
  | .malloc _ _ _ => inferInstanceAs (Decidable True)
  | .realloc addr _ _ _ => inferInstanceAs (Decidable (s.Usable addr))
  | .free addr _ _ => inferInstanceAs (Decidable (s.Usable addr))

/-- The store after a call that is allowed and returns. -/
def Mem.called (alloc : Alloc) (s : Mem) (c : MemCall) : Option Mem :=
  if c.Allowed s then
    match c.run alloc s with
    | .done _ s' => some s'
    | .halt _ => none
  else none

theorem called_step {c : MemCall} (h : s.called alloc c = some s') : MemStep alloc s c s' := by
  unfold Mem.called at h
  by_cases hc : c.Allowed s
  · rw [if_pos hc] at h
    cases hrun : c.run alloc s with
    | done r t =>
        rw [hrun] at h
        cases h
        exact ⟨hc, r, hrun⟩
    | halt e =>
        rw [hrun] at h
        cases h
  · rw [if_neg hc] at h
    cases h

/-- Two blocks, of which the first one is resized and the second one freed; and then a block
that is refused. -/
def someCalls : List MemCall :=
  [.malloc 8 1 "a.c", .malloc 16 2 "a.c", .realloc 0x1000 32 3 "a.c", .free 0x1026 4 "b.c",
    .malloc 0xffffffff 5 "b.c"]

/-- Most was in use after the third call. -/
theorem accounting_exact_someCalls :
    ∃ s, Run (MemStep upwards) (mutMemInit false [] fun _ => 0) someCalls s ∧
      (s.nBytesInUse, s.maxBytesInUse, s.maxBlocksInUse) = (32, 48, 2) ∧
      s.nBytesInUse.toNat = (s.inUse.map fun n => n.nBytes.toNat).sum ∧
      (∃ t, Through (MemStep upwards) (mutMemInit false [] fun _ => 0) someCalls s t ∧
        s.maxBytesInUse = t.nBytesInUse) ∧
      ∃ status s', mutMemClose s = .done status s' ∧ s'.held = [] ∧ s'.wrapped = false := by
  have hlook : (someCalls.foldlM (Mem.called upwards) (mutMemInit false [] fun _ => 0)).map
      (fun s => (s.nBytesInUse, s.maxBytesInUse, s.maxBlocksInUse)) = some (32, 48, 2) := by
    decide +kernel
  obtain ⟨s, hcalls, hcounts⟩ := Option.map_eq_some_iff.1 hlook
  have hrun : Run (MemStep upwards) (mutMemInit false [] fun _ => 0) someCalls s :=
    .of_foldlM (fun _ _ _ => called_step) hcalls
  obtain ⟨⟨hbytes, -⟩, ⟨hmax, -⟩, -, -, hclose⟩ := accounting_exact upwards_lawful hrun
  exact ⟨s, hrun, hcounts, hbytes, hmax, hclose⟩

/-- A store with one block of eight bytes in use. -/
def oneBlock : Mem :=
  (mutMemInit false [] fun _ => 0).given
    { ptr := 0x1009, addr := 0x1000, nBytes := 8, malloc := ⟨1, some "a.c"⟩, free := ⟨0, none⟩ }

theorem run_oneBlock : Run (MemStep upwards) (mutMemInit false [] fun _ => 0)
    [.malloc 8 1 "a.c"] oneBlock :=
  Run.next Run.start ⟨trivial, some 0x1000, rfl⟩

/-! ## Failing calls -/

/-- The C library refuses what the call asks for. -/
def MemCall.Fails (alloc : Alloc) (s : Mem) : MemCall → Prop
  | .malloc nBytes _ _ => s.Refused alloc nBytes
  | .realloc _ nBytes _ _ => s.Refused alloc nBytes
  | .free _ _ _ => False

/-- The call is one of `mut_mem__malloc`. -/
def MemCall.isMalloc : MemCall → Bool
  | .malloc _ _ _ => true
  | _ => false

/-- A failing call has left the store as it was. -/
structure Mem.Kept (s s' : Mem) : Prop where
  inUse : s'.inUse = s.inUse
  freed : s'.freed = s.freed
  held : s'.held = s.held
  bytes : s'.bytes = s.bytes
  nBytesInUse : s'.nBytesInUse = s.nBytesInUse
  nBlocksInUse : s'.nBlocksInUse = s.nBlocksInUse
  maxBytesInUse : s'.maxBytesInUse = s.maxBytesInUse
  maxBlocksInUse : s'.maxBlocksInUse = s.maxBlocksInUse
  nMalloc : s'.nMalloc = s.nMalloc

theorem sub_one_ne (w : Word) : w - 1 ≠ w := by
  intro h
  have hnat := congrArg BitVec.toNat h
  rw [BitVec.toNat_sub] at hnat
  have hone : (1 : Word).toNat = 1 := rfl
  have hlt := w.isLt
  omega

/-- A failing `mut_mem__realloc` returns null, but with a count changed. -/
theorem realloc_fails (h : s.Sound) (husable : s.Usable addr) (hfails : s.Refused alloc nBytes)
    (line : Word) (fileName : String) :
    ∃ s', mutMemRealloc alloc addr nBytes line fileName s = .done none s' ∧
      (s'.nMalloc = s.nMalloc - 1 ∨ s'.nBlocksInUse = s.nBlocksInUse - 1) := by
  by_cases hnull : addr = 0
  · subst hnull
    have hrefused : s.reallocNull.Refused alloc nBytes := hfails
    obtain ⟨t, hrun⟩ := malloc_fails hrefused line fileName
    exact ⟨_, hrun, Or.inl rfl⟩
  · obtain ⟨n, _, -, hget⟩ := found_of_usable h hnull husable
    have hrefused : (s.reallocFound n ⟨line, some fileName⟩).Refused alloc nBytes := hfails
    obtain ⟨t, hrun⟩ := malloc_fails hrefused line fileName
    exact ⟨_, realloc_found hnull hget hrun, Or.inr rfl⟩

/-- In every reachable store, a call on null or on a block in use for which the C
library refuses the block or the node returns null with everything as it was if and
only if it is a call of `mut_mem__malloc`. -/
theorem failed_kept_iff (law : Lawful alloc) {report : Bool} {faults : List Bool}
    {bytes : Memory} {calls : List MemCall}
    (hrun : Run (MemStep alloc) (mutMemInit report faults bytes) calls s) (c : MemCall)
    (hc : c.Allowed s) (hfails : c.Fails alloc s) :
    (∃ s', c.run alloc s = .done none s' ∧ s.Kept s') ↔ c.isMalloc = true := by
  have h := run_sound law hrun
  cases c with
  | malloc nBytes line fileName =>
      obtain ⟨t, hdone⟩ := malloc_fails hfails line fileName
      constructor
      · intro _
        rfl
      · intro _
        exact ⟨_, hdone, ⟨rfl, rfl, rfl, rfl, rfl, rfl, rfl, rfl, rfl⟩⟩
  | realloc addr nBytes line fileName =>
      obtain ⟨t, hdone, hchanged⟩ :=
        realloc_fails h hc hfails line fileName
      constructor
      · rintro ⟨s', hrun', hkept⟩
        have hsame : Outcome.done none s' = Outcome.done none t :=
          hrun'.symm.trans hdone
        injection hsame with _ heq
        rw [← heq] at hchanged
        rcases hchanged with hmalloc | hblocks
        · exact absurd (hmalloc.symm.trans hkept.nMalloc) (sub_one_ne _)
        · exact absurd (hblocks.symm.trans hkept.nBlocksInUse) (sub_one_ne _)
      · intro hmalloc
        exact absurd hmalloc nofun
  | free addr line fileName => exact hfails.elim

/-- A block larger than what is left is refused, for a new block and for the old one. -/
theorem refused_oneBlock : oneBlock.Refused upwards 0xffffffff := Or.inl rfl

/-- `realloc` of a block to all but one of the bytes there are fails, and the block is no
longer in use. -/
theorem failed_realloc_lost :
    ¬ ∀ (alloc : Alloc) (report : Bool) (faults : List Bool) (bytes : Memory)
      (calls : List MemCall) (s : Mem) (c : MemCall), Lawful alloc →
      Run (MemStep alloc) (mutMemInit report faults bytes) calls s → c.Allowed s →
      c.Fails alloc s → ∃ s', c.run alloc s = .done none s' ∧ s.Kept s' := by
  intro h
  have husable : oneBlock.Usable 0x1000 := Or.inr ⟨_, List.mem_cons_self, rfl⟩
  obtain ⟨s', hrun, hkept⟩ := h upwards false [] (fun _ => 0) [.malloc 8 1 "a.c"] oneBlock
    (.realloc 0x1000 0xffffffff 2 "a.c") upwards_lawful run_oneBlock husable refused_oneBlock
  have hlost : (MemCall.run upwards (.realloc 0x1000 0xffffffff 2 "a.c") oneBlock).seen
      (fun s => s.inUse.length) = some (none, 0) := rfl
  rw [hrun] at hlost
  have hnone : s'.inUse.length = 0 := congrArg Prod.snd (Option.some.inj hlost)
  rw [hkept.inUse] at hnone
  exact absurd hnone (by decide)

theorem failed_kept_iff_oneBlock :
    (∃ s', MemCall.run upwards (.malloc 0xffffffff 2 "a.c") oneBlock = .done none s' ∧
      oneBlock.Kept s') :=
  (failed_kept_iff upwards_lawful run_oneBlock (.malloc 0xffffffff 2 "a.c") trivial
    refused_oneBlock).2 rfl

end MutTracker.Source.Debug
