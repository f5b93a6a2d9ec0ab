import MutTracker.Logic.Allocator
import MutTracker.Logic.Prog
import MutTracker.Source.Machine

/-!
# The tracker's own debugging allocator

`src/mem/debug/mut_mem.c`.  A node for each block is in the list `in_use` or, once
the block is freed, in `freed`; neither the block nor the node is given back before
`mut_mem_close`.

Below it is the allocator of the C library: the parameter `alloc`, and the blocks
`held` of it.  `bytes` is what the memory holds, and `faults` lists whether the
coming writes to the log and the report fail.  `wrapped` is a record of whether one
of the counters of what is in use has gone below 0, which the program does not keep.
-/

namespace MutTracker.Source.Debug

open MutTracker.Logic MutTracker.Logic.Prog MutTracker.Logic.Allocator

/-- `mut_mem_source_pos`. -/
structure MemSourcePos where
  line : Word
  fileName : Option String
  deriving DecidableEq, Repr

/-- `mut_mem_node`, which is itself the block at `ptr`. -/
structure MemNode where
  ptr : Word
  addr : Word
  nBytes : Word
  malloc : MemSourcePos
  free : MemSourcePos
  deriving DecidableEq, Repr

/-- What is written to the log and the report. -/
inductive MemLine where
  | memoryLeak (malloc : MemSourcePos) (addr nBytes : Word)
  | freeingFreedMemory (pos free : MemSourcePos)
  | freeingUnallocatedMemory (pos : MemSourcePos) (addr : Word)
  | reallocingFreedMemory (pos free : MemSourcePos)
  | reallocingUnallocatedMemory (pos : MemSourcePos) (addr : Word)
  | report (name : String) (value : Option Word)
  deriving DecidableEq, Repr

/-- Why the allocator does not return: `store.halt` after a line, an assertion, or a block
freed that is not held. -/
inductive MemHalt where
  | halt (line : MemLine)
  | assertion
  | notHeld (addr : Word)
  deriving DecidableEq, Repr

/-- `struct mem`, and what is below it. -/
structure Mem where
  inUse : List MemNode
  freed : List MemNode
  nBytesAllocated : Word
  nBytesInUse : Word
  nBlocksInUse : Word
  maxBytesInUse : Word
  maxBlocksInUse : Word
  nMalloc : Word
  nRealloc : Word
  nRealloc0 : Word
  nFree : Word
  nFree0 : Word
  report : Bool
  lines : List MemLine
  faults : List Bool
  time : Nat
  held : List Block
  bytes : Memory
  wrapped : Bool

abbrev MemM := Prog Mem MemHalt

section

variable (alloc : Alloc)

/-- `malloc` of the C library. -/
def Mem.malloc (nBytes : Word) : MemM (Option Word) := do
  let s ← read
  match alloc s.time s.held nBytes with
  | none =>
      update fun s => { s with time := s.time + 1 }
      return none
  | some addr =>
      update fun s => { s with time := s.time + 1, held := ⟨addr, nBytes⟩ :: s.held }
      return some addr

/-- `free` of the C library. -/
def Mem.release (addr : Word) : MemM Unit := do
  let s ← read
  require (s.held.any fun b => b.addr == addr) (.notHeld addr)
  update fun s => { s with held := Keyed.remove Block.addr addr s.held }

def memset (m : Memory) (addr : Word) (c : BitVec 8) (n : Word) : Memory :=
  fun x => if (x - addr).toNat < n.toNat then c else m x

def memcpy (m : Memory) (dest src n : Word) : Memory :=
  fun x => if (x - dest).toNat < n.toNat then m (src + (x - dest)) else m x

/-- `sizeof(struct mut_mem_node)`. -/
def sizeofMemNode : Word := 28

/-- The node is put into `in_use` and counted. -/
def Mem.enter (s : Mem) (node : MemNode) : Mem :=
  let nBytesInUse := s.nBytesInUse + node.nBytes
  let nBlocksInUse := s.nBlocksInUse + 1
  { s with
    inUse := node :: s.inUse
    nMalloc := s.nMalloc + 1
    nBytesAllocated := s.nBytesAllocated + node.nBytes
    nBytesInUse
    maxBytesInUse := if nBytesInUse > s.maxBytesInUse then nBytesInUse else s.maxBytesInUse
    nBlocksInUse
    maxBlocksInUse := if nBlocksInUse > s.maxBlocksInUse then nBlocksInUse else s.maxBlocksInUse }

def mutMemMalloc (nBytes line : Word) (fileName : String) : MemM (Option Word) := do
  let some addr ← Mem.malloc alloc nBytes | return none
  let some ptr ← Mem.malloc alloc sizeofMemNode
    | do
      Mem.release addr
      return none
  update (·.enter
    { ptr, addr, nBytes, malloc := ⟨line, some fileName⟩, free := ⟨0, none⟩ })
  return some addr

/-- A block is no longer counted. -/
def Mem.discount (s : Mem) (node : MemNode) : Mem :=
  { s with
    nBytesInUse := s.nBytesInUse - node.nBytes
    nBlocksInUse := s.nBlocksInUse - 1
    wrapped := s.wrapped || decide (s.nBytesInUse < node.nBytes) || decide (s.nBlocksInUse < 1) }

/-- The node is taken from `in_use` and put into `freed`. -/
def Mem.unlink (s : Mem) (node : MemNode) (pos : MemSourcePos) : Mem :=
  { s with
    inUse := Keyed.remove MemNode.addr node.addr s.inUse
    freed := { node with free := pos } :: s.freed }.discount node

def mutMemFree (addr line : Word) (fileName : String) : MemM Unit := do
  let pos : MemSourcePos := ⟨line, some fileName⟩
  update fun s => { s with nFree := s.nFree + 1 }
  if addr = 0 then
    update fun s => { s with nFree0 := s.nFree0 + 1 }
    return
  let s ← read
  match Keyed.get MemNode.addr addr s.inUse with
  | some n =>
      update fun s => { s with bytes := memset s.bytes addr 0xaa n.nBytes }
      update (·.unlink n pos)
  | none =>
      match Keyed.get MemNode.addr addr s.freed with
      | some n => stop (.halt (.freeingFreedMemory pos n.free))
      | none => stop (.halt (.freeingUnallocatedMemory pos addr))

def mutMemRealloc (addr nBytes line : Word) (fileName : String) : MemM (Option Word) := do
  let pos : MemSourcePos := ⟨line, some fileName⟩
  update fun s => { s with nRealloc := s.nRealloc + 1 }
  if addr = 0 then
    update fun s => { s with nRealloc0 := s.nRealloc0 + 1, nMalloc := s.nMalloc - 1 }
    return ← mutMemMalloc alloc nBytes line fileName
  let s ← read
  match Keyed.get MemNode.addr addr s.inUse with
  | some n =>
      update (·.unlink n pos)
      let some newAddr ← mutMemMalloc alloc nBytes line fileName | return none
      update fun s =>
        { s with
          bytes := memset (memcpy s.bytes newAddr addr
            (if n.nBytes < nBytes then n.nBytes else nBytes)) addr 1 n.nBytes
          nMalloc := s.nMalloc - 1 }
      return some newAddr
  | none =>
      match Keyed.get MemNode.addr addr s.freed with
      | some n => stop (.halt (.reallocingFreedMemory pos n.free))
      | none => stop (.halt (.reallocingUnallocatedMemory pos addr))

end

/-- `mut_mem_init`, with the report that `mut_mem_report` asked for. -/
def mutMemInit (report : Bool) (faults : List Bool) (bytes : Memory) : Mem :=
  { inUse := [], freed := [], nBytesAllocated := 0, nBytesInUse := 0, nBlocksInUse := 0
    maxBytesInUse := 0, maxBlocksInUse := 0, nMalloc := 0, nRealloc := 0, nRealloc0 := 0
    nFree := 0, nFree0 := 0, report, lines := [], faults, time := 0, held := [], bytes
    wrapped := false }

/-! ## Closing -/

/-- `fprintf`: whether the line could be written. -/
def Mem.fprintf (line : MemLine) : MemM Bool := do
  let s ← read
  update fun s => { s with lines := s.lines ++ [line], faults := s.faults.tail }
  return !(s.faults.headD false)

/-- The lines of the report. -/
def Mem.reportLines (s : Mem) : List MemLine :=
  [.report "mut_mem_report" none, .report "nBytesAllocated" s.nBytesAllocated,
    .report "nBytesInUse" s.nBytesInUse, .report "maxBytesInUse" s.maxBytesInUse,
    .report "nBlocksInUse" s.nBlocksInUse, .report "maxBlocksInUse" s.maxBlocksInUse,
    .report "nMallocCalls" s.nMalloc, .report "nReallocCalls" s.nRealloc,
    .report "nRealloc0Calls" s.nRealloc0, .report "nFreeCalls" s.nFree,
    .report "nFree0Calls" s.nFree0]

def mutMemCloseReport : List MemLine → Nat → MemM Nat
  | [], status => return status
  | line :: lines, status => do
      let ok ← Mem.fprintf line
      mutMemCloseReport lines (if ok then status else 2)

/-- The loop over the blocks still in use. -/
def mutMemCloseInUse : List MemNode → Nat → MemM Nat
  | [], status => return status
  | p :: next, status => do
      let ok ← Mem.fprintf (.memoryLeak p.malloc p.addr p.nBytes)
      update (·.discount p)
      Mem.release p.addr
      Mem.release p.ptr
      mutMemCloseInUse next (if ok then status else 1)

/-- The loop over the blocks that were freed. -/
def mutMemCloseFreed : List MemNode → MemM Unit
  | [] => return ()
  | p :: next => do
      Mem.release p.addr
      Mem.release p.ptr
      mutMemCloseFreed next

def mutMemClose : MemM Nat := do
  let s ← read
  let status ← mutMemCloseReport (if s.report then s.reportLines else []) 0
  let status ← mutMemCloseInUse s.inUse status
  let s ← read
  require (s.nBytesInUse == 0) .assertion
  require (s.nBlocksInUse == 0) .assertion
  mutMemCloseFreed s.freed
  return status

/-! ## Sequences of calls -/

inductive MemCall where
  | malloc (nBytes line : Word) (fileName : String)
  | realloc (addr nBytes line : Word) (fileName : String)
  | free (addr line : Word) (fileName : String)
  deriving DecidableEq, Repr

def MemCall.run (alloc : Alloc) : MemCall → MemM (Option Word)
  | .malloc nBytes line fileName => mutMemMalloc alloc nBytes line fileName
  | .realloc addr nBytes line fileName => mutMemRealloc alloc addr nBytes line fileName
  | .free addr line fileName => do
      mutMemFree addr line fileName
      return none

end MutTracker.Source.Debug
