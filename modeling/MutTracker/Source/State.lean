import MutTracker.Source.Symtab
import MutTracker.Source.Process
import MutTracker.Logic.Keyed

/-!
# The tracker's state

`src/mut.h`, `src/mut_action.h`, `src/resources/list/mut_resources.h` and
`src/backtrace/fixed/mut_backtrace_type.h`.

Pointers to the six actions of a `mut` are the six `Routine`s.  Pointers to
resources and backtraces are numbers, handed out by `Mem` and never reused,
so that a stale pointer is one that designates nothing.  Counters are exact
natural numbers.
-/

namespace MutTracker.Source

open MutTracker.Logic MutTracker.Logic.Prog

/-- `mut_control`, set by `mut_open` and constant afterwards. -/
structure Control where
  trace : Bool
  backtrace : Bool
  free : Bool
  stats : Bool
  zero : Bool
  usage : Bool
  check : Bool
  deriving DecidableEq, Repr

/-- The actions of `struct mut`. -/
inductive Routine where
  | malloc
  | calloc
  | realloc
  | free
  | cfree
  | usage
  deriving DecidableEq, Repr

inductive ActionType where
  | malloc
  | calloc
  | realloc
  | consumer
  | usage
  deriving DecidableEq, Repr

structure Action where
  addr : Word
  instr : Word
  type : ActionType
  name : String
  hits : Nat
  deriving DecidableEq, Repr

/-- `mut_backtrace`; its executable is the tracker's. -/
structure Backtrace where
  refCount : Nat
  frames : List Word
  deriving DecidableEq, Repr

/-- The producer or the consumer of a resource. -/
structure Party where
  action : Option Routine
  backtrace : Option Nat
  deriving DecidableEq, Repr

/-- `mut_resource`, with its own address as `ptr`. -/
structure Resource where
  ptr : Nat
  addr : Word
  size : Word
  producer : Party
  consumer : Party
  deriving DecidableEq, Repr

/-- `mut_resources`; `really_free` selects `delete`. -/
structure Resources where
  elems : List Resource
  nActiveElems : Nat
  nConsumedElems : Nat
  reallyFree : Bool
  deriving DecidableEq, Repr

structure Stat where
  space : Nat
  count : Nat
  deriving DecidableEq, Repr

structure Stats where
  now : Stat
  total : Stat
  maxSpace : Stat
  maxCount : Stat
  deriving DecidableEq, Repr

/-- The tracker's own storage: `full` lists what the coming `mut_mem_malloc`
calls answer, `none` for success. -/
structure Mem where
  full : List (Option Nat)
  next : Nat
  backtraces : Nat → Option Backtrace

structure Mut where
  process : Process
  exec : Exec
  actions : Routine → Action
  root : List Routine
  resources : Resources
  stats : Stats
  mem : Mem

abbrev MutM := Prog Mut Halt

instance : MonadLift ProcessM MutM where
  monadLift := focus Mut.process fun p m => { m with process := p }

/-- `m->log` is the log of `m->process`. -/
def Mut.log (m : Mut) : Log := m.process.log

/-- `mut_mem_malloc`: a fresh pointer, or the error number of a failure. -/
def Mut.malloc : MutM (Except Nat Nat) := do
  let m ← read
  match m.mem.full.head?.join with
  | some errno =>
      update ({ · with mem := { m.mem with full := m.mem.full.tail } })
      return .error errno
  | none =>
      update
        ({ · with mem := { m.mem with full := m.mem.full.tail, next := m.mem.next + 1 } })
      return .ok m.mem.next

/-- Follow a resource pointer. -/
def Mut.resource (obj : Nat) : MutM Resource := do
  let some r := Keyed.get Resource.ptr obj (← read).resources.elems | stop .badPointer
  return r

/-- Assign to the resource `obj` points to. -/
def Mut.assign (obj : Nat) (f : Resource → Resource) : MutM Unit := do
  let _ ← Mut.resource obj
  update fun m =>
    { m with
      resources :=
        { m.resources with elems := Keyed.adjust Resource.ptr obj f m.resources.elems } }

/-- Follow a pointer to an action and read its name. -/
def Mut.actionName (a : Option Routine) : MutM String := do
  let some a := a | stop .badPointer
  return ((← read).actions a).name

end MutTracker.Source
