import MutTracker.Source.Resources

/-!
# Actions

The first part of `src/mut.c`: the map from addresses to actions, the
breakpoints on them, letting an intercepted function run, and what the
handlers share.

The handlers take the flags as an argument: `mut_open` sets `m->flags` and
nothing assigns to it afterwards.
-/

namespace MutTracker.Source

open MutTracker.Logic MutTracker.Logic.Prog

/-- `if (c && !x) ...` runs `x` only under `c`: whether it went well. -/
def unlessFails {σ : Type} (c : Bool) (x : Prog σ Halt Bool) : Prog σ Halt Bool :=
  if c then x else pure true

/-- Assign to the fields of an action. -/
def Mut.setAction (a : Routine) (f : Action → Action) : MutM Unit :=
  update fun m => { m with actions := Function.update m.actions a (f (m.actions a)) }

/-- `a->hits = mut_counter_inc (a->hits, 1)`. -/
def Mut.hit (a : Routine) : MutM Unit :=
  Mut.setAction a fun action => { action with hits := action.hits + 1 }

def Mut.updateStats (f : Stats → Stats) : MutM Unit :=
  update fun m => { m with stats := f m.stats }

/-! ## The action map -/

/-- The action already at the address, or `action` once it is entered. -/
def mutActionsEnter (action : Routine) : MutM Routine := do
  let m ← read
  match m.root.find? fun a => (m.actions a).addr = (m.actions action).addr with
  | some a => return a
  | none =>
      update ({ · with root := action :: m.root })
      return action

def mutActionsLookup (actionAddr : Word) : MutM (Option Routine) := do
  let m ← read
  return m.root.find? fun a => (m.actions a).addr = actionAddr

/-- Every action has its own name pointer, so equal names are equal actions. -/
def mutManageAction (a : Routine) (f : ExecFunction) : MutM Bool := do
  Mut.setAction a fun action => { action with hits := 0 }
  if !f.flags then
    return true
  Mut.setAction a fun action => { action with addr := f.addr }
  let oa ← mutActionsEnter a
  if oa ≠ a then
    mutLogInfo "duplicate.addr"
    mutLogString ((← read).actions a).name
    mutLogString ((← read).actions oa).name
    mutLogExecAddr ((← read).actions a).addr
    mutLogEnd
    return true
  let some instr ← mutProcessBreakpoint ((← read).actions a).addr | return false
  Mut.setAction a fun action => { action with instr }
  return true

/-- The types of the actions. -/
def Routine.type : Routine → ActionType
  | .malloc => .malloc
  | .calloc => .calloc
  | .realloc => .realloc
  | .free => .consumer
  | .cfree => .consumer
  | .usage => .usage

/-- The actions of `mut_manage_actions`, each with its function's name. -/
def mutRoutines (usageFunction : Option String) : List (Routine × String) :=
  [(.malloc, "malloc"), (.calloc, "calloc"), (.realloc, "realloc"), (.free, "free"),
    (.cfree, "cfree")] ++ usageFunction.toList.map fun name => (.usage, name)

/-- The part of `mut_manage_actions` after the addresses are found. -/
def mutManageEach : List (Routine × ExecFunction) → MutM Bool
  | [] => return true
  | (a, f) :: rest => do
      Mut.setAction a fun action => { action with type := a.type }
      if !(← mutManageAction a f) then
        return false
      mutManageEach rest

def mutManageActions (usageFunction : Option String) : MutM Bool := do
  let routines := mutRoutines usageFunction
  update fun m =>
    { m with
      actions := fun a =>
        { m.actions a with
          name := ((routines.find? fun r => r.1 = a).map (·.2)).getD "" } }
  let functions := mutExecFunctionsAddr (← read).exec (routines.map (·.2))
  mutManageEach ((routines.map (·.1)).zip functions)

def mutRemoveActionBreakpointsOf : List Routine → MutM Bool
  | [] => return true
  | a :: next => do
      let action := (← read).actions a
      if !(← mutProcessRestore action.addr action.instr) then
        return false
      mutRemoveActionBreakpointsOf next

def mutRemoveActionBreakpoints : MutM Bool := do
  mutRemoveActionBreakpointsOf (← read).root

def mutInstallActionBreakpointsOf : List Routine → MutM Bool
  | [] => return true
  | a :: next => do
      let some instr ← mutProcessBreakpoint ((← read).actions a).addr | return false
      Mut.setAction a fun action => { action with instr }
      mutInstallActionBreakpointsOf next

def mutInstallActionBreakpoints : MutM Bool := do
  mutInstallActionBreakpointsOf (← read).root

/-! ## Letting an intercepted function run -/

def mutDoAction (returnAddr : Word) (action : Routine) : MutM Bool := do
  let some returnInstr ← mutProcessBreakpoint returnAddr | return false
  if !(← mutProcessResume) then
    return false
  let .stopped returnPc ← mutProcessWait | return false
  if returnPc ≠ returnAddr then
    mutLogFatal "action.addr" 0
    mutLogString ((← read).actions action).name
    mutLogExecAddr returnPc
    mutLogExecAddr returnAddr
    mutLogEnd
    return false
  mutProcessRestore returnAddr returnInstr

/-! ## What the handlers share -/

def mutZoneSize : Word := 4

def mutZoneValue : Word := 0xDEADBEEF

def mutRoundUp (size : Word) : Word :=
  ((size + mutZoneSize - 1) &&& ~~~(mutZoneSize - 1)) + 2 * mutZoneSize

/-- One resource of `mut_report_usage`. -/
def mutReportResource (flags : Control) (r : Resource) : MutM Unit := do
  mutLogString (← mutResourceProducerName r)
  mutLogExecAddr r.addr
  mutLogUlong r.size
  whenever flags.backtrace (mutLogBacktrace r.producer.backtrace)

def mutReportUsage (flags : Control) : MutM Unit := do
  mutLogInfo "mem.usage"
  let (nObj, iter) ← mutResourcesIterOpen false
  mutLogUlong (BitVec.ofNat 32 nObj)
  forEachResource iter.all (mutReportResource flags) iter.elem
  mutLogEnd

/-- The statistics after a producer call. -/
def Stats.produced (s : Stats) (size : Word) : Stats :=
  let now : Stat := { space := s.now.space + size.toNat, count := s.now.count + 1 }
  { now
    total := { space := s.total.space + size.toNat, count := s.total.count + 1 }
    maxSpace := if s.maxSpace.space < now.space then now else s.maxSpace
    maxCount := if s.maxCount.count < now.count then now else s.maxCount }

def mutCollectProducerStats (size : Word) : MutM Unit :=
  Mut.updateStats fun s => s.produced size

/-- The statistics after an object is gone: `now` without it. -/
def Stats.consumed (s : Stats) (size : Word) : Stats :=
  { s with now := { space := s.now.space - size.toNat, count := s.now.count - 1 } }

/-- The backtrace of the call, null without `mut_control_backtrace`; `none`
when it cannot be made. -/
def mutProduceBacktrace (flags : Control) : MutM (Option (Option Nat)) := do
  if flags.backtrace then
    let some bt ← mutBacktraceOpen | return none
    if !(← mutProcessFunctionBacktrace bt) then
      mutBacktraceClose (some bt)
      return none
    return some (some bt)
  else
    return some none

/-- `free_backtrace:` — close the backtrace and return zero. -/
def freeBacktrace (flags : Control) (bt : Option Nat) : MutM Bool := do
  whenever flags.backtrace (mutBacktraceClose bt)
  return false

/-- Mark both ends of the block at `objAddr`; brings back the address of the
object between them. -/
def mutInstallCheckZones (objAddr size : Word) : MutM (Option Word) := do
  let preZoneAddr := objAddr
  let postZoneAddr := objAddr + size - mutZoneSize
  let objAddr := objAddr + mutZoneSize
  if !(← mutProcessWriteWord preZoneAddr mutZoneValue) then
    return none
  if !(← mutProcessWriteWord postZoneAddr mutZoneValue) then
    return none
  if !(← mutProcessWriteResult objAddr) then
    return none
  return some objAddr

/-- `mut_install_check_zones` under `mut_control_check`. -/
def installZonesIfChecking (flags : Control) (objAddr size : Word) : MutM (Option Word) :=
  if flags.check then mutInstallCheckZones objAddr size else return some objAddr

end MutTracker.Source
