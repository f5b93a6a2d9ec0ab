import MutTracker.Source.Realloc

/-!
# Running the traced program

`mut_open`, `mut_run` and `mut_close` of `src/mut.c`, from an opened
executable and process on.

A round of `mut_run` takes at least one report of `waitpid`, so the reports to
come bound its rounds; when they are used up the next `waitpid` never returns.
-/

namespace MutTracker.Source

open MutTracker.Logic MutTracker.Logic.Prog

def mutTraceKill : ProcessM Unit := do
  match ← ptrace with
  | some _ =>
      mutLogInfo "ptrace.kill"
      mutLogUint (← read).child
      mutLogEnd
  | none => return ()

def mutProcessClose : ProcessM Unit := do
  let status := (← read).status
  mutAssert (status ≠ .running) .notRunning
  whenever (status ≠ .exited) mutTraceKill

def Stats.zero : Stats := ⟨⟨0, 0⟩, ⟨0, 0⟩, ⟨0, 0⟩, ⟨0, 0⟩⟩

/-- The flags that stay in force: without symbols there are no backtraces. -/
def Control.effective (flags : Control) (exec : Exec) : Control :=
  { flags with backtrace := flags.backtrace && exec.hasFullSymbols }

def mutOpen (flags : Control) (usageFunction : Option String) : MutM Bool := do
  whenever (flags.backtrace && !(← read).exec.hasFullSymbols) do
    mutLogInfo "backtrace.off"
    mutLogEnd
  update ({ · with stats := .zero, root := [] })
  if !(← mutManageActions usageFunction) then
    mutProcessClose
    return false
  update ({ · with resources := mutResourcesOpen flags.free })
  return true

def mutDoUsage (flags : Control) (action : Routine) : MutM Bool := do
  mutReportUsage flags
  let some returnAddr ← mutProcessFunctionReturnAddr | return false
  mutDoAction returnAddr action

/-- The handler of an intercepted call: the switch in `mut_run`. -/
def mutHandle (flags : Control) (action : Routine) : MutM Bool := do
  match ((← read).actions action).type with
  | .malloc => mutDoMalloc flags action
  | .consumer => mutDoConsumer flags action
  | .realloc => mutDoRealloc flags action
  | .calloc => mutDoCalloc flags action
  | .usage => mutDoUsage flags action

/-- A round of `mut_run` up to its switch: the action to handle, with the
breakpoints removed, or what the round comes to without one. -/
def mutRunToAction : MutM (Except (Option Bool) Routine) := do
  if !(← mutProcessResume) then
    return .error (some false)
  match ← mutProcessWait with
  | .exited => return .error (some true)
  | .failed => return .error (some false)
  | .stopped pc =>
      let some action ← mutActionsLookup pc | return .error none
      if !(← mutRemoveActionBreakpoints) then
        return .error (some false)
      return .ok action

/-- One round of `mut_run`: what it returns, or `none` for another round. -/
def mutRunRound (flags : Control) : MutM (Option Bool) := do
  match ← mutRunToAction with
  | .error result => return result
  | .ok action =>
      if !(← mutHandle flags action) then
        return some false
      if !(← mutInstallActionBreakpoints) then
        return some false
      return none

def mutRunRounds (flags : Control) : Nat → MutM Bool
  | 0 => stop .blocked
  | rounds + 1 => do
      match ← mutRunRound flags with
      | some result => return result
      | none => mutRunRounds flags rounds

def mutRun (flags : Control) : MutM Bool := do
  mutRunRounds flags ((← read).process.kernel.waits.length + 1)

/-! ## Closing -/

/-- The arguments of `mut_log_stats`. -/
def Mut.statsArgs (m : Mut) : List Arg :=
  let stat (name : String) (s : Stat) : List Arg :=
    [.string name, .counter s.space, .counter s.count]
  let hits (name : String) (a : Routine) : List Arg :=
    [.string name, .counter (m.actions a).hits]
  stat "alloc.now" m.stats.now ++ stat "alloc.total" m.stats.total ++
    stat "alloc.max.space" m.stats.maxSpace ++ stat "alloc.max.count" m.stats.maxCount ++
    hits "malloc" .malloc ++ hits "free" .free ++ hits "realloc" .realloc ++
    hits "calloc" .calloc ++ hits "cfree" .cfree

def mutLogStats : MutM Unit := do
  mutLogInfo "stats"
  mutLogArgs (← read).statsArgs
  mutLogEnd

/-- One resource of `mut_log_leaks`. -/
def mutLogLeak (flags : Control) (r : Resource) : MutM Unit := do
  mutLogError "MLK"
  mutLogString (← mutResourceProducerName r)
  mutLogUlong r.size
  mutLogExecAddr r.addr
  whenever flags.backtrace (mutLogBacktrace r.producer.backtrace)
  mutLogEnd

def mutLogLeaks (flags : Control) : MutM Unit := do
  let (_, iter) ← mutResourcesIterOpen false
  forEachResource iter.all (mutLogLeak flags) iter.elem

def mutClose (flags : Control) : MutM Unit := do
  mutLogLeaks flags
  whenever flags.stats mutLogStats
  mutResourcesClose
  mutProcessClose

def mutCloseOnError : MutM Unit := do
  mutResourcesClose
  mutProcessClose

end MutTracker.Source
