import MutTracker.Source.Run

/-!
# A whole session

`mut_process_open`, and from `main` of `src/ui/tty/mut_ui.c` what it does once
the arguments are processed: the process is opened, run and closed.  The
executable is given; the child's side of `fork` is another process, and what
comes of it is what `waitpid` reports.
-/

namespace MutTracker.Source

open MutTracker.Logic MutTracker.Logic.Prog

/-- What `fork` answers the tracker. -/
inductive Fork where
  | failed (errno : Nat)
  | parent (pid : Word)

/-- The part of `mut_process_open` after its `waitpid` call. -/
def mutProcessOpened (pid : Word) : Stop → ProcessM Bool
  | .failed errno status => do
      mutLogFatal "waitpid" errno
      mutLogUint pid
      mutLogUintHex status
      mutLogEnd
      return false
  | .exited _ => do
      update ({ · with status := .exited })
      mutLogFatal "process.exit" 0
      mutLogEnd
      return false
  | .signaled _ => do
      mutLogFatal "process.signal" 0
      mutLogEnd
      return false
  | .stopped _ target => do
      update fun p => { p with kernel := { p.kernel with target }, status := .stopped }
      let some pc ← mutProcessReadPc | return false
      update ({ · with pc })
      return true
  | .other _ target => do
      update fun p => { p with kernel := { p.kernel with target } }
      mutLogFatal "process.unkown" 0
      mutLogEnd
      return false

def mutProcessOpen (fork : Fork) (name : String) : ProcessM Bool := do
  match fork with
  | .failed errno =>
      mutLogFatal "fork" errno
      mutLogString name
      mutLogEnd
      return false
  | .parent pid =>
      update ({ · with status := .running, child := pid })
      match (← read).kernel.waits with
      | [] => stop .blocked
      | report :: rest =>
          update fun p => { p with kernel := { p.kernel with waits := rest } }
          mutProcessOpened pid report

/-- `mut_open` from an opened executable on. -/
def mutOpenProcess (flags : Control) (usageFunction : Option String) (fork : Fork)
    (name : String) : MutM Bool := do
  if !(← mutProcessOpen fork name) then
    return false
  mutOpen flags usageFunction

/-- `main` once its arguments are processed. -/
def mutSession (flags : Control) (usageFunction : Option String) (fork : Fork)
    (name : String) : MutM Bool := do
  if !(← mutOpenProcess flags usageFunction fork name) then
    return false
  let flags := flags.effective (← read).exec
  if ← mutRun flags then
    mutClose flags
    return true
  else
    mutCloseOnError
    return false

end MutTracker.Source
