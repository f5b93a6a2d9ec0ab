import MutTracker.Source.Session
import MutTracker.Source.Elf

/-!
# The command line, and the program

`src/ui/tty/mut_ui.c`.  The words of the command line are those after the name of the
program; a word is looked at letter by letter, and `word` is the one looked at.

`main`, here `mutMain`, puts the parts together that the other modules model.  They share
the log, which is the tracker's; the reader of the executable and the tracker are otherwise
apart.  `mut_mem_close` at its end looks at nothing but the program's own memory.
-/

namespace MutTracker.Source

open MutTracker.Logic MutTracker.Logic.Prog

/-- `mut_ui_arg_info`, less the log. -/
structure ArgInfo where
  argv : List String
  logFileName : Option String
  mutName : Option String
  flags : Control
  undesirableSuffix : String
  usageFunction : Option String
  deriving DecidableEq, Repr

/-- What `main` starts with. -/
def ArgInfo.start : ArgInfo where
  argv := []
  logFileName := none
  mutName := none
  flags := ⟨false, false, false, false, false, false, false⟩
  undesirableSuffix := "@@GLIBC_2.0"
  usageFunction := none

/-- What the command line is processed on; `memReport` tells whether `mut_mem_report` was
called. -/
structure Ui where
  log : Log
  info : ArgInfo
  memReport : Bool
  deriving DecidableEq, Repr

abbrev UiM := Prog Ui Halt

instance : MonadLift LogM UiM where
  monadLift := focus Ui.log fun l u => { u with log := l }

/-! ## Options -/

def mutUiUsage : UiM Unit := do
  mutLogFatal "args.usage" 0
  mutLogString "exec-file-name"
  mutLogEnd

/-- The letters that set a flag. -/
def mutUiFlag : Char → Option (Control → Control)
  | 'f' => some ({ · with free := true })
  | 't' => some ({ · with trace := true })
  | 'b' => some ({ · with backtrace := true })
  | 'c' => some ({ · with check := true })
  | 's' => some ({ · with stats := true })
  | 'u' => some ({ · with usage := true })
  | 'z' => some ({ · with zero := true })
  | _ => none

/-- The letters after which the rest of the word is a value. -/
def mutUiValue : Char → Option (String → ArgInfo → ArgInfo)
  | 'o' => some fun v info => { info with logFileName := some v }
  | 'x' => some fun v info => { info with undesirableSuffix := v }
  | 'n' => some fun v info => { info with mutName := some v }
  | 'U' => some fun v info => { info with usageFunction := some v }
  | _ => none

/-- `option_loop`: the letters that are left, and whether they are all there were.  The result
says whether to go on with `options_loop`. -/
def mutUiOptionLoop (word : String) : Bool → List Char → UiM Bool
  | _, [] => return true
  | first, c :: arg => do
      if c = 'r' then
        update ({ · with memReport := true })
        mutUiOptionLoop word false arg
      else
        match mutUiFlag c with
        | some set =>
            update fun u => { u with info := { u.info with flags := set u.info.flags } }
            mutUiOptionLoop word false arg
        | none =>
            match mutUiValue c with
            | some set =>
                if first then
                  update fun u => { u with info := set (String.ofList arg) u.info }
                  return true
                else
                  mutLogFatal "args.opt" 0
                  mutLogString (String.singleton c)
                  mutLogString word
                  mutLogEnd
                  return false
            | none =>
                mutLogFatal "args.unknown" 0
                mutLogString word
                mutLogEnd
                return false

/-- `options_loop`, after the word before these. -/
def mutUiProcessArgs : List String → UiM Bool
  | [] => do
      mutUiUsage
      return false
  | word :: argv => do
      if word.toList.head? ≠ some '-' then
        update fun u => { u with info := { u.info with argv := word :: argv } }
        return true
      else if ← mutUiOptionLoop word true word.toList.tail then
        mutUiProcessArgs argv
      else
        return false

/-! ## The program -/

structure Program where
  tracker : Mut
  reader : ExecReader
  info : ArgInfo
  memReport : Bool

abbrev MainM := Prog Program ExecHalt

/-- The log is the tracker's. -/
def Program.ui (p : Program) : Ui :=
  { log := p.tracker.log, info := p.info, memReport := p.memReport }

def Program.setLog (l : Log) (p : Program) : Program :=
  { p with tracker := { p.tracker with process := { p.tracker.process with log := l } } }

def Program.setUi (u : Ui) (p : Program) : Program :=
  { p.setLog u.log with info := u.info, memReport := u.memReport }

/-- The reader with the log. -/
def Program.exec (p : Program) : ExecReader :=
  { p.reader with symtab := { p.reader.symtab with log := p.tracker.log } }

def Program.setExec (r : ExecReader) (p : Program) : Program :=
  { p.setLog r.symtab.log with reader := r }

instance : MonadLift UiM MainM where
  monadLift := embed Program.ui Program.setUi .halt

instance : MonadLift ElfM MainM where
  monadLift := focus Program.exec Program.setExec

instance : MonadLift MutM MainM where
  monadLift := embed Program.tracker (fun m p => { p with tracker := m }) .halt

/-- `mut_log_file`; `opened` says whether `fopen` opens the file. -/
def mutLogFile (logFileName : String) (opened : Bool) : UiM Unit := do
  if !opened then
    mutLogWarning "io.open"
    mutLogString logFileName
    mutLogEnd

/-- `mut_open` from its beginning. -/
def mutOpenAll (fork : Fork) : MainM Bool := do
  let info := (← read).info
  let name := info.argv.headD ""
  update fun p => { p with reader := { p.reader with fileName := name } }
  if !(← mutExecOpen (some (bytesOf info.undesirableSuffix))) then
    return false
  update fun p => { p with tracker := { p.tracker with exec := p.reader.exec } }
  if !(← mutOpenProcess info.flags info.usageFunction fork name) then
    mutExecClose
    return false
  return true

/-- `main` up to its call of `mut_run`. -/
def mutMainOpen (argv : List String) (opened : Bool) (fork : Fork) : MainM Bool := do
  update ({ · with info := .start })
  if !(← mutUiProcessArgs argv) then
    return false
  let info := (← read).info
  whenever info.logFileName.isSome (mutLogFile (info.logFileName.getD "") opened)
  mutOpenAll fork

/-- `main`: whether the program exits with `EXIT_SUCCESS`. -/
def mutMain (argv : List String) (opened : Bool) (fork : Fork) : MainM Bool := do
  if !(← mutMainOpen argv opened fork) then
    return false
  let p ← read
  let flags := p.info.flags.effective p.tracker.exec
  if ← mutRun flags then
    mutClose flags
    mutExecClose
    return true
  else
    mutCloseOnError
    mutExecClose
    return false

end MutTracker.Source
