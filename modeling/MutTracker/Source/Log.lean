import MutTracker.Logic.Prog
import MutTracker.Source.Machine

/-!
# The log

`src/log/tty/mut_log.c`.  A message is opened by one of the severities, takes
arguments and is ended; the assertions make sure that no message is opened
inside another one, after a fatal error or after a write to the sink failed.
Nothing but an opened message looks at `internal_error`, so `sink` lists for each
coming message whether one of its writes fails, and an exhausted list says that
none does.

`reports` reads the errors and warnings back off a log.  The tracker's whole
verdict is in them; informational messages say nothing about the traced
program's memory.
-/

namespace MutTracker.Source

open MutTracker.Logic MutTracker.Logic.Prog

inductive Severity where
  | fatal (errno : Nat)
  | error
  | warning
  | info
  deriving DecidableEq, Repr

/-- An argument of a message, by the `mut_log_*` function that logs it. -/
inductive Arg where
  | string (s : String)
  | int (i : Int)
  | uint (n : Word)
  | hex (n : Word)
  | ulong (n : Word)
  | counter (n : Nat)
  | execAddr (a : Word)
  deriving DecidableEq, Repr

structure Message where
  severity : Severity
  name : String
  args : List Arg
  deriving DecidableEq, Repr

/-- The messages are kept latest first. -/
structure Log where
  fatalError : Bool
  internalError : Bool
  logging : Bool
  messages : List Message
  sink : List Bool
  deriving DecidableEq, Repr

abbrev LogM := Prog Log Halt

/-- `mut_assert_pre` and `mut_assert_check`. -/
def mutAssert {σ : Type} (c : Bool) (a : Assertion) : Prog σ Halt Unit :=
  require c (.assertion a)

namespace Log

/-- Open `msg`. -/
def start (l : Log) (msg : Message) : Log :=
  { l with
    logging := true
    messages := msg :: l.messages
    internalError := l.sink.headD false
    sink := l.sink.tail }

/-- Add an argument to the latest message. -/
def push (l : Log) (a : Arg) : Log :=
  match l.messages with
  | [] => l
  | msg :: earlier => { l with messages := { msg with args := msg.args ++ [a] } :: earlier }

/-- No message is open, none was fatal, and the sink takes what is written. -/
structure Idle (l : Log) : Prop where
  noFatal : l.fatalError = false
  closed : l.logging = false
  written : l.internalError = false
  sound : l.sink = []

end Log

def mutLogOpen : Log :=
  { fatalError := false, internalError := false, logging := false, messages := [], sink := [] }

/-- What `mut_log_fatal`, `mut_log_error`, `mut_log_warning` and `mut_log_info`
share. -/
def mutLogBegin (severity : Severity) (name : String) : LogM Unit := do
  mutAssert (!(← read).fatalError) .noFatalError
  mutAssert (!(← read).logging) .notLogging
  mutAssert (!(← read).internalError) .noInternalError
  update (·.start { severity, name, args := [] })

def mutLogFatal (fatal : String) (errorCode : Nat) : LogM Unit := do
  mutLogBegin (.fatal errorCode) fatal
  update ({ · with fatalError := true })

/-- Writes the whole line and leaves the message open. -/
def mutLogMemFull (errorCode : Nat) : LogM Unit := do
  mutLogBegin (.fatal errorCode) "mem.full"
  update ({ · with fatalError := true })

def mutLogError (error : String) : LogM Unit := mutLogBegin .error error

def mutLogWarning (warning : String) : LogM Unit := mutLogBegin .warning warning

def mutLogInfo (info : String) : LogM Unit := mutLogBegin .info info

/-- What `mut_log_string`, `mut_log_int` and the other arguments share. -/
def mutLogArg (a : Arg) : LogM Unit := do
  mutAssert (← read).logging .logging
  update (·.push a)

/-- Several arguments in a row. -/
def mutLogArgs : List Arg → LogM Unit
  | [] => return ()
  | a :: args => do
      mutLogArg a
      mutLogArgs args

def mutLogString (s : String) : LogM Unit := mutLogArg (.string s)

def mutLogInt (i : Int) : LogM Unit := mutLogArg (.int i)

def mutLogUint (n : Word) : LogM Unit := mutLogArg (.uint n)

def mutLogUintHex (n : Word) : LogM Unit := mutLogArg (.hex n)

def mutLogUlong (n : Word) : LogM Unit := mutLogArg (.ulong n)

def mutLogCounter (n : Nat) : LogM Unit := mutLogArg (.counter n)

def mutLogExecAddr (a : Word) : LogM Unit := mutLogArg (.execAddr a)

def mutLogEnd : LogM Unit := do
  mutAssert (← read).logging .logging
  update ({ · with logging := false })

end MutTracker.Source
