import MutTracker.Source.Log

/-!
# The text of the log

`src/log/tty/mut_log.c` once more, with what it writes.  The log sends text to its sink with
`fprintf`, `fputs` and `fputc`; `answers` says of each coming call of these whether it fails,
and after how many characters, and an exhausted list says that none does.

`sent` is the text of each sink, of which the one without a name is `stderr`.
-/

namespace MutTracker.Source.Tty

open MutTracker.Logic MutTracker.Logic.Prog

/-- `mut_log`, and what its sinks were sent. -/
structure TtyLog where
  fatalError : Bool
  internalError : Bool
  logging : Bool
  programName : String
  sink : Option String
  sent : Option String → List Char
  answers : List (Option Nat)

abbrev TtyM := Prog TtyLog Halt

/-- A call of stdio: whether it went well. -/
def put (text : List Char) : TtyM Bool := do
  let l ← read
  let send (t : List Char) : TtyM Unit :=
    update fun l =>
      { l with
        sent := Function.update l.sent l.sink (l.sent l.sink ++ t)
        answers := l.answers.tail }
  match l.answers.head?.join with
  | none => do
      send text
      return true
  | some n => do
      send (text.take n)
      return false

/-- `log->internal_error = ...`. -/
def setInternalError (failed : Bool) : TtyM Unit :=
  update ({ · with internalError := failed })

/-- Write text, and keep whether that failed. -/
def putAll (text : List Char) : TtyM Unit := do
  let ok ← put text
  setInternalError (!ok)

/-! ## Formats -/

/-- `%u` and `%lu`. -/
def decimal (n : Nat) : List Char := Nat.toDigits 10 n

/-- `%d`. -/
def signedDecimal (i : Int) : List Char :=
  if i < 0 then '-' :: decimal i.natAbs else decimal i.natAbs

/-- `%X`. -/
def upperHex (n : Nat) : List Char := (Nat.toDigits 16 n).map Char.toUpper

/-- What follows the program's name in the first `fprintf` of a message. -/
def heading (severity : Severity) (name : String) : List Char :=
  match severity with
  | .fatal errorCode => " fatal ".toList ++ signedDecimal errorCode ++ ' ' :: name.toList
  | .error => " error ".toList ++ name.toList
  | .warning => " warning ".toList ++ name.toList
  | .info => " info ".toList ++ name.toList

/-- What an argument is written as. -/
def token : Arg → List Char
  | .string s => s.toList
  | .int i => signedDecimal i
  | .uint n => decimal n.toNat
  | .hex n => upperHex n.toNat
  | .ulong n => decimal n.toNat
  | .counter n => decimal n
  | .execAddr a => upperHex a.toNat

/-! ## Messages -/

def mutLogOpen (programName : String) (answers : List (Option Nat)) : TtyLog :=
  { fatalError := false, internalError := false, logging := false, programName, sink := none
    sent := fun _ => [], answers }

def mutLogProgName (progName : String) : TtyM Unit := update ({ · with programName := progName })

def isFatal : Severity → Bool
  | .fatal _ => true
  | .error | .warning | .info => false

/-- What the functions share that open a message: `ending` is what the format ends in. -/
def mutLogBegin (severity : Severity) (name : String) (ending : List Char) : TtyM Unit := do
  mutAssert (!(← read).fatalError) .noFatalError
  mutAssert (!(← read).logging) .notLogging
  mutAssert (!(← read).internalError) .noInternalError
  whenever (isFatal severity) (update ({ · with fatalError := true }))
  update ({ · with logging := true })
  putAll ((← read).programName.toList ++ heading severity name ++ ending)

def mutLogFatal (fatal : String) (errorCode : Nat) : TtyM Unit :=
  mutLogBegin (.fatal errorCode) fatal []

def mutLogMemFull (errorCode : Nat) : TtyM Unit := mutLogBegin (.fatal errorCode) "mem.full" ['\n']

def mutLogError (error : String) : TtyM Unit := mutLogBegin .error error []

def mutLogWarning (warning : String) : TtyM Unit := mutLogBegin .warning warning []

def mutLogInfo (info : String) : TtyM Unit := mutLogBegin .info info []

/-- `mut_log_uint64` writes the blank and the numeral apart. -/
def putArg : Arg → TtyM Unit
  | .counter n => do
      if ← put [' '] then
        putAll (decimal n)
      else
        setInternalError true
  | a => putAll (' ' :: token a)

/-- `if (!log->internal_error)`. -/
def unlessFailed (x : TtyM Unit) : TtyM Unit := do
  if !(← read).internalError then
    x

/-- What the functions for arguments share. -/
def mutLogArg (a : Arg) : TtyM Unit := do
  mutAssert (← read).logging .logging
  unlessFailed (putArg a)

def mutLogEnd : TtyM Bool := do
  mutAssert (← read).logging .logging
  update ({ · with logging := false })
  unlessFailed (putAll ['\n'])
  return !(← read).internalError

/-- `opened` says whether `fopen` opens the file, which empties it. -/
def mutLogFile (logFileName : String) (opened : Bool) : TtyM Unit := do
  if opened then
    update fun l =>
      { l with sink := some logFileName, sent := Function.update l.sent (some logFileName) [] }
  else
    mutLogWarning "io.open"
    mutLogArg (.string logFileName)
    let _ ← mutLogEnd

/-- Closing a file changes nothing of what it was sent. -/
def mutLogClose : TtyM Bool := do
  return (← read).internalError

end MutTracker.Source.Tty
