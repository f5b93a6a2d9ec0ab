import MutTracker.Source.Log

/-!
# What is logged

An idle log takes any number of whole messages.  While one is open the log is
`l.start msg`, whatever arguments it already took; ended it is `l.say msg`.
These two forms make logging compute: each `mut_log_*` call rewrites one into
the other, and no assertion is left over.

`reports` is what the log says about the traced program: the errors and the
warnings, each with the arguments that identify it and without the backtraces
that follow them.

## Main results

* `wp_mutLogBegin`, `wp_mutLogArg`, `wp_mutLogArgs`, `wp_mutLogEnd`.
* `reports_say` — what a message adds to the reports.
-/

namespace MutTracker.Source

open MutTracker.Logic MutTracker.Logic.Prog

/-- An error or a warning, with the arguments that identify it. -/
structure Report where
  name : String
  args : List Arg
  deriving DecidableEq, Repr

/-- A leak is identified by its producer, size and address; any other report
by its first two arguments. -/
def Message.report (msg : Message) : Option Report :=
  match msg.severity with
  | .error | .warning =>
      some { name := msg.name, args := msg.args.take (if msg.name = "MLK" then 3 else 2) }
  | .fatal _ | .info => none

namespace Log

/-- The errors and the warnings, latest first. -/
def reports (l : Log) : List Report := l.messages.filterMap Message.report

/-- Log a whole message. -/
def say (l : Log) (msg : Message) : Log := { l.start msg with logging := false }

variable {l : Log} {msg : Message} {a : Arg}

@[simp] theorem start_fatalError : (l.start msg).fatalError = l.fatalError := rfl

@[simp] theorem start_logging : (l.start msg).logging = true := rfl

/-- The latest message is the one that takes arguments. -/
@[simp] theorem start_push :
    (l.start msg).push a = l.start { msg with args := msg.args ++ [a] } := rfl

/-- A new log is idle. -/
theorem idle_mutLogOpen : mutLogOpen.Idle := ⟨rfl, rfl, rfl, rfl⟩

/-- A log with one more message said is idle if it could be opened. -/
theorem Idle.say (h : l.Idle) : (l.say msg).Idle where
  noFatal := h.noFatal
  closed := rfl
  written := by rw [Log.say, Log.start, h.sound]; rfl
  sound := by rw [Log.say, Log.start, h.sound]; rfl

@[simp] theorem reports_say :
    (l.say msg).reports = (Message.report msg).toList ++ l.reports := by
  cases h : Message.report msg <;> simp [reports, Log.say, Log.start, h]

end Log

variable {l : Log} {msg : Message} {E : Halt → Prop} {Q : Unit → Log → Prop}

@[simp] theorem wp_mutAssert {σ : Type} {Q : Unit → σ → Prop} {s : σ} (c : Bool) (a : Assertion) :
    wp (mutAssert c a) Q E s ↔ if c then Q () s else E (.assertion a) :=
  wp_require c _

/-- The log `l'` after whole messages that report `rs`. -/
structure Reported (l : Log) (rs : List Report) (l' : Log) : Prop where
  idle : l'.Idle
  reports : l'.reports = rs ++ l.reports

section Reported

variable {l l' l'' : Log} {rs rs' : List Report}

theorem Reported.refl (h : l.Idle) : Reported l [] l := ⟨h, rfl⟩

theorem Reported.trans (h : Reported l rs l') (h' : Reported l' rs' l'') :
    Reported l (rs' ++ rs) l'' :=
  ⟨h'.idle, by rw [h'.reports, h.reports, List.append_assoc]⟩

theorem Reported.say {msg : Message} (h : l.Idle) (hrs : msg.report.toList = rs) :
    Reported l rs (l.say msg) :=
  ⟨h.say, hrs ▸ Log.reports_say⟩

end Reported

attribute [simp] mutLogError mutLogWarning mutLogInfo mutLogString mutLogInt mutLogUint
  mutLogUintHex mutLogUlong mutLogCounter mutLogExecAddr

theorem wp_mutLogBegin (h : l.Idle) (severity : Severity) (name : String) :
    wp (mutLogBegin severity name) Q E l ↔ Q () (l.start ⟨severity, name, []⟩) := by
  simp [mutLogBegin, h.noFatal, h.closed, h.written]

theorem wp_mutLogFatal (h : l.Idle) (fatal : String) (errorCode : Nat) :
    wp (mutLogFatal fatal errorCode) Q E l ↔
      Q () ({ l with fatalError := true }.start ⟨.fatal errorCode, fatal, []⟩) := by
  simp [mutLogFatal, wp_mutLogBegin h, Log.start]

theorem wp_mutLogMemFull (h : l.Idle) (errorCode : Nat) :
    wp (mutLogMemFull errorCode) Q E l ↔
      Q () ({ l with fatalError := true }.start ⟨.fatal errorCode, "mem.full", []⟩) := by
  simp [mutLogMemFull, wp_mutLogBegin h, Log.start]

@[simp] theorem wp_mutLogArg (a : Arg) :
    wp (mutLogArg a) Q E (l.start msg) ↔
      Q () (l.start { msg with args := msg.args ++ [a] }) := by
  simp [mutLogArg]

@[simp] theorem wp_mutLogArgs (args : List Arg) :
    wp (mutLogArgs args) Q E (l.start msg) ↔
      Q () (l.start { msg with args := msg.args ++ args }) := by
  induction args generalizing msg with
  | nil => simp [mutLogArgs]
  | cons a args ih => simp [mutLogArgs, ih]

@[simp] theorem wp_mutLogEnd :
    wp mutLogEnd Q E (l.start msg) ↔ Q () (l.say msg) := by
  simp [mutLogEnd, Log.say]

end MutTracker.Source
