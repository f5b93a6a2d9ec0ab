import MutTracker.Logic.Typestate
import MutTracker.Source.Session
import MutTracker.Verified.Log

/-!
# The grammar of the log

No message is open, or one is; a fatal message leaves nothing more to be said.
`LogState` has these as typestates: `idle` and `saying` for a log without a
fatal error, `failing` while a fatal message is open, and `ended` for a log on
which something may have failed.  In the other three the next call on the log is
known to pass its assertions; in `ended` it is not.

Every function of the tracker answers whether it succeeded.  From an idle log
one that did leaves it idle again, and one that did not leaves it `ended`; so it
is enough that after a failure no caller opens another message.

## Main results

* `goes_begin`, `goes_fatal`, `goes_memFull`, `goes_arg`, `goes_end` — the
  grammar's rules.
* `goes_*` — the typestate after each function of the tracker.
* `goes_handle`, `goes_run` — every handler and every run keep to the grammar.
-/

namespace MutTracker.Source

open MutTracker.Logic MutTracker.Logic.Prog

variable {α : Type} {flags : Control}

/-- The assertions of `mut_log.c`. -/
def Halt.ofLog : Halt → Bool
  | .assertion .noFatalError | .assertion .notLogging | .assertion .noInternalError
  | .assertion .logging => true
  | _ => false

/-- A halt that is not for the state of the log. -/
abbrev Grammatical (e : Halt) : Prop := e.ofLog = false

/-- How far the log is in its grammar. -/
inductive LogState where
  | idle
  | saying
  | failing
  | ended

def LogState.At : LogState → Log → Prop
  | .idle, l => l.Idle
  | .saying, l => l.logging = true ∧ { l with logging := false }.Idle
  | .failing, l => l.fatalError = true ∧ l.logging = true
  | .ended, l => l.Idle ∨ l.fatalError = true

/-- The typestate after an answer of yes or no. -/
def LogState.byOk : Bool → LogState
  | true => .idle
  | false => .ended

/-- The typestate after something was brought back, or nothing. -/
def LogState.bySome : Option α → LogState
  | some _ => .idle
  | none => .ended

/-- The typestate after waiting. -/
def LogState.byWait : WaitStatus → LogState
  | .exited | .stopped _ => .idle
  | .failed => .ended

abbrev LogGoes (i : LogState) (g : α → LogState) (y : LogM α) : Prop :=
  Goes LogState.At Grammatical i g y

abbrev ProcessGoes (i : LogState) (g : α → LogState) (y : ProcessM α) : Prop :=
  Goes (fun i p => i.At p.log) Grammatical i g y

abbrev MutGoes (i : LogState) (g : α → LogState) (x : MutM α) : Prop :=
  Goes (fun i m => i.At m.process.log) Grammatical i g x

/-- The program leaves the log as it is. -/
abbrev Mute (x : MutM α) : Prop := ∀ i, MutGoes i (fun _ => i) x

open LogState

/-! ## The log's own functions -/

theorem goes_begin (severity : Severity) (name : String) :
    LogGoes .idle (fun _ => .saying) (mutLogBegin severity name) := by
  intro l hl
  simp only [mutLogBegin, mutAssert, wp_bind, wp_read, wp_require, wp_update, hl.noFatal,
    hl.closed, hl.written]
  exact ⟨rfl, Log.Idle.say hl⟩

theorem goes_fatal (fatal : String) (errorCode : Nat) :
    LogGoes .idle (fun _ => .failing) (mutLogFatal fatal errorCode) := by
  apply (goes_begin _ _).bind
  intro _
  exact .update fun l hl => ⟨rfl, hl.1⟩

/-- A full memory leaves its message open. -/
theorem goes_memFull (errorCode : Nat) :
    LogGoes .idle (fun _ => .ended) (mutLogMemFull errorCode) := by
  apply (goes_begin _ _).bind
  intro _
  exact .update fun l hl => .inr rfl

/-- A message is open, a fatal one or another. -/
def LogState.inside : LogState → Bool
  | .saying | .failing => true
  | .idle | .ended => false

theorem goes_arg {i : LogState} (hi : i.inside = true) (a : Arg) :
    LogGoes i (fun _ => i) (mutLogArg a) := by
  intro l hl
  have hpush : ∃ ms, l.push a = { l with messages := ms } := by
    unfold Log.push
    cases l.messages with
    | nil => exact ⟨l.messages, rfl⟩
    | cons msg earlier => exact ⟨_, rfl⟩
  obtain ⟨ms, hms⟩ := hpush
  cases i with
  | saying =>
      simp only [mutLogArg, mutAssert, wp_bind, wp_read, wp_require, wp_update, hl.1, hms,
        if_true]
      exact ⟨rfl, hl.2.noFatal, rfl, hl.2.written, hl.2.sound⟩
  | failing =>
      simp only [mutLogArg, mutAssert, wp_bind, wp_read, wp_require, wp_update, hl.2, hms,
        if_true]
      exact ⟨hl.1, rfl⟩
  | idle | ended => cases hi

theorem goes_args {i : LogState} (hi : i.inside = true) (args : List Arg) :
    LogGoes i (fun _ => i) (mutLogArgs args) := by
  induction args with
  | nil => exact .pure fun _ hl => hl
  | cons a args ih => exact (goes_arg hi a).bind fun _ => ih

theorem goes_end : LogGoes .saying (fun _ => .idle) mutLogEnd := by
  intro l hl
  simp only [mutLogEnd, mutAssert, wp_bind, wp_read, wp_require, wp_update, hl.1]
  exact hl.2

theorem goes_fatalEnd : LogGoes .failing (fun _ => .ended) mutLogEnd := by
  intro l hl
  simp only [mutLogEnd, mutAssert, wp_bind, wp_read, wp_require, wp_update, hl.2]
  exact .inr hl.1

theorem goes_frame (e : Exec) (addr : Word) :
    LogGoes .saying (fun _ => .saying) (mutLogFrame e addr) := by
  have harg (a : Arg) : LogGoes .saying (fun _ => .saying) (mutLogArg a) := goes_arg rfl a
  unfold mutLogFrame
  cases mutExecAddrName e addr with
  | some f =>
      exact (harg _).bind fun _ => (harg _).bind fun _ => (harg _).bind fun _ =>
        (harg _).bind fun _ => (harg _).bind fun _ => harg _
  | none => exact (harg _).bind fun _ => harg _

theorem goes_frames (e : Exec) (frames : List Word) :
    LogGoes .saying (fun _ => .saying) (mutLogFrames e frames) := by
  induction frames with
  | nil => exact .pure fun _ hl => hl
  | cons addr frames ih => exact (goes_frame e addr).bind fun _ => ih

/-! ## The process -/

variable {i : LogState}

theorem goes_liftLog {g : α → LogState} {y : LogM α} (hy : LogGoes i g y) :
    ProcessGoes i g (liftM y : ProcessM α) :=
  hy.focus (fun _ _ h => h) fun _ _ _ h => h

theorem goes_assertStatus {status : ProcessStatus} {a : Assertion}
    (ha : Grammatical (.assertion a)) :
    ProcessGoes i (fun _ => i) (mutAssertStatus status a) :=
  Goes.read.bind fun _ => .require ha

theorem goes_ptrace : ProcessGoes i (fun _ => i) ptrace :=
  .bind .read fun _ => .bind (.update fun _ hp => hp) fun _ => .pure fun _ hp => hp

theorem goes_request (failure : String) (arg : Arg) (change : Kernel → Kernel) :
    ProcessGoes .idle byOk (mutTraceRequest failure arg change) := by
  apply goes_ptrace.bind
  intro answer
  cases answer with
  | some errno =>
      exact (goes_liftLog (goes_fatal _ _)).bind fun _ =>
        (goes_liftLog (goes_arg rfl _)).bind fun _ =>
          (goes_liftLog goes_fatalEnd).bind fun _ => .pure fun _ hp => hp
  | none => exact .bind (.update fun _ hp => hp) fun _ => .pure fun _ hp => hp

theorem goes_peek (failure : String) (arg : Arg) (look : Kernel → Word) :
    ProcessGoes .idle bySome (mutTracePeek failure arg look) := by
  apply (goes_request _ _ _).bind
  intro granted
  cases granted with
  | true => exact Goes.read.bind fun _ => .pure fun _ hp => hp
  | false => exact .pure fun _ hp => hp

/-- An operation on a stopped process that makes one request. -/
theorem goes_stopped {g : α → LogState} {x : ProcessM α} (hx : ProcessGoes .idle g x) :
    ProcessGoes .idle g (do
      mutAssertStatus .stopped .stopped
      x) :=
  .bind (goes_assertStatus rfl) fun _ => hx

theorem goes_readPc : ProcessGoes .idle bySome mutProcessReadPc :=
  goes_stopped (goes_peek _ _ _)

theorem goes_readArg (n : Word) : ProcessGoes .idle bySome (mutProcessReadArg n) := by
  apply goes_stopped
  apply (goes_peek _ _ _).bind
  intro esp
  cases esp with
  | none => exact .pure fun _ hp => hp
  | some esp => exact goes_peek _ _ _

theorem goes_writeArg (n arg : Word) : ProcessGoes .idle byOk (mutProcessWriteArg n arg) := by
  apply goes_stopped
  apply (goes_peek _ _ _).bind
  intro esp
  cases esp with
  | none => exact .pure fun _ hp => hp
  | some esp => exact goes_request _ _ _

theorem goes_functionReturnAddr : ProcessGoes .idle bySome mutProcessFunctionReturnAddr := by
  apply goes_stopped
  apply (goes_peek _ _ _).bind
  intro esp
  cases esp with
  | none => exact .pure fun _ hp => hp
  | some esp => exact goes_peek _ _ _

theorem goes_readResult : ProcessGoes .idle bySome mutProcessReadResult :=
  goes_stopped (goes_peek _ _ _)

theorem goes_writeResult (v : Word) : ProcessGoes .idle byOk (mutProcessWriteResult v) :=
  goes_stopped (goes_request _ _ _)

theorem goes_skipTo (pc : Word) : ProcessGoes .idle byOk (mutProcessSkipTo pc) := by
  apply goes_stopped
  refine .bind (.update fun _ hp => hp) fun _ => ?_
  apply (goes_peek _ _ _).bind
  intro esp
  cases esp with
  | none => exact .pure fun _ hp => hp
  | some esp => exact goes_request _ _ _

theorem goes_breakpoint (pc : Word) : ProcessGoes .idle bySome (mutProcessBreakpoint pc) := by
  apply goes_stopped
  apply (goes_peek _ _ _).bind
  intro instr
  cases instr with
  | none => exact .pure fun _ hp => hp
  | some instr =>
      apply (goes_request _ _ _).bind
      intro planted
      cases planted with
      | true => exact .pure fun _ hp => hp
      | false => exact .pure fun _ hp => hp

theorem goes_restore (pc instr : Word) : ProcessGoes .idle byOk (mutProcessRestore pc instr) :=
  goes_stopped (goes_request _ _ _)

theorem goes_resume : ProcessGoes .idle byOk mutProcessResume := by
  apply goes_stopped
  apply Goes.read.bind
  intro p
  refine .check (goes_stopped (goes_request _ _ _)) (.pure fun _ hp => hp) ?_
  refine .check (goes_request _ _ _) (.pure fun _ hp => hp) ?_
  exact .bind (.update fun _ hp => hp) fun _ => .pure fun _ hp => hp

theorem goes_exited (name : String) (n : Nat) :
    ProcessGoes .idle byWait (mutProcessExited name n) :=
  .bind (goes_liftLog (goes_begin _ _)) fun _ => .bind (goes_liftLog (goes_arg rfl _))
    fun _ => .bind (goes_liftLog goes_end) fun _ => .bind (.update fun _ hp => hp)
      fun _ => .pure fun _ hp => hp

theorem goes_waitFor (reports : List Stop) :
    ProcessGoes .idle byWait (mutProcessWaitFor reports) := by
  induction reports with
  | nil => exact .stop rfl
  | cons report rest ih =>
      cases report with
      | failed errno =>
          refine .bind (.update fun _ hp => hp) fun _ => ?_
          exact .bind (goes_liftLog (goes_fatal _ _)) fun _ =>
            .bind (goes_liftLog (goes_arg rfl _)) fun _ =>
              .bind (goes_liftLog goes_fatalEnd) fun _ => .pure fun _ hp => hp
      | exited status => exact .bind (.update fun _ hp => hp) fun _ => goes_exited _ _
      | signaled signal => exact .bind (.update fun _ hp => hp) fun _ => goes_exited _ _
      | stopped signal target =>
          refine .bind (.update fun _ hp => hp) fun _ => .ite ?_ ?_
          · refine .bind (.update fun _ hp => hp) fun _ => .bind goes_readPc fun pc => ?_
            cases pc with
            | none => exact .pure fun _ hp => hp
            | some pc => exact .bind (.update fun _ hp => hp) fun _ => .pure fun _ hp => hp
          · exact .check (goes_request _ _ _) (.pure fun _ hp => hp) ih
      | other status target =>
          refine .bind (.update fun _ hp => hp) fun _ => ?_
          refine .bind (goes_liftLog (goes_begin _ _)) fun _ =>
            .bind (goes_liftLog (goes_arg rfl _)) fun _ =>
              .bind (goes_liftLog goes_end) fun _ => ?_
          exact .check (goes_request _ _ _) (.pure fun _ hp => hp) ih

theorem goes_wait : ProcessGoes .idle byWait mutProcessWait :=
  .bind (goes_assertStatus rfl) fun _ => .bind .read fun _ => goes_waitFor _

theorem goes_readWord (addr : Word) : ProcessGoes .idle bySome (mutProcessReadWord addr) :=
  goes_stopped (.bind (.require rfl) fun _ => goes_peek _ _ _)

theorem goes_writeWord (addr n : Word) : ProcessGoes .idle byOk (mutProcessWriteWord addr n) :=
  goes_stopped (.bind (.require rfl) fun _ => goes_request _ _ _)

theorem goes_memcpyWords (nwords : Nat) (dest src : Word) :
    ProcessGoes .idle byOk (mutProcessMemcpyWords nwords dest src) := by
  induction nwords generalizing dest src with
  | zero => exact .pure fun _ hp => hp
  | succ nwords ih =>
      apply (goes_peek _ _ _).bind
      intro data
      cases data with
      | none => exact .pure fun _ hp => hp
      | some data =>
          exact .check (goes_request _ _ _) (.pure fun _ hp => hp) (ih _ _)

theorem goes_memcpy (dest src n : Word) :
    ProcessGoes .idle byOk (mutProcessMemcpy dest src n) := by
  apply goes_stopped
  refine .bind (.require rfl) fun _ => .bind (.require rfl) fun _ => ?_
  refine .check (goes_memcpyWords _ _ _) (.pure fun _ hp => hp) ?_
  refine .ite (.pure fun _ hp => hp) ?_
  apply (goes_peek _ _ _).bind
  intro orig
  cases orig with
  | none => exact .pure fun _ hp => hp
  | some orig =>
      apply (goes_peek _ _ _).bind
      intro data
      cases data with
      | none => exact .pure fun _ hp => hp
      | some data => exact goes_request _ _ _

theorem goes_memsetWords (pattern : Word) (nwords : Nat) (addr : Word) :
    ProcessGoes .idle byOk (mutProcessMemsetWords pattern nwords addr) := by
  induction nwords generalizing addr with
  | zero => exact .pure fun _ hp => hp
  | succ nwords ih =>
      exact .check (goes_request _ _ _) (.pure fun _ hp => hp) (ih _)

theorem goes_memset (addr c n : Word) :
    ProcessGoes .idle byOk (mutProcessMemset addr c n) := by
  apply goes_stopped
  refine .bind (.require rfl) fun _ => ?_
  refine .check (goes_memsetWords _ _ _) (.pure fun _ hp => hp) ?_
  refine .ite (.pure fun _ hp => hp) ?_
  apply (goes_peek _ _ _).bind
  intro orig
  cases orig with
  | none => exact .pure fun _ hp => hp
  | some orig => exact goes_request _ _ _

/-! ## What says nothing -/

theorem goes_lift {g : α → LogState} {y : ProcessM α} (hy : ProcessGoes i g y) :
    MutGoes i g (liftM y : MutM α) :=
  hy.focus (fun _ _ h => h) fun _ _ _ h => h

theorem goes_log {g : α → LogState} {y : LogM α} (hy : LogGoes i g y) :
    MutGoes i g (liftM y : MutM α) :=
  goes_lift (goes_liftLog hy)

theorem mute_update {f : Mut → Mut} (hf : ∀ m, (f m).process = m.process) :
    Mute (update f : MutM Unit) := fun _ => .update fun m hm => (hf m).symm ▸ hm

theorem mute_malloc : Mute Mut.malloc := by
  intro i
  apply Goes.read.bind
  intro m
  cases m.mem.full.head?.join with
  | some errno => exact .bind (mute_update (fun _ => rfl) i) fun _ => .pure fun _ hm => hm
  | none => exact .bind (mute_update (fun _ => rfl) i) fun _ => .pure fun _ hm => hm

theorem mute_resource (obj : Nat) : Mute (Mut.resource obj) := by
  intro i
  apply Goes.read.bind
  intro m
  cases Keyed.get Resource.ptr obj m.resources.elems with
  | some r => exact .pure fun _ hm => hm
  | none => exact .stop rfl

theorem mute_assign (obj : Nat) (f : Resource → Resource) : Mute (Mut.assign obj f) := by
  intro i
  exact .bind (mute_resource obj i) fun _ => mute_update (fun _ => rfl) i

theorem mute_actionName (a : Option Routine) : Mute (Mut.actionName a) := by
  intro i
  cases a with
  | some a => exact Goes.read.bind fun _ => .pure fun _ hm => hm
  | none => exact .stop rfl

theorem mute_backtrace (bt : Option Nat) : Mute (Mut.backtrace bt) := by
  intro i
  cases bt with
  | none => exact .stop rfl
  | some ptr =>
      apply Goes.read.bind
      intro m
      cases m.mem.backtraces ptr with
      | some b => exact .pure fun _ hm => hm
      | none => exact .stop rfl

theorem mute_setBacktrace (ptr : Nat) (b : Option Backtrace) : Mute (Mut.setBacktrace ptr b) :=
  mute_update fun _ => rfl

theorem mute_backtraceEnter (bt : Nat) (ra : Word) : Mute (mutBacktraceEnter bt ra) := by
  intro i
  apply (mute_backtrace _ i).bind
  intro b
  refine .ite ?_ (.pure fun _ hm => hm)
  exact .bind (mute_setBacktrace _ _ i) fun _ => .pure fun _ hm => hm

theorem mute_backtraceShare (bt : Option Nat) : Mute (mutBacktraceShare bt) := by
  intro i
  apply (mute_backtrace _ i).bind
  intro b
  exact .bind (mute_setBacktrace _ _ i) fun _ => .pure fun _ hm => hm

theorem mute_backtraceClose (bt : Option Nat) : Mute (mutBacktraceClose bt) := by
  intro i
  apply (mute_backtrace _ i).bind
  intro b
  exact .bind (.require rfl) fun _ => mute_setBacktrace _ _ i

theorem mute_updateResources (f : Resources → Resources) : Mute (Mut.updateResources f) :=
  mute_update fun _ => rfl

theorem mute_updateStats (f : Stats → Stats) : Mute (Mut.updateStats f) :=
  mute_update fun _ => rfl

theorem mute_setAction (a : Routine) (f : Action → Action) : Mute (Mut.setAction a f) :=
  mute_update fun _ => rfl

theorem mute_hit (a : Routine) : Mute (Mut.hit a) := mute_setAction a _

theorem mute_makeProducer (obj : Nat) (producer : Routine) (size : Word) (bt : Option Nat) :
    Mute (mutResourceMakeProducer obj producer size bt) :=
  mute_assign obj _

theorem mute_reallyDelete (obj : Nat) (c : Routine) (bt : Option Nat) :
    Mute (mutResourcesReallyDeleteResource obj c bt) := by
  intro i
  refine .bind (mute_resource _ i) fun o => .bind .read fun m => ?_
  refine .bind (.require rfl) fun _ => .bind (.require rfl) fun _ => ?_
  cases Keyed.get Resource.addr o.addr m.resources.elems with
  | none => exact .stop rfl
  | some r =>
      refine .bind (mute_updateResources _ i) fun _ => ?_
      refine .bind (.whenever (mute_backtraceClose _ i)) fun _ => ?_
      exact mute_updateResources _ i

theorem mute_markAsFree (obj : Nat) (c : Routine) (bt : Option Nat) :
    Mute (mutResourcesMarkAsFree obj c bt) := by
  intro i
  refine .bind (mute_resource _ i) fun o => .bind .read fun m => ?_
  refine .bind (.require rfl) fun _ => .bind (.require rfl) fun _ => ?_
  refine .bind (mute_assign _ _ i) fun _ => ?_
  refine .bind (.whenever ?_) fun _ => mute_updateResources _ i
  exact .bind (mute_backtraceShare _ i) fun _ => mute_assign _ _ i

theorem mute_deleteResource (obj : Nat) (c : Routine) (bt : Option Nat) :
    Mute (mutResourcesDeleteResource obj c bt) := by
  intro i
  apply Goes.read.bind
  intro m
  exact .ite (mute_reallyDelete _ _ _ i) (mute_markAsFree _ _ _ i)

theorem mute_reallocBacktraces (obj : Nat) (bt : Option Nat) :
    Mute (mutReallocBacktraces obj bt) := by
  intro i
  refine .bind (mute_resource _ i) fun _ => ?_
  refine .bind (.whenever (mute_backtraceClose _ i)) fun _ => .bind (mute_assign _ _ i) fun _ => ?_
  exact .bind (mute_backtraceClose _ i) fun _ => mute_assign _ _ i

theorem mute_actionsEnter (a : Routine) : Mute (mutActionsEnter a) := by
  intro i
  apply Goes.read.bind
  intro m
  cases m.root.find? fun c => (m.actions c).addr = (m.actions a).addr with
  | some c => exact .pure fun _ hm => hm
  | none => exact .bind (mute_update (fun _ => rfl) i) fun _ => .pure fun _ hm => hm

theorem mute_iterOpen (all : Bool) : Mute (mutResourcesIterOpen all) := fun _ =>
  .bind .read fun _ => .pure fun _ hm => hm

theorem mute_lookup (addr : Word) : Mute (mutResourcesLookup addr) := fun _ =>
  .bind .read fun _ => .pure fun _ hm => hm

/-- The loop says what its body says. -/
theorem goes_forEachResource {all : Bool} {body : Resource → MutM Unit}
    (hbody : ∀ r, MutGoes i (fun _ => i) (body r)) (elems : List Resource) :
    MutGoes i (fun _ => i) (forEachResource all body elems) := by
  induction elems with
  | nil => exact .pure fun _ hm => hm
  | cons r elems ih => exact .bind (.whenever (hbody r)) fun _ => ih

theorem mute_resourcesClose : Mute mutResourcesClose := by
  intro i
  apply Goes.read.bind
  intro m
  apply goes_forEachResource
  intro r
  refine .bind (.whenever (mute_backtraceClose _ i)) fun _ => ?_
  exact .bind (.whenever (mute_backtraceClose _ i)) fun _ => mute_updateResources _ i

/-! ## Backtraces and the list -/

/-- `free_backtrace:` after a failure. -/
theorem goes_freeBacktrace (bt : Option Nat) :
    MutGoes .ended byOk (freeBacktrace flags bt) :=
  .bind (.whenever (mute_backtraceClose bt _)) fun _ => .pure fun _ hm => hm

theorem goes_unlessFails {c : Bool} {x : MutM Bool} (hx : MutGoes .idle byOk x) :
    MutGoes .idle byOk (unlessFails c x) := by
  cases c with
  | false => exact .pure fun _ hm => hm
  | true => exact hx

theorem goes_backtraceOpen : MutGoes .idle bySome mutBacktraceOpen := by
  apply (mute_malloc _).bind
  intro answer
  cases answer with
  | error errno => exact .bind (goes_log (goes_memFull _)) fun _ => .pure fun _ hm => hm
  | ok ptr => exact .bind (mute_setBacktrace _ _ _) fun _ => .pure fun _ hm => hm

theorem goes_logBacktrace (bt : Option Nat) :
    MutGoes .saying (fun _ => .saying) (mutLogBacktrace bt) := by
  apply (mute_backtrace _ _).bind
  intro b
  refine .bind .read fun m => .bind (goes_log (goes_arg rfl _)) fun _ => ?_
  exact goes_log (goes_frames _ _)

theorem goes_backtraceFrom (bt rounds : Nat) (ebp base : Word) :
    MutGoes .idle byOk (mutProcessBacktraceFrom bt rounds ebp base) := by
  induction rounds generalizing ebp base with
  | zero => exact .stop rfl
  | succ rounds ih =>
      refine .ite (.pure fun _ hm => hm) ?_
      apply (goes_lift (goes_peek _ _ _)).bind
      intro returnAddr
      cases returnAddr with
      | none => exact .pure fun _ hm => hm
      | some returnAddr =>
          refine .ite (.pure fun _ hm => hm) ?_
          refine .check (mute_backtraceEnter _ _ _) (.pure fun _ hm => hm) ?_
          apply (goes_lift (goes_peek _ _ _)).bind
          intro next
          cases next with
          | none => exact .pure fun _ hm => hm
          | some next => exact ih _ _

theorem goes_functionBacktrace (bt : Nat) :
    MutGoes .idle byOk (mutProcessFunctionBacktrace bt) := by
  apply (goes_lift (goes_peek _ _ _)).bind
  intro esp
  cases esp with
  | none => exact .pure fun _ hm => hm
  | some esp =>
      apply (goes_lift (goes_peek _ _ _)).bind
      intro returnAddr
      cases returnAddr with
      | none => exact .pure fun _ hm => hm
      | some returnAddr =>
          refine .check (mute_backtraceEnter _ _ _) (.pure fun _ hm => hm) ?_
          apply (goes_lift (goes_peek _ _ _)).bind
          intro ebp
          cases ebp with
          | none => exact .pure fun _ hm => hm
          | some ebp => exact goes_backtraceFrom _ _ _ _

theorem goes_produceBacktrace : MutGoes .idle bySome (mutProduceBacktrace flags) := by
  refine .ite ?_ (.pure fun _ hm => hm)
  apply goes_backtraceOpen.bind
  intro bt
  cases bt with
  | none => exact .pure fun _ hm => hm
  | some bt =>
      refine .check (goes_functionBacktrace _) ?_ (.pure fun _ hm => hm)
      exact .bind (mute_backtraceClose _ _) fun _ => .pure fun _ hm => hm

theorem goes_createResource (addr : Word) :
    MutGoes .idle bySome (mutResourcesCreateResource addr) := by
  apply Goes.read.bind
  intro m
  cases Keyed.get Resource.addr addr m.resources.elems with
  | some r => exact .pure fun _ hm => hm
  | none =>
      apply (mute_malloc _).bind
      intro answer
      cases answer with
      | error errno => exact .bind (goes_log (goes_memFull _)) fun _ => .pure fun _ hm => hm
      | ok ptr => exact .bind (mute_updateResources _ _) fun _ => .pure fun _ hm => hm

/-! ## Messages of the handlers -/

/-- An argument inside a message. -/
theorem goes_logArg (a : Arg) :
    MutGoes .saying (fun _ => .saying) (liftM (mutLogArg a) : MutM Unit) :=
  goes_log (goes_arg rfl a)

theorem goes_logArgs (args : List Arg) :
    MutGoes .saying (fun _ => .saying) (liftM (mutLogArgs args) : MutM Unit) :=
  goes_log (goes_args rfl args)

theorem goes_logBacktraceIf (bt : Option Nat) :
    MutGoes .saying (fun _ => .saying) (whenever flags.backtrace (mutLogBacktrace bt)) :=
  .whenever (goes_logBacktrace bt)

theorem goes_close (bt : Option Nat) :
    MutGoes i (fun _ => i) (whenever flags.backtrace (mutBacktraceClose bt)) :=
  .whenever (mute_backtraceClose bt i)

theorem goes_reportUsage : MutGoes .idle (fun _ => .idle) (mutReportUsage flags) := by
  refine .bind (goes_log (goes_begin _ _)) fun _ => ?_
  refine .bind (mute_iterOpen _ _) fun iter => ?_
  refine .bind (goes_logArg _) fun _ => .bind (goes_forEachResource ?_ _) fun _ => ?_
  · intro r
    refine .bind (mute_actionName _ _) fun name => .bind (goes_logArg _) fun _ => ?_
    refine .bind (goes_logArg _) fun _ => .bind (goes_logArg _) fun _ => ?_
    exact goes_logBacktraceIf _
  · exact goes_log goes_end

theorem goes_traceCall (a : Routine) (args : List Arg) (bt : Option Nat) :
    MutGoes .idle (fun _ => .idle) (mutTraceCall flags a args bt) := by
  apply Goes.whenever
  refine .bind (goes_log (goes_begin _ _)) fun _ => .bind .read fun m => ?_
  refine .bind (goes_logArg _) fun _ => .bind (goes_logArgs _) fun _ => ?_
  exact .bind (goes_logBacktraceIf _) fun _ => goes_log goes_end

theorem goes_traceConsumer (a : Routine) (args : List Arg) :
    MutGoes .idle (fun _ => .idle) (mutTraceConsumer flags a args) := by
  apply Goes.whenever
  refine .bind (goes_log (goes_begin _ _)) fun _ => .bind .read fun m => ?_
  refine .bind (goes_logArg _) fun _ => .bind (goes_logArgs _) fun _ => ?_
  exact goes_log goes_end

theorem goes_fum (addr : Word) (a : Routine) (bt : Option Nat) :
    MutGoes .idle (fun _ => .idle) (mutLogFum flags addr a bt) := by
  refine .bind (goes_log (goes_begin _ _)) fun _ => .bind .read fun m => ?_
  refine .bind (goes_logArg _) fun _ => .bind (goes_logArg _) fun _ => ?_
  exact .bind (goes_logBacktraceIf _) fun _ => goes_log goes_end

theorem goes_ffm (addr : Word) (a : Routine) (obj : Nat) (bt : Option Nat) :
    MutGoes .idle (fun _ => .idle) (mutLogFfm flags addr a obj bt) := by
  refine .bind (.require rfl) fun _ => .bind (mute_resource _ _) fun r => ?_
  refine .bind (.require rfl) fun _ => .bind (goes_log (goes_begin _ _)) fun _ => ?_
  refine .bind .read fun m => .bind (goes_logArg _) fun _ => .bind (goes_logArg _) fun _ => ?_
  refine .bind (goes_logBacktraceIf _) fun _ => .bind (mute_actionName _ _) fun name => ?_
  refine .bind (goes_logArg _) fun _ => .bind (goes_logBacktraceIf _) fun _ => ?_
  exact goes_log goes_end

theorem goes_wum (addr zone value : Word) (a : Routine) (obj : Nat) (bt : Option Nat) :
    MutGoes .idle (fun _ => .idle) (mutLogWum flags addr zone value a obj bt) := by
  refine .bind (.require rfl) fun _ => .bind (mute_resource _ _) fun r => ?_
  refine .bind (goes_log (goes_begin _ _)) fun _ => .bind .read fun m => ?_
  refine .bind (goes_logArg _) fun _ => .bind (goes_logArg _) fun _ => ?_
  refine .bind (goes_logArg _) fun _ => .bind (goes_logArg _) fun _ => ?_
  refine .bind (goes_logArg _) fun _ => .bind (goes_logBacktraceIf _) fun _ => ?_
  refine .bind (mute_actionName _ _) fun name => .bind (goes_logArg _) fun _ => ?_
  exact .bind (goes_logBacktraceIf _) fun _ => goes_log goes_end

theorem goes_failure (warning : String) (a : Routine) (traced warned : List Arg)
    (bt : Option Nat) :
    MutGoes .idle (fun _ => .idle) (mutProducerFailure flags warning a traced warned bt) := by
  refine .bind (goes_traceCall _ _ _) fun _ => .bind (goes_log (goes_begin _ _)) fun _ => ?_
  refine .bind .read fun m => .bind (goes_logArg _) fun _ => .bind (goes_logArgs _) fun _ => ?_
  refine .bind (goes_logBacktraceIf _) fun _ => .bind (goes_log goes_end) fun _ => ?_
  exact goes_close _

/-! ## Actions -/

theorem goes_manageAction (a : Routine) (f : ExecFunction) :
    MutGoes .idle byOk (mutManageAction a f) := by
  refine .bind (mute_setAction _ _ _) fun _ => .ite (.pure fun _ hm => hm) ?_
  refine .bind (mute_setAction _ _ _) fun _ => .bind (mute_actionsEnter _ _) fun oa => ?_
  refine .ite ?_ (.bind .read fun m => ?_)
  · refine .bind (goes_log (goes_begin _ _)) fun _ => .bind .read fun m => ?_
    refine .bind (goes_logArg _) fun _ => .bind .read fun m => ?_
    refine .bind (goes_logArg _) fun _ => .bind .read fun m => ?_
    refine .bind (goes_logArg _) fun _ => .bind (goes_log goes_end) fun _ => ?_
    exact .pure fun _ hm => hm
  · apply (goes_lift (goes_breakpoint _)).bind
    intro instr
    cases instr with
    | none => exact .pure fun _ hm => hm
    | some instr => exact .bind (mute_setAction _ _ _) fun _ => .pure fun _ hm => hm

theorem goes_manageEach (rs : List (Routine × ExecFunction)) :
    MutGoes .idle byOk (mutManageEach rs) := by
  induction rs with
  | nil => exact .pure fun _ hm => hm
  | cons r rs ih =>
      refine .bind (mute_setAction _ _ _) fun _ => ?_
      exact .check (goes_manageAction _ _) (.pure fun _ hm => hm) ih

theorem goes_manageActions (usageFunction : Option String) :
    MutGoes .idle byOk (mutManageActions usageFunction) :=
  .bind (mute_update (fun _ => rfl) _) fun _ => .bind .read fun _ => goes_manageEach _

theorem goes_removeOf (root : List Routine) :
    MutGoes .idle byOk (mutRemoveActionBreakpointsOf root) := by
  induction root with
  | nil => exact .pure fun _ hm => hm
  | cons a root ih =>
      apply Goes.read.bind
      intro m
      exact .check (goes_lift (goes_restore _ _)) (.pure fun _ hm => hm) ih

theorem goes_installOf (root : List Routine) :
    MutGoes .idle byOk (mutInstallActionBreakpointsOf root) := by
  induction root with
  | nil => exact .pure fun _ hm => hm
  | cons a root ih =>
      apply Goes.read.bind
      intro m
      apply (goes_lift (goes_breakpoint _)).bind
      intro instr
      cases instr with
      | none => exact .pure fun _ hm => hm
      | some instr => exact .bind (mute_setAction _ _ _) fun _ => ih

theorem goes_remove : MutGoes .idle byOk mutRemoveActionBreakpoints :=
  .bind .read fun _ => goes_removeOf _

theorem goes_install : MutGoes .idle byOk mutInstallActionBreakpoints :=
  .bind .read fun _ => goes_installOf _

/-- A breakpoint that is not the one waited for is a fatal error. -/
theorem goes_doAction (returnAddr : Word) (a : Routine) :
    MutGoes .idle byOk (mutDoAction returnAddr a) := by
  apply (goes_lift (goes_breakpoint _)).bind
  intro instr
  cases instr with
  | none => exact .pure fun _ hm => hm
  | some instr =>
      refine .check (goes_lift goes_resume) (.pure fun _ hm => hm) ?_
      apply (goes_lift goes_wait).bind
      intro status
      cases status with
      | exited => exact .pure fun _ => .inl
      | failed => exact .pure fun _ hm => hm
      | stopped pc =>
          refine .ite ?_ (goes_lift (goes_restore _ _))
          refine .bind (goes_log (goes_fatal _ _)) fun _ => .bind .read fun m => ?_
          refine .bind (goes_log (goes_arg rfl _)) fun _ => ?_
          refine .bind (goes_log (goes_arg rfl _)) fun _ => ?_
          refine .bind (goes_log (goes_arg rfl _)) fun _ => ?_
          exact .bind (goes_log goes_fatalEnd) fun _ => .pure fun _ hm => hm

theorem goes_installZones (objAddr size : Word) :
    MutGoes .idle bySome (installZonesIfChecking flags objAddr size) := by
  refine .ite ?_ (.pure fun _ hm => hm)
  refine .check (goes_lift (goes_writeWord _ _)) (.pure fun _ hm => hm) ?_
  refine .check (goes_lift (goes_writeWord _ _)) (.pure fun _ hm => hm) ?_
  refine .check (goes_lift (goes_writeResult _)) (.pure fun _ hm => hm) ?_
  exact .pure fun _ hm => hm

/-! ## The producers -/

theorem goes_success (again : String) (a : Routine) (traced : List Arg) (size addr : Word)
    (bt : Option Nat) :
    MutGoes .idle byOk (mutProducerSuccess flags again a traced size addr bt) := by
  refine .bind (.whenever (mute_updateStats _ _)) fun _ => ?_
  apply (goes_createResource _).bind
  intro obj
  cases obj with
  | none => exact .pure fun _ hm => hm
  | some obj =>
      refine .bind (mute_resource _ _) fun r => .ite ?_ ?_
      · refine .bind (goes_log (goes_begin _ _)) fun _ => .bind .read fun m => ?_
        refine .bind (goes_logArg _) fun _ => .bind (mute_actionName _ _) fun name => ?_
        refine .bind (goes_logArg _) fun _ => .bind (goes_logArg _) fun _ => ?_
        exact .bind (goes_log goes_end) fun _ => .pure fun _ => .inl
      · refine .bind (mute_makeProducer _ _ _ _ _) fun _ => ?_
        refine .bind (goes_traceCall _ _ _) fun _ => ?_
        exact .bind (.whenever goes_reportUsage) fun _ => .pure fun _ hm => hm

theorem goes_produce {a : Routine} {adjust : MutM Bool} {adjustedSize : Word}
    {failure : Option Nat → MutM Unit} {success : Word → Option Nat → MutM Bool}
    (hadjust : MutGoes .idle byOk adjust)
    (hfailure : ∀ bt, MutGoes .idle (fun _ => .idle) (failure bt))
    (hsuccess : ∀ addr bt, MutGoes .idle byOk (success addr bt)) (bt : Option Nat) :
    MutGoes .idle byOk (mutProduce flags a adjust adjustedSize failure success bt) := by
  apply (goes_lift goes_functionReturnAddr).bind
  intro returnAddr
  cases returnAddr with
  | none => exact goes_freeBacktrace bt
  | some returnAddr =>
      refine .check (goes_unlessFails hadjust) (goes_freeBacktrace bt) ?_
      refine .check (goes_doAction _ _) (goes_freeBacktrace bt) ?_
      apply (goes_lift goes_readResult).bind
      intro objAddrArg
      cases objAddrArg with
      | none => exact goes_freeBacktrace bt
      | some objAddrArg =>
          refine .bind (.whenever (mute_hit _ _)) fun _ => .ite ?_ ?_
          · exact .bind (hfailure bt) fun _ => .pure fun _ hm => hm
          · apply (goes_installZones _ _).bind
            intro objAddr
            cases objAddr with
            | none => exact goes_freeBacktrace bt
            | some objAddr => exact hsuccess _ _

theorem goes_malloc (a : Routine) : MutGoes .idle byOk (mutDoMalloc flags a) := by
  apply (goes_lift (goes_readArg _)).bind
  intro size
  cases size with
  | none => exact .pure fun _ hm => hm
  | some size =>
      apply goes_produceBacktrace.bind
      intro bt
      cases bt with
      | none => exact .pure fun _ hm => hm
      | some bt =>
          apply goes_produce (goes_lift (goes_writeArg _ _))
          · exact fun _ => goes_failure _ _ _ _ _
          · exact fun _ _ => .bind (.require rfl) fun _ => goes_success _ _ _ _ _ _

theorem goes_calloc (a : Routine) : MutGoes .idle byOk (mutDoCalloc flags a) := by
  apply (goes_lift (goes_readArg _)).bind
  intro nElems
  cases nElems with
  | none => exact .pure fun _ hm => hm
  | some nElems =>
      apply (goes_lift (goes_readArg _)).bind
      intro elemSize
      cases elemSize with
      | none => exact .pure fun _ hm => hm
      | some elemSize =>
          apply goes_produceBacktrace.bind
          intro bt
          cases bt with
          | none => exact .pure fun _ hm => hm
          | some bt =>
              apply goes_produce
              · exact .check (goes_lift (goes_writeArg _ _)) (.pure fun _ hm => hm)
                  (goes_lift (goes_writeArg _ _))
              · exact fun _ => goes_failure _ _ _ _ _
              · exact fun _ _ => goes_success _ _ _ _ _ _

/-! ## The consumers -/

/-- A zone that is not as it was left is reported, not a fatal error. -/
theorem goes_zoneCheck (addr : Word) (obj : Nat) (a : Routine) (bt : Option Nat) :
    MutGoes .idle byOk (mutZoneCheck flags addr obj a bt) := by
  apply (mute_resource _ _).bind
  intro r
  apply (goes_lift (goes_readWord _)).bind
  intro preZone
  cases preZone with
  | none => exact .pure fun _ hm => hm
  | some preZone =>
      refine .ite (.bind (goes_wum _ _ _ _ _ _) fun _ => .pure fun _ => .inl) ?_
      apply (goes_lift (goes_readWord _)).bind
      intro postZone
      cases postZone with
      | none => exact .pure fun _ hm => hm
      | some postZone =>
          exact .ite (.bind (goes_wum _ _ _ _ _ _) fun _ => .pure fun _ => .inl)
            (.pure fun _ hm => hm)

theorem goes_finish (returnAddr : Word) (a : Routine) :
    MutGoes .idle byOk (mutFinishConsumer flags returnAddr a) :=
  .ite (goes_doAction _ _) (goes_lift (goes_skipTo _))

theorem goes_consumeLive (objAddr returnAddr : Word) (a : Routine) (obj : Nat)
    (bt : Option Nat) : MutGoes .idle byOk (mutConsumeLive flags objAddr returnAddr a obj bt) := by
  refine .bind (mute_resource _ _) fun r => .bind (.whenever (mute_updateStats _ _)) fun _ => ?_
  refine .check (goes_unlessFails (goes_zoneCheck _ _ _ _)) (goes_freeBacktrace bt) ?_
  refine .check (goes_unlessFails (goes_lift (goes_memset _ _ _))) (goes_freeBacktrace bt) ?_
  refine .bind (mute_deleteResource _ _ _ _) fun _ => .bind (goes_close _) fun _ => ?_
  exact .bind (.whenever goes_reportUsage) fun _ => goes_finish _ _

theorem goes_consumer (a : Routine) : MutGoes .idle byOk (mutDoConsumer flags a) := by
  refine .bind (.whenever (mute_hit _ _)) fun _ => ?_
  apply (goes_lift (goes_readArg _)).bind
  intro objAddr
  cases objAddr with
  | none => exact .pure fun _ hm => hm
  | some objAddr =>
      apply (goes_lift goes_functionReturnAddr).bind
      intro returnAddr
      cases returnAddr with
      | none => exact .pure fun _ hm => hm
      | some returnAddr =>
          apply goes_produceBacktrace.bind
          intro bt
          cases bt with
          | none => exact .pure fun _ hm => hm
          | some bt =>
              refine .ite ?_ (.bind (mute_lookup _ _) fun obj => ?_)
              · refine .bind (goes_traceConsumer _ _) fun _ => .bind (goes_close _) fun _ => ?_
                exact goes_doAction _ _
              · cases obj with
                | none =>
                    refine .bind (goes_traceConsumer _ _) fun _ => ?_
                    refine .bind (goes_fum _ _ _) fun _ => .bind (goes_close _) fun _ => ?_
                    exact goes_finish _ _
                | some obj =>
                    refine .bind (mute_resource _ _) fun r => ?_
                    refine .bind (goes_traceConsumer _ _) fun _ => .ite ?_ ?_
                    · refine .bind (goes_ffm _ _ _ _) fun _ => .bind (goes_close _) fun _ => ?_
                      exact goes_finish _ _
                    · exact goes_consumeLive _ _ _ _ _

/-! ## realloc -/

theorem goes_reallocFailure (newSize oldAddr oldSize : Word) (bt : Option Nat) :
    MutGoes .idle (fun _ => .idle) (mutReallocFailure flags newSize oldAddr oldSize bt) :=
  .bind (.require rfl) fun _ => goes_failure _ _ _ _ _

/-- `realloc` answers zero after its failure, which is no fatal error. -/
theorem goes_reallocFailed (newSize oldAddr oldSize : Word) (bt : Option Nat) :
    MutGoes .idle byOk (do
      mutReallocFailure flags newSize oldAddr oldSize bt
      return false) :=
  .bind (goes_reallocFailure _ _ _ _) fun _ => .pure fun _ => .inl

/-- What `realloc` does with the new object, made at an address that had none. -/
theorem goes_create {k : Nat → MutM Bool} (addr : Word) (bt : Option Nat)
    (hk : ∀ obj, MutGoes .idle byOk (k obj)) :
    MutGoes .idle byOk (do
      let some obj ← mutResourcesCreateResource addr | freeBacktrace flags bt
      mutAssert (mutResourceIsNew (← Mut.resource obj)) .isNew
      k obj) := by
  apply (goes_createResource _).bind
  intro obj
  cases obj with
  | none => exact goes_freeBacktrace bt
  | some obj =>
      exact .bind (mute_resource _ _) fun r => .bind (.require rfl) fun _ => hk obj

theorem goes_reallocMalloc (objSize : Word) (bt : Option Nat) :
    MutGoes .idle byOk (mutReallocMalloc flags objSize bt) := by
  refine .bind (.require rfl) fun _ => ?_
  apply (goes_lift goes_readResult).bind
  intro objAddrArg
  cases objAddrArg with
  | none => exact goes_freeBacktrace bt
  | some objAddrArg =>
      refine .bind (.whenever (mute_hit _ _)) fun _ => .ite (goes_reallocFailed _ _ _ _) ?_
      apply (goes_installZones _ _).bind
      intro objAddr
      cases objAddr with
      | none => exact goes_freeBacktrace bt
      | some objAddr =>
          refine goes_create objAddr bt fun obj => ?_
          refine .bind (.whenever (mute_updateStats _ _)) fun _ => ?_
          refine .bind (mute_assign _ _ _) fun _ => .bind (goes_traceCall _ _ _) fun _ => ?_
          exact .bind (.whenever goes_reportUsage) fun _ => .pure fun _ hm => hm

theorem goes_reallocMove (obj : Nat) (old : Resource) (addr : Word) :
    MutGoes .idle byOk (mutReallocMove flags obj old addr) := by
  refine .ite (.bind (.require rfl) fun _ => .pure fun _ hm => hm) ?_
  refine .check (goes_unlessFails (goes_lift (goes_memset _ _ _))) (.pure fun _ hm => hm) ?_
  exact .bind (mute_assign _ _ _) fun _ => .pure fun _ hm => hm

theorem goes_reallocRealloc (obj : Nat) (newSize : Word) (bt : Option Nat) :
    MutGoes .idle byOk (mutReallocRealloc flags obj newSize bt) := by
  refine .bind (.require rfl) fun _ => .bind (.require rfl) fun _ => ?_
  apply (goes_lift goes_readResult).bind
  intro newObjAddr
  cases newObjAddr with
  | none => exact .pure fun _ hm => hm
  | some newObjAddr =>
      refine .bind (.whenever (mute_hit _ _)) fun _ => .bind (mute_resource _ _) fun old => ?_
      refine .ite (goes_reallocFailed _ _ _ _) ?_
      refine .bind (.whenever (mute_updateStats _ _)) fun _ => ?_
      refine .check (goes_reallocMove _ _ _) (.pure fun _ hm => hm) ?_
      refine .bind (.whenever (mute_updateStats _ _)) fun _ => ?_
      refine .bind (mute_assign _ _ _) fun _ => ?_
      refine .bind (.whenever (mute_reallocBacktraces _ _ _)) fun _ => ?_
      refine .bind (goes_traceCall _ _ _) fun _ => ?_
      exact .bind (.whenever goes_reportUsage) fun _ => .pure fun _ hm => hm

theorem goes_reallocReallocNoFree (obj : Nat) (newSize : Word) (bt : Option Nat) :
    MutGoes .idle byOk (mutReallocReallocNoFree flags obj newSize bt) := by
  refine .bind (mute_resource _ _) fun old => .bind (.require rfl) fun _ => ?_
  apply (goes_lift goes_readResult).bind
  intro objAddr
  cases objAddr with
  | none => exact goes_freeBacktrace bt
  | some objAddr =>
      refine .bind (.require rfl) fun _ => .ite (goes_reallocFailed _ _ _ _) ?_
      refine .bind (.whenever (mute_updateStats _ _)) fun _ => ?_
      refine .bind (mute_deleteResource _ _ _ _) fun _ => goes_create objAddr bt fun new => ?_
      refine .bind (mute_makeProducer _ _ _ _ _) fun _ => .bind (mute_resource _ _) fun r => ?_
      refine .check (goes_lift (goes_memcpy _ _ _)) (.pure fun _ hm => hm) ?_
      refine .check (goes_unlessFails (goes_lift (goes_memset _ _ _)))
        (.pure fun _ hm => hm) ?_
      refine .bind (.whenever ?_) fun _ => .bind (mute_resource _ _) fun r => ?_
      · exact .bind (mute_hit _ _) fun _ => mute_updateStats _ _
      · refine .bind (goes_traceCall _ _ _) fun _ => ?_
        exact .bind (.whenever goes_reportUsage) fun _ => .pure fun _ hm => hm

theorem goes_reallocMallocNoFree (newSize : Word) (bt : Option Nat) :
    MutGoes .idle byOk (mutReallocMallocNoFree flags newSize bt) := by
  refine .bind (.require rfl) fun _ => ?_
  apply (goes_lift goes_readResult).bind
  intro objAddrArg
  cases objAddrArg with
  | none => exact goes_freeBacktrace bt
  | some objAddrArg =>
      refine .ite (goes_reallocFailed _ _ _ _) ?_
      apply (goes_installZones _ _).bind
      intro objAddr
      cases objAddr with
      | none => exact goes_freeBacktrace bt
      | some objAddr =>
          refine goes_create objAddr bt fun obj => ?_
          refine .bind (mute_makeProducer _ _ _ _ _) fun _ => .bind (mute_resource _ _) fun r => ?_
          refine .bind (.whenever ?_) fun _ => ?_
          · exact .bind (mute_hit _ _) fun _ => mute_updateStats _ _
          · exact .bind (goes_traceCall _ _ _) fun _ => .pure fun _ hm => hm

theorem goes_reallocUnknown (a : Routine) (objAddr newSize returnAddr : Word)
    (bt : Option Nat) :
    MutGoes .idle byOk (mutReallocUnknown flags a objAddr newSize returnAddr bt) := by
  refine .bind (.whenever (mute_hit _ _)) fun _ => .bind (goes_fum _ _ _) fun _ => .ite ?_ ?_
  · refine .bind (goes_traceConsumer _ _) fun _ => .bind (goes_close _) fun _ => ?_
    exact goes_doAction _ _
  · refine .check (goes_lift (goes_writeArg _ _)) (goes_freeBacktrace bt) ?_
    refine .check (goes_unlessFails (goes_lift (goes_writeArg _ _)))
      (goes_freeBacktrace bt) ?_
    refine .check (goes_doAction _ _) (goes_freeBacktrace bt) ?_
    exact goes_reallocMallocNoFree _ _

theorem goes_reallocKnown (a : Routine) (objAddr newSize returnAddr : Word) (obj : Nat)
    (bt : Option Nat) :
    MutGoes .idle byOk (mutReallocKnown flags a objAddr newSize returnAddr obj bt) := by
  refine .bind (mute_resource _ _) fun r => .bind (.whenever (goes_ffm _ _ _ _)) fun _ => ?_
  refine .check (goes_unlessFails (goes_lift (goes_writeArg _ _))) (goes_freeBacktrace bt) ?_
  refine .check (goes_unlessFails (goes_lift (goes_writeArg _ _))) (goes_freeBacktrace bt) ?_
  refine .check (goes_doAction _ _) (goes_freeBacktrace bt) ?_
  exact .ite (goes_reallocRealloc _ _ _) (goes_reallocReallocNoFree _ _ _)

theorem goes_realloc (a : Routine) : MutGoes .idle byOk (mutDoRealloc flags a) := by
  apply (goes_lift (goes_readArg _)).bind
  intro objAddr
  cases objAddr with
  | none => exact .pure fun _ hm => hm
  | some objAddr =>
      apply (goes_lift (goes_readArg _)).bind
      intro newSize
      cases newSize with
      | none => exact .pure fun _ hm => hm
      | some newSize =>
          apply (goes_lift goes_functionReturnAddr).bind
          intro returnAddr
          cases returnAddr with
          | none => exact .pure fun _ hm => hm
          | some returnAddr =>
              apply goes_produceBacktrace.bind
              intro bt
              cases bt with
              | none => exact .pure fun _ hm => hm
              | some bt =>
                  refine .ite ?_ (.bind (mute_lookup _ _) fun obj => ?_)
                  · refine .check (goes_unlessFails (goes_lift (goes_writeArg _ _)))
                      (goes_freeBacktrace bt) ?_
                    refine .check (goes_doAction _ _) (goes_freeBacktrace bt) ?_
                    exact goes_reallocMalloc _ _
                  · cases obj with
                    | none => exact goes_reallocUnknown _ _ _ _ _
                    | some obj => exact goes_reallocKnown _ _ _ _ _ _

/-! ## Running -/

theorem goes_usage (a : Routine) : MutGoes .idle byOk (mutDoUsage flags a) := by
  apply goes_reportUsage.bind
  intro _
  apply (goes_lift goes_functionReturnAddr).bind
  intro returnAddr
  cases returnAddr with
  | none => exact .pure fun _ hm => hm
  | some returnAddr => exact goes_doAction _ _

/-- Every handler keeps to the grammar. -/
theorem goes_handle (a : Routine) : MutGoes .idle byOk (mutHandle flags a) := by
  apply Goes.read.bind
  intro m
  cases (m.actions a).type with
  | malloc => exact goes_malloc a
  | calloc => exact goes_calloc a
  | realloc => exact goes_realloc a
  | consumer => exact goes_consumer a
  | usage => exact goes_usage a

/-- The typestate after a part of a round. -/
def LogState.byRound : Except (Option Bool) α → LogState
  | .error (some ok) => byOk ok
  | .error none | .ok _ => .idle

theorem goes_runToAction : MutGoes .idle byRound mutRunToAction := by
  refine .check (goes_lift goes_resume) (.pure fun _ hm => hm) ?_
  apply (goes_lift goes_wait).bind
  intro status
  cases status with
  | exited => exact .pure fun _ hm => hm
  | failed => exact .pure fun _ hm => hm
  | stopped pc =>
      apply Goes.bind (g := fun _ => LogState.idle)
      · exact .bind .read fun m => .pure fun _ hm => hm
      · intro action
        cases action with
        | none => exact .pure fun _ hm => hm
        | some action =>
            exact .check goes_remove (.pure fun _ hm => hm) (.pure fun _ hm => hm)

/-- The typestate after a round that may be the last. -/
def LogState.byResult : Option Bool → LogState
  | some ok => byOk ok
  | none => .idle

theorem goes_round : MutGoes .idle byResult (mutRunRound flags) := by
  apply goes_runToAction.bind
  intro part
  cases part with
  | error result =>
      cases result with
      | none => exact .pure fun _ hm => hm
      | some ok => exact .pure fun _ hm => hm
  | ok action =>
      refine .check (goes_handle _) (.pure fun _ hm => hm) ?_
      exact .check goes_install (.pure fun _ hm => hm) (.pure fun _ hm => hm)

theorem goes_rounds (rounds : Nat) : MutGoes .idle byOk (mutRunRounds flags rounds) := by
  induction rounds with
  | zero => exact .stop rfl
  | succ rounds ih =>
      apply goes_round.bind
      intro result
      cases result with
      | some ok => exact .pure fun _ hm => hm
      | none => exact ih

/-- A run leaves the log idle if it answers yes, and otherwise with at most one fatal
error as the last thing said. -/
theorem goes_run : MutGoes .idle byOk (mutRun flags) :=
  .bind .read fun _ => goes_rounds _

end MutTracker.Source
