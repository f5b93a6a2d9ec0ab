import MutTracker.Logic.Within
import MutTracker.Source.Run
import MutTracker.Verified.Midway

/-!
# What stays as it is

Between two times that the target runs, whatever the tracker does leaves the
status of the process, the text, the coming reports and the actions alone.
`Mut.Steady k` is that relation; `k` says what else stays as it is: the
function's result, which only marking zones changes, the hits, and the list.

The frame conditions hold from any state in which the process is stopped:
nothing is assumed of the list, of the log or of the allocator.  No operation
halts for the status of the process.

## Main results

* `steady_*` — one frame condition for each operation.
-/

namespace MutTracker.Source

open MutTracker.Logic MutTracker.Logic.Prog

/-- The assertions about the status of the process. -/
def Halt.ofStatus : Halt → Bool
  | .assertion .stopped | .assertion .running | .assertion .notRunning => true
  | _ => false

/-- A halt that is not for the status of the process. -/
abbrev Orderly (e : Halt) : Prop := e.ofStatus = false

/-- What an operation leaves alone, besides what every operation does. -/
structure Leaves where
  eax : Bool
  hits : Bool
  list : Bool

structure Process.Steady (eax : Bool) (p q : Process) : Prop where
  status : q.status = p.status
  text : q.kernel.text = p.kernel.text
  waits : q.kernel.waits = p.kernel.waits
  resumed : q.resumed = p.resumed
  eax : eax = true → q.kernel.target.eax = p.kernel.target.eax

structure Mut.Steady (k : Leaves) (m m' : Mut) : Prop where
  process : m.process.Steady k.eax m'.process
  frame : Frame m m'
  hits : k.hits = true → m'.hits = m.hits
  list : k.list = true → m'.resources = m.resources

variable {eax : Bool} {k : Leaves} {flags : Control} {α : Type}

theorem Frame.trans {m m' m'' : Mut} (h : Frame m m') (h' : Frame m' m'') : Frame m m'' where
  exec := h'.exec.trans h.exec
  root := h'.root.trans h.root
  actions a := by rw [h'.actions a, h.actions a]

abbrev Process.Stopped (p : Process) : Prop := p.status = .stopped

abbrev Mut.Stopped (m : Mut) : Prop := m.process.Stopped

instance : Carries Process.Stopped (Process.Steady eax) where
  refl _ := ⟨rfl, rfl, rfl, rfl, fun _ => rfl⟩
  trans _ _ _ h h' :=
    ⟨h'.status.trans h.status, h'.text.trans h.text, h'.waits.trans h.waits,
      h'.resumed.trans h.resumed, fun hk => (h'.eax hk).trans (h.eax hk)⟩
  carry _ _ h hs := h.status.trans hs

theorem Mut.Steady.of_process {m : Mut} {q : Process} (h : m.process.Steady k.eax q) :
    m.Steady k { m with process := q } :=
  ⟨h, ⟨rfl, rfl, fun _ => rfl⟩, fun _ => rfl, fun _ => rfl⟩

instance : Carries Mut.Stopped (Mut.Steady k) where
  refl m := .of_process (refl_of _ m.process)
  trans _ _ _ h h' :=
    ⟨trans_of _ h.process h'.process, h.frame.trans h'.frame,
      fun hk => (h'.hits hk).trans (h.hits hk), fun hk => (h'.list hk).trans (h.list hk)⟩
  carry _ _ h hs := h.process.status.trans hs

/-- The operation on a stopped process is steady. -/
abbrev SteadyProcess (eax : Bool) (x : ProcessM α) : Prop :=
  Within Process.Stopped Orderly (Process.Steady eax) x

/-- The operation of the tracker, on a stopped process, is steady. -/
abbrev SteadyMut (k : Leaves) (x : MutM α) : Prop :=
  Within Mut.Stopped Orderly (Mut.Steady k) x

/-! ## Logging -/

/-- Logging halts for nothing but the state of the log. -/
class Mild (y : LogM α) : Prop where
  mild : ∀ l, wp y (fun _ _ => True) Orderly l

instance mild_begin (severity : Severity) (name : String) : Mild (mutLogBegin severity name) where
  mild l := by
    simp only [mutLogBegin, wp_bind, wp_read, wp_mutAssert]
    split
    · split
      · split
        · trivial
        · rfl
      · rfl
    · rfl

instance mild_fatal (fatal : String) (errorCode : Nat) : Mild (mutLogFatal fatal errorCode) where
  mild l := wp_seq ((mild_begin _ _).mild l) (fun _ he => he) fun _ _ _ => trivial

instance mild_memFull (errorCode : Nat) : Mild (mutLogMemFull errorCode) where
  mild l := wp_seq ((mild_begin _ _).mild l) (fun _ he => he) fun _ _ _ => trivial

instance mild_arg (a : Arg) : Mild (mutLogArg a) where
  mild l := by
    simp only [mutLogArg, wp_bind, wp_read, wp_mutAssert]
    split
    · trivial
    · rfl

instance mild_args (args : List Arg) : Mild (mutLogArgs args) where
  mild l := by
    induction args generalizing l with
    | nil => trivial
    | cons a args ih => exact wp_seq ((mild_arg a).mild l) (fun _ he => he) fun _ l' _ => ih l'

instance mild_end : Mild mutLogEnd where
  mild l := by
    simp only [mutLogEnd, wp_bind, wp_read, wp_mutAssert]
    split
    · trivial
    · rfl

instance (name : String) : Mild (mutLogError name) := mild_begin ..

instance (name : String) : Mild (mutLogWarning name) := mild_begin ..

instance (name : String) : Mild (mutLogInfo name) := mild_begin ..

instance (s : String) : Mild (mutLogString s) := mild_arg _

instance (i : Int) : Mild (mutLogInt i) := mild_arg _

instance (n : Word) : Mild (mutLogUint n) := mild_arg _

instance (n : Word) : Mild (mutLogUintHex n) := mild_arg _

instance (n : Word) : Mild (mutLogUlong n) := mild_arg _

instance (addr : Word) : Mild (mutLogExecAddr addr) := mild_arg _

theorem mild_bind {x : LogM Unit} {f : Unit → LogM Unit} [hx : Mild x] (hf : Mild (f ())) :
    Mild (x >>= f) where
  mild l := wp_seq (hx.mild l) (fun _ he => he) fun _ l' _ => hf.mild l'

instance mild_frame (e : Exec) (addr : Word) : Mild (mutLogFrame e addr) := by
  unfold mutLogFrame
  cases mutExecAddrName e addr with
  | some f =>
      exact mild_bind (mild_bind (mild_bind (mild_bind (mild_bind inferInstance))))
  | none => exact mild_bind inferInstance

instance mild_frames (e : Exec) (frames : List Word) : Mild (mutLogFrames e frames) := by
  induction frames with
  | nil => exact ⟨fun _ => trivial⟩
  | cons addr frames ih => exact mild_bind ih

/-! ## Requests -/

/-- Logging touches nothing but the log. -/
theorem steady_liftLog (y : LogM α) [hy : Mild y] :
    SteadyProcess eax (liftM y : ProcessM α) :=
  .focus (I := fun _ => True) (R := fun _ _ => True) (fun l _ => hy.mild l) (fun _ _ => trivial)
    fun _ _ _ => ⟨rfl, rfl, rfl, rfl, fun _ => rfl⟩

theorem steady_assertStopped (a : Assertion) :
    SteadyProcess eax (mutAssertStatus .stopped a) := fun p hp => by
  rw [wp_mutAssertStatus, if_pos hp]
  exact refl_of _ p

theorem steady_ptrace : SteadyProcess eax ptrace := fun p _ => by
  simp only [ptrace, wp_bind, wp_read, wp_update, wp_pure]
  exact ⟨rfl, rfl, rfl, rfl, fun _ => rfl⟩

theorem steady_request {failure : String} {arg : Arg} {change : Kernel → Kernel}
    (hchange : ∀ k, (change k).text = k.text ∧ (change k).waits = k.waits ∧
      (eax = true → (change k).target.eax = k.target.eax)) :
    SteadyProcess eax (mutTraceRequest failure arg change) :=
  .bind steady_ptrace fun
    | some _ => .bind (steady_liftLog _) fun _ => .bind (steady_liftLog _) fun _ =>
        .bind (steady_liftLog _) fun _ => .pure _
    | none => .bind (.update fun p => ⟨rfl, (hchange p.kernel).1, (hchange p.kernel).2.1, rfl,
        (hchange p.kernel).2.2⟩) fun _ => .pure _

theorem steady_peek (failure : String) (arg : Arg) (look : Kernel → Word) :
    SteadyProcess eax (mutTracePeek failure arg look) :=
  .bind (steady_request fun _ => ⟨rfl, rfl, fun _ => rfl⟩) fun
    | true => .bind .read fun _ => .pure _
    | false => .pure _

theorem steady_writeData (addr value : Word) :
    SteadyProcess eax (mutTraceWriteData addr value) :=
  steady_request fun _ => ⟨rfl, rfl, fun _ => rfl⟩

theorem steady_writeReg (reg : Reg) (value : Word) (hreg : eax = true → reg ≠ .eax) :
    SteadyProcess eax (mutTraceWriteReg reg value) :=
  steady_request fun k => ⟨rfl, rfl, fun hk => by
    cases reg with
    | eax => exact absurd rfl (hreg hk)
    | eip | ebp | esp => rfl⟩

/-! ## Operations on the process -/

theorem steady_readArg (n : Word) : SteadyProcess eax (mutProcessReadArg n) :=
  .bind (steady_assertStopped _) fun _ => .bind (steady_peek _ _ _) fun
    | some _ => steady_peek _ _ _
    | none => .pure _

theorem steady_writeArg (n arg : Word) :
    SteadyProcess eax (mutProcessWriteArg n arg) :=
  .bind (steady_assertStopped _) fun _ => .bind (steady_peek _ _ _) fun
    | some _ => steady_writeData _ _
    | none => .pure _

theorem steady_functionReturnAddr :
    SteadyProcess eax mutProcessFunctionReturnAddr :=
  .bind (steady_assertStopped _) fun _ => .bind (steady_peek _ _ _) fun
    | some _ => steady_peek _ _ _
    | none => .pure _

theorem steady_readResult : SteadyProcess eax mutProcessReadResult :=
  .bind (steady_assertStopped _) fun _ => steady_peek _ _ _

theorem steady_writeResult (heax : eax = false) (v : Word) :
    SteadyProcess eax (mutProcessWriteResult v) :=
  .bind (steady_assertStopped _) fun _ => steady_writeReg _ _ fun h => by
    rw [heax] at h
    cases h

theorem steady_skipTo (pc : Word) : SteadyProcess eax (mutProcessSkipTo pc) :=
  .bind (steady_assertStopped _) fun _ =>
    .bind (.update fun _ => ⟨rfl, rfl, rfl, rfl, fun _ => rfl⟩) fun _ =>
    .bind (steady_peek _ _ _) fun
      | some _ => steady_writeReg _ _ fun _ => by decide
      | none => .pure _

theorem steady_readWord (addr : Word) :
    SteadyProcess eax (mutProcessReadWord addr) :=
  .bind (steady_assertStopped _) fun _ => .bind (.require _ _ rfl) fun _ => steady_peek _ _ _

theorem steady_writeWord (addr n : Word) :
    SteadyProcess eax (mutProcessWriteWord addr n) :=
  .bind (steady_assertStopped _) fun _ => .bind (.require _ _ rfl) fun _ => steady_writeData _ _

theorem steady_memsetWords (pattern : Word) (nwords : Nat) (addr : Word) :
    SteadyProcess eax (mutProcessMemsetWords pattern nwords addr) := by
  induction nwords generalizing addr with
  | zero => exact .pure _
  | succ nwords ih =>
      exact .bind (steady_writeData _ _) fun
        | true => ih _
        | false => .pure _

theorem steady_memset (addr c n : Word) :
    SteadyProcess eax (mutProcessMemset addr c n) :=
  .bind (steady_assertStopped _) fun _ => .bind (.require _ _ rfl) fun _ =>
    .bind (steady_memsetWords _ _ _) fun _ => .ite (.pure _) (.ite (.pure _)
      (.bind (steady_peek _ _ _) fun
        | some _ => steady_writeData _ _
        | none => .pure _))

theorem steady_memcpyWords (nwords : Nat) (dest src : Word) :
    SteadyProcess eax (mutProcessMemcpyWords nwords dest src) := by
  induction nwords generalizing dest src with
  | zero => exact .pure _
  | succ nwords ih =>
      exact .bind (steady_peek _ _ _) fun
        | some _ => .bind (steady_writeData _ _) fun
            | true => ih _ _
            | false => .pure _
        | none => .pure _

theorem steady_memcpy (dest src n : Word) :
    SteadyProcess eax (mutProcessMemcpy dest src n) :=
  .bind (steady_assertStopped _) fun _ => .bind (.require _ _ rfl) fun _ =>
    .bind (.require _ _ rfl) fun _ => .bind (steady_memcpyWords _ _ _) fun _ =>
      .ite (.pure _) (.ite (.pure _) (.bind (steady_peek _ _ _) fun
        | some _ => .bind (steady_peek _ _ _) fun
            | some _ => steady_writeData _ _
            | none => .pure _
        | none => .pure _))

/-! ## The tracker -/

theorem steady_lift {y : ProcessM α} (hy : SteadyProcess k.eax y) :
    SteadyMut k (liftM y : MutM α) :=
  .focus hy (fun _ h => h) fun _ _ h => .of_process h

theorem steady_log (y : LogM α) [Mild y] : SteadyMut k (liftM y : MutM α) :=
  steady_lift (steady_liftLog y)

/-- A change to what is neither the process nor the actions nor the list. -/
theorem steady_update {f : Mut → Mut}
    (hf : ∀ m, (f m).process = m.process ∧ (f m).exec = m.exec ∧ (f m).root = m.root ∧
      (f m).actions = m.actions ∧ (f m).resources = m.resources) :
    SteadyMut k (update f : MutM Unit) :=
  .update fun m => by
    obtain ⟨hprocess, hexec, hroot, hactions, hlist⟩ := hf m
    exact ⟨hprocess ▸ refl_of _ _, ⟨hexec, hroot, fun a => by rw [hactions]⟩,
      fun _ => by unfold Mut.hits; rw [hactions], fun _ => hlist⟩

theorem steady_resources (hk : k.list = false) (f : Mut → Resources) :
    SteadyMut k (update fun m => { m with resources := f m } : MutM Unit) :=
  .update fun m => ⟨refl_of _ m.process, ⟨rfl, rfl, fun _ => rfl⟩, fun _ => rfl,
    fun h => by rw [hk] at h; cases h⟩

theorem steady_malloc : SteadyMut k Mut.malloc :=
  .bind .read fun m => by
    cases m.mem.full.head?.join with
    | some errno =>
        exact .bind (steady_update fun _ => ⟨rfl, rfl, rfl, rfl, rfl⟩) fun _ => .pure _
    | none => exact .bind (steady_update fun _ => ⟨rfl, rfl, rfl, rfl, rfl⟩) fun _ => .pure _

theorem steady_resource (obj : Nat) : SteadyMut k (Mut.resource obj) :=
  .bind .read fun m => by
    cases Keyed.get Resource.ptr obj m.resources.elems with
    | some r => exact .pure r
    | none => exact .stop _ rfl

theorem steady_assign (hk : k.list = false) (obj : Nat) (f : Resource → Resource) :
    SteadyMut k (Mut.assign obj f) :=
  .bind (steady_resource obj) fun _ => steady_resources hk _

theorem steady_actionName (a : Option Routine) : SteadyMut k (Mut.actionName a) := by
  cases a with
  | some a => exact .bind .read fun _ => .pure _
  | none => exact .stop _ rfl

theorem steady_updateResources (hk : k.list = false) (f : Resources → Resources) :
    SteadyMut k (Mut.updateResources f) :=
  steady_resources hk _

theorem steady_updateStats (f : Stats → Stats) : SteadyMut k (Mut.updateStats f) :=
  steady_update fun _ => ⟨rfl, rfl, rfl, rfl, rfl⟩

/-! ## Backtraces -/

theorem steady_backtrace (bt : Option Nat) : SteadyMut k (Mut.backtrace bt) := by
  cases bt with
  | none => exact .stop _ rfl
  | some ptr =>
      exact .bind .read fun m => by
        cases m.mem.backtraces ptr with
        | some b => exact .pure _
        | none => exact .stop _ rfl

theorem steady_setBacktrace (bt : Nat) (b : Option Backtrace) :
    SteadyMut k (Mut.setBacktrace bt b) :=
  steady_update fun _ => ⟨rfl, rfl, rfl, rfl, rfl⟩

theorem steady_backtraceOpen : SteadyMut k mutBacktraceOpen :=
  .bind steady_malloc fun
    | .error _ => .bind (steady_log _) fun _ => .pure _
    | .ok _ => .bind (steady_setBacktrace _ _) fun _ => .pure _

theorem steady_backtraceEnter (bt : Nat) (ra : Word) :
    SteadyMut k (mutBacktraceEnter bt ra) :=
  .bind (steady_backtrace _) fun _ =>
    .ite (.bind (steady_setBacktrace _ _) fun _ => .pure _) (.pure _)

theorem steady_backtraceShare (bt : Option Nat) :
    SteadyMut k (mutBacktraceShare bt) :=
  .bind (steady_backtrace _) fun _ => .bind (steady_setBacktrace _ _) fun _ => .pure _

theorem steady_backtraceClose (bt : Option Nat) :
    SteadyMut k (mutBacktraceClose bt) :=
  .bind (steady_backtrace _) fun _ => .bind (.require _ _ rfl) fun _ => steady_setBacktrace _ _

theorem steady_logBacktrace (bt : Option Nat) :
    SteadyMut k (mutLogBacktrace bt) :=
  .bind (steady_backtrace _) fun _ => .bind .read fun _ => .bind (steady_log _) fun _ =>
    steady_log _

theorem steady_backtraceFrom (bt rounds : Nat) (ebp base : Word) :
    SteadyMut k (mutProcessBacktraceFrom bt rounds ebp base) := by
  induction rounds generalizing ebp base with
  | zero => exact .stop _ rfl
  | succ rounds ih =>
      refine .ite (.pure _) (.bind (steady_lift (steady_peek _ _ _)) fun
        | none => .pure _
        | some _ => .ite (.pure _) (.bind (steady_backtraceEnter _ _) fun _ =>
            .ite (.pure _) (.bind (steady_lift (steady_peek _ _ _)) fun
              | none => .pure _
              | some _ => ih _ _)))

theorem steady_functionBacktrace (bt : Nat) :
    SteadyMut k (mutProcessFunctionBacktrace bt) :=
  .bind (steady_lift (steady_peek _ _ _)) fun
    | none => .pure _
    | some _ => .bind (steady_lift (steady_peek _ _ _)) fun
      | none => .pure _
      | some _ => .bind (steady_backtraceEnter _ _) fun _ =>
          .ite (.pure _) (.bind (steady_lift (steady_peek _ _ _)) fun
            | none => .pure _
            | some _ => steady_backtraceFrom _ _ _ _)

theorem steady_produceBacktrace : SteadyMut k (mutProduceBacktrace flags) :=
  .ite (.bind steady_backtraceOpen fun
    | none => .pure _
    | some _ => .bind (steady_functionBacktrace _) fun _ =>
        .ite (.bind (steady_backtraceClose _) fun _ => .pure _) (.pure _)) (.pure _)

/-! ## The resource list -/

theorem steady_reallyDelete (hk : k.list = false) (obj : Nat) (c : Routine) (bt : Option Nat) :
    SteadyMut k (mutResourcesReallyDeleteResource obj c bt) :=
  .bind (steady_resource _) fun o => .bind .read fun m => .bind (.require _ _ rfl) fun _ =>
    .bind (.require _ _ rfl) fun _ => by
      cases Keyed.get Resource.addr o.addr m.resources.elems with
      | none => exact .stop _ rfl
      | some r =>
          exact .bind (steady_updateResources hk _) fun _ =>
            .bind (.whenever (steady_backtraceClose _)) fun _ => steady_updateResources hk _

theorem steady_markAsFree (hk : k.list = false) (obj : Nat) (c : Routine) (bt : Option Nat) :
    SteadyMut k (mutResourcesMarkAsFree obj c bt) :=
  .bind (steady_resource _) fun _ => .bind .read fun _ => .bind (.require _ _ rfl) fun _ =>
    .bind (.require _ _ rfl) fun _ => .bind (steady_assign hk _ _) fun _ =>
      .bind (.whenever (.bind (steady_backtraceShare _) fun _ => steady_assign hk _ _)) fun _ =>
        steady_updateResources hk _

theorem steady_deleteResource (hk : k.list = false) (obj : Nat) (c : Routine) (bt : Option Nat) :
    SteadyMut k (mutResourcesDeleteResource obj c bt) :=
  .bind .read fun _ => .ite (steady_reallyDelete hk _ _ _) (steady_markAsFree hk _ _ _)

theorem steady_createResource (hk : k.list = false) (addr : Word) :
    SteadyMut k (mutResourcesCreateResource addr) :=
  .bind .read fun m => by
    cases Keyed.get Resource.addr addr m.resources.elems with
    | some r => exact .pure _
    | none =>
        exact .bind steady_malloc fun
          | .error _ => .bind (steady_log _) fun _ => .pure _
          | .ok _ => .bind (steady_updateResources hk _) fun _ => .pure _

theorem steady_forEachResource {all : Bool} {body : Resource → MutM Unit}
    (hbody : ∀ r, SteadyMut k (body r)) (elems : List Resource) :
    SteadyMut k (forEachResource all body elems) := by
  induction elems with
  | nil => exact .pure _
  | cons r elems ih => exact .bind (.whenever (hbody r)) fun _ => ih

theorem steady_reportUsage : SteadyMut k (mutReportUsage flags) :=
  .bind (steady_log _) fun _ => .bind (.bind .read fun _ => .pure _) fun _ =>
    .bind (steady_log _) fun _ => .bind (steady_forEachResource (fun _ =>
      .bind (steady_actionName _) fun _ => .bind (steady_log _) fun _ =>
        .bind (steady_log _) fun _ => .bind (steady_log _) fun _ =>
          .whenever (steady_logBacktrace _)) _) fun _ => steady_log _

/-! ## Parts of the handlers -/

theorem steady_traceCall (a : Routine) (args : List Arg) (bt : Option Nat) :
    SteadyMut k (mutTraceCall flags a args bt) :=
  .whenever (.bind (steady_log _) fun _ => .bind .read fun _ => .bind (steady_log _) fun _ =>
    .bind (steady_log _) fun _ => .bind (.whenever (steady_logBacktrace _)) fun _ =>
      steady_log _)

theorem steady_traceConsumer (a : Routine) (args : List Arg) :
    SteadyMut k (mutTraceConsumer flags a args) :=
  .whenever (.bind (steady_log _) fun _ => .bind .read fun _ => .bind (steady_log _) fun _ =>
    .bind (steady_log _) fun _ => steady_log _)

theorem steady_failure (warning : String) (a : Routine) (traced warned : List Arg)
    (bt : Option Nat) :
    SteadyMut k (mutProducerFailure flags warning a traced warned bt) :=
  .bind (steady_traceCall _ _ _) fun _ => .bind (steady_log _) fun _ => .bind .read fun _ =>
    .bind (steady_log _) fun _ => .bind (steady_log _) fun _ =>
      .bind (.whenever (steady_logBacktrace _)) fun _ => .bind (steady_log _) fun _ =>
        .whenever (steady_backtraceClose _)

theorem steady_success (hk : k.list = false) (again : String) (a : Routine)
    (traced : List Arg) (size addr : Word)
    (bt : Option Nat) :
    SteadyMut k (mutProducerSuccess flags again a traced size addr bt) :=
  .bind (.whenever (steady_updateStats _)) fun _ => .bind (steady_createResource hk _) fun
    | none => .pure _
    | some _ => .bind (steady_resource _) fun _ => .ite
        (.bind (steady_log _) fun _ => .bind .read fun _ => .bind (steady_log _) fun _ =>
          .bind (steady_actionName _) fun _ => .bind (steady_log _) fun _ =>
            .bind (steady_log _) fun _ => .bind (steady_log _) fun _ => .pure _)
        (.bind (steady_assign hk _ _) fun _ => .bind (steady_traceCall _ _ _) fun _ =>
          .bind (.whenever steady_reportUsage) fun _ => .pure _)

theorem steady_freeBacktrace (bt : Option Nat) :
    SteadyMut k (freeBacktrace flags bt) :=
  .bind (.whenever (steady_backtraceClose _)) fun _ => .pure _

theorem steady_installZones (hk : k.eax = false) (addr size : Word) :
    SteadyMut k (installZonesIfChecking flags addr size) :=
  .ite (.bind (steady_lift (steady_writeWord _ _)) fun _ => .ite (.pure _)
    (.bind (steady_lift (steady_writeWord _ _)) fun _ => .ite (.pure _)
      (.bind (steady_lift (steady_writeResult hk _)) fun _ => .ite (.pure _) (.pure _))))
    (.pure _)

theorem steady_unlessFails {c : Bool} {x : MutM Bool} (hx : SteadyMut k x) :
    SteadyMut k (unlessFails c x) := by
  cases c with
  | false => exact .pure _
  | true => exact hx

theorem steady_fum (addr : Word) (a : Routine) (bt : Option Nat) :
    SteadyMut k (mutLogFum flags addr a bt) :=
  .bind (steady_log _) fun _ => .bind .read fun _ => .bind (steady_log _) fun _ =>
    .bind (steady_log _) fun _ => .bind (.whenever (steady_logBacktrace _)) fun _ =>
      steady_log _

theorem steady_ffm (addr : Word) (a : Routine) (obj : Nat) (bt : Option Nat) :
    SteadyMut k (mutLogFfm flags addr a obj bt) :=
  .bind (.require _ _ rfl) fun _ => .bind (steady_resource _) fun _ =>
  .bind (.require _ _ rfl) fun _ =>
    .bind (steady_log _) fun _ => .bind .read fun _ => .bind (steady_log _) fun _ =>
      .bind (steady_log _) fun _ => .bind (.whenever (steady_logBacktrace _)) fun _ =>
        .bind (steady_actionName _) fun _ => .bind (steady_log _) fun _ =>
          .bind (.whenever (steady_logBacktrace _)) fun _ => steady_log _

theorem steady_wum (addr zone value : Word) (a : Routine) (obj : Nat) (bt : Option Nat) :
    SteadyMut k (mutLogWum flags addr zone value a obj bt) :=
  .bind (.require _ _ rfl) fun _ => .bind (steady_resource _) fun _ => .bind (steady_log _) fun _ =>
    .bind .read fun _ => .bind (steady_log _) fun _ => .bind (steady_log _) fun _ =>
      .bind (steady_log _) fun _ => .bind (steady_log _) fun _ => .bind (steady_log _) fun _ =>
        .bind (.whenever (steady_logBacktrace _)) fun _ =>
          .bind (steady_actionName _) fun _ => .bind (steady_log _) fun _ =>
            .bind (.whenever (steady_logBacktrace _)) fun _ => steady_log _

theorem steady_zoneCheck (addr : Word) (obj : Nat) (a : Routine) (bt : Option Nat) :
    SteadyMut k (mutZoneCheck flags addr obj a bt) :=
  .bind (steady_resource _) fun _ => .bind (steady_lift (steady_readWord _)) fun
    | none => .pure _
    | some _ => .ite (.bind (steady_wum _ _ _ _ _ _) fun _ => .pure _)
        (.bind (steady_lift (steady_readWord _)) fun
          | none => .pure _
          | some _ => .ite (.bind (steady_wum _ _ _ _ _ _) fun _ => .pure _) (.pure _))

/-! ## Parts of a realloc -/

theorem steady_reallocFailure (newSize oldAddr oldSize : Word) (bt : Option Nat) :
    SteadyMut k (mutReallocFailure flags newSize oldAddr oldSize bt) :=
  .bind (.require _ _ rfl) fun _ => steady_failure _ _ _ _ _

theorem steady_reallocBacktraces (hk : k.list = false) (obj : Nat) (bt : Option Nat) :
    SteadyMut k (mutReallocBacktraces obj bt) :=
  .bind (steady_resource _) fun _ => .bind (.whenever (steady_backtraceClose _)) fun _ =>
    .bind (steady_assign hk _ _) fun _ => .bind (steady_backtraceClose _) fun _ =>
      steady_assign hk _ _

theorem steady_reallocMove (hk : k.list = false) (obj : Nat) (old : Resource) (addr : Word) :
    SteadyMut k (mutReallocMove flags obj old addr) :=
  .ite (.bind (.require _ _ rfl) fun _ => .pure _)
    (.bind (steady_unlessFails (steady_lift (steady_memset _ _ _))) fun _ =>
      .ite (.pure _) (.bind (steady_assign hk _ _) fun _ => .pure _))

end MutTracker.Source
