import MutTracker.Verified.Rounds

/-!
# The status of the process over a session

Between `fork` and the end of a session the status of the process is changed by
opening it, by resuming it and by waiting for it, and nothing else.  Every operation
asserts the status it needs; a session keeps to them, whatever the kernel answers,
but for one thing: a wait that leaves the target running ends `mut_run`, and then
the process is closed while it is running.

## Main results

* `mutOpenProcess_effect`, `mutRun_effect`, `mutCloseOnError_effect` — the status
  after each part of a session.
* `session_disciplined` — no assertion about the status fails, unless a wait leaves
  the target running.
-/

namespace MutTracker.Source

open MutTracker.Logic MutTracker.Logic.Prog

variable {flags : Control} {m m' m₀ : Mut} {a : Routine}

/-! ## What keeps the status -/

/-- The status of the process and the programs that ran stay as they are. -/
structure Mut.Still (m m' : Mut) : Prop where
  status : m'.process.status = m.process.status
  resumed : m'.process.resumed = m.process.resumed

/-- Whatever the status is. -/
abbrev Anyhow (_ : Mut) : Prop := True

instance : Carries Anyhow Mut.Still where
  refl _ := ⟨rfl, rfl⟩
  trans _ _ _ h h' := ⟨h'.status.trans h.status, h'.resumed.trans h.resumed⟩
  carry _ _ _ _ := trivial

instance : Carries Mut.Stopped Mut.Still where
  refl _ := ⟨rfl, rfl⟩
  trans _ _ _ h h' := ⟨h'.status.trans h.status, h'.resumed.trans h.resumed⟩
  carry _ _ h hp := h.status.trans hp

/-- The operation keeps the status, whatever it is. -/
abbrev Quietly {α : Type} (x : MutM α) : Prop := Within Anyhow Orderly Mut.Still x

theorem quietly_log (y : LogM Unit) [hy : Mild y] : Quietly (liftM y : MutM Unit) := fun _ _ =>
  wp_mildMessage fun _ => ⟨rfl, rfl⟩

theorem quietly_update {f : Mut → Mut} (hf : ∀ m, (f m).process = m.process) :
    Quietly (update f : MutM Unit) :=
  .update fun m => ⟨by rw [hf m], by rw [hf m]⟩

theorem quietly_actionName (a : Option Routine) : Quietly (Mut.actionName a) := by
  cases a with
  | none => exact .stop _ rfl
  | some a => exact .bind .read fun _ => .pure _

theorem quietly_backtrace (bt : Option Nat) : Quietly (Mut.backtrace bt) := by
  cases bt with
  | none => exact .stop _ rfl
  | some ptr =>
      exact .bind .read fun m => by
        cases m.mem.backtraces ptr with
        | some b => exact .pure _
        | none => exact .stop _ rfl

theorem quietly_backtraceClose (bt : Option Nat) : Quietly (mutBacktraceClose bt) :=
  .bind (quietly_backtrace bt) fun _ => .bind (.require _ _ rfl) fun _ =>
    quietly_update fun _ => rfl

theorem quietly_logBacktrace (bt : Option Nat) : Quietly (mutLogBacktrace bt) :=
  .bind (quietly_backtrace bt) fun _ => .bind .read fun _ => .bind (quietly_log _) fun _ =>
    quietly_log _

theorem quietly_forEachResource {all : Bool} {body : Resource → MutM Unit}
    (hbody : ∀ r, Quietly (body r)) (elems : List Resource) :
    Quietly (forEachResource all body elems) := by
  induction elems with
  | nil => exact .pure ()
  | cons r elems ih => exact .bind (.whenever (hbody r)) fun _ => ih

theorem quietly_resourceClose (r : Resource) : Quietly (mutResourceClose r) :=
  .bind (.whenever (quietly_backtraceClose _)) fun _ =>
    .bind (.whenever (quietly_backtraceClose _)) fun _ => quietly_update fun _ => rfl

theorem quietly_resourcesClose : Quietly mutResourcesClose :=
  .bind .read fun _ => quietly_forEachResource quietly_resourceClose _

theorem quietly_logLeaks : Quietly (mutLogLeaks flags) :=
  .bind (.bind .read fun _ => .pure _) fun _ => quietly_forEachResource (fun _ =>
    .bind (quietly_log _) fun _ => .bind (quietly_actionName _) fun _ =>
      .bind (quietly_log _) fun _ => .bind (quietly_log _) fun _ =>
        .bind (quietly_log _) fun _ => .bind (.whenever (quietly_logBacktrace _)) fun _ =>
          quietly_log _) _

theorem quietly_logStats : Quietly mutLogStats :=
  .bind (quietly_log _) fun _ => .bind .read fun _ => .bind (quietly_log _) fun _ =>
    quietly_log _

/-! ## Closing -/

theorem mutProcessClose_effect (hleft : m.process.status ≠ .running) :
    wp (liftM mutProcessClose : MutM Unit) (fun _ _ => True) Orderly m := by
  rw [wp_liftProcess]
  simp only [mutProcessClose, wp_bind, wp_read, wp_mutAssert]
  rw [if_pos (by simpa using hleft), wp_whenever]
  split
  · simp only [mutTraceKill, ptrace, wp_bind, wp_read, wp_update, wp_pure]
    cases m.process.kernel.faults.head?.join with
    | none => trivial
    | some errno =>
        simp only [wp_bind]
        exact wp_mildLog fun _ => wp_mildLog fun _ => wp_mildLog fun _ => trivial
  · trivial

theorem mutCloseOnError_effect (hleft : m.process.status ≠ .running) :
    wp mutCloseOnError (fun _ _ => True) Orderly m :=
  quietly_resourcesClose.seq trivial fun _ _ h =>
    mutProcessClose_effect (h.status ▸ hleft)

theorem mutClose_effect (hleft : m.process.status ≠ .running) :
    wp (mutClose flags) (fun _ _ => True) Orderly m := by
  have hquiet :
      Quietly (do mutLogLeaks flags; whenever flags.stats mutLogStats; mutResourcesClose) :=
    .bind quietly_logLeaks fun _ => .bind (.whenever quietly_logStats) fun _ =>
      quietly_resourcesClose
  have hclose := hquiet.seq (f := fun _ => liftM mutProcessClose) trivial fun _ _ h =>
    mutProcessClose_effect (h.status ▸ hleft)
  simpa only [mutClose, wp_bind] using hclose

/-! ## Opening -/

/-- The operation on a stopped process keeps it stopped. -/
abbrev Stilly {α : Type} (x : MutM α) : Prop := Within Mut.Stopped Orderly Mut.Still x

theorem stilly_of_quietly {α : Type} {x : MutM α} (h : Quietly x) : Stilly x := fun m _ =>
  h m trivial

theorem stilly_update {f : Mut → Mut} (hf : ∀ m, (f m).process = m.process) :
    Stilly (update f : MutM Unit) :=
  stilly_of_quietly (quietly_update hf)

theorem stilly_breakpoint (pc : Word) : Stilly (liftM (mutProcessBreakpoint pc) : MutM _) :=
  fun m hp => by
    rw [wp_liftProcess]
    refine wp_mono (mutProcessBreakpoint_effect hp pc) ?_ fun _ he => he
    exact fun _ q h => ⟨h.status.trans hp.symm, h.resumed⟩

theorem stilly_actionsEnter (a : Routine) : Stilly (mutActionsEnter a) :=
  .bind .read fun m => by
    cases m.root.find? fun c => (m.actions c).addr = (m.actions a).addr with
    | some c => exact .pure _
    | none => exact .bind (stilly_update fun _ => rfl) fun _ => .pure _

theorem stilly_manageAction (a : Routine) (f : ExecFunction) : Stilly (mutManageAction a f) :=
  have hlog (y : LogM Unit) [Mild y] : Stilly (liftM y : MutM Unit) :=
    stilly_of_quietly (quietly_log y)
  .bind (stilly_update fun _ => rfl) fun _ => .ite (.pure _) <|
    .bind (stilly_update fun _ => rfl) fun _ => .bind (stilly_actionsEnter a) fun _ =>
      .ite
        (.bind (hlog _) fun _ => .bind .read fun _ => .bind (hlog _) fun _ =>
          .bind .read fun _ => .bind (hlog _) fun _ => .bind .read fun _ =>
            .bind (hlog _) fun _ => .bind (hlog _) fun _ => .pure _)
        (.bind .read fun _ => .bind (stilly_breakpoint _) fun
          | none => .pure _
          | some _ => .bind (stilly_update fun _ => rfl) fun _ => .pure _)

theorem stilly_manageEach (rs : List (Routine × ExecFunction)) : Stilly (mutManageEach rs) := by
  induction rs with
  | nil => exact .pure _
  | cons r rs ih =>
      exact .bind (stilly_update fun _ => rfl) fun _ => .bind (stilly_manageAction _ _) fun _ =>
        .ite (.pure _) ih

theorem stilly_manageActions (usageFunction : Option String) :
    Stilly (mutManageActions usageFunction) :=
  .bind (stilly_update fun _ => rfl) fun _ => .bind .read fun _ => stilly_manageEach _

/-- The tracker is opened on a stopped process. -/
theorem mutOpen_effect (usageFunction : Option String) (hp : m.Stopped)
    (hidle : m.process.log.Idle) :
    wp (mutOpen flags usageFunction) (fun ok m' => ok = true →
      m'.Stopped ∧ Typed m' ∧ m'.process.resumed = m.process.resumed) Orderly m := by
  suffices hmanaged : ∀ m₁ : Mut, m₁.Stopped → m₁.process.log.Idle → m₁.root = [] →
      m₁.process.resumed = m.process.resumed →
      wp (do
        if !(← mutManageActions usageFunction) then
          mutProcessClose
          return false
        update ({ · with resources := mutResourcesOpen flags.free })
        return true) (fun ok m' => ok = true →
          m'.Stopped ∧ Typed m' ∧ m'.process.resumed = m.process.resumed) Orderly m₁ by
    simp only [mutOpen, wp_bind, wp_read, wp_whenever, wp_update]
    split
    · simp only [wp_liftLogMut, mutLogInfo, wp_mutLogBegin hidle, wp_mutLogEnd]
      exact (wp_bind _ _).1 (hmanaged _ hp hidle.say rfl rfl)
    · exact (wp_bind _ _).1 (hmanaged _ hp hidle rfl rfl)
  intro m₁ hp₁ hidle₁ hroot hresumed
  refine wp_seq (wp_and (stilly_manageActions usageFunction m₁ hp₁)
    (mutManageActions_spec (E := Orderly) usageFunction hp₁ hidle₁ hroot)) (fun _ he => he.1) ?_
  rintro ok m₂ ⟨hstill, h⟩
  have hp₂ : m₂.Stopped := hstill.status.trans hp₁
  cases ok with
  | true =>
      rcases h with ⟨-, hmanaging, -, -⟩ | ⟨hok, -⟩
      · exact fun _ => ⟨hp₂, hmanaging.typed, hstill.resumed.trans hresumed⟩
      · cases hok
  | false =>
      simp only [Bool.not_false, if_true, wp_bind]
      refine wp_mono (mutProcessClose_effect (by rw [hp₂]; simp)) ?_ fun _ he => he
      exact fun _ _ _ => by simp

/-- The target has stopped before its first instruction, or there is none. -/
theorem mutProcessOpen_effect (fork : Fork) (name : String) {p : Process}
    (hidle : p.log.Idle) :
    wp (mutProcessOpen fork name) (fun ok q => ok = true →
      q.Stopped ∧ q.log.Idle ∧ q.resumed = p.resumed) Orderly p := by
  cases fork with
  | failed errno =>
      simp only [mutProcessOpen, wp_bind]
      exact wp_mildLog fun _ => wp_mildLog fun _ => wp_mildLog fun _ => by simp
  | parent pid =>
      simp only [mutProcessOpen, wp_bind, wp_update, wp_read]
      cases p.kernel.waits with
      | nil => rfl
      | cons report rest =>
          simp only [wp_bind, wp_update]
          cases report with
          | failed errno =>
              simp only [mutProcessOpened, wp_bind]
              exact wp_mildLog fun _ => wp_mildLog fun _ => wp_mildLog fun _ =>
                wp_mildLog fun _ => by simp
          | exited n | signaled n | other n t =>
              simp only [mutProcessOpened, wp_bind, wp_update]
              exact wp_mildLog fun _ => wp_mildLog fun _ => by simp
          | stopped signal t =>
              simp only [mutProcessOpened, wp_bind, wp_update, mutProcessReadPc,
                wp_mutAssertStatus, if_true]
              refine wp_mono (mutTracePeek_effect ..) ?_ fun _ he => he
              intro r q hq
              cases r with
              | none => simp
              | some pc =>
                  refine fun _ => ⟨hq.status, ?_, hq.resumed⟩
                  rw [show q.log = p.log from hq.log rfl]
                  exact hidle

theorem mutOpenProcess_effect (usageFunction : Option String) (fork : Fork) (name : String)
    (hidle : m.process.log.Idle) :
    wp (mutOpenProcess flags usageFunction fork name) (fun ok m' => ok = true →
      m'.Stopped ∧ Typed m' ∧ m'.process.resumed = m.process.resumed) Orderly m := by
  unfold mutOpenProcess
  rw [wp_bind, wp_liftProcess]
  refine wp_mono (mutProcessOpen_effect fork name hidle) ?_ fun _ he => he
  intro ok q hq
  cases ok with
  | false => exact nofun
  | true =>
      obtain ⟨hp, hidle₁, hresumed⟩ := hq rfl
      refine wp_mono (mutOpen_effect (m := { m with process := q }) usageFunction hp hidle₁) ?_
        fun _ he => he
      exact fun ok m' h hok => ⟨(h hok).1, (h hok).2.1, (h hok).2.2.trans hresumed⟩

/-! ## The session -/

/-- A wait of the session's `mut_run` left the target running: `waitpid` failed, or
`ptrace` refused to continue the target past a report that is passed over. -/
def Strays (flags : Control) (usageFunction : Option String) (fork : Fork) (name : String)
    (m₀ : Mut) : Prop :=
  ∃ m m', mutOpenProcess flags usageFunction fork name m₀ = .done true m ∧
    mutRun (flags.effective m.exec) m = .done false m' ∧
    ∃ k ∈ m'.process.resumed, k.strays = true

/-- A session calls every operation on the process in the status it needs, whatever
the kernel answers, unless a wait leaves the target running. -/
theorem session_disciplined (usageFunction : Option String) (fork : Fork) (name : String)
    (hidle : m₀.process.log.Idle) (hstays : ¬ Strays flags usageFunction fork name m₀) :
    wp (mutSession flags usageFunction fork name) (fun _ _ => True) Orderly m₀ := by
  unfold mutSession
  refine wp_seq (wp_run (mutOpenProcess_effect usageFunction fork name hidle))
    (fun _ he => he) ?_
  rintro ok m ⟨hopened, hm⟩
  cases ok with
  | false => trivial
  | true =>
      obtain ⟨hp, htyped, hresumed⟩ := hm rfl
      simp only [Bool.not_true, Bool.false_eq_true, if_false, wp_bind, wp_read]
      refine wp_mono (wp_run (mutRun_effect hp htyped)) ?_ fun _ he => he
      rintro ok m' ⟨hran, hsince, hover⟩
      cases ok with
      | true =>
          simp only [if_true, wp_bind]
          refine wp_mono (mutClose_effect ?_) (fun _ _ _ => trivial) fun _ he => he
          rw [hover rfl]
          simp
      | false =>
          simp only [Bool.false_eq_true, if_false, wp_bind]
          refine wp_mono (mutCloseOnError_effect fun hrunning => hstays ?_)
            (fun _ _ _ => trivial) fun _ he => he
          obtain ⟨ks, hks, hstrays⟩ := hsince.resumed
          obtain ⟨k, hk, hkstrays⟩ := hstrays.1 hrunning
          exact ⟨m, m', hopened, hran, k, hks ▸ List.mem_append_left _ hk, hkstrays⟩

/-- A tracker before its process is opened, with what `waitpid` will report. -/
def Mut.unopened (waits : List Stop) : Mut :=
  (Mut.bare { symtab := [], hasFullSymbols := false }).awaiting waits

/-- The report of the stop at the target's first instruction. -/
def Stop.first : Stop := .stopped sigtrap (.calling 0 0)

/-- `malloc` and `free`. -/
def Exec.freeing : Exec where
  symtab :=
    [{ funName := "malloc", funStartAddr := 0x10, fileName := none, funLines := [] },
      { funName := "free", funStartAddr := 0x20, fileName := none, funLines := [] }]
  hasFullSymbols := false

/-- A target that obtains two blocks, frees the first one twice, and ends.  Outside free mode
`free` is not run. -/
def Mut.leaking : Mut :=
  (Mut.bare .freeing).awaiting
    [.first,
      .stopped sigtrap { Target.calling 8 0 with eip := 0x11 },
      (Target.calling 8 0).answers 0x2000,
      .stopped sigtrap { Target.calling 16 0 with eip := 0x11 },
      (Target.calling 16 0).answers 0x3000,
      .stopped sigtrap { Target.calling 0x2000 0 with eip := 0x21 },
      .stopped sigtrap { Target.calling 0x2000 0 with eip := 0x21 },
      .exited 0]

/-- The calls of that target. -/
def leakingCalls : List Routine := [.malloc, .malloc, .free, .free]

/-- A target that obtains a block and is killed in the call for another one. -/
def Mut.killed : Mut :=
  (Mut.bare .freeing).awaiting
    [.first,
      .stopped sigtrap { Target.calling 8 0 with eip := 0x11 },
      (Target.calling 8 0).answers 0x2000,
      .stopped sigtrap { Target.calling 16 0 with eip := 0x11 },
      .signaled 11]

/-- Whether the session's `mut_run` returns, with no wait that left the target running. -/
def Mut.staysOrderly (m : Mut) : Bool :=
  match mutOpenProcess .plain none (.parent 1) "a.out" m with
  | .done true m₁ =>
      match mutRun (Control.plain.effective m₁.exec) m₁ with
      | .done false m₂ => m₂.process.resumed.all fun k => !k.strays
      | _ => true
  | _ => true

theorem not_strays (h : m.staysOrderly = true) :
    ¬ Strays .plain none (.parent 1) "a.out" m := by
  rintro ⟨m₁, m₂, hopened, hran, k, hk, hstrays⟩
  simp only [Mut.staysOrderly, hopened, hran] at h
  have hk' := List.all_eq_true.1 h k hk
  rw [hstrays] at hk'
  cases hk'

/-- The session that starts at `m` returns `ok`, and calls every operation in its status. -/
def SessionKeeps (m : Mut) (ok : Bool) : Prop :=
  ∃ m', mutSession .plain none (.parent 1) "a.out" m = .done ok m' ∧
    wp (mutSession .plain none (.parent 1) "a.out") (fun _ _ => True) Orderly m

/-- A session whose target runs to its end, and one whose target is killed in a call. -/
theorem session_disciplined_calls : SessionKeeps .leaking true ∧ SessionKeeps .killed false := by
  have hkeeps : ∀ m ok, m.process.log.Idle → m.staysOrderly = true →
      (mutSession .plain none (.parent 1) "a.out" m).seen (fun _ => ()) = some (ok, ()) →
      SessionKeeps m ok := by
    intro m ok hidle hstays hseen
    obtain ⟨m', hdone, -⟩ := Outcome.of_seen hseen
    exact ⟨m', hdone, session_disciplined none (.parent 1) "a.out" hidle (not_strays hstays)⟩
  exact ⟨hkeeps _ _ Log.idle_mutLogOpen (by decide +kernel) (by decide +kernel),
    hkeeps _ _ Log.idle_mutLogOpen (by decide +kernel) (by decide +kernel)⟩

/-- A `waitpid` that fails while the target runs ends the session over its status. -/
theorem failed_wait_undisciplined :
    mutSession .plain none (.parent 1) "a.out" (.unopened [.first, .failed 10 0]) =
      .halt (.assertion .notRunning) :=
  Outcome.of_reason (by decide +kernel)

end MutTracker.Source
