import MutTracker.Verified.Ledger
import MutTracker.Verified.Session

/-!
# What a whole session reports

`main` opens the process and the tracker, runs the target to its end, and closes the
tracker.  The calls that it handles on the way are a run of steps, so that what is known
of such runs is known of a session: the resource list is the ledger of its calls.

When the target has ended, the leaks and the statistics are logged and the resources are
closed.  Nothing of that looks at the process.

## Main results

* `mutOpenProcess_ready` — a session starts with nothing in the list.
* `mutClose_reports` — what closing reports, and that no backtrace is left.
* `mutClose_after` — what closing leaves whatever the allocator did.
* `session_exact` — how a session ends: nothing is left of it, and its reports are those of
  the ledger of its calls.
-/

namespace MutTracker.Source

open MutTracker.Logic MutTracker.Logic.Prog MutTracker.Logic.Keyed MutTracker.Logic.Memory

variable {flags : Control} {m m' m₀ m₁ : Mut} {a : Routine} {α : Type} {vs : List Visit}
  {E : Halt → Prop}

/-! ## Opening -/

/-- The names of the actions and the storage stay as they are. -/
structure Mut.Labelled (m m' : Mut) : Prop where
  name : ∀ a, (m'.actions a).name = (m.actions a).name
  mem : m'.mem = m.mem

instance : Carries Anyhow Mut.Labelled where
  refl _ := ⟨fun _ => rfl, rfl⟩
  trans _ _ _ h h' := ⟨fun a => (h'.name a).trans (h.name a), h'.mem.trans h.mem⟩
  carry _ _ _ _ := trivial

/-- The operation keeps the names of the actions and the storage. -/
abbrev Labels (x : MutM α) : Prop := Within Anyhow (fun _ => True) Mut.Labelled x

theorem labels_liftProcess (x : ProcessM α) : Labels (liftM x : MutM α) :=
  .focus (I := fun _ => True) (R := fun _ _ => True) (fun _ _ =>
    wp_intro (fun _ _ _ => trivial) fun _ _ => trivial) (fun _ _ => trivial)
    fun _ _ _ => ⟨fun _ => rfl, rfl⟩

theorem labels_setAction (a : Routine) {f : Action → Action} (hf : ∀ c, (f c).name = c.name) :
    Labels (Mut.setAction a f) :=
  .update fun m => by
    refine ⟨fun c => ?_, rfl⟩
    show (Function.update m.actions a (f (m.actions a)) c).name = _
    by_cases hc : c = a
    · rw [hc, Function.update_self, hf]
    · rw [Function.update_of_ne hc]

theorem labels_manageAction (a : Routine) (f : ExecFunction) : Labels (mutManageAction a f) := by
  refine .bind (labels_setAction a fun _ => rfl) fun _ => .ite (.pure _) ?_
  refine .bind (labels_setAction a fun _ => rfl) fun _ => .bind ?_ fun oa => .ite ?_ ?_
  · refine .bind .read fun m => ?_
    cases m.root.find? fun c => (m.actions c).addr = (m.actions a).addr with
    | some c => exact .pure _
    | none => exact .bind (.update fun _ => ⟨fun _ => rfl, rfl⟩) fun _ => .pure _
  · have hlog (y : LogM Unit) : Labels (liftM y : MutM Unit) := labels_liftProcess (liftM y)
    exact .bind (hlog _) fun _ => .bind .read fun _ => .bind (hlog _) fun _ =>
      .bind .read fun _ => .bind (hlog _) fun _ => .bind .read fun _ => .bind (hlog _) fun _ =>
        .bind (hlog _) fun _ => .pure _
  · refine .bind .read fun _ => .bind (labels_liftProcess _) fun instr => ?_
    cases instr with
    | none => exact .pure _
    | some instr => exact .bind (labels_setAction a fun _ => rfl) fun _ => .pure _

theorem labels_manageEach (rs : List (Routine × ExecFunction)) : Labels (mutManageEach rs) := by
  induction rs with
  | nil => exact .pure _
  | cons r rs ih =>
      exact .bind (labels_setAction _ fun _ => rfl) fun _ =>
        .bind (labels_manageAction _ _) fun _ => .ite (.pure _) ih

/-- Every action that is not the user's has its own name. -/
theorem mutManageActions_names (usageFunction : Option String) :
    wp (mutManageActions usageFunction)
      (fun _ m' => (∀ a, a ≠ .usage → (m'.actions a).name = a.word) ∧ m'.mem = m.mem)
      (fun _ => True) m := by
  simp only [mutManageActions, wp_bind, wp_update, wp_read]
  refine wp_mono (labels_manageEach _ _ trivial) ?_ fun _ he => he
  intro ok m' h
  refine ⟨fun a ha => ?_, h.mem⟩
  rw [h.name a]
  cases a with
  | usage => exact absurd rfl ha
  | malloc | calloc | realloc | free | cfree => rfl

/-- Nothing is being logged and no backtrace is stored. -/
structure Unopened (m : Mut) : Prop where
  idle : m.process.log.Idle
  sound : Sound m.mem []

theorem books_nil (h : Sound m.mem []) :
    Books flags (mutResourcesOpen flags.free) m.mem [] where
  shelved := ⟨List.nodup_nil, List.nodup_nil, by simp [mutResourcesOpen],
    by simp [mutResourcesOpen]⟩
  active := rfl
  consumed := rfl
  mode := rfl
  sound := h

/-- The tracker `m'` that `mut_open` leaves when it was started at `m`. -/
structure Began (flags : Control) (usageFunction : Option String) (m m' : Mut) : Prop where
  ready : Ready (flags.effective m'.exec) m'
  elems : m'.resources.elems = []
  exec : m'.exec = m.exec
  waits : m'.process.kernel.waits = m.process.kernel.waits
  tidy : (managed m.exec usageFunction).Pairwise Apart → Tidy m.text (.installed, m')

theorem mutOpen_began (usageFunction : Option String) (hp : m.Stopped) (h : Unopened m) :
    wp (mutOpen flags usageFunction)
      (fun ok m' => ok = true → Began flags usageFunction m m') (fun _ => True) m := by
  suffices hmanaged : ∀ m₁ : Mut, m₁.Stopped → Unopened m₁ → m₁.root = [] → m₁.exec = m.exec →
      m₁.process.kernel = m.process.kernel →
      wp (do
        if !(← mutManageActions usageFunction) then
          mutProcessClose
          return false
        update ({ · with resources := mutResourcesOpen flags.free })
        return true) (fun ok m' => ok = true → Began flags usageFunction m m')
        (fun _ => True) m₁ by
    simp only [mutOpen, wp_bind, wp_read, wp_whenever, wp_update]
    split
    · simp only [wp_liftLogMut, mutLogInfo, wp_mutLogBegin h.idle, wp_mutLogEnd]
      exact (wp_bind _ _).1 (hmanaged _ hp ⟨h.idle.say, h.sound⟩ rfl rfl rfl)
    · exact (wp_bind _ _).1 (hmanaged _ hp ⟨h.idle, h.sound⟩ rfl rfl rfl)
  intro m₁ hp₁ h₁ hroot hexec₁ hkernel
  refine wp_seq (wp_and (mutManageActions_names usageFunction)
    (mutManageActions_spec (E := fun _ => True) usageFunction hp₁ h₁.idle hroot))
    (fun _ _ => trivial) ?_
  rintro ok m₂ ⟨⟨hreports, hmem⟩, h₂⟩
  cases ok with
  | true =>
      rcases h₂ with ⟨-, hmanaging, hexec, haddrs⟩ | ⟨hok, -⟩
      · obtain ⟨rs, hcalm⟩ := hmanaging.calm
        have hsound : Sound m₂.mem [] := hmem ▸ h₁.sound
        have hwaits : m₂.process.kernel.waits = m.process.kernel.waits := by
          rw [hcalm.waits, hkernel]
        refine fun _ => ⟨⟨hcalm.status, hcalm.idle, books_nil hsound, hreports, hmanaging.typed⟩,
          rfl, hexec.trans hexec₁, hwaits, fun hapart => ?_⟩
        have htidy : Tidy m₁.text (.installed, m₂) := hmanaging.tidy (by
          show m₂.addrs.Pairwise Apart
          rw [haddrs, hexec₁]
          exact hapart)
        rw [Mut.text, hkernel] at htidy
        exact ⟨htidy.stopped, htidy.typed, htidy.apart, htidy.removed, htidy.installed⟩
      · cases hok
  | false =>
      simp only [Bool.not_false, if_true]
      exact wp_any fun _ _ => by simp

/-- A session starts with nothing in its list. -/
theorem mutOpenProcess_ready {usageFunction : Option String} {fork : Fork} {name : String}
    (h : Unopened m) (hdone : mutOpenProcess flags usageFunction fork name m = .done true m') :
    Ready (flags.effective m'.exec) m' ∧ m'.resources.elems = [] := by
  have hopened : wp (mutOpenProcess flags usageFunction fork name) (fun ok m' => ok = true →
      Ready (flags.effective m'.exec) m' ∧ m'.resources.elems = []) (fun _ => True) m := by
    unfold mutOpenProcess
    rw [wp_bind, wp_liftProcess]
    refine wp_mono (mutProcessOpen_effect fork name h.idle) ?_ fun _ _ => trivial
    intro ok q hq
    cases ok with
    | false => simp
    | true =>
        obtain ⟨hp, hidle, -⟩ := hq rfl
        refine wp_mono (mutOpen_began (m := { m with process := q }) usageFunction hp
          ⟨hidle, h.sound⟩) (fun ok m' hbegan hok => ?_) fun _ he => he
        exact ⟨(hbegan hok).ready, (hbegan hok).elems⟩
  exact wp_done hopened hdone rfl

/-! ## The end of the target -/

/-- The target has ended, and nothing else has changed. -/
structure Mut.Over (m m' : Mut) : Prop where
  exited : m'.process.status = .exited
  idle : m'.process.log.Idle
  reports : m'.process.log.reports = m.process.log.reports
  rest : ∃ q, m' = { m with process := q }

theorem mutRunToAction_ended (hp : m.Stopped) (hidle : m.process.log.Idle) :
    wp mutRunToAction (fun r m' => r = .error (some true) → m.Over m') (fun _ => True) m := by
  unfold mutRunToAction
  rw [wp_bind, wp_liftProcess]
  refine wp_mono (mutProcessResume_spec (.refl hp hidle)) ?_ fun _ he => he
  rintro _ q₁ (⟨rfl, h₁⟩ | ⟨rfl, -⟩)
  · simp only [Bool.not_true, Bool.false_eq_true, if_false, wp_bind, wp_liftProcess]
    refine wp_mono (mutProcessWait_spec h₁.status h₁.idle) ?_ fun _ _ => trivial
    intro r q₂ h₂
    cases r with
    | exited =>
        obtain ⟨-, hexited, hidle₂, hreports⟩ := h₂
        exact fun _ => ⟨hexited, hidle₂, hreports.trans h₁.reports, q₂, rfl⟩
    | failed => simp
    | stopped pc =>
        refine wp_any fun found m₃ => ?_
        cases found with
        | none => simp
        | some a =>
            refine wp_any fun ok m₄ => ?_
            cases ok with
            | false => simp
            | true => simp
  · simp

/-! ## Closing -/

theorem Accounted.over (h : Accounted flags m) (hover : m.Over m') :
    Accounted flags m' := by
  obtain ⟨q, rfl⟩ := hover.rest
  exact ⟨hover.idle, h.books, h.names⟩

/-- What is left when the resources `rs` are still to be closed. -/
structure Closing (m : Mut) (rs : List Resource) (m' : Mut) : Prop where
  list : m'.resources.elems = rs
  sound : Sound m'.mem (refsOf rs)
  process : m'.process = m.process

theorem closeReference_spec {bt : Option Nat} {refs : List Nat}
    (h : Sound m.mem (bt.toList ++ refs)) :
    wp (whenever bt.isSome (mutBacktraceClose bt))
      (fun _ m' => ∃ μ, m' = { m with mem := μ } ∧ Sound μ refs) E m := by
  cases bt with
  | none => exact ⟨m.mem, rfl, h⟩
  | some k =>
      refine wp_mono (mutBacktraceClose_spec h) ?_ fun _ he => he
      rintro _ m' ⟨μ, hm', -, hsound⟩
      exact ⟨μ, hm', hsound⟩

theorem mutResourceClose_spec {r : Resource} {rs : List Resource} (h : Closing m (r :: rs) m₁) :
    wp (mutResourceClose r) (fun _ m' => Closing m rs m') E m₁ := by
  have hsound : Sound m₁.mem
      (r.producer.backtrace.toList ++ (r.consumer.backtrace.toList ++ refsOf rs)) := by
    have hrefs : refsOf (r :: rs) = r.refs ++ refsOf rs := List.flatMap_cons
    rw [← List.append_assoc]
    exact hrefs ▸ h.sound
  unfold mutResourceClose
  refine wp_seq (closeReference_spec hsound) (fun _ he => he) ?_
  rintro _ _ ⟨μ, rfl, hμ⟩
  refine wp_seq (closeReference_spec hμ) (fun _ he => he) ?_
  rintro _ _ ⟨μ', rfl, hμ'⟩
  refine ⟨?_, hμ', h.process⟩
  show Keyed.remove Resource.ptr r.ptr m₁.resources.elems = rs
  rw [h.list]
  rw [← List.nil_append (r :: rs), remove_split (List.forall_mem_nil _), List.nil_append]

theorem mutResourcesClose_spec (h : Sound m.mem (refsOf m.resources.elems)) :
    wp mutResourcesClose (fun _ m' => Closing m [] m') E m := by
  suffices hloop : ∀ rs m₁, Closing m rs m₁ →
      wp (forEachResource true mutResourceClose rs) (fun _ m' => Closing m [] m') E m₁ from
    hloop _ m ⟨rfl, h, rfl⟩
  intro rs
  induction rs with
  | nil => exact fun m₁ h₁ => h₁
  | cons r rs ih =>
      intro m₁ h₁
      exact wp_seq (mutResourceClose_spec h₁) (fun _ he => he) fun _ m₂ h₂ => ih m₂ h₂

/-- When no reference is left, no backtrace is. -/
theorem Sound.none {μ : Mem} (h : Sound μ []) (k : Nat) : μ.backtraces k = Option.none := by
  cases hk : μ.backtraces k with
  | none => rfl
  | some b =>
      have hlive := h.counts.live k b hk
      rw [List.count_nil] at hlive
      omega

/-! ## Closing whatever is there -/

/-- The list and the storage stay as they are. -/
structure Mut.SameStore (m m' : Mut) : Prop where
  resources : m'.resources = m.resources
  mem : m'.mem = m.mem

instance : Carries Anyhow Mut.SameStore where
  refl _ := ⟨rfl, rfl⟩
  trans _ _ _ h h' := ⟨h'.resources.trans h.resources, h'.mem.trans h.mem⟩
  carry _ _ _ _ := trivial

/-- The operation keeps the list and the storage. -/
abbrev KeepsStore (x : MutM α) : Prop := Within Anyhow (fun _ => True) Mut.SameStore x

theorem keepsStore_log (y : LogM Unit) : KeepsStore (liftM y : MutM Unit) := fun _ _ =>
  (wp_liftLogMut y).2 (wp_intro (fun _ _ _ => ⟨rfl, rfl⟩) fun _ _ => trivial)

theorem keepsStore_actionName (a : Option Routine) : KeepsStore (Mut.actionName a) := by
  cases a with
  | none => exact .stop _ trivial
  | some a => exact .bind .read fun _ => .pure _

theorem keepsStore_logBacktrace (bt : Option Nat) : KeepsStore (mutLogBacktrace bt) := by
  have hfollow : KeepsStore (Mut.backtrace bt) := by
    cases bt with
    | none => exact .stop _ trivial
    | some ptr =>
        refine .bind .read fun m => ?_
        cases m.mem.backtraces ptr with
        | some b => exact .pure _
        | none => exact .stop _ trivial
  exact .bind hfollow fun _ => .bind .read fun _ => .bind (keepsStore_log _) fun _ =>
    keepsStore_log _

theorem keepsStore_forEachResource {all : Bool} {body : Resource → MutM Unit}
    (hbody : ∀ r, KeepsStore (body r)) (elems : List Resource) :
    KeepsStore (forEachResource all body elems) := by
  induction elems with
  | nil => exact .pure _
  | cons r elems ih => exact .bind (.whenever (hbody r)) fun _ => ih

theorem keepsStore_logLeaks : KeepsStore (mutLogLeaks flags) :=
  .bind (.bind .read fun _ => .pure _) fun _ => keepsStore_forEachResource (fun _ =>
    .bind (keepsStore_log _) fun _ => .bind (keepsStore_actionName _) fun _ =>
      .bind (keepsStore_log _) fun _ => .bind (keepsStore_log _) fun _ =>
        .bind (keepsStore_log _) fun _ => .bind (.whenever (keepsStore_logBacktrace _)) fun _ =>
          keepsStore_log _) _

theorem keepsStore_logStats : KeepsStore mutLogStats :=
  .bind (keepsStore_log _) fun _ => .bind .read fun _ => .bind (keepsStore_log _) fun _ =>
    keepsStore_log _

theorem closeReference_any (bt : Option Nat) :
    wp (whenever bt.isSome (mutBacktraceClose bt)) (fun _ m' => ∃ μ, m' = { m with mem := μ })
      (fun _ => True) m := by
  cases bt with
  | none => exact ⟨m.mem, rfl⟩
  | some k =>
      simp only [Option.isSome_some, wp_whenever, if_true, mutBacktraceClose, Mut.backtrace,
        wp_bind, wp_read]
      cases m.mem.backtraces k with
      | none => trivial
      | some b =>
          simp only [wp_pure, wp_mutAssert]
          split
          · exact ⟨_, rfl⟩
          · trivial

/-- Closing the list empties it, whatever is in it. -/
theorem mutResourcesClose_any :
    wp mutResourcesClose (fun _ m' => m'.resources.elems = [] ∧ m'.process = m.process)
      (fun _ => True) m := by
  suffices hloop : ∀ rs, ∀ m₁ : Mut, m₁.resources.elems = rs → m₁.process = m.process →
      wp (forEachResource true mutResourceClose rs)
        (fun _ m' => m'.resources.elems = [] ∧ m'.process = m.process) (fun _ => True) m₁ from
    hloop _ m rfl rfl
  intro rs
  induction rs with
  | nil => exact fun m₁ hlist hprocess => ⟨hlist, hprocess⟩
  | cons r rs ih =>
      intro m₁ hlist hprocess
      have hbody : wp (mutResourceClose r)
          (fun _ m' => m'.resources.elems = rs ∧ m'.process = m.process) (fun _ => True) m₁ := by
        unfold mutResourceClose
        refine wp_seq (closeReference_any _) (fun _ he => he) ?_
        rintro _ _ ⟨μ, rfl⟩
        refine wp_seq (closeReference_any _) (fun _ he => he) ?_
        rintro _ _ ⟨μ', rfl⟩
        refine ⟨?_, hprocess⟩
        show Keyed.remove Resource.ptr r.ptr m₁.resources.elems = rs
        rw [hlist, ← List.nil_append (r :: rs), remove_split (List.forall_mem_nil _),
          List.nil_append]
      exact wp_seq hbody (fun _ he => he) fun _ m₂ h₂ => ih m₂ h₂.1 h₂.2

/-- What is logged before the list is closed. -/
theorem logs_before_close (hexited : m.process.status = .exited) :
    wp (do mutLogLeaks flags; whenever flags.stats mutLogStats)
      (fun _ m' => m'.process.status = .exited ∧ m.SameStore m') (fun _ => True) m := by
  have hkept : KeepsStore (do mutLogLeaks flags; whenever flags.stats mutLogStats) :=
    .bind keepsStore_logLeaks fun _ => .whenever keepsStore_logStats
  have hquiet : Quietly (do mutLogLeaks flags; whenever flags.stats mutLogStats) :=
    .bind quietly_logLeaks fun _ => .whenever quietly_logStats
  refine wp_mono (wp_and (hkept m trivial) (hquiet m trivial)) ?_ fun _ _ => trivial
  rintro _ m' ⟨hsame, hstill⟩
  exact ⟨hstill.status.trans hexited, hsame⟩

/-- Closing after the end of the target, by what closing the list leaves. -/
theorem mutClose_after {Q : Mut → Prop} (hexited : m.process.status = .exited)
    (hclose : ∀ m₁, m.SameStore m₁ →
      wp mutResourcesClose (fun _ m' => Q m' ∧ m'.process = m₁.process) (fun _ => True) m₁) :
    wp (mutClose flags) (fun _ m' => Q m' ∧ m'.process.status = .exited) (fun _ => True) m := by
  have hlogs : wp (mutLogLeaks flags) (fun _ m₁ => wp (whenever flags.stats mutLogStats)
      (fun _ m' => m'.process.status = .exited ∧ m.SameStore m') (fun _ => True) m₁)
      (fun _ => True) m := (wp_bind _ _).1 (logs_before_close hexited)
  unfold mutClose
  rw [wp_bind]
  refine wp_mono hlogs ?_ fun _ he => he
  intro _ m₁ h₁
  refine wp_seq h₁ (fun _ he => he) ?_
  rintro _ m₂ ⟨hexited₂, hsame⟩
  refine wp_seq (hclose m₂ hsame) (fun _ he => he) ?_
  rintro _ m₃ ⟨hQ, hprocess⟩
  have hstatus : m₃.process.status = .exited := by
    rw [hprocess]
    exact hexited₂
  simp only [wp_liftProcess, mutProcessClose, wp_bind, wp_read, wp_mutAssert, hstatus]
  exact ⟨hQ, hstatus⟩

theorem mutLogStats_spec (hidle : m.process.log.Idle) :
    wp mutLogStats (fun _ m' => Logs m [] m') E m := by
  simp only [mutLogStats, wp_bind, wp_liftLogMut, mutLogInfo, wp_mutLogBegin hidle, wp_read,
    wp_mutLogArgs, wp_mutLogEnd]
  exact ⟨_, rfl, .say hidle rfl⟩

/-- The tracker when all is closed. -/
structure Closed (m : Mut) (rs : List Report) (m' : Mut) : Prop where
  reports : m'.process.log.reports = rs ++ m.process.log.reports
  idle : m'.process.log.Idle
  list : m'.resources.elems = []
  freed : ∀ k, m'.mem.backtraces k = none

/-- Closing reports the leaks and leaves no backtrace behind. -/
theorem mutClose_reports (h : Accounted flags m) (hexited : m.process.status = .exited)
    (hmade : Made m.resources.entries) :
    wp (mutClose flags) (fun _ m' => Closed m (leaks m.resources.entries).reverse m') E m := by
  unfold mutClose
  refine wp_seq (mutLogLeaks_spec h hmade) (fun _ he => he) ?_
  rintro _ _ ⟨l, rfl, hl⟩
  have hstats : wp (whenever flags.stats mutLogStats) (fun _ m' => Logs (m.withLog l) [] m') E
      (m.withLog l) := by
    rw [wp_whenever]
    split
    · exact mutLogStats_spec hl.idle
    · exact ⟨l, rfl, .refl hl.idle⟩
  refine wp_seq hstats (fun _ he => he) ?_
  rintro _ _ ⟨l', rfl, hl'⟩
  refine wp_seq (mutResourcesClose_spec (m := (m.withLog l).withLog l') h.books.sound)
    (fun _ he => he) ?_
  intro _ m' hm'
  have hstatus : m'.process.status = .exited := by
    rw [hm'.process]
    exact hexited
  have hclosed : Closed m (leaks m.resources.entries).reverse m' := by
    refine ⟨?_, ?_, hm'.list, hm'.sound.none⟩
    · rw [hm'.process]
      exact hl'.reports.trans hl.reports
    · rw [hm'.process]
      exact hl'.idle
  simp only [wp_liftProcess, mutProcessClose, wp_bind, wp_read, wp_mutAssert, hstatus]
  exact hclosed

/-! ## The session -/

/-- From `m` on `mut_run` handles the calls `vs`, and then the target ends. -/
def Handles (flags : Control) (m : Mut) (vs : List Visit) (m' : Mut) : Prop :=
  ∃ rounds m₁, Run (Round flags) m rounds m₁ ∧ vs = rounds.filterMap id ∧
    mutRunToAction m₁ = .done (.error (some true)) m'

theorem mutRun_handles (hdone : mutRun flags m = .done true m') :
    ∃ vs, Handles flags m vs m' := by
  obtain ⟨rounds, m₁, hrun, hlast⟩ := mutRun_rounds hdone
  cases hlast with
  | left hcame => exact ⟨_, rounds, m₁, hrun, rfl, hcame⟩

/-- When the target has ended the tracker is in order, if the allocator kept its promise. -/
theorem Handles.accounted (h : Handles flags m₀ vs m) (hready : Ready flags m₀)
    (hfresh : AllFresh flags vs) : Accounted flags m := by
  obtain ⟨rounds, m₁, hrun, rfl, hcame⟩ := h
  obtain ⟨m₂, hsteps, hbetween⟩ := rounds_steps hrun hready.stopped hready.types
  have hready₁ := hbetween.ready (run_ready hsteps hready hfresh)
  have hover : m₁.Over m :=
    wp_done (mutRunToAction_ended hready₁.stopped hready₁.idle) hcame rfl
  exact hready₁.accounted.over hover

/-- The target has ended, whatever its allocator did. -/
theorem Handles.exited (h : Handles flags m₀ vs m) (hready : Ready flags m₀) :
    m.process.status = .exited := by
  obtain ⟨rounds, m₁, hrun, rfl, hcame⟩ := h
  obtain ⟨hstopped, -⟩ := rounds_keep hrun hready.stopped hready.types
  exact (wp_done (mutRunToAction_effect hstopped) hcame).exited.2 rfl

/-- The list that `mut_run` leaves when the target has ended is the ledger of the calls. -/
theorem Handles.verdict (h : Handles flags m₀ vs m) (hready : Ready flags m₀)
    (helems : m₀.resources.elems = []) (hcheck : flags.check = false)
    (hfresh : AllFresh flags vs)
    (hrecorded : ∀ v ∈ vs, ¬ Unrecorded flags v.tracker v.routine) :
    Agrees (m₀.process.log.reports.filter Report.misuse) m (verdictOf flags.free vs) := by
  obtain ⟨rounds, m₁, hrun, rfl, hcame⟩ := h
  obtain ⟨m₂, hsteps, hbetween⟩ := rounds_steps hrun hready.stopped hready.types
  obtain ⟨hready₂, hagrees⟩ := run_agrees hready helems hcheck hsteps hfresh hrecorded
  have hready₁ := hbetween.ready hready₂
  have hover : m₁.Over m :=
    wp_done (mutRunToAction_ended hready₁.stopped hready₁.idle) hcame rfl
  have hreports : m.process.log.reports = m₂.process.log.reports :=
    hover.reports.trans (hbetween.log hready₂.idle).2
  refine ⟨?_, ?_⟩
  · obtain ⟨q, rfl⟩ := hover.rest
    rw [← hagrees.ledger]
    funext k
    show get Entry.addr k m₁.resources.entries = get Entry.addr k m₂.resources.entries
    rw [hbetween.resources]
  · rw [hreports]
    exact hagrees.complaints

/-- After the calls `vs` the tracker stands at `m`, and is closed as `m'`: up to `m` it has
reported what the ledger of the calls complains of, and after that each object which the
ledger says was never freed, once. -/
structure Audited (free : Bool) (vs : List Visit) (earlier : List Report) (m m' : Mut) :
    Prop where
  complaints : m.process.log.reports.filter Report.misuse =
    (verdictOf free vs).complaints ++ earlier
  leaks : ∃ rs, m'.process.log.reports = rs ++ m.process.log.reports ∧ rs.Nodup ∧
    ∀ r, r ∈ rs ↔
      ∃ addr e, (verdictOf free vs).ledger addr = some e ∧ e.active = true ∧ r = e.leak

/-- The target has ended after the calls `vs`, with the tracker at `m`, which is closed as
`m'`.  The target is over and the list empty whatever the allocator did.  No backtrace is
left if it kept its promise at each call; and then the reports are those of the ledger, if
no check was asked for and no `realloc` of an unknown address was let run. -/
structure Concluded (flags : Control) (vs : List Visit) (earlier : List Report) (m m' : Mut) :
    Prop where
  status : m'.process.status = .exited
  list : m'.resources.elems = []
  freed : AllFresh flags vs → ∀ k, m'.mem.backtraces k = none
  reported : flags.check = false → AllFresh flags vs →
    (∀ v ∈ vs, ¬ Unrecorded flags v.tracker v.routine) →
    Audited flags.free vs earlier m m'

/-- Once `mut_run` and `mut_close` have returned a session is concluded. -/
theorem run_concluded (hready : Ready flags m) (helems : m.resources.elems = [])
    (hran : mutRun flags m = .done true m₁) (hclosed : mutClose flags m₁ = .done () m') :
    ∃ vs, Handles flags m vs m₁ ∧
      Concluded flags vs (m.process.log.reports.filter Report.misuse) m₁ m' := by
  obtain ⟨vs, hhandles⟩ := mutRun_handles hran
  have hexited := hhandles.exited hready
  have hends : wp (mutClose flags)
      (fun _ m => m.resources.elems = [] ∧ m.process.status = .exited) (fun _ => True) m₁ :=
    mutClose_after hexited fun _ _ => mutResourcesClose_any
  obtain ⟨hlist, hstatus⟩ := wp_done hends hclosed
  refine ⟨vs, hhandles, hstatus, hlist, fun hfresh => ?_, fun hcheck hfresh hrecorded => ?_⟩
  · have haccounted := hhandles.accounted hready hfresh
    have hfrees : wp (mutClose flags)
        (fun _ m => (∀ k, m.mem.backtraces k = none) ∧ m.process.status = .exited)
        (fun _ => True) m₁ := by
      refine mutClose_after hexited fun m₂ hsame => ?_
      have hsound : Sound m₂.mem (refsOf m₂.resources.elems) := by
        rw [hsame.mem, hsame.resources]
        exact haccounted.books.sound
      refine wp_mono (mutResourcesClose_spec hsound) ?_ fun _ he => he
      exact fun _ m₃ h₃ => ⟨h₃.sound.none, h₃.process⟩
    exact (wp_done hfrees hclosed).1
  · have haccounted := hhandles.accounted hready hfresh
    have hagrees := hhandles.verdict hready helems hcheck hfresh hrecorded
    obtain ⟨hmade, hnodup, hiff⟩ :=
      leaks_iff (uniqueKeys_entries haccounted.books.shelved.addrs)
        (verdictOf_sound _ vs) hagrees.ledger
    have hclose := wp_done
      (mutClose_reports (E := fun _ => False) haccounted hexited hmade) hclosed
    exact ⟨hagrees.complaints, _, hclose.reports, hnodup, hiff⟩

/-- A session that `main` gets through has handled some calls from `mut_open` to the end of
its target, and is concluded as `Concluded` says. -/
theorem session_exact {usageFunction : Option String} {fork : Fork} {name : String}
    (hstart : Unopened m₀)
    (hdone : mutSession flags usageFunction fork name m₀ = .done true m') :
    ∃ m vs m₁, mutOpenProcess flags usageFunction fork name m₀ = .done true m ∧
      Handles (flags.effective m.exec) m vs m₁ ∧
      Concluded (flags.effective m.exec) vs (m.process.log.reports.filter Report.misuse)
        m₁ m' := by
  unfold mutSession at hdone
  obtain ⟨ok, m, hopened, hdone⟩ := done_bind hdone
  cases ok with
  | false => cases hdone
  | true =>
      obtain ⟨hready, helems⟩ := mutOpenProcess_ready hstart hopened
      obtain ⟨m₂, m₃, hread, hdone⟩ := done_bind hdone
      cases hread
      obtain ⟨ok, m₁, hran, hdone⟩ := done_bind hdone
      cases ok with
      | false =>
          obtain ⟨_, m₂, -, hdone⟩ := done_bind hdone
          cases hdone
      | true =>
          obtain ⟨_, m₂, hclosed, hdone⟩ := done_bind hdone
          cases hdone
          obtain ⟨vs, hhandles, hconcluded⟩ := run_concluded hready helems hran hclosed
          exact ⟨m, vs, m₁, hopened, hhandles, hconcluded⟩

/-! ## A session with a few calls -/

/-- A script tells which calls are handled. -/
theorem Handles.played {as : List Routine} (h : Handles flags m vs m')
    (hplays : m.plays flags (Mut.obtainsNew flags) Mut.ends as = true) :
    vs.map Visit.routine = as ∧ AllFresh flags vs := by
  obtain ⟨rounds, m₁, hrun, rfl, hcame⟩ := h
  obtain ⟨before, after, rfl, hroutines, hall, hafter⟩ := plays_rounds hplays hrun
  have hfresh : AllFresh flags (rounds.filterMap id) := fun v hv =>
    fresh_of_obtainsNew (hall v hv)
  cases after with
  | nil => exact ⟨hroutines.trans (List.append_nil _).symm, hfresh⟩
  | cons a after =>
      obtain ⟨mh, m₂, hfound, -⟩ := plays_first hafter
      rw [hfound] at hcame
      cases hcame

/-- Only a `realloc` can be left unrecorded. -/
theorem recorded_of_routines (h : Routine.realloc ∉ vs.map Visit.routine) :
    ∀ v ∈ vs, ¬ Unrecorded flags v.tracker v.routine := fun v hv hunrecorded =>
  h (List.mem_map.2 ⟨v, hv, hunrecorded.routine⟩)

theorem bare_unopened (exec : Exec) (waits : List Stop) :
    Unopened ((Mut.bare exec).awaiting waits) where
  idle := Log.idle_mutLogOpen
  sound := by
    refine ⟨⟨fun k b hk => ?_, fun _ _ => List.not_mem_nil⟩, fun _ _ => rfl⟩
    cases hk

theorem leaking_unopened : Unopened .leaking := bare_unopened ..

/-- What that target did wrong, latest first. -/
def leakingReports : List Report :=
  [⟨"MLK", [.string "malloc", .ulong 16, .execAddr 0x3000]⟩,
    ⟨"FFM", [.string "free", .execAddr 0x2000]⟩]

/-- The second call of `free` is complained of, the other block is reported, and every
backtrace is gone. -/
theorem session_exact_leaking :
    ∃ (m m₁ m' : Mut) (vs : List Visit),
      mutSession .plain none (.parent 1) "a.out" .leaking = .done true m' ∧
      vs.map Visit.routine = leakingCalls ∧
      Concluded (Control.plain.effective m.exec) vs [] m₁ m' ∧
      Audited false vs [] m₁ m' ∧ (∀ k, m'.mem.backtraces k = none) ∧
      m'.process.log.reports = leakingReports := by
  obtain ⟨m', hdone, hreports⟩ :
      ∃ m', mutSession .plain none (.parent 1) "a.out" .leaking = .done true m' ∧
        m'.process.log.reports = leakingReports :=
    Outcome.of_seen (by decide +kernel)
  obtain ⟨m, vs, m₁, hopened, hhandles, hconcluded⟩ := session_exact leaking_unopened hdone
  have hlook : (mutOpenProcess .plain none (.parent 1) "a.out" .leaking).seen (fun m =>
      (m.plays .plain (Mut.obtainsNew .plain) Mut.ends leakingCalls, m.process.log.reports)) =
        some (true, true, []) := by decide +kernel
  rw [hopened] at hlook
  obtain ⟨hplays, hnone⟩ := Prod.mk.inj (Prod.mk.inj (Option.some.inj hlook)).2
  obtain ⟨hroutines, hfresh⟩ := hhandles.played hplays
  rw [hnone] at hconcluded
  have hrecorded : Routine.realloc ∉ vs.map Visit.routine := by
    rw [hroutines]
    decide
  exact ⟨m, m₁, m', vs, hdone, hroutines, hconcluded,
    hconcluded.reported rfl hfresh (recorded_of_routines hrecorded), hconcluded.freed hfresh,
    hreports⟩

end MutTracker.Source
