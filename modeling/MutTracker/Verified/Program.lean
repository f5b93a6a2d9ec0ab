import MutTracker.Source.Ui
import MutTracker.Verified.Options
import MutTracker.Verified.Whole
import MutTracker.Verified.Release

/-!
# The program from beginning to end

`main`: the command line, the executable and the session in one run.  The reader of the
executable and the tracker share nothing but the log, and closing the executable does not
look at it; so what was kept of the executable is given back whatever the session did in
between.

## Main results

* `Kept.withLog` — what is kept can be given back after the log has gone on.
* `mainOpen_opens` — what `main` has when it comes to `mut_run`.
* `program_exact` — however `main` ends, it holds nothing of the executable; when it
  succeeds, the command line decided the mode, and its session is concluded.
-/

namespace MutTracker.Source

open MutTracker.Logic MutTracker.Logic.Prog MutTracker.Source.Release

variable {r : ExecReader} {l : Log} {p p' p₁ : Program} {argv : List String} {opened : Bool}
  {fork : Fork} {ok : Bool} {α β : Type} {x : ElfM α} {f : α → ElfM β}

/-! ## Closing the executable later -/

/-- The reader, when the log has gone on. -/
def ExecReader.withLog (r : ExecReader) (l : Log) : ExecReader :=
  { r with symtab := { r.symtab with log := l } }

/-- The program does the same whatever the log. -/
def Deaf (x : ElfM α) : Prop :=
  ∀ r l, wp x (fun a r' => x (r.withLog l) = .done a (r'.withLog l)) (fun _ => True) r

theorem Deaf.bind (hx : Deaf x) (hf : ∀ a, Deaf (f a)) : Deaf (x >>= f) := by
  intro r l
  refine wp_seq (hx r l) (fun _ he => he) ?_
  intro a r₁ hrun
  refine wp_mono (hf a r₁ l) ?_ fun _ he => he
  intro b r₂ hrun'
  rw [bind_done hrun]
  exact hrun'

theorem deaf_guarded {c : ExecReader → Bool} {e : ExecHalt} {g : ExecReader → ExecReader}
    (hc : ∀ r l, c (r.withLog l) = c r) (hg : ∀ r l, g (r.withLog l) = (g r).withLog l) :
    Deaf (do require (c (← read)) e; update g) := by
  intro r l
  rw [wp_bind, wp_read, wp_bind, wp_require]
  by_cases hholds : c r = true
  · rw [if_pos hholds, wp_update]
    show (require (c (r.withLog l)) e >>= fun _ => update g) (r.withLog l) = _
    rw [hc, hholds, ← hg]
    rfl
  · rw [if_neg hholds]
    trivial

theorem deaf_free (q : Option Nat) : Deaf (mutMemFree q) := by
  cases q with
  | none => exact fun _ _ => rfl
  | some q => exact deaf_guarded (fun _ _ => rfl) fun _ _ => rfl

theorem deaf_strtabClose (t : Table) : Deaf (mutExecStrtabClose t) := fun r l =>
  deaf_free (r.tables t).data r l

theorem deaf_symtabClose : Deaf mutExecSymtabClose :=
  deaf_guarded (c := fun r => !r.symtabClosed || r.symtab.head.isEmpty) (fun _ _ => rfl)
    fun _ _ => rfl

theorem deaf_close : Deaf mutExecClose :=
  .bind (deaf_strtabClose _) fun _ => .bind (deaf_strtabClose _) fun _ =>
    .bind (deaf_strtabClose _) fun _ => deaf_symtabClose

theorem Release.Kept.withLog (h : Release.Kept r) (l : Log) : Release.Kept (r.withLog l) where
  closed := h.closed
  closes := by
    have hboth := wp_and h.closes (deaf_close r l)
    obtain ⟨_, r', hrun, hreleased, hsame⟩ := wp_returns hboth fun _ he => he.1
    unfold wp
    rw [hsame]
    exact ⟨hreleased.closed, hreleased.freed, hreleased.nodes⟩

/-- Closing the executable gives all back, and nothing else happens. -/
theorem execClose_released (hdone : (liftM mutExecClose : MainM Unit) p = .done () p')
    (h : Release.Kept p.reader) : Released p'.reader ∧ p'.tracker = p.tracker := by
  obtain ⟨r, hrun, rfl⟩ := done_focus hdone
  have hkept := h.withLog p.tracker.log
  refine ⟨wp_done hkept.closes hrun, ?_⟩
  have hclose : mutExecClose p.exec = .done () r := hrun
  have hsame : mutExecClose (p.exec.withLog p.tracker.log) =
      .done () (r.withLog p.tracker.log) := by
    have hdeaf := deaf_close p.exec p.tracker.log
    unfold wp at hdeaf
    rw [hclose] at hdeaf
    exact hdeaf
  have hlog : r.symtab.log = p.tracker.log := by
    have heq : r = r.withLog p.tracker.log :=
      (Outcome.done.inj (hclose.symm.trans hsame)).2
    rw [heq]
    rfl
  show (p.setLog r.symtab.log).tracker = p.tracker
  rw [hlog]
  rfl

/-! ## Up to the call of `mut_run` -/

/-- The program before it starts: nothing is acquired, and nothing was logged. -/
structure Program.Unstarted (p : Program) : Prop where
  reader : Release.Fresh p.reader
  tracker : Unopened p.tracker

theorem Release.Fresh.released (h : Release.Fresh r) : Released r :=
  ⟨h.closed, h.unused, Or.inr h.empty⟩

/-- What a command line that is taken asks for. -/
def AsksFor (argv : List String) (info : ArgInfo) : Prop :=
  ∃ opts program rest, argv = opts.map Opt.word ++ program :: rest ∧ ¬ isOption program ∧
    info = ArgInfo.start.given opts (program :: rest)

/-- The flags in force once the executable is opened. -/
def Program.flags (p : Program) : Control := p.info.flags.effective p.tracker.exec

/-- What `main` has when it has opened everything, and when it could not. -/
def Program.OpenedAs (argv : List String) (ok : Bool) (p : Program) : Prop :=
  if ok then
    Release.Kept p.reader ∧ AsksFor argv p.info ∧ Ready p.flags p.tracker ∧
      p.tracker.resources.elems = []
  else Released p.reader

/-- `mut_open` opens the executable and the process, or gives back what it has opened. -/
theorem mutOpenAll_opens (hreader : Release.Fresh p.reader) (htracker : Unopened p.tracker)
    (hasks : AsksFor argv p.info) (hdone : mutOpenAll fork p = .done ok p') :
    p'.OpenedAs argv ok := by
  unfold mutOpenAll at hdone
  rw [read_bind, update_bind] at hdone
  obtain ⟨read, p₂, hexec, hdone⟩ := done_bind hdone
  obtain ⟨r, hrun, rfl⟩ := done_focus hexec
  have hfresh : Release.Fresh (Program.exec
      { p with reader := { p.reader with fileName := p.info.argv.headD "" } }) :=
    ⟨hreader.closed, hreader.unused, hreader.empty⟩
  obtain ⟨⟨-, hheld⟩, hlog⟩ := wp_done
    (wp_and (opens_file _ hfresh) (goes_execOpen _ _ htracker.idle)) hrun
  cases read with
  | false =>
      cases hdone
      exact hheld
  | true =>
      have hkept : Release.Kept r := hheld
      have hidle : r.symtab.log.Idle := hlog
      obtain ⟨_, p₃, hupdate, hdone⟩ := done_bind hdone
      cases hupdate
      obtain ⟨started, p₄, hprocess, hdone⟩ := done_bind hdone
      obtain ⟨m, hrun', rfl⟩ := done_embed hprocess
      cases started with
      | false =>
          obtain ⟨_, p₅, hclose, hdone⟩ := done_bind hdone
          cases hdone
          exact (execClose_released hclose hkept).1
      | true =>
          cases hdone
          have hopened : mutOpenProcess p.info.flags p.info.usageFunction fork
              (p.info.argv.headD "") (p.tracker.having r.exec r.symtab.log) = .done true m := hrun'
          have hunopened : Unopened (p.tracker.having r.exec r.symtab.log) :=
            ⟨hidle, htracker.sound⟩
          obtain ⟨hready, helems⟩ := mutOpenProcess_ready hunopened hopened
          exact ⟨hkept, hasks, hready, helems⟩

/-- `mut_log_file` says at most that it could not open the file. -/
theorem mutLogFile_idle {u u' : Ui} (name : String) (opened : Bool) (hidle : u.log.Idle)
    (hdone : mutLogFile name opened u = .done () u') : u'.log.Idle ∧ u'.info = u.info := by
  have hspec : wp (mutLogFile name opened)
      (fun _ v => v.log.Idle ∧ v.info = u.info) (fun _ => True) u := by
    unfold mutLogFile
    cases opened with
    | true => exact ⟨hidle, rfl⟩
    | false =>
        simp only [Bool.not_false, if_true, wp_bind, wp_liftLogUi, mutLogWarning,
          wp_mutLogBegin hidle, mutLogString, wp_mutLogArg, wp_mutLogEnd]
        exact ⟨hidle.say, trivial⟩
  have hend := wp_done hspec hdone
  exact hend

theorem mainOpen_opens (hstart : p.Unstarted)
    (hdone : mutMainOpen argv opened fork p = .done ok p₁) : p₁.OpenedAs argv ok := by
  unfold mutMainOpen at hdone
  rw [update_bind] at hdone
  obtain ⟨taken, p₂, hargs, hdone⟩ := done_bind hdone
  obtain ⟨u, hrun, rfl⟩ := done_embed hargs
  cases taken with
  | false =>
      cases hdone
      exact hstart.reader.released
  | true =>
      have hidle : p.tracker.process.log.Idle := hstart.tracker.idle
      obtain ⟨opts, program, rest, hargv, hprogram, rfl⟩ := grammar_of_run hidle hrun
      have hasks : AsksFor argv (ArgInfo.start.given opts (program :: rest)) :=
        ⟨opts, program, rest, hargv, hprogram, rfl⟩
      simp only [Bool.not_true, Bool.false_eq_true, if_false] at hdone
      rw [read_bind] at hdone
      obtain ⟨_, p₃, hfile, hdone⟩ := done_bind hdone
      unfold whenever at hfile
      split at hfile
      · obtain ⟨u, hrun', rfl⟩ := done_embed hfile
        obtain ⟨hidle', hinfo⟩ := mutLogFile_idle _ _ hidle hrun'
        refine mutOpenAll_opens ?_ ?_ ?_ hdone
        · exact hstart.reader
        · exact ⟨hidle', hstart.tracker.sound⟩
        · show AsksFor argv u.info
          rw [hinfo]
          exact hasks
      · cases hfile
        refine mutOpenAll_opens ?_ ?_ ?_ hdone
        · exact hstart.reader
        · exact ⟨hidle, hstart.tracker.sound⟩
        · exact hasks

/-! ## From beginning to end -/

/-- However `main` ends, it holds nothing of the executable any more.  When it succeeds, its
command line was one of the grammar and decided the mode; `mut_run` has handled some calls
up to the end of the target, and what is left and reported is as `Concluded` says. -/
theorem program_exact (hstart : p.Unstarted) (hdone : mutMain argv opened fork p = .done ok p') :
    Released p'.reader ∧
      (ok = true → ∃ opts program rest, argv = opts.map Opt.word ++ program :: rest ∧
        ¬ isOption program ∧
        ∃ p₁ vs m₁, mutMainOpen argv opened fork p = .done true p₁ ∧
          p₁.info = ArgInfo.start.given opts (program :: rest) ∧
          p₁.flags.free = (opts.flatMap Opt.flagsOf).contains 'f' ∧
          p₁.flags.check = (opts.flatMap Opt.flagsOf).contains 'c' ∧
          Handles p₁.flags p₁.tracker vs m₁ ∧
          Concluded p₁.flags vs (p₁.tracker.process.log.reports.filter Report.misuse) m₁
            p'.tracker) := by
  unfold mutMain at hdone
  obtain ⟨ready, p₁, hopened, hdone⟩ := done_bind hdone
  have hopens := mainOpen_opens hstart hopened
  cases ready with
  | false =>
      cases hdone
      exact ⟨hopens, fun h => absurd h Bool.false_ne_true⟩
  | true =>
      obtain ⟨hkept, ⟨opts, program, rest, hargv, hprogram, hinfo⟩, hready, helems⟩ := hopens
      simp only [Bool.not_true, Bool.false_eq_true, if_false] at hdone
      rw [read_bind] at hdone
      obtain ⟨ended, p₂, hrun, hdone⟩ := done_bind hdone
      obtain ⟨m₁, hran, rfl⟩ := done_embed hrun
      cases ended with
      | false =>
          obtain ⟨_, p₃, hclose, hdone⟩ := done_bind hdone
          obtain ⟨m₂, -, rfl⟩ := done_embed hclose
          obtain ⟨_, p₄, hexec, hdone⟩ := done_bind hdone
          cases hdone
          exact ⟨(execClose_released hexec hkept).1, fun h => absurd h Bool.false_ne_true⟩
      | true =>
          obtain ⟨_, p₃, hclose, hdone⟩ := done_bind hdone
          obtain ⟨m₂, hclosed, rfl⟩ := done_embed hclose
          obtain ⟨_, p₄, hexec, hdone⟩ := done_bind hdone
          cases hdone
          obtain ⟨hreleased, htracker⟩ := execClose_released hexec hkept
          have hfree : p₁.flags.free = (opts.flatMap Opt.flagsOf).contains 'f' := by
            show p₁.info.flags.free = _
            rw [hinfo]
            exact Bool.or_false _
          have hcheck : p₁.flags.check = (opts.flatMap Opt.flagsOf).contains 'c' := by
            show p₁.info.flags.check = _
            rw [hinfo]
            exact Bool.or_false _
          obtain ⟨vs, hhandles, hconcluded⟩ := run_concluded hready helems hran hclosed
          refine ⟨hreleased, fun _ => ⟨opts, program, rest, hargv, hprogram, p₁, vs, m₁, hopened,
            hinfo, hfree, hcheck, hhandles, ?_⟩⟩
          rw [htracker]
          exact hconcluded

/-! ## A program with a few calls -/

/-- The program runs if its parts do. -/
theorem main_runs {u : Ui} {m m₁ m₂ : Mut} (hstart : p.Unstarted)
    (hargs : mutUiProcessArgs argv ⟨p.tracker.log, .start, p.memReport⟩ = .done true u)
    (hfile : u.info.logFileName = none)
    (hread : mutExecOpen (some (bytesOf u.info.undesirableSuffix))
      { p.reader.withLog u.log with fileName := u.info.argv.headD "" } = .done true r)
    (hopen : mutOpenProcess u.info.flags u.info.usageFunction fork (u.info.argv.headD "")
      (p.tracker.having r.exec r.symtab.log) = .done true m)
    (hrun : mutRun (u.info.flags.effective m.exec) m = .done true m₁)
    (hclose : mutClose (u.info.flags.effective m.exec) m₁ = .done () m₂) :
    ∃ p₁ p', mutMainOpen argv opened fork p = .done true p₁ ∧ p₁.tracker = m ∧
      p₁.info = u.info ∧ mutMain argv opened fork p = .done true p' ∧ p'.tracker = m₂ := by
  let p₀ : Program := { p with info := .start }
  let p₂ : Program := { p₀.setUi u with
    reader := { p.reader with fileName := u.info.argv.headD "" } }
  let p₃ : Program := { p₂.setExec r with tracker := p.tracker.having r.exec r.symtab.log }
  let p₁ : Program := { p₃ with tracker := m }
  have htaken : (liftM (mutUiProcessArgs argv) : MainM Bool) p₀ = .done true (p₀.setUi u) :=
    embed_done hargs
  have hreads : (liftM (mutExecOpen (some (bytesOf u.info.undesirableSuffix))) : MainM Bool) p₂ =
      .done true (p₂.setExec r) := focus_done hread
  have hstarts : (liftM (mutOpenProcess u.info.flags u.info.usageFunction fork
      (u.info.argv.headD "")) : MainM Bool) p₃ = .done true p₁ := embed_done hopen
  have hall : mutOpenAll fork (p₀.setUi u) = .done true p₁ := by
    unfold mutOpenAll
    rw [read_bind, update_bind]
    refine (bind_done hreads).trans ?_
    exact (bind_done hstarts).trans rfl
  have hopened : mutMainOpen argv opened fork p = .done true p₁ := by
    unfold mutMainOpen
    rw [update_bind]
    refine (bind_done htaken).trans ?_
    simp only [Bool.not_true, Bool.false_eq_true, if_false]
    rw [read_bind]
    have hnone : (p₀.setUi u).info.logFileName = none := hfile
    rw [hnone]
    exact hall
  have hkept : Release.Kept r := by
    have hopens := mainOpen_opens hstart hopened
    exact hopens.1
  obtain ⟨_, r', hreleases, -⟩ := wp_returns (hkept.withLog m₂.process.log).closes fun _ => id
  have hran : (liftM (mutRun (u.info.flags.effective m.exec)) : MainM Bool) p₁ =
      .done true { p₁ with tracker := m₁ } := embed_done hrun
  have hcloses : (liftM (mutClose (u.info.flags.effective m.exec)) : MainM Unit)
      { p₁ with tracker := m₁ } = .done () { p₁ with tracker := m₂ } := embed_done hclose
  have hgives : (liftM mutExecClose : MainM Unit) { p₁ with tracker := m₂ } =
      .done () (Program.setExec r' { p₁ with tracker := m₂ }) := focus_done hreleases
  have htracker : (Program.setExec r' { p₁ with tracker := m₂ }).tracker = m₂ :=
    (execClose_released hgives hkept).2
  refine ⟨p₁, Program.setExec r' { p₁ with tracker := m₂ }, hopened, rfl, rfl, ?_, htracker⟩
  unfold mutMain
  refine (bind_done hopened).trans ?_
  simp only [Bool.not_true, Bool.false_eq_true, if_false]
  rw [read_bind]
  refine (bind_done hran).trans ?_
  refine (bind_done hcloses).trans ?_
  exact (bind_done hgives).trans rfl

/-- The program for a file with `malloc` and `free`, whose process obtains two blocks and
frees the first one twice. -/
def Program.leaking : Program where
  tracker := .leaking
  reader := .plain freeingFile
  info := .start
  memReport := false

theorem leaking_unstarted : Program.leaking.Unstarted where
  reader := ⟨rfl, by simp [InUse, Program.leaking, ExecReader.plain], rfl⟩
  tracker := leaking_unopened

theorem leaking_read : ∃ r, mutExecOpen (some (bytesOf "@@GLIBC_2.0")) (.plain freeingFile) =
    .done true r ∧ r.exec = .full ∧ r.symtab.log = mutLogOpen := by
  have hseen : (mutExecOpen (some (bytesOf "@@GLIBC_2.0")) (.plain freeingFile)).seen
      (fun r => (r.exec, r.symtab.log)) = some (true, Exec.full, mutLogOpen) := by decide +kernel
  obtain ⟨r, hread, hlook⟩ := Outcome.of_seen hseen
  obtain ⟨hexec, hlog⟩ := Prod.mk.inj hlook
  exact ⟨r, hread, hexec, hlog⟩

/-- The session of that program, from the process on. -/
theorem leaking_session : ∃ m m₁ m₂,
    mutOpenProcess .plain none (.parent 1) "a.out" (Mut.leaking.having .full mutLogOpen) =
      .done true m ∧
    m.plays .plain (Mut.obtainsNew .plain) Mut.ends leakingCalls = true ∧
      m.process.log.reports = [] ∧
    mutRun .plain m = .done true m₁ ∧ mutClose .plain m₁ = .done () m₂ ∧
    m₂.process.log.reports = leakingReports := by
  have hplays : (mutOpenProcess .plain none (.parent 1) "a.out"
      (Mut.leaking.having .full mutLogOpen)).seen (fun m =>
        (m.plays .plain (Mut.obtainsNew .plain) Mut.ends leakingCalls, m.process.log.reports)) =
          some (true, true, []) := by decide +kernel
  have hruns : (mutOpenProcess .plain none (.parent 1) "a.out"
      (Mut.leaking.having .full mutLogOpen)).seen (fun m =>
        decide ((mutRun .plain m).seen (fun m₁ =>
          decide ((mutClose .plain m₁).seen (fun m₂ => m₂.process.log.reports) =
            some ((), leakingReports))) = some (true, true))) = some (true, true) := by
    decide +kernel
  obtain ⟨m, hopened, hlook⟩ := Outcome.of_seen hplays
  obtain ⟨hplayed, hnone⟩ := Prod.mk.inj hlook
  rw [hopened] at hruns
  have hrun := of_decide_eq_true (Prod.mk.inj (Option.some.inj hruns)).2
  obtain ⟨m₁, hran, hclose⟩ := Outcome.of_seen hrun
  obtain ⟨m₂, hclosed, hreports⟩ := Outcome.of_seen (of_decide_eq_true hclose)
  exact ⟨m, m₁, m₂, hopened, hplayed, hnone, hran, hclosed, hreports⟩

/-- The second call of `free` is complained of, the other block is reported, and nothing is
left. -/
theorem program_exact_leaking :
    ∃ (p' : Program) (m₁ : Mut) (vs : List Visit),
      mutMain ["a.out"] true (.parent 1) .leaking = .done true p' ∧ Released p'.reader ∧
      vs.map Visit.routine = leakingCalls ∧ p'.tracker.resources.elems = [] ∧
      (∀ k, p'.tracker.mem.backtraces k = none) ∧ Audited false vs [] m₁ p'.tracker ∧
      p'.tracker.process.log.reports = leakingReports := by
  obtain ⟨r, hread, hexec, hlog⟩ := leaking_read
  obtain ⟨m, m₁, m₂, hopened, hplays, hnone, hran, hclosed, hreports⟩ := leaking_session
  have hword : ¬ isOption "a.out" := by
    unfold isOption
    decide +kernel
  have hopen : mutOpenProcess .plain none (.parent 1) "a.out"
      (Mut.leaking.having r.exec r.symtab.log) = .done true m := by
    rw [hexec, hlog]
    exact hopened
  obtain ⟨p₁, p', hmain₁, htracker, hinfo, hmain, hend⟩ :
      ∃ p₁ p', mutMainOpen ["a.out"] true (.parent 1) .leaking = .done true p₁ ∧
        p₁.tracker = m ∧ p₁.info = { ArgInfo.start with argv := ["a.out"] } ∧
          mutMain ["a.out"] true (.parent 1) .leaking = .done true p' ∧ p'.tracker = m₂ :=
    main_runs leaking_unstarted (options_run [] [] hword) rfl hread hopen hran hclosed
  obtain ⟨hreleased, hexact⟩ := program_exact leaking_unstarted hmain
  obtain ⟨opts, program, rest, -, -, p₂, vs, m₃, hmain₂, -, -, -, hhandles, hconcluded⟩ :=
    hexact rfl
  rw [hmain₁] at hmain₂
  cases hmain₂
  have hflags : p₁.flags = Control.plain.effective m.exec := by
    unfold Program.flags
    rw [hinfo, htracker]
    rfl
  rw [hflags, htracker] at hhandles hconcluded
  rw [hnone] at hconcluded
  obtain ⟨hroutines, hfresh⟩ := hhandles.played hplays
  have hrecorded : Routine.realloc ∉ vs.map Visit.routine := by
    rw [hroutines]
    decide
  exact ⟨p', m₃, vs, hmain, hreleased, hroutines, hconcluded.list, hconcluded.freed hfresh,
    hconcluded.reported rfl hfresh (recorded_of_routines hrecorded), hend ▸ hreports⟩

end MutTracker.Source
