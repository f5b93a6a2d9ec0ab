import MutTracker.Source.Session
import MutTracker.Verified.Breakpoints

/-!
# The rounds of `mut_run`

A round of `mut_run` lets the target run until it stops at an intercepted call,
handles the call with the breakpoints removed, and sets them again.  A stop at no
action of the tracker's is a round of its own.  `mut_run` is a run of such rounds
and one last round that it returns from.

## Main results

* `mutRunToAction_effect` — how a round comes to its call.
* `mutRun_rounds` — a `mut_run` that returned is a run of rounds and a last one.
* `mutRun_effect` — the status that `mut_run` leaves.
* `Round.step`, `rounds_steps` — the rounds are the steps that the account is kept over.
* `plays_run` — a `mut_run` whose calls are written down.
* `run_reports`, `foreign_stop_shifted` — the end of the target and stops that are
  not the tracker's.
-/

namespace MutTracker.Source

open MutTracker.Logic MutTracker.Logic.Prog MutTracker.Logic.Memory

variable {flags : Control} {m m' m₀ : Mut} {a : Routine}

/-! ## Up to the call -/

/-- The target has stopped, at an intercepted call or elsewhere. -/
def Reached : Except (Option Bool) Routine → Prop
  | .ok _ | .error none => True
  | .error (some _) => False

@[simp] theorem not_reached_error {b : Bool} : ¬ Reached (.error (some b)) := id

/-- The status of `q` and the programs that ran since `p`, whatever became of it. -/
structure Since (p q : Process) : Prop where
  waits : q.kernel.waits <:+ p.kernel.waits
  resumed : ∃ ks, q.resumed = ks ++ p.resumed ∧
    (q.status = .running ↔ ∃ k ∈ ks, k.strays = true)

/-- What a round comes to before there is a call to handle. -/
structure Came (m : Mut) (r : Except (Option Bool) Routine) (m' : Mut) : Prop where
  rest : ∃ q, m' = { m with process := q }
  since : Since m.process m'.process
  stopped : Reached r → m'.Stopped
  fewer : Reached r → m'.process.kernel.waits.length < m.process.kernel.waits.length
  target : Reached r → ending m.process.kernel.waits = .stopped m'.target
  pc : Reached r → m'.process.pc = mutPcAdjust m'.target.eip
  exited : m'.process.status = .exited ↔ r = .error (some true)
  found : ∀ a, r = .ok a → a ∈ m.root ∧ m.addr a = m'.process.pc
  foreign : r = .error none → ∀ a ∈ m.root, m.addr a ≠ m'.process.pc

/-- The target was not let run. -/
theorem Since.stayed {p q : Process} (hstatus : q.status = .stopped)
    (hwaits : q.kernel.waits = p.kernel.waits) (hresumed : q.resumed = p.resumed) :
    Since p q := by
  refine ⟨hwaits ▸ List.suffix_rfl, [], hresumed, ?_⟩
  rw [hstatus]
  exact ⟨nofun, nofun⟩

theorem mutRunToAction_effect (hp : m.Stopped) :
    wp mutRunToAction (Came m) Orderly m := by
  unfold mutRunToAction
  rw [wp_bind, wp_liftProcess]
  refine wp_mono (mutProcessResume_effect hp) ?_ fun _ he => he
  intro ok q₁ h₁
  cases ok with
  | false =>
      have hstatus : q₁.status = .stopped := h₁.status
      exact ⟨⟨q₁, rfl⟩, .stayed hstatus h₁.waits h₁.resumed, by simp, by simp, by simp,
        by simp, ⟨fun h => (by rw [hstatus] at h; cases h), by simp⟩, by simp, by simp⟩
  | true =>
      simp only [Bool.not_true, Bool.false_eq_true, if_false, wp_bind, wp_liftProcess]
      refine wp_mono (mutProcessWait_effect h₁.status) ?_ fun _ he => he
      intro r q₂ h₂
      have hsince : Since m.process q₂ := by
        refine ⟨h₁.waits ▸ h₂.waits, [q₁.kernel], ?_, ?_⟩
        · rw [h₂.resumed, h₁.resumed]
          rfl
        · rw [h₂.running]
          simp only [List.mem_singleton, exists_eq_left, Kernel.strays]
      cases r with
      | exited =>
          exact ⟨⟨q₂, rfl⟩, hsince, by simp, by simp, by simp, by simp,
            ⟨fun _ => rfl, fun _ => h₂.exited.2 rfl⟩, by simp, by simp⟩
      | failed =>
          exact ⟨⟨q₂, rfl⟩, hsince, by simp, by simp, by simp, by simp,
            ⟨fun h => absurd (h₂.exited.1 h) (by simp), by simp⟩, by simp, by simp⟩
      | stopped pc =>
          obtain ⟨hstatus, t, hending, htarget, hpc, hqpc⟩ := h₂.stopped pc rfl
          have hleft : ¬ q₂.status = .exited := by rw [hstatus]; simp
          have hfewer : q₂.kernel.waits.length < m.process.kernel.waits.length := by
            rw [← h₁.waits]
            exact h₂.fewer
          have hending : ending m.process.kernel.waits = .stopped q₂.kernel.target := by
            rw [← h₁.waits, hending, htarget]
          have hadjusted : q₂.pc = mutPcAdjust q₂.kernel.target.eip := by
            rw [hqpc, hpc, htarget]
          simp only [mutActionsLookup, wp_bind, wp_read, wp_pure]
          cases hfind : m.root.find? fun a => (m.actions a).addr = pc with
          | none =>
              refine ⟨⟨q₂, rfl⟩, hsince, fun _ => hstatus, fun _ => hfewer, fun _ => hending,
                fun _ => hadjusted, ⟨fun h => absurd h hleft, by simp⟩, by simp,
                fun _ a ha haddr => ?_⟩
              have hnot := List.find?_eq_none.1 hfind a ha
              simp only [decide_eq_true_eq] at hnot
              exact hnot (haddr.trans hqpc)
          | some a =>
              have hmem := List.mem_of_find?_eq_some hfind
              have haddr : m.addr a = pc := by simpa using List.find?_some hfind
              simp only [mutRemoveActionBreakpoints, wp_bind, wp_read]
              refine wp_mono (mutRemoveActionBreakpointsOf_effect
                (m := { m with process := q₂ }) m.root hstatus) ?_ fun _ he => he
              rintro ok m' ⟨⟨q₃, heq⟩, h₃, _⟩
              subst heq
              have hstatus₃ : q₃.status = .stopped := h₃.stopped
              have hleft₃ : ¬ q₃.status = .exited := by rw [hstatus₃]; simp
              have hwaits₃ : q₃.kernel.waits = q₂.kernel.waits := h₃.waits
              have htarget₃ : q₃.kernel.target = q₂.kernel.target := h₃.target
              have hsince₃ : Since m.process q₃ := by
                refine ⟨hwaits₃ ▸ hsince.waits, ?_⟩
                rw [show q₃.resumed = _ from h₃.resumed, hstatus₃, ← hstatus]
                exact hsince.resumed
              cases ok with
              | false =>
                  exact ⟨⟨q₃, rfl⟩, hsince₃, by simp, by simp, by simp, by simp,
                    ⟨fun h => absurd h hleft₃, by simp⟩, by simp, by simp⟩
              | true =>
                  have hpc₃ : q₃.pc = q₂.pc := h₃.pc
                  refine ⟨⟨q₃, rfl⟩, hsince₃, fun _ => hstatus₃, fun _ => ?_, fun _ => ?_,
                    fun _ => ?_, ⟨fun h => absurd h hleft₃, by simp⟩, fun c hc => ?_, by simp⟩
                  · rw [hwaits₃]
                    exact hfewer
                  · rw [hending]
                    exact congrArg Ending.stopped htarget₃.symm
                  · show q₃.pc = mutPcAdjust q₃.kernel.target.eip
                    rw [hpc₃, htarget₃]
                    exact hadjusted
                  · obtain rfl : a = c := by cases hc; rfl
                    exact ⟨hmem, haddr.trans (hqpc.symm.trans hpc₃.symm)⟩

/-- What a round comes to logs no report, unless it goes wrong. -/
theorem mutRunToAction_log (hp : m.Stopped) (hidle : m.process.log.Idle) :
    wp mutRunToAction (fun r m' => Reached r → m'.process.log.Idle ∧
      m'.process.log.reports = m.process.log.reports) (fun _ => True) m := by
  unfold mutRunToAction
  rw [wp_bind, wp_liftProcess]
  refine wp_mono (mutProcessResume_spec (.refl hp hidle)) ?_ fun _ he => he
  rintro _ q₁ (⟨rfl, h₁⟩ | ⟨rfl, -⟩)
  · simp only [Bool.not_true, Bool.false_eq_true, if_false, wp_bind, wp_liftProcess]
    refine wp_mono (mutProcessWait_spec h₁.status h₁.idle) ?_ fun _ _ => trivial
    intro r q₂ h₂
    cases r with
    | exited | failed => simp
    | stopped pc =>
        obtain ⟨t, -, -, hback, -⟩ := h₂
        have hlog : q₂.log.Idle ∧ q₂.log.reports = m.process.log.reports :=
          ⟨hback.idle, hback.reports.trans h₁.reports⟩
        simp only [mutActionsLookup, wp_bind, wp_read, wp_pure]
        cases m.root.find? fun a => (m.actions a).addr = pc with
        | none => exact fun _ => hlog
        | some a =>
            simp only [mutRemoveActionBreakpoints, wp_bind, wp_read]
            refine wp_mono (mutRemoveActionBreakpointsOf_effect
              (m := { m with process := q₂ }) m.root hback.status) ?_ fun _ _ => trivial
            rintro ok m' ⟨_, _, hdone⟩
            cases ok with
            | false => simp
            | true =>
                show True → _
                rw [(hdone rfl).1]
                exact fun _ => hlog
  · simp

/-- A stop at an intercepted call is between two handlers, and so is any other. -/
theorem Came.between {r : Except (Option Bool) Routine} (h : Came m r m') (hr : Reached r)
    (hlog : m.process.log.Idle →
      m'.process.log.Idle ∧ m'.process.log.reports = m.process.log.reports) :
    Between m m' := by
  obtain ⟨q, rfl⟩ := h.rest
  exact ⟨h.stopped hr, hlog, rfl, rfl, rfl, rfl, rfl, fun _ => rfl⟩

theorem mutRunToAction_between {r : Except (Option Bool) Routine} (hp : m.Stopped)
    (hrun : mutRunToAction m = .done r m') (hr : Reached r) : Between m m' :=
  (wp_done (mutRunToAction_effect hp) hrun).between hr fun hidle =>
    wp_done (mutRunToAction_log hp hidle) hrun hr

/-! ## Rounds -/

/-- A round that `mut_run` goes on from: the call it handled, if there was one. -/
inductive Round (flags : Control) (m : Mut) : Option Visit → Mut → Prop
  | foreign {m' : Mut} : mutRunToAction m = .done (.error none) m' → Round flags m none m'
  | call {a : Routine} {mh m₁ m' : Mut} :
      mutRunToAction m = .done (.ok a) mh → mutHandle flags a mh = .done true m₁ →
      mutInstallActionBreakpoints m₁ = .done true m' → Round flags m (some ⟨a, mh⟩) m'

/-- The round in which `mut_run` returns, and what it returns. -/
inductive LastRound (flags : Control) (m : Mut) : Bool → Mut → Prop
  | left {ok : Bool} {m' : Mut} :
      mutRunToAction m = .done (.error (some ok)) m' → LastRound flags m ok m'
  | dropped {a : Routine} {mh m' : Mut} :
      mutRunToAction m = .done (.ok a) mh → mutHandle flags a mh = .done false m' →
      LastRound flags m false m'
  | bare {a : Routine} {mh m₁ m' : Mut} :
      mutRunToAction m = .done (.ok a) mh → mutHandle flags a mh = .done true m₁ →
      mutInstallActionBreakpoints m₁ = .done false m' → LastRound flags m false m'

theorem mutRunRound_done {r : Option Bool} (h : mutRunRound flags m = .done r m') :
    (r = none ∧ ∃ v, Round flags m v m') ∨ ∃ ok, r = some ok ∧ LastRound flags m ok m' := by
  obtain ⟨r₁, m₁, hcame, h⟩ := done_bind h
  cases r₁ with
  | error r₁ =>
      obtain ⟨rfl, rfl⟩ : r₁ = r ∧ m₁ = m' := by cases h; exact ⟨rfl, rfl⟩
      cases r₁ with
      | none => exact .inl ⟨rfl, none, .foreign hcame⟩
      | some ok => exact .inr ⟨ok, rfl, .left hcame⟩
  | ok a =>
      obtain ⟨ok, m₂, hhandle, h⟩ := done_bind h
      cases ok with
      | false =>
          cases h
          exact .inr ⟨false, rfl, .dropped hcame hhandle⟩
      | true =>
          obtain ⟨ok, m₃, hinstall, h⟩ := done_bind h
          cases ok with
          | false =>
              cases h
              exact .inr ⟨false, rfl, .bare hcame hhandle hinstall⟩
          | true =>
              cases h
              exact .inl ⟨rfl, _, .call hcame hhandle hinstall⟩

/-- A `mut_run` that returned is a run of rounds and a last one. -/
theorem mutRunRounds_rounds (n : Nat) {ok : Bool} (h : mutRunRounds flags n m = .done ok m') :
    ∃ vs m₁, Run (Round flags) m vs m₁ ∧ LastRound flags m₁ ok m' := by
  induction n generalizing m with
  | zero => cases h
  | succ n ih =>
      obtain ⟨r, m₁, hround, h⟩ := done_bind h
      rcases mutRunRound_done hround with ⟨rfl, v, hv⟩ | ⟨ok', rfl, hlast⟩
      · obtain ⟨vs, m₂, hrun, hlast⟩ := ih h
        exact ⟨_, m₂, (Run.next .start hv).trans hrun, hlast⟩
      · cases h
        exact ⟨[], m, .start, hlast⟩

theorem mutRun_rounds {ok : Bool} (h : mutRun flags m = .done ok m') :
    ∃ vs m₁, Run (Round flags) m vs m₁ ∧ LastRound flags m₁ ok m' := by
  obtain ⟨m₁, m₂, hread, h⟩ := done_bind h
  cases hread
  exact mutRunRounds_rounds _ h

/-! ## Rounds are steps -/

theorem Between.typed (h : Between m m') (htyped : Typed m) : Typed m' := fun a ha =>
  (h.type a).trans (htyped a (h.root ▸ ha))

theorem Replanted.between (h : Replanted m m') (hlog : m'.process.log = m.process.log) :
    Between m m' where
  stopped := h.stopped
  log hidle := by
    rw [hlog]
    exact ⟨hidle, rfl⟩
  exec := h.exec
  root := h.root
  resources := h.resources
  stats := h.stats
  mem := h.mem
  actions := h.actions

/-- A round that handles a call is a step, and then the target waits again. -/
theorem Round.step {v : Visit} (h : Round flags m (some v) m') (hp : m.Stopped)
    (htyped : Typed m) : ∃ m₁, Step flags m v m₁ ∧ Between m₁ m' := by
  cases h with
  | @call a mh m₁ _ hcame hhandle hinstall =>
      have hbetween := mutRunToAction_between hp hcame trivial
      have hfound := (wp_done (mutRunToAction_effect hp) hcame).found a rfl
      have hlisted : a ∈ mh.root := hbetween.root ▸ hfound.1
      have hacts := wp_done (mutHandle_acts hbetween.stopped
        (hbetween.typed htyped a hlisted)) hhandle
      obtain ⟨hreplanted, -, hdone⟩ :=
        wp_done (mutInstallActionBreakpointsOf_effect m₁.root (hacts.stopped rfl)) hinstall
      exact ⟨m₁, ⟨hbetween, hlisted, hhandle⟩, hreplanted.between (hdone rfl).1⟩

theorem Round.keeps {v : Option Visit} (h : Round flags m v m') (hp : m.Stopped)
    (htyped : Typed m) : m'.Stopped ∧ Typed m' := by
  cases v with
  | none =>
      cases h with
      | foreign hcame =>
          have hbetween := mutRunToAction_between hp hcame trivial
          exact ⟨hbetween.stopped, hbetween.typed htyped⟩
  | some v =>
      obtain ⟨m₁, hs, hbetween⟩ := h.step hp htyped
      exact ⟨hbetween.stopped, hbetween.typed (hs.typed htyped)⟩

theorem rounds_keep {vs : List (Option Visit)} (hrun : Run (Round flags) m₀ vs m)
    (hp : m₀.Stopped) (htyped : Typed m₀) : m.Stopped ∧ Typed m :=
  hrun.invariant (I := fun m => m.Stopped ∧ Typed m) ⟨hp, htyped⟩
    fun _ _ _ h hround => hround.keeps h.1 h.2

/-- The calls that a run of rounds handles are a run of steps. -/
theorem rounds_steps {vs : List (Option Visit)} (hrun : Run (Round flags) m₀ vs m)
    (hp : m₀.Stopped) (htyped : Typed m₀) :
    ∃ m₁, Run (Step flags) m₀ (vs.filterMap id) m₁ ∧ Between m₁ m := by
  induction hrun with
  | start => exact ⟨m₀, .start, .refl hp⟩
  | @next vs m m' v hrun hround ih =>
      obtain ⟨m₁, hsteps, hbetween⟩ := ih
      obtain ⟨hstopped, htyped'⟩ := rounds_keep hrun hp htyped
      rw [List.filterMap_append]
      cases v with
      | none =>
          cases hround with
          | foreign hcame =>
              refine ⟨m₁, ?_, hbetween.trans (mutRunToAction_between hstopped hcame trivial)⟩
              simpa using hsteps
      | some v =>
          obtain ⟨m₂, hs, hbetween'⟩ := hround.step hstopped htyped'
          exact ⟨m₂, .next hsteps ⟨hbetween.trans hs.between, hs.listed, hs.handled⟩, hbetween'⟩

theorem Round.returns {v : Option Visit} (h : Round flags m v m') :
    mutRunRound flags m = .done none m' := by
  cases h with
  | foreign hcame => exact bind_done hcame
  | call hcame hhandle hinstall =>
      unfold mutRunRound
      rw [bind_done hcame]
      show (mutHandle flags _ >>= _) _ = _
      rw [bind_done hhandle]
      show (mutInstallActionBreakpoints >>= _) _ = _
      rw [bind_done hinstall]
      rfl

/-- A run of rounds is empty, or is a round and a run after it. -/
theorem rounds_first {rounds : List (Option Visit)} (hrun : Run (Round flags) m₀ rounds m) :
    (rounds = [] ∧ m = m₀) ∨
      ∃ v rest m₁, rounds = v :: rest ∧ Round flags m₀ v m₁ ∧ Run (Round flags) m₁ rest m := by
  induction hrun with
  | start => exact .inl ⟨rfl, rfl⟩
  | @next rounds m m' v hrun hround ih =>
      rcases ih with ⟨rfl, rfl⟩ | ⟨v₁, rest, m₁, rfl, hfirst, hrest⟩
      · exact .inr ⟨v, [], m', rfl, hround, .start⟩
      · exact .inr ⟨v₁, rest ++ [v], m₁, rfl, hfirst, .next hrest hround⟩

/-! ## Rounds that are looked at -/

/-- From `m` on `mut_run` handles calls of the routines `as`, `each` is true of the tracker at
each of them, and `last` of the tracker after them. -/
def Mut.plays (flags : Control) (each : Routine → Mut → Bool) (last : Mut → Bool) :
    List Routine → Mut → Bool
  | [], m => last m
  | a :: as, m =>
      decide ((mutRunToAction m).seen (each a) = some (.ok a, true)) &&
        decide ((mutRunRound flags m).seen (Mut.plays flags each last as) = some (none, true))

/-- The target has ended at the next stop. -/
def Mut.ends (m : Mut) : Bool :=
  decide ((mutRunToAction m).seen (fun _ => ()) = some (.error (some true), ()))

theorem plays_first {each : Routine → Mut → Bool} {last : Mut → Bool} {as : List Routine}
    (h : m.plays flags each last (a :: as) = true) :
    ∃ mh m', mutRunToAction m = .done (.ok a) mh ∧ Round flags m (some ⟨a, mh⟩) m' ∧
      each a mh = true ∧ m'.plays flags each last as = true := by
  obtain ⟨hcame, hround⟩ := Bool.and_eq_true_iff.1 h
  obtain ⟨mh, hcame, heach⟩ := Outcome.of_seen (of_decide_eq_true hcame)
  obtain ⟨m', hround, hrest⟩ := Outcome.of_seen (of_decide_eq_true hround)
  refine ⟨mh, m', hcame, ?_, heach, hrest⟩
  rcases mutRunRound_done hround with ⟨-, v, hv⟩ | ⟨ok, hok, -⟩
  · cases hv with
    | foreign hforeign =>
        rw [hcame] at hforeign
        cases hforeign
    | call hcame' hhandle hinstall =>
        have hsame := hcame.symm.trans hcame'
        cases hsame
        exact .call hcame hhandle hinstall
  · cases hok

/-- When the target ends after the calls that are played, every run of rounds is the
beginning of that one. -/
theorem plays_rounds {each : Routine → Mut → Bool} {as : List Routine}
    {rounds : List (Option Visit)} (h : m₀.plays flags each Mut.ends as = true)
    (hrun : Run (Round flags) m₀ rounds m) :
    ∃ before after, as = before ++ after ∧ (rounds.filterMap id).map Visit.routine = before ∧
      (∀ v ∈ rounds.filterMap id, each v.routine v.tracker = true) ∧
      m.plays flags each Mut.ends after = true := by
  induction as generalizing m₀ rounds with
  | nil =>
      have hends : m₀.ends = true := h
      obtain ⟨m₁, hover, -⟩ := Outcome.of_seen (of_decide_eq_true hends)
      rcases rounds_first hrun with ⟨rfl, rfl⟩ | ⟨v, rest, m₂, rfl, hround, -⟩
      · exact ⟨[], [], rfl, rfl, List.forall_mem_nil _, h⟩
      · cases hround with
        | foreign hforeign =>
            rw [hover] at hforeign
            cases hforeign
        | call hcalled _ _ =>
            rw [hover] at hcalled
            cases hcalled
  | cons a as ih =>
      rcases rounds_first hrun with ⟨rfl, rfl⟩ | ⟨v, rest, m₂, rfl, hround, hrest⟩
      · exact ⟨[], a :: as, rfl, rfl, List.forall_mem_nil _, h⟩
      · obtain ⟨mh, m₁, hfound, hround', heach, hplays⟩ := plays_first h
        have hsame := hround'.returns.symm.trans hround.returns
        cases hsame
        obtain ⟨before, after, rfl, hroutines, hall, hafter⟩ := ih hplays hrest
        cases hround with
        | foreign hforeign =>
            rw [hfound] at hforeign
            cases hforeign
        | call hcalled _ _ =>
            rw [hfound] at hcalled
            cases hcalled
            exact ⟨a :: before, after, rfl, congrArg (a :: ·) hroutines,
              List.forall_mem_cons.2 ⟨heach, hall⟩, hafter⟩

/-! ## The status after `mut_run` -/

theorem Since.trans {p q q' : Process} (h : Since p q) (h' : Since q q')
    (hstopped : q.status = .stopped) : Since p q' := by
  obtain ⟨ks, hks, hstrays⟩ := h.resumed
  obtain ⟨ks', hks', hstrays'⟩ := h'.resumed
  have hnone : ¬ ∃ k ∈ ks, k.strays = true := fun hsome => by
    have hrunning := hstrays.2 hsome
    rw [hstopped] at hrunning
    cases hrunning
  refine ⟨h'.waits.trans h.waits, ks' ++ ks, by rw [hks', hks, List.append_assoc], ?_⟩
  rw [hstrays']
  simp only [List.mem_append, or_and_right, exists_or, hnone, or_false]

theorem Replanted.since (h : Replanted m m') : Since m.process m'.process :=
  .stayed h.stopped h.waits h.resumed

theorem mutRunRound_effect (hp : m.Stopped) (htyped : Typed m) :
    wp (mutRunRound flags) (fun r m' => Since m.process m'.process ∧
      (r = none → m'.Stopped ∧ Typed m') ∧ (r = some true → m'.process.status = .exited))
      Orderly m := by
  unfold mutRunRound
  rw [wp_bind]
  refine wp_mono (mutRunToAction_effect hp) ?_ fun _ he => he
  intro r m₁ h₁
  cases r with
  | error r =>
      refine ⟨h₁.since, fun hr => ?_, fun hr => ?_⟩
      · subst hr
        obtain ⟨q, rfl⟩ := h₁.rest
        exact ⟨h₁.stopped trivial, htyped⟩
      · subst hr
        exact h₁.exited.2 rfl
  | ok a =>
      obtain ⟨q, rfl⟩ := h₁.rest
      have hstopped := h₁.stopped trivial
      simp only [wp_bind]
      refine wp_mono (mutHandle_acts hstopped (htyped a (h₁.found a rfl).1)) ?_ fun _ he => he
      intro ok m₂ h₂
      have hsince : Since m.process m₂.process :=
        h₁.since.trans ⟨h₂.waits, h₂.resumed⟩ hstopped
      cases ok with
      | false => exact ⟨hsince, by simp, by simp⟩
      | true =>
          have hstopped₂ := h₂.stopped rfl
          simp only [mutInstallActionBreakpoints, Bool.not_true, Bool.false_eq_true, if_false,
            wp_bind, wp_read]
          refine wp_mono (mutInstallActionBreakpointsOf_effect m₂.root hstopped₂) ?_
            fun _ he => he
          rintro ok m₃ ⟨h₃, _, _⟩
          cases ok with
          | false => exact ⟨hsince.trans h₃.since hstopped₂, by simp, by simp⟩
          | true =>
              refine ⟨hsince.trans h₃.since hstopped₂, fun _ => ⟨h₃.stopped, fun c hc => ?_⟩,
                by simp⟩
              rw [h₃.root, h₂.frame.root] at hc
              rw [h₃.type, h₂.frame.actions]
              exact htyped c hc

theorem mutRun_effect (hp : m.Stopped) (htyped : Typed m) :
    wp (mutRun flags) (fun ok m' => Since m.process m'.process ∧
      (ok = true → m'.process.status = .exited)) Orderly m := by
  suffices hrounds : ∀ n, ∀ {m : Mut}, m.Stopped → Typed m → wp (mutRunRounds flags n)
      (fun ok m' => Since m.process m'.process ∧ (ok = true → m'.process.status = .exited))
      Orderly m from hrounds _ hp htyped
  intro n
  induction n with
  | zero => exact fun _ _ => rfl
  | succ n ih =>
      intro m hp htyped
      rw [mutRunRounds, wp_bind]
      refine wp_mono (mutRunRound_effect hp htyped) ?_ fun _ he => he
      rintro r m₁ ⟨hsince, hagain, hover⟩
      cases r with
      | none =>
          obtain ⟨hstopped, htyped₁⟩ := hagain rfl
          refine wp_mono (ih hstopped htyped₁) ?_ fun _ he => he
          exact fun ok m' h => ⟨hsince.trans h.1 hstopped, h.2⟩
      | some ok =>
          refine ⟨hsince, fun hok => hover ?_⟩
          rw [hok]

/-! ## The end of the target -/

/-- `mut_run` from `m₀` comes to the intercepted call. -/
def Reaches (flags : Control) (m₀ : Mut) (v : Visit) : Prop :=
  ∃ vs m₁, Run (Round flags) m₀ vs m₁ ∧ mutRunToAction m₁ = .done (.ok v.routine) v.tracker

/-- When the target ends while no intercepted function is running, `mut_run`
returns non-zero. -/
theorem run_reports {ok : Bool} (hp : m₀.Stopped) (htyped : Typed m₀)
    (hreturns : ∀ v, Reaches flags m₀ v → v.tracker.runs flags v.routine = true →
      ¬ v.tracker.process.Ends)
    (hrun : mutRun flags m₀ = .done ok m') (hexited : m'.process.status = .exited) :
    ok = true := by
  obtain ⟨vs, m, hrounds, hlast⟩ := mutRun_rounds hrun
  obtain ⟨hstopped, htyped'⟩ := rounds_keep hrounds hp htyped
  cases hlast with
  | left hcame =>
      have hover := (wp_done (mutRunToAction_effect hstopped) hcame).exited.1 hexited
      cases hover
      rfl
  | @dropped a mh _ hcame hhandle =>
      have hbetween := mutRunToAction_between hstopped hcame trivial
      have hfound := (wp_done (mutRunToAction_effect hstopped) hcame).found a rfl
      have hacts := wp_done (mutHandle_acts hbetween.stopped
        (hbetween.typed htyped' a (hbetween.root ▸ hfound.1))) hhandle
      obtain ⟨hruns, hends⟩ := hacts.ended hexited
      exact absurd hends (hreturns ⟨a, mh⟩ ⟨vs, m, hrounds, hcame⟩ hruns)
  | @bare a mh m₁ _ hcame hhandle hinstall =>
      have hround : m₁.Stopped := by
        have hbetween := mutRunToAction_between hstopped hcame trivial
        have hfound := (wp_done (mutRunToAction_effect hstopped) hcame).found a rfl
        exact (wp_done (mutHandle_acts hbetween.stopped
          (hbetween.typed htyped' a (hbetween.root ▸ hfound.1))) hhandle).stopped rfl
      obtain ⟨hreplanted, -⟩ :=
        wp_done (mutInstallActionBreakpointsOf_effect m₁.root hround) hinstall
      have hstatus : m'.process.status = .stopped := hreplanted.stopped
      rw [hstatus] at hexited
      cases hexited

/-- The target is at an intercepted call, which never returns to the tracker. -/
def Mut.dying (s : Stop) : Mut :=
  .small .plain (.calling 8 0) [.stopped sigtrap { Target.calling 8 0 with eip := 0x11 }, s]

/-- A target that is killed inside `malloc`. -/
theorem dying_not_reported :
    ∃ m', mutRun .plain (.dying (.signaled 11)) = .done false m' ∧
      m'.process.status = .exited :=
  Outcome.of_seen (by decide +kernel)

/-- Every call that `mut_run` comes to is one of those that are played. -/
theorem plays_reaches {each : Routine → Mut → Bool} {as : List Routine} {v : Visit}
    (h : m₀.plays flags each Mut.ends as = true) (hv : Reaches flags m₀ v) :
    each v.routine v.tracker = true := by
  obtain ⟨rounds, m, hrun, hcame⟩ := hv
  obtain ⟨before, after, -, -, -, hafter⟩ := plays_rounds h hrun
  cases after with
  | nil =>
      have hends : m.ends = true := hafter
      obtain ⟨m₁, hover, -⟩ := Outcome.of_seen (of_decide_eq_true hends)
      rw [hover] at hcame
      cases hcame
  | cons a after =>
      obtain ⟨mh, m₁, hfound, -, heach, -⟩ := plays_first hafter
      rw [hfound] at hcame
      obtain ⟨a', mh'⟩ := v
      cases hcame
      exact heach

/-- A target that obtains two blocks and ends. -/
def Mut.obtaining : Mut :=
  .small .plain (.calling 8 0) [.stopped sigtrap { Target.calling 8 0 with eip := 0x11 },
    (Target.calling 8 0).answers 0x2000,
    .stopped sigtrap { Target.calling 16 0 with eip := 0x11 },
    (Target.calling 16 0).answers 0x3000, .exited 0]

/-- Both calls return before that target ends. -/
theorem run_reports_obtaining :
    ∃ m', mutRun .plain .obtaining = .done true m' ∧ m'.process.status = .exited ∧
      m'.resources.entries = [⟨0x3000, 16, some .malloc, none⟩, ⟨0x2000, 8, some .malloc, none⟩] ∧
      ∃ v, Reaches .plain .obtaining v ∧ v.tracker.runs .plain v.routine = true := by
  have hplays : (Mut.obtaining).plays .plain (fun _ mh => mh.returning.isSome) Mut.ends
      [.malloc, .malloc] = true := by decide +kernel
  have hreturns : ∀ v, Reaches .plain .obtaining v → v.tracker.runs .plain v.routine = true →
      ¬ v.tracker.process.Ends := by
    intro v hv _ hends
    have hreturn := plays_reaches hplays hv
    rw [Mut.returning, Process.returning, hends] at hreturn
    cases hreturn
  obtain ⟨m', hrun, hexited, hentries⟩ : ∃ m', mutRun .plain .obtaining = .done true m' ∧
      m'.process.status = .exited ∧ m'.resources.entries =
        [⟨0x3000, 16, some .malloc, none⟩, ⟨0x2000, 8, some .malloc, none⟩] := by
    obtain ⟨m', hrun, hlook⟩ : ∃ m', mutRun .plain .obtaining = .done true m' ∧
        (m'.process.status, m'.resources.entries) = (.exited,
          [⟨0x3000, 16, some .malloc, none⟩, ⟨0x2000, 8, some .malloc, none⟩]) :=
      Outcome.of_seen (by decide +kernel)
    exact ⟨m', hrun, (Prod.mk.inj hlook).1, (Prod.mk.inj hlook).2⟩
  obtain ⟨mh, m₁, hcame, -⟩ := plays_first hplays
  exact ⟨m', run_reports rfl (fun _ _ => rfl) hreturns hrun hexited ▸ hrun, hexited, hentries,
    ⟨.malloc, mh⟩, ⟨[], _, .start, hcame⟩, rfl⟩

/-! ## Stops that are not the tracker's -/

/-- After a stop at none of the tracker's breakpoints the target is resumed one
byte before the program counter at which it had stopped. -/
theorem foreign_stop_shifted {p : Process} (hp : m.Stopped)
    (hcame : mutRunToAction m = .done (.error none) m')
    (hresume : mutProcessResume m'.process = .done true p) :
    ∃ t, ending m.process.kernel.waits = .stopped t ∧ p.kernel.target.eip = t.eip - 1 ∧
      p.kernel.target.eip ≠ t.eip := by
  have h := wp_done (mutRunToAction_effect hp) hcame
  have hleft := wp_done (mutProcessResume_effect (h.stopped trivial)) hresume
  have heip : p.kernel.target.eip = m'.target.eip - 1 := by
    rw [hleft.target rfl, h.pc trivial]
    rfl
  refine ⟨m'.target, h.target trivial, heip, ?_⟩
  rw [heip]
  intro hsame
  have hone : m'.target.eip - 1 ≠ m'.target.eip := by bv_omega
  exact hone hsame

/-- The target stops after a trap instruction of its own at 0x500. -/
def Mut.trapping : Mut :=
  .small .plain (.calling 8 0) [.stopped sigtrap { Target.calling 8 0 with eip := 0x501 }]

theorem foreign_stop_shifted_trap :
    ∃ m' p, mutRunToAction .trapping = .done (.error none) m' ∧
      mutProcessResume m'.process = .done true p ∧ ∃ t,
        ending (Mut.trapping).process.kernel.waits = .stopped t ∧
          p.kernel.target.eip = t.eip - 1 ∧ p.kernel.target.eip ≠ t.eip := by
  obtain ⟨m', hrun, hlook⟩ : ∃ m', mutRunToAction .trapping = .done (.error none) m' ∧
      ((mutProcessResume m'.process).seen fun p => p.kernel.target.eip) = some (true, 0x500) :=
    Outcome.of_seen (by decide +kernel)
  obtain ⟨p, hp, -⟩ := Outcome.of_seen hlook
  exact ⟨m', p, hrun, hp, foreign_stop_shifted rfl hrun hp⟩

/-- The target is resumed at the trap instruction again. -/
theorem trapping_resumed :
    ∃ m' p, mutRunToAction .trapping = .done (.error none) m' ∧ m'.target.eip = 0x501 ∧
      mutProcessResume m'.process = .done true p ∧ p.kernel.target.eip = 0x500 := by
  obtain ⟨m', hrun, hlook⟩ : ∃ m', mutRunToAction .trapping = .done (.error none) m' ∧
      (m'.target.eip, (mutProcessResume m'.process).seen fun p => p.kernel.target.eip) =
        (0x501, some (true, 0x500)) := Outcome.of_seen (by decide +kernel)
  obtain ⟨heip, hresume⟩ := Prod.mk.inj hlook
  obtain ⟨p, hp, hresumed⟩ := Outcome.of_seen hresume
  exact ⟨m', p, hrun, heip, hp, hresumed⟩

end MutTracker.Source
