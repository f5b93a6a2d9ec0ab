/-!
# Runs of a labelled step relation

A system takes labelled steps; a run is a finite sequence of them.  Two
rules carry every statement about runs: an invariant of the steps is an
invariant of the runs, and a step-by-step simulation by a function on
abstract states makes the abstract state of a run the fold of its labels.

A mark that every step keeps at the higher of itself and a value of the new
state is a high-water mark of that value over the states passed through.

## Main results

* `Run.invariant`, `Run.simulates`, `Run.related` — steps to runs.
* `Run.traced` — an invariant that knows the labels so far.
* `Run.of_foldlM` — a run that is computed.
* `Run.attained`, `Run.highest` — high-water marks.
-/

namespace MutTracker.Logic

variable {σ ℓ α : Type}

/-- `Run step s trace s'`: the steps labelled by `trace`, in order, lead from
`s` to `s'`. -/
inductive Run (step : σ → ℓ → σ → Prop) (s : σ) : List ℓ → σ → Prop
  | start : Run step s [] s
  | next {trace : List ℓ} {s' s'' : σ} {l : ℓ} :
      Run step s trace s' → step s' l s'' → Run step s (trace ++ [l]) s''

namespace Run

variable {step step' : σ → ℓ → σ → Prop} {s s' : σ} {trace : List ℓ}

/-- An invariant of every step is an invariant of every run. -/
theorem invariant {I : σ → Prop} (hrun : Run step s trace s') (h : I s)
    (hstep : ∀ t l t', I t → step t l t' → I t') : I s' := by
  induction hrun with
  | start => exact h
  | next _ hl ih => exact hstep _ _ _ ih hl

/-- A step simulated by `astep` along `abs`, under an invariant, makes the
abstract state after a run the fold of its labels. -/
theorem simulates {I : σ → Prop} (abs : σ → α) (astep : α → ℓ → α)
    (hrun : Run step s trace s') (h : I s)
    (hkeep : ∀ t l t', I t → step t l t' → I t')
    (hsim : ∀ t l t', I t → step t l t' → abs t' = astep (abs t) l) :
    abs s' = trace.foldl astep (abs s) := by
  induction hrun with
  | start => rfl
  | next hrun hl ih =>
      rw [List.foldl_append, ← ih]
      exact hsim _ _ _ (hrun.invariant h hkeep) hl

/-- The relational form of `simulates`: abstract steps need only preserve a
relation to the concrete state. -/
theorem related {R : σ → α → Prop} {astep : α → ℓ → α} {a : α}
    (hrun : Run step s trace s') (h : R s a)
    (hstep : ∀ t l t' b, R t b → step t l t' → R t' (astep b l)) :
    R s' (trace.foldl astep a) := by
  induction hrun with
  | start => exact h
  | next _ hl ih =>
      rw [List.foldl_append]
      exact hstep _ _ _ _ ih hl

/-- A run of a restricted system is a run of the whole one. -/
theorem mono (hrun : Run step s trace s') (h : ∀ t l t', step t l t' → step' t l t') :
    Run step' s trace s' := by
  induction hrun with
  | start => exact .start
  | next _ hl ih => exact .next ih (h _ _ _ hl)

/-- A run whose labels all satisfy `P` is a run of the steps that do. -/
theorem restrict {P : ℓ → Prop} (hrun : Run step s trace s') (h : ∀ l ∈ trace, P l) :
    Run (fun t l t' => step t l t' ∧ P l) s trace s' := by
  induction hrun with
  | start => exact .start
  | next _ hl ih =>
      refine .next (ih fun l hmem => h l (List.mem_append_left _ hmem)) ⟨hl, h _ ?_⟩
      exact List.mem_append_right _ List.mem_cons_self

/-- An invariant of the state and of the labels that led to it. -/
theorem traced {R : List ℓ → σ → Prop} (hrun : Run step s trace s') (h : R [] s)
    (hstep : ∀ ls t l t', R ls t → step t l t' → R (ls ++ [l]) t') : R trace s' := by
  induction hrun with
  | start => exact h
  | next _ hl ih => exact hstep _ _ _ _ ih hl

theorem trans {after : List ℓ} {s'' : σ} (hrun : Run step s trace s')
    (hafter : Run step s' after s'') : Run step s (trace ++ after) s'' := by
  induction hafter with
  | start => rw [List.append_nil]; exact hrun
  | next _ hl ih => rw [← List.append_assoc]; exact .next ih hl

/-- Steps that are computed one after the other are a run. -/
theorem of_foldlM {f : σ → ℓ → Option σ} (hf : ∀ t l t', f t l = some t' → step t l t')
    (h : trace.foldlM f s = some s') : Run step s trace s' := by
  induction trace generalizing s with
  | nil =>
      obtain rfl : s = s' := Option.some.inj h
      exact .start
  | cons l trace ih =>
      rw [List.foldlM_cons] at h
      obtain ⟨t, hl, hrest⟩ := Option.bind_eq_some_iff.1 h
      exact (Run.next .start (hf s l t hl)).trans (ih hrest)

end Run

/-! ## High-water marks -/

/-- A run from `s` to `s'` passes through `t`. -/
def Through (step : σ → ℓ → σ → Prop) (s : σ) (trace : List ℓ) (s' t : σ) : Prop :=
  ∃ before after, trace = before ++ after ∧ Run step s before t ∧ Run step t after s'

namespace Through

variable {step step' : σ → ℓ → σ → Prop} {s s' s'' t : σ} {trace : List ℓ} {l : ℓ}

theorem last (hrun : Run step s trace s') : Through step s trace s' s' :=
  ⟨trace, [], (List.append_nil trace).symm, hrun, .start⟩

theorem next (h : Through step s trace s' t) (hl : step s' l s'') :
    Through step s (trace ++ [l]) s'' t := by
  obtain ⟨before, after, rfl, hbefore, hafter⟩ := h
  exact ⟨before, after ++ [l], List.append_assoc .., hbefore, .next hafter hl⟩

theorem mono (h : Through step s trace s' t) (hle : ∀ t l t', step t l t' → step' t l t') :
    Through step' s trace s' t := by
  obtain ⟨before, after, htrace, hbefore, hafter⟩ := h
  exact ⟨before, after, htrace, hbefore.mono hle, hafter.mono hle⟩

theorem restrict {P : ℓ → Prop} (h : Through step s trace s' t) (hP : ∀ l ∈ trace, P l) :
    Through (fun t l t' => step t l t' ∧ P l) s trace s' t := by
  obtain ⟨before, after, rfl, hbefore, hafter⟩ := h
  exact ⟨before, after, rfl, hbefore.restrict fun l hl => hP l (List.mem_append_left _ hl),
    hafter.restrict fun l hl => hP l (List.mem_append_right _ hl)⟩

end Through

/-- The steps keep `mark` at the higher of itself and `val` of the new state. -/
def Marks (step : σ → ℓ → σ → Prop) (I : σ → Prop) (height : α → Nat) (val mark : σ → α) :
    Prop :=
  ∀ t l t', I t → step t l t' → height (val t) ≤ height (mark t) →
    mark t' = if height (mark t) < height (val t') then val t' else mark t

namespace Run

variable {step : σ → ℓ → σ → Prop} {s s' : σ} {trace : List ℓ} {I : σ → Prop}
  {height : α → Nat} {val mark : σ → α}

/-- A mark never falls, and is never below the present value. -/
theorem marked (hrun : Run step s trace s') (h : I s)
    (hkeep : ∀ t l t', I t → step t l t' → I t') (hmark : Marks step I height val mark)
    (hfirst : height (val s) ≤ height (mark s)) :
    I s' ∧ height (val s') ≤ height (mark s') ∧ height (mark s) ≤ height (mark s') := by
  refine hrun.invariant (I := fun t => I t ∧ height (val t) ≤ height (mark t) ∧
    height (mark s) ≤ height (mark t)) ⟨h, hfirst, Nat.le_refl _⟩ ?_
  rintro t l t' ⟨ht, hval, hle⟩ hl
  refine ⟨hkeep t l t' ht hl, ?_⟩
  rw [hmark t l t' ht hl hval]
  split
  · omega
  · omega

/-- A mark is the value of some state of the run. -/
theorem attained (hrun : Run step s trace s') (h : I s)
    (hkeep : ∀ t l t', I t → step t l t' → I t') (hmark : Marks step I height val mark)
    (hfirst : mark s = val s) : ∃ t, Through step s trace s' t ∧ mark s' = val t := by
  induction hrun with
  | start => exact ⟨s, .last .start, hfirst⟩
  | next hrun hl ih =>
      obtain ⟨t, ht, hval⟩ := ih
      obtain ⟨hs, hle, -⟩ := hrun.marked h hkeep hmark (Nat.le_of_eq (by rw [hfirst]))
      have hnew := hmark _ _ _ hs hl hle
      split at hnew
      · exact ⟨_, .last (.next hrun hl), hnew⟩
      · exact ⟨t, ht.next hl, hnew.trans hval⟩

/-- No state of the run is above the mark. -/
theorem highest {t : σ} (ht : Through step s trace s' t) (h : I s)
    (hkeep : ∀ t l t', I t → step t l t' → I t') (hmark : Marks step I height val mark)
    (hfirst : mark s = val s) : height (val t) ≤ height (mark s') := by
  obtain ⟨before, after, -, hbefore, hafter⟩ := ht
  obtain ⟨hI, hle, -⟩ := hbefore.marked h hkeep hmark (Nat.le_of_eq (by rw [hfirst]))
  exact Nat.le_trans hle (hafter.marked hI hkeep hmark hle).2.2

end Run

end MutTracker.Logic
