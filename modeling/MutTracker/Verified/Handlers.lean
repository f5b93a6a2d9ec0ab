import MutTracker.Source.Run
import MutTracker.Verified.Realloc

/-!
# Any handler

`mut_run` picks the handler by the type of the action.  Whichever it is, a
handler that returns non-zero has taken the account one `Book.step` on.

## Main results

* `mutHandle_spec` — how the handler of an intercepted call ends.
* `mutHandle_served`, `mutHandle_dropped`, `mutHandle_halts` — the same, read at a run.
* `mutHandle_returns` — when the handler goes well.
-/

namespace MutTracker.Source

open MutTracker.Logic MutTracker.Logic.Prog

variable {flags : Control} {m m' : Mut} {a : Routine}

theorem mutDoUsage_spec (hready : Ready flags m) :
    wp (mutDoUsage flags .usage) (Handled flags m .usage) (Stops flags m .usage) m := by
  have h := hready.midway
  unfold mutDoUsage
  refine wp_seq (h.quiet (mutReportUsage_spec h.books h.idle)) (fun _ he => he) ?_
  rintro _ m₁ ⟨h₁, -, -⟩
  refine h₁.lift (mutProcessFunctionReturnAddr_spec h₁.calm) (fun m₂ h₂ _ _ => ?_) (.false _)
  refine wp_mono (h₂.acted (a := .usage) rfl) ?_ fun _ he => he
  rintro ok m₃ (⟨rfl, -, -, t', hret, h₃⟩ | ⟨rfl, -, hdropped⟩)
  · refine h₃.served rfl rfl (fun _ => ⟨t', hret, rfl⟩) nofun (fun hunmet => ?_)
      (fun hdamaged => ?_) (not_stuck nofun)
    · simpa using hunmet.routine
    · simpa using hdamaged.consumer
  · exact .inr ⟨rfl, hdropped⟩

theorem mutHandle_spec (hready : Ready flags m) (ha : a ∈ m.root) (hfresh : Fresh flags m a) :
    wp (mutHandle flags a) (Handled flags m a) (Stops flags m a) m := by
  simp only [mutHandle, wp_bind, wp_read, hready.types a ha]
  cases a with
  | malloc => exact mutDoMalloc_spec hready hfresh
  | calloc => exact mutDoCalloc_spec hready hfresh
  | realloc => exact mutDoRealloc_spec hready hfresh
  | free => exact mutDoConsumer_spec hready (.inl rfl)
  | cfree => exact mutDoConsumer_spec hready (.inr rfl)
  | usage => exact mutDoUsage_spec hready

theorem mutHandle_served (hready : Ready flags m) (ha : a ∈ m.root)
    (hfresh : Fresh flags m a) (hdone : mutHandle flags a m = .done true m') :
    ∃ t, Served flags m a t m' := by
  rcases wp_done (mutHandle_spec hready ha hfresh) hdone with ⟨-, hserved⟩ | ⟨hok, -⟩
  · exact hserved
  · cases hok

theorem mutHandle_dropped (hready : Ready flags m) (ha : a ∈ m.root)
    (hfresh : Fresh flags m a) (hdone : mutHandle flags a m = .done false m') :
    Dropped flags m a m' := by
  rcases wp_done (mutHandle_spec hready ha hfresh) hdone with ⟨hok, -⟩ | ⟨-, hdropped⟩
  · cases hok
  · exact hdropped

theorem mutHandle_halts {e : Halt} (hready : Ready flags m) (ha : a ∈ m.root)
    (hfresh : Fresh flags m a) (hhalt : mutHandle flags a m = .halt e) : Stops flags m a e :=
  wp_halted (mutHandle_spec hready ha hfresh) hhalt

/-! ## When everything goes well -/

/-- Every `ptrace` call and every allocation of the tracker succeeds, and the
function comes back when it is let run. -/
structure Smooth (flags : Control) (m : Mut) (a : Routine) : Prop where
  granted : ∀ f ∈ m.process.kernel.faults, f = none
  roomy : ∀ f ∈ m.mem.full, f = none
  returns : m.runs flags a = true → m.returning.isSome

theorem Smooth.not_faulted {q : Process} (h : Smooth flags m a) : ¬ m.process.Faulted q := by
  rintro ⟨answers, errno, heq, hmem⟩
  have hnone := h.granted (some errno) (heq ▸ List.mem_append_left _ hmem)
  cases hnone

theorem Smooth.not_failed {μ : Mem} (h : Smooth flags m a) : ¬ m.mem.Failed μ := by
  rintro ⟨answers, errno, heq, hmem⟩
  have hnone := h.roomy (some errno) (heq ▸ List.mem_append_left _ hmem)
  cases hnone

/-- Where nothing is refused a handler gives up only over a failed `realloc` or damaged
marks. -/
theorem Smooth.dropped (h : Smooth flags m a) (hdropped : Dropped flags m a m') :
    Unmet flags m a ∨ Damaged flags m a := by
  cases hdropped with
  | faulted hfault => exact absurd hfault h.not_faulted
  | failed hfail _ => exact absurd hfail h.not_failed
  | away hruns hnone _ =>
      have hsome := h.returns hruns
      rw [hnone] at hsome
      cases hsome
  | unmet hunmet => exact .inl hunmet
  | damaged hdamaged => exact .inr hdamaged

/-- Where nothing is refused a handler halts only over the list or over an address. -/
theorem Smooth.halts {e : Halt} (h : Smooth flags m a) (hstops : Stops flags m a e) :
    Stuck flags m a ∨ ¬ Aligned m a := by
  cases hstops with
  | blocked hruns hhangs =>
      have hsome := h.returns hruns
      rw [Mut.returning, Process.returning, show ending m.process.kernel.waits = .never from hhangs]
        at hsome
      cases hsome
  | revived hrevived => exact .inl (.inl hrevived)
  | unmoved hunmoved => exact .inl (.inr hunmoved)
  | unaligned hnot => exact .inr hnot

/-- The handler goes well. -/
theorem mutHandle_returns (hready : Ready flags m) (ha : a ∈ m.root) (hfresh : Fresh flags m a)
    (hsmooth : Smooth flags m a) (hmet : ¬ Unmet flags m a) (hwhole : ¬ Damaged flags m a)
    (hfree : ¬ Stuck flags m a) (haligned : Aligned m a) :
    ∃ t m', mutHandle flags a m = .done true m' ∧ Served flags m a t m' := by
  have hspec := mutHandle_spec hready ha hfresh
  cases hrun : mutHandle flags a m with
  | done ok m' =>
      rcases wp_done hspec hrun with ⟨rfl, t, hserved⟩ | ⟨rfl, hdropped⟩
      · exact ⟨t, m', rfl, hserved⟩
      · rcases hsmooth.dropped hdropped with hunmet | hdamaged
        · exact absurd hunmet hmet
        · exact absurd hdamaged hwhole
  | halt e =>
      rcases hsmooth.halts (wp_halted hspec hrun) with hstuck | hnot
      · exact absurd hstuck hfree
      · exact absurd haligned hnot

end MutTracker.Source
