import MutTracker.Verified.Handed
import MutTracker.Verified.Layout
import MutTracker.Verified.Warnings

/-!
# What the allocator is asked for

In check mode a producer's function is asked for more than the target asked
for: room for the object and for two marks.  The new size is computed in 32
bits.  `Mut.Roomy` is when that is enough; otherwise a request that is too
large becomes a small one.

## Main results

* `asked_iff` — when the function is asked for enough.
* `wraps_round` — a `malloc` of all the memory asks for eight bytes.
-/

namespace MutTracker.Source

open MutTracker.Logic MutTracker.Logic.Prog

variable {flags : Control} {m m' : Mut} {a : Routine} {t : Target} {v pc : Word} {ok : Bool}
  {k : Kernel}

/-! ## Arguments of a call -/

@[simp] theorem arg_setArg (n : Word) : (t.setArg n v).arg n = v :=
  Memory.readWord_writeWord_self

theorem args_apart (esp : Word) : Memory.Apart (argAddr esp 0) (argAddr esp 1) := by
  unfold argAddr mutArgSize
  constructor <;> bv_omega

@[simp] theorem arg_zero_setArg_one : (t.setArg 1 v).arg 0 = t.arg 0 :=
  Memory.readWord_writeWord_apart (args_apart t.esp).symm

/-- What a call of the function asks of the allocator, as a number. -/
def Target.asks (t : Target) : Routine → Nat
  | .malloc => (t.arg 0).toNat
  | .calloc => (t.arg 0).toNat * (t.arg 1).toNat
  | .realloc => (t.arg 1).toNat
  | .free | .cfree | .usage => 0

/-! ## Enough room -/

/-- The new size of the call is computed, and without wrapping round. -/
def Mut.Roomy (flags : Control) (m : Mut) : Routine → Prop
  | .malloc => m.target.asks .malloc + 12 ≤ 2 ^ 32
  | .calloc => m.target.asks .calloc < 2 ^ 32
  | .realloc =>
      m.target.asks .realloc + 12 ≤ 2 ^ 32 ∧
        (flags.free = false ∨ m.target.arg 0 = 0 ∨ (m.find (m.target.arg 0)).isSome)
  | .free | .cfree | .usage => False

theorem roundUp_enough (size : Word) :
    size.toNat + 8 ≤ (mutRoundUp size).toNat ↔ size.toNat + 12 ≤ 2 ^ 32 := by
  have hlt := size.isLt
  rw [roundUp_toNat]
  omega

theorem callocZones_enough (nElems elemSize : Word) :
    nElems.toNat * elemSize.toNat + 8 ≤ (mutCallocZones nElems elemSize).toNat * 4 ↔
      nElems.toNat * elemSize.toNat < 2 ^ 32 := by
  rw [callocZones_toNat]
  omega

/-- What a producer is handed asks for enough exactly when there is room. -/
theorem handed_enough (hcheck : flags.check = true) (hproduces : a.produces = true) :
    m.target.asks a + 8 ≤ (m.handed flags a).asks a ↔ m.Roomy flags a := by
  cases a with
  | malloc =>
      have hset : m.handed flags .malloc =
          m.target.setArg 0 (mutRoundUp (m.target.arg 0)) := if_pos hcheck
      rw [hset, Target.asks, Target.asks, arg_setArg]
      exact roundUp_enough _
  | calloc =>
      have hset : m.handed flags .calloc = (m.target.setArg 0
          (mutCallocZones (m.target.arg 0) (m.target.arg 1))).setArg 1 mutZoneSize :=
        if_pos hcheck
      rw [hset, Target.asks, Target.asks, arg_setArg, arg_zero_setArg_one, arg_setArg]
      exact callocZones_enough _ _
  | realloc =>
      by_cases hsized : flags.free = false ∨ m.target.arg 0 = 0 ∨ (m.find (m.target.arg 0)).isSome
      · rw [handed_sized rfl hsized, if_pos hcheck, Mut.Roomy, and_iff_left hsized, Target.asks,
          Target.asks, arg_setArg]
        exact roundUp_enough _
      · have hfree : flags.free = true := by
          cases hfree : flags.free with
          | true => rfl
          | false => exact absurd (.inl hfree) hsized
        have hnonzero : m.target.arg 0 ≠ 0 := fun h => hsized (.inr (.inl h))
        have hnone : m.find (m.target.arg 0) = none := by
          cases hfind : m.find (m.target.arg 0) with
          | none => rfl
          | some e => exact absurd (.inr (.inr (by rw [hfind]; rfl))) hsized
        rw [handed_unsized hfree hnonzero hnone]
        refine iff_of_false (by omega) fun h => hsized h.2
  | free | cfree | usage => cases hproduces

/-- In check mode, from any state in which the process is stopped: when the
handler of a producer lets the target run, the function is asked for the size
that the target asked for and two zones exactly when there is room. -/
theorem asked_iff (hp : m.Stopped) (htype : (m.actions a).type = a.type)
    (hcheck : flags.check = true) (hproduces : a.produces = true)
    (h : mutHandle flags a m = .done ok m')
    (hk : m'.process.resumed = k :: m.process.resumed) :
    m.target.asks a + 2 * mutZoneSize.toNat ≤ k.target.asks a ↔ m.Roomy flags a := by
  rw [← handed_enough hcheck hproduces]
  have hasked : k.target.asks a = (m.handed flags a).asks a := by
    rcases wp_done (mutHandle_hands hp htype hproduces) h with hnot | ⟨k', hk', pc, htarget⟩
    · exact absurd (hk.symm.trans hnot) (List.cons_ne_self _ _)
    · obtain rfl : k = k' := (List.cons.inj (hk.symm.trans hk')).1
      rw [htarget]
      cases a <;> rfl
  rw [hasked]
  rfl

/-! ## Calls of malloc -/

/-- A call of `malloc`, whose allocator returns a block at 0x2000. -/
def mallocOf (size : Word) : Mut :=
  .small .checking (.calling size 0) [(Target.calling size 0).answers 0x2000]

/-- The sizes that the function was asked for, each time it was let run. -/
def Mut.sizes (m : Mut) : List Word := m.process.resumed.map fun k => k.target.arg 0

theorem mallocOf_runs (size s : Word)
    (hseen : (mutHandle .checking .malloc (mallocOf size)).seen Mut.sizes = some (true, [s])) :
    ∃ m' k, mutHandle .checking .malloc (mallocOf size) = .done true m' ∧
      m'.process.resumed = k :: (mallocOf size).process.resumed ∧ k.target.arg 0 = s := by
  obtain ⟨m', hm', hsizes⟩ := Outcome.of_seen hseen
  obtain ⟨k, ks, hks, harg, hnil⟩ := List.map_eq_cons_iff.1 hsizes
  rw [List.map_eq_nil_iff] at hnil
  rw [hnil] at hks
  exact ⟨m', k, hm', hks, harg⟩

theorem asked_iff_malloc : ∃ m' k,
    mutHandle .checking .malloc (mallocOf 5) = .done true m' ∧
      m'.process.resumed = k :: (mallocOf 5).process.resumed ∧ 5 + 8 ≤ k.target.asks .malloc := by
  obtain ⟨m', k, hm', hk, -⟩ := mallocOf_runs 5 16 (by decide +kernel)
  have hroomy : (mallocOf 5).Roomy .checking .malloc := by
    show ((mallocOf 5).target.arg 0).toNat + 12 ≤ 2 ^ 32
    decide +kernel
  have hfive : (mallocOf 5).target.asks .malloc = 5 := by
    show ((mallocOf 5).target.arg 0).toNat = 5
    decide +kernel
  refine ⟨m', k, hm', hk, ?_⟩
  have hchecks : Control.checking.check = true := rfl
  have hasked := (asked_iff (a := .malloc) rfl rfl hchecks rfl hm' hk).2 hroomy
  rw [hfive] at hasked
  exact hasked

/-- To allocate all the memory the target asks for 2³² - 1 bytes, and the
allocator is asked for eight and returns a block. -/
theorem wraps_round : ∃ m' k,
    mutHandle .checking .malloc (mallocOf 0xffffffff) = .done true m' ∧
      m'.process.resumed = k :: (mallocOf 0xffffffff).process.resumed ∧
      (mallocOf 0xffffffff).target.asks .malloc = 2 ^ 32 - 1 ∧ k.target.asks .malloc = 8 := by
  obtain ⟨m', k, hm', hk, harg⟩ := mallocOf_runs 0xffffffff 8 (by decide +kernel)
  have hall : ((mallocOf 0xffffffff).target.arg 0).toNat = 2 ^ 32 - 1 := by decide +kernel
  refine ⟨m', k, hm', hk, hall, ?_⟩
  show (k.target.arg 0).toNat = 8
  rw [harg]
  rfl

end MutTracker.Source
