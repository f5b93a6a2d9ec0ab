import MutTracker.Logic.Peak
import MutTracker.Verified.Uint64

/-!
# Comparing 64-bit counters

`mut_uint64_lt` asks both words of the first counter to be below those of the
second.  What it says is below is below, but it misses a counter with a higher
high word whose low word is not higher too, and so do the maxima of the
statistics, which are kept by it.

## Main results

* `lt_iff` — for which counters the comparison is right.
* `lt_exact_iff` — the same, with the sequences for which the maxima are right.
* `lt_misses` — 1 and 2³².
-/

namespace MutTracker.Source

open MutTracker.Logic

variable {a b : Uint64}

/-- The comparison says no although `b` is above `a`. -/
def Uint64.Overlooks (a b : Uint64) : Prop := a.hi < b.hi ∧ b.lo ≤ a.lo

theorem mutUint64Lt_iff : mutUint64Lt a b = true ↔ a.hi ≤ b.hi ∧ a.lo < b.lo := by
  rw [mutUint64Lt, Bool.and_eq_true, decide_eq_true_iff, decide_eq_true_iff]

theorem mutUint64Lt_sound (a b : Uint64) (h : mutUint64Lt a b = true) : a.val < b.val := by
  obtain ⟨hhi, hlo⟩ := mutUint64Lt_iff.1 h
  have hhi : a.hi.toNat ≤ b.hi.toNat := hhi
  have hlo : a.lo.toNat < b.lo.toNat := hlo
  unfold Uint64.val
  omega

theorem overlooks_iff : a.Overlooks b ↔ Misses mutUint64Lt Uint64.val a b := by
  have hwords : mutUint64Lt a b = false ↔
      ¬ (a.hi.toNat ≤ b.hi.toNat ∧ a.lo.toNat < b.lo.toNat) := by
    rw [← Bool.not_eq_true, mutUint64Lt_iff]
    exact Iff.rfl
  have ha := a.lo.isLt
  have hb := b.lo.isLt
  rw [Misses, hwords]
  show a.hi.toNat < b.hi.toNat ∧ b.lo.toNat ≤ a.lo.toNat ↔ _
  unfold Uint64.val
  omega

/-- The comparison is right exactly when it overlooks nothing. -/
theorem lt_iff : (mutUint64Lt a b = true ↔ a.val < b.val) ↔ ¬ a.Overlooks b := by
  rw [overlooks_iff]
  constructor
  · rintro h ⟨habove, hlt⟩
    rw [h.2 habove] at hlt
    cases hlt
  · intro h
    refine ⟨mutUint64Lt_sound a b, fun habove => ?_⟩
    cases hlt : mutUint64Lt a b with
    | true => rfl
    | false => exact absurd ⟨habove, hlt⟩ h

/-- The comparison of the other implementation is the one of the values. -/
theorem longLongLt_iff :
    longLongLt (BitVec.ofNat 64 a.val) (BitVec.ofNat 64 b.val) = true ↔ a.val < b.val := by
  rw [longLongLt, decide_eq_true_iff, BitVec.lt_def, BitVec.toNat_ofNat, BitVec.toNat_ofNat,
    Nat.mod_eq_of_lt a.val_lt, Nat.mod_eq_of_lt b.val_lt]

/-! ## The maxima -/

/-- After each producer call the maxima are as high as all counters so far. -/
def Recorded (nows : List CounterStat) : Prop :=
  ∀ seen, seen <+: nows → ∀ now ∈ seen,
    now.space.val ≤ (seen.foldl mutCollectMax .zero).space.space.val ∧
      now.count.val ≤ (seen.foldl mutCollectMax .zero).count.count.val

/-- A sequence of values in which none is overlooked against the highest before
it. -/
def Noticed (xs : List Uint64) : Prop :=
  ∀ seen x, seen ++ [x] <+: xs → ¬ (top Uint64.val (mutUint64FromUint 0) seen).Overlooks x

theorem noticed_iff {xs : List Uint64} :
    Noticed xs ↔ Covers mutUint64Lt Uint64.val (mutUint64FromUint 0) xs := by
  rw [covers_iff mutUint64Lt_sound]
  refine forall_congr' fun seen => forall_congr' fun x => imp_congr_right fun _ => ?_
  exact not_congr overlooks_iff

theorem foldl_space (nows : List CounterStat) (max : CounterMax) :
    (nows.foldl mutCollectMax max).space.space =
      peak mutUint64Lt max.space.space (nows.map CounterStat.space) := by
  induction nows generalizing max with
  | nil => rfl
  | cons now nows ih =>
      rw [List.foldl_cons, ih, List.map_cons, peak, peak, List.foldl_cons]
      congr 1
      rw [mutCollectMax]
      exact apply_ite CounterStat.space _ now max.space

theorem foldl_count (nows : List CounterStat) (max : CounterMax) :
    (nows.foldl mutCollectMax max).count.count =
      peak mutUint64Lt max.count.count (nows.map CounterStat.count) := by
  induction nows generalizing max with
  | nil => rfl
  | cons now nows ih =>
      rw [List.foldl_cons, ih, List.map_cons, peak, peak, List.foldl_cons]
      congr 1
      rw [mutCollectMax]
      exact apply_ite CounterStat.count _ now max.count

/-- What covers the values of the counters of a sequence. -/
theorem covers_map (f : CounterStat → Uint64) (nows : List CounterStat) :
    Covers mutUint64Lt Uint64.val (mutUint64FromUint 0) (nows.map f) ↔
      ∀ seen, seen <+: nows → ∀ now ∈ seen,
        (f now).val ≤ (peak mutUint64Lt (mutUint64FromUint 0) (seen.map f)).val := by
  constructor
  · intro h seen hseen now hnow
    exact h _ (hseen.map f) _ (List.mem_map_of_mem hnow)
  · intro h seen hseen x hx
    obtain ⟨seen', hseen', rfl⟩ := List.prefix_map_iff.1 hseen
    obtain ⟨now, hnow, rfl⟩ := List.mem_map.1 hx
    exact h seen' hseen' now hnow

theorem recorded_iff {nows : List CounterStat} :
    Recorded nows ↔
      Noticed (nows.map CounterStat.space) ∧ Noticed (nows.map CounterStat.count) := by
  rw [noticed_iff, noticed_iff, covers_map, covers_map]
  constructor
  · intro h
    refine ⟨fun seen hseen now hnow => ?_, fun seen hseen now hnow => ?_⟩
    · have hkept := (h seen hseen now hnow).1
      rwa [foldl_space] at hkept
    · have hkept := (h seen hseen now hnow).2
      rwa [foldl_count] at hkept
  · rintro ⟨hspace, hcount⟩ seen hseen now hnow
    rw [foldl_space, foldl_count]
    exact ⟨hspace seen hseen now hnow, hcount seen hseen now hnow⟩

/-- Two counters are compared as their values are, by both implementations, and
a sequence of counters leaves its maxima, for exactly the counters and the
sequences in which nothing is overlooked. -/
theorem lt_exact_iff (a b : Uint64) (nows : List CounterStat) :
    (((mutUint64Lt a b = true ↔ a.val < b.val) ∧
        mutUint64Lt a b = longLongLt (BitVec.ofNat 64 a.val) (BitVec.ofNat 64 b.val)) ↔
      ¬ a.Overlooks b) ∧
    (Recorded nows ↔
      Noticed (nows.map CounterStat.space) ∧ Noticed (nows.map CounterStat.count)) := by
  refine ⟨?_, recorded_iff⟩
  rw [← lt_iff, and_iff_left_iff_imp]
  intro h
  rw [Bool.eq_iff_iff, longLongLt_iff]
  exact h

/-- 2³² is above 1, and above every counter so far in a sequence in which the
greatest space is then 1. -/
theorem lt_misses :
    mutUint64Lt ⟨0, 1⟩ ⟨1, 0⟩ = false ∧ Uint64.val ⟨0, 1⟩ < Uint64.val ⟨1, 0⟩ ∧
      ¬ Recorded [⟨⟨0, 1⟩, ⟨0, 1⟩⟩, ⟨⟨1, 0⟩, ⟨0, 2⟩⟩] := by
  refine ⟨by decide, by decide, fun h => ?_⟩
  have hkept := (h _ List.prefix_rfl ⟨⟨1, 0⟩, ⟨0, 2⟩⟩ (by decide)).1
  exact absurd hkept (by decide)

end MutTracker.Source
