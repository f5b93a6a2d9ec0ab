import Mathlib.Data.List.Induction

/-!
# A peak kept by a comparison

A fold keeps the higher of the peak so far and the next value, by a comparison
that is sound but may miss.  The peak covers every value from some moment on
exactly when the comparison misses nothing that is above the true peak.

## Main results

* `covers_iff` — the peak covers every prefix exactly when nothing is missed.
-/

namespace MutTracker.Logic

variable {α : Type} {lt : α → α → Bool} {height : α → Nat} {t x : α} {xs : List α}

/-- The peak of the values `xs` after `t`, as `lt` compares them. -/
def peak (lt : α → α → Bool) (t : α) (xs : List α) : α :=
  xs.foldl (fun t x => if lt t x then x else t) t

theorem peak_concat : peak lt t (xs ++ [x]) = if lt (peak lt t xs) x then x else peak lt t xs := by
  rw [peak, List.foldl_append]
  rfl

/-- The comparison by height. -/
def above (height : α → Nat) (t x : α) : Bool := decide (height t < height x)

theorem above_iff : above height t x = true ↔ height t < height x := decide_eq_true_iff

/-- The highest of the values. -/
abbrev top (height : α → Nat) (t : α) (xs : List α) : α := peak (above height) t xs

/-- The comparison misses that `x` is above `t`. -/
def Misses (lt : α → α → Bool) (height : α → Nat) (t x : α) : Prop :=
  height t < height x ∧ lt t x = false

/-- After each of the values the peak is as high as all of them so far. -/
def Covers (lt : α → α → Bool) (height : α → Nat) (t : α) (xs : List α) : Prop :=
  ∀ seen, seen <+: xs → ∀ x ∈ seen, height x ≤ height (peak lt t seen)

/-- No value is missed against the highest one before it. -/
def Unmissed (lt : α → α → Bool) (height : α → Nat) (t : α) (xs : List α) : Prop :=
  ∀ seen x, seen ++ [x] <+: xs → ¬ Misses lt height (top height t seen) x

theorem Unmissed.init (h : Unmissed lt height t (xs ++ [x])) : Unmissed lt height t xs :=
  fun seen y hy => h seen y (hy.trans (List.prefix_append xs [x]))

theorem Covers.init (h : Covers lt height t (xs ++ [x])) : Covers lt height t xs :=
  fun seen hseen => h seen (hseen.trans (List.prefix_append xs [x]))

/-- Nothing being missed, the peak is the highest of the values. -/
theorem peak_eq_top (hsound : ∀ t x, lt t x = true → height t < height x)
    (h : Unmissed lt height t xs) : peak lt t xs = top height t xs := by
  induction xs using List.reverseRecOn with
  | nil => rfl
  | append_singleton xs x ih =>
      have hpeak := ih h.init
      have hmissed := h xs x List.prefix_rfl
      have hsame : lt (top height t xs) x = above height (top height t xs) x := by
        cases hlt : lt (top height t xs) x with
        | true => exact (above_iff.2 (hsound _ _ hlt)).symm
        | false => exact (decide_eq_false fun habove => hmissed ⟨habove, hlt⟩).symm
      rw [top, peak_concat, peak_concat, hpeak, hsame]

theorem le_top (xs : List α) : ∀ x ∈ xs, height x ≤ height (top height t xs) := by
  induction xs using List.reverseRecOn with
  | nil => exact fun x hx => absurd hx List.not_mem_nil
  | append_singleton xs x ih =>
      intro y hy
      have hlast : height x ≤ height (top height t (xs ++ [x])) ∧
          height (top height t xs) ≤ height (top height t (xs ++ [x])) := by
        rw [top, peak_concat]
        by_cases habove : height (top height t xs) < height x
        · rw [if_pos (above_iff.2 habove)]
          exact ⟨Nat.le_refl _, Nat.le_of_lt habove⟩
        · rw [if_neg fun h => habove (above_iff.1 h)]
          exact ⟨Nat.not_lt.1 habove, Nat.le_refl _⟩
      rcases List.mem_append.1 hy with hy | hy
      · exact Nat.le_trans (ih y hy) hlast.2
      · rw [List.mem_singleton.1 hy]
        exact hlast.1

/-- The peak covers the values after each of them exactly when no value is
missed. -/
theorem covers_iff (hsound : ∀ t x, lt t x = true → height t < height x) :
    Covers lt height t xs ↔ Unmissed lt height t xs := by
  constructor
  · induction xs using List.reverseRecOn with
    | nil =>
        intro _ seen x hseen
        exact absurd (List.prefix_nil.1 hseen) (List.concat_ne_nil x seen)
    | append_singleton xs x ih =>
        intro h seen y hseen
        have hinit := ih h.init
        rcases List.prefix_concat_iff.1 hseen with heq | hseen
        · obtain ⟨rfl, hy⟩ := List.append_inj' heq rfl
          obtain rfl : y = x := List.singleton_inj.1 hy
          rintro ⟨habove, hlt⟩
          have hcovered := h _ List.prefix_rfl y (List.mem_append_right _ List.mem_cons_self)
          rw [peak_concat, peak_eq_top hsound hinit, hlt] at hcovered
          exact absurd hcovered (Nat.not_le.2 habove)
        · exact hinit seen y hseen
  · intro h seen hseen
    have hseen' : Unmissed lt height t seen := fun s y hy => h s y (hy.trans hseen)
    rw [peak_eq_top hsound hseen']
    exact le_top seen

end MutTracker.Logic
