import Mathlib.Logic.Function.Basic

/-!
# Things with one owner each

Some things are in use, and each has exactly one owner, who holds at most one of them.
A new thing is acquired by an owner who holds none, is passed on to another one who holds
none, and is released by the one who holds it.  When nobody holds anything, nothing is in
use.

## Main results

* `Holding.acquire`, `Holding.pass`, `Holding.release` — one rule for each way to change owners.
* `Holding.nothing` — nothing is left in use when nobody holds anything.
-/

namespace MutTracker.Logic

variable {β ω : Type} [DecidableEq ω] {used used' : β → Prop} {holds holds' : ω → Option β}
  {o o' : ω} {p : β}

/-- What is in use is what is held, and nothing is held twice. -/
structure Holding (used : β → Prop) (holds : ω → Option β) : Prop where
  owned : ∀ p, used p ↔ ∃ o, holds o = some p
  apart : ∀ o o' p, holds o = some p → holds o' = some p → o = o'

namespace Holding

omit [DecidableEq ω] in
theorem congr (h : Holding used holds) (hused : ∀ p, used' p ↔ used p)
    (hholds : ∀ o, holds' o = holds o) : Holding used' holds' := by
  have heq : holds' = holds := funext hholds
  rw [heq]
  exact ⟨fun p => (hused p).trans (h.owned p), h.apart⟩

omit [DecidableEq ω] in
theorem inUse (h : Holding used holds) (ho : holds o = some p) : used p := (h.owned p).2 ⟨o, ho⟩

omit [DecidableEq ω] in
theorem nothing (h : Holding used holds) (hnone : ∀ o, holds o = none) (p : β) : ¬ used p := by
  intro hp
  obtain ⟨o, ho⟩ := (h.owned p).1 hp
  rw [hnone o] at ho
  exact absurd ho (by simp)

theorem acquire (h : Holding used holds) (hnew : ¬ used p) (hfree : holds o = none)
    (hused : ∀ q, used' q ↔ used q ∨ q = p) :
    Holding used' (Function.update holds o (some p)) := by
  have hother : ∀ a q, a ≠ o → (Function.update holds o (some p) a = some q ↔
      holds a = some q) := by
    intro a q ha
    rw [Function.update_of_ne ha]
  constructor
  · intro q
    rw [hused]
    constructor
    · intro hq
      rcases hq with hq | rfl
      · obtain ⟨a, ha⟩ := (h.owned q).1 hq
        have hne : a ≠ o := by
          intro heq
          rw [heq, hfree] at ha
          exact absurd ha (by simp)
        exact ⟨a, (hother a q hne).2 ha⟩
      · exact ⟨o, Function.update_self ..⟩
    · intro hq
      obtain ⟨a, ha⟩ := hq
      by_cases heq : a = o
      · rw [heq, Function.update_self] at ha
        exact Or.inr (Option.some.inj ha).symm
      · exact Or.inl (h.inUse ((hother a q heq).1 ha))
  · intro a b q ha hb
    by_cases hao : a = o
    · by_cases hbo : b = o
      · rw [hao, hbo]
      · rw [hao, Function.update_self] at ha
        rw [← Option.some.inj ha] at hb
        exact absurd (h.inUse ((hother b p hbo).1 hb)) hnew
    · by_cases hbo : b = o
      · rw [hbo, Function.update_self] at hb
        rw [← Option.some.inj hb] at ha
        exact absurd (h.inUse ((hother a p hao).1 ha)) hnew
      · exact h.apart a b q ((hother a q hao).1 ha) ((hother b q hbo).1 hb)

theorem release (h : Holding used holds) (ho : holds o = some p)
    (hused : ∀ q, used' q ↔ used q ∧ q ≠ p) : Holding used' (Function.update holds o none) := by
  have hother : ∀ a q, Function.update holds o none a = some q ↔ holds a = some q ∧ a ≠ o := by
    intro a q
    by_cases hao : a = o
    · rw [hao, Function.update_self]
      simp
    · rw [Function.update_of_ne hao]
      simp [hao]
  constructor
  · intro q
    rw [hused]
    constructor
    · intro hq
      obtain ⟨a, ha⟩ := (h.owned q).1 hq.1
      refine ⟨a, (hother a q).2 ⟨ha, ?_⟩⟩
      intro heq
      rw [heq, ho] at ha
      exact hq.2 (Option.some.inj ha).symm
    · intro hq
      obtain ⟨a, ha⟩ := hq
      obtain ⟨ha, hao⟩ := (hother a q).1 ha
      refine ⟨h.inUse ha, ?_⟩
      intro heq
      rw [heq] at ha
      exact hao (h.apart a o p ha ho)
  · intro a b q ha hb
    exact h.apart a b q ((hother a q).1 ha).1 ((hother b q).1 hb).1

/-- The owner `o` hands what it holds to `o'`. -/
theorem pass (h : Holding used holds) (ho' : holds o' = none) :
    Holding used (Function.update (Function.update holds o none) o' (holds o)) := by
  by_cases heq : o' = o
  · rw [heq] at ho'
    apply h.congr fun _ => Iff.rfl
    intro a
    rw [heq, ho', Function.update_idem]
    by_cases ha : a = o
    · rw [ha, Function.update_self, ho']
    · rw [Function.update_of_ne ha]
  cases hp : holds o with
  | none =>
      apply h.congr fun _ => Iff.rfl
      intro a
      by_cases ha' : a = o'
      · rw [ha', Function.update_self, ho']
      · rw [Function.update_of_ne ha']
        by_cases ha : a = o
        · rw [ha, Function.update_self, hp]
        · rw [Function.update_of_ne ha]
  | some p =>
      have hgone : Holding (fun q => used q ∧ q ≠ p) (Function.update holds o none) :=
        h.release hp fun _ => Iff.rfl
      apply hgone.acquire (fun hused => hused.2 rfl)
      · rw [Function.update_of_ne heq, ho']
      · intro q
        constructor
        · intro hq
          by_cases hqp : q = p
          · exact Or.inr hqp
          · exact Or.inl ⟨hq, hqp⟩
        · intro hq
          rcases hq with hq | rfl
          · exact hq.1
          · exact h.inUse hp

end Holding

end MutTracker.Logic
