import Mathlib.Logic.Function.Basic
import Mathlib.Data.List.Count
import Mathlib.Data.List.Perm.Basic

/-!
# Reference counts

A heap of counted objects, and the list of all references held to them
anywhere in the program.  `Counts heap rc refs` says that the counts are
right: a live object is counted once for each reference in the list and is
referred to, and nothing refers to a dead one.  The order of the list means
nothing, so a reference handed from one holder to another changes nothing
(`Counts.perm`).

## Main results

* `Counts.alive` — what is referred to is live.
* `Counts.opened`, `Counts.shared`, `Counts.changed`, `Counts.dropped`,
  `Counts.freed` — the operations keep the counts right.
-/

namespace MutTracker.Logic

variable {κ α : Type} [DecidableEq κ]

/-- The counts of the live objects are the numbers of references to them. -/
structure Counts (heap : κ → Option α) (rc : α → Nat) (refs : List κ) : Prop where
  live : ∀ k a, heap k = some a → rc a = refs.count k ∧ 0 < rc a
  dead : ∀ k, heap k = none → k ∉ refs

namespace Counts

variable {heap : κ → Option α} {rc : α → Nat} {refs refs' : List κ} {k : κ} {a a' : α}

/-- References may change hands. -/
theorem perm (h : Counts heap rc refs) (hperm : refs.Perm refs') : Counts heap rc refs' where
  live k a hk := by
    rw [← hperm.count_eq k]
    exact h.live k a hk
  dead k hk hmem := h.dead k hk (hperm.mem_iff.2 hmem)

/-- What is referred to is live. -/
theorem alive (h : Counts heap rc refs) (hk : k ∈ refs) :
    ∃ a, heap k = some a ∧ 0 < rc a := by
  cases hheap : heap k with
  | none => exact absurd hk (h.dead k hheap)
  | some a => exact ⟨a, rfl, (h.live k a hheap).2⟩

private theorem updated (h : Counts heap rc refs) {entry : Option α}
    (hother : ∀ j, j ≠ k → refs'.count j = refs.count j)
    (hlive : ∀ b, entry = some b → rc b = refs'.count k ∧ 0 < rc b)
    (hdead : entry = none → k ∉ refs') :
    Counts (Function.update heap k entry) rc refs' where
  live j b hj := by
    by_cases hjk : j = k
    · subst hjk
      rw [Function.update_self] at hj
      exact hlive b hj
    · rw [Function.update_of_ne hjk] at hj
      rw [hother j hjk]
      exact h.live j b hj
  dead j hj := by
    by_cases hjk : j = k
    · subst hjk
      rw [Function.update_self] at hj
      exact hdead hj
    · rw [Function.update_of_ne hjk] at hj
      rw [← List.count_eq_zero, hother j hjk, List.count_eq_zero]
      exact h.dead j hj

/-- A fresh object starts with the one reference its creator holds. -/
theorem opened (h : Counts heap rc refs) (hk : heap k = none) (hrc : rc a = 1) :
    Counts (Function.update heap k (some a)) rc (k :: refs) := by
  refine h.updated (fun j hj => List.count_cons_of_ne (Ne.symm hj)) ?_ (fun hn => nomatch hn)
  rintro b ⟨⟩
  have hzero : refs.count k = 0 := List.count_eq_zero.2 (h.dead k hk)
  rw [List.count_cons_self, hzero, hrc]
  exact ⟨rfl, Nat.one_pos⟩

/-- One reference more, counted. -/
theorem shared (h : Counts heap rc refs) (hk : heap k = some a) (hrc : rc a' = rc a + 1) :
    Counts (Function.update heap k (some a')) rc (k :: refs) := by
  refine h.updated (fun j hj => List.count_cons_of_ne (Ne.symm hj)) ?_ (fun hn => nomatch hn)
  rintro b ⟨⟩
  rw [List.count_cons_self, hrc, (h.live k a hk).1]
  exact ⟨rfl, Nat.succ_pos _⟩

/-- A change to a live object that leaves its count alone. -/
theorem changed (h : Counts heap rc refs) (hk : heap k = some a) (hrc : rc a' = rc a) :
    Counts (Function.update heap k (some a')) rc refs := by
  refine h.updated (fun _ _ => rfl) ?_ (fun hn => nomatch hn)
  rintro b ⟨⟩
  rw [hrc]
  exact h.live k a hk

/-- One reference fewer, of several. -/
theorem dropped (h : Counts heap rc (k :: refs)) (hk : heap k = some a)
    (hrc : rc a' + 1 = rc a) (hpos : 0 < rc a') :
    Counts (Function.update heap k (some a')) rc refs := by
  refine h.updated (fun j hj => (List.count_cons_of_ne (Ne.symm hj)).symm) ?_
    (fun hn => nomatch hn)
  rintro b ⟨⟩
  have hcount := (h.live k a hk).1
  rw [List.count_cons_self] at hcount
  exact ⟨by omega, hpos⟩

/-- The last reference goes, and the object with it. -/
theorem freed (h : Counts heap rc (k :: refs)) (hk : heap k = some a) (hrc : rc a = 1) :
    Counts (Function.update heap k none) rc refs := by
  refine h.updated (fun j hj => (List.count_cons_of_ne (Ne.symm hj)).symm)
    (fun b hb => nomatch hb) (fun _ => ?_)
  have hcount := (h.live k a hk).1
  rw [List.count_cons_self] at hcount
  exact List.count_eq_zero.1 (by omega)

end Counts

end MutTracker.Logic
