import Mathlib.Order.Defs.Unbundled
import MutTracker.Logic.Prog

/-!
# Relations that a program stays within

`Within I E R x` says of a program that wherever it starts in `I`, if it
returns, `R` relates the state it started in to the one it leaves, and if it
halts, it is for a reason in `E`.  For a preorder that keeps `I` the rules
follow the syntax of the program, so a frame condition of a large program
comes from those of its parts without looking at any state.

## Main results

* `Within.bind`, `Within.whenever`, `Within.ite`, `Within.focus` — one rule for
  each way to build a program.
* `Within.seq` — the frame condition of a part, used in a specification.
-/

namespace MutTracker.Logic.Prog

variable {σ τ ε α β : Type} {I : σ → Prop} {E : ε → Prop} {R : σ → σ → Prop}

/-- Every run of `x` from `I` that returns relates its first state to its last. -/
def Within (I : σ → Prop) (E : ε → Prop) (R : σ → σ → Prop) (x : Prog σ ε α) : Prop :=
  ∀ s, I s → wp x (fun _ s' => R s s') E s

/-- A preorder along which an invariant holds on. -/
class Carries (I : σ → Prop) (R : σ → σ → Prop) : Prop extends IsPreorder σ R where
  carry : ∀ s s', R s s' → I s → I s'

namespace Within

theorem update {f : σ → σ} (h : ∀ s, R s (f s)) :
    Within I E R (update f : Prog σ ε Unit) := fun s _ => h s

theorem stop (e : ε) (he : E e) : Within I E R (stop e : Prog σ ε α) := fun _ _ => he

/-- A program on a part of the state is judged by its own relation there. -/
theorem focus {J : τ → Prop} {S : τ → τ → Prop} {get : τ → σ} {put : σ → τ → τ}
    {x : Prog σ ε α} (hx : Within I E R x) (hI : ∀ t, J t → I (get t))
    (h : ∀ t s, R (get t) s → S t (put s t)) : Within J E S (focus get put x) := fun t ht =>
  (wp_focus get put x).2 (wp_mono (hx (get t) (hI t ht)) (fun _ s => h t s) fun _ he => he)

theorem ite {c : Prop} [Decidable c] {x y : Prog σ ε α} (hx : Within I E R x)
    (hy : Within I E R y) : Within I E R (if c then x else y) := by
  split
  · exact hx
  · exact hy

/-- The frame condition of the first program, used to specify the second. -/
theorem seq {x : Prog σ ε α} {f : α → Prog σ ε β} {Q : β → σ → Prop} {s : σ}
    (hx : Within I E R x) (hs : I s) (hf : ∀ a s', R s s' → wp (f a) Q E s') :
    wp (x >>= f) Q E s :=
  wp_seq (hx s hs) (fun _ he => he) hf

section Carries

variable [Carries I R]

theorem pure (a : α) : Within I E R (Pure.pure a : Prog σ ε α) := fun s _ => refl_of R s

theorem read : Within I E R (read : Prog σ ε σ) := fun s _ => refl_of R s

theorem require (c : Bool) (e : ε) (he : E e) :
    Within I E R (require c e : Prog σ ε Unit) := by
  cases c with
  | false => exact stop e he
  | true => exact pure ()

theorem bind {x : Prog σ ε α} {f : α → Prog σ ε β} (hx : Within I E R x)
    (hf : ∀ a, Within I E R (f a)) : Within I E R (x >>= f) := fun s hs =>
  hx.seq hs fun a s' h => wp_mono (hf a s' (Carries.carry s s' h hs))
    (fun _ _ h' => trans_of R h h') fun _ he => he

theorem whenever {c : Bool} {x : Prog σ ε Unit} (hx : Within I E R x) :
    Within I E R (whenever c x) := by
  cases c with
  | false => exact pure ()
  | true => exact hx

end Carries

end Within

end MutTracker.Logic.Prog
