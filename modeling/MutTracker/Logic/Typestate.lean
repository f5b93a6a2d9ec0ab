import MutTracker.Logic.Prog

/-!
# Typestates

A protocol on a state is a family of assertions `At i`, one for each typestate
`i`.  `Goes At E i g x` says of a program `x` that, started in the typestate
`i`, it halts only for a reason in `E`, and that a result `a` leaves the state
in the typestate `g a`.  Since the result decides the typestate, a caller that
looks at the result knows which operations it may go on with.

Nothing is said of the rest of the state, so the typestate of a large program
comes from those of its parts without looking at any state.

## Main results

* `Goes.bind`, `Goes.whenever`, `Goes.ite`, `Goes.focus` — one rule for
  each way to build a program.
* `Goes.check` — an answer that is looked at.
-/

namespace MutTracker.Logic.Prog

variable {σ τ ε ε' ι α β : Type} {At : ι → σ → Prop} {E : ε → Prop} {i j : ι}

/-- From the typestate `i`, a result `a` of `x` leaves the state in `g a`. -/
def Goes (At : ι → σ → Prop) (E : ε → Prop) (i : ι) (g : α → ι) (x : Prog σ ε α) : Prop :=
  ∀ s, At i s → wp x (fun a s' => At (g a) s') E s

namespace Goes

variable {g g' : α → ι} {h : β → ι} {x y : Prog σ ε α} {f : α → Prog σ ε β}

theorem pure {a : α} (hi : ∀ s, At i s → At (g a) s) :
    Goes At E i g (Pure.pure a : Prog σ ε α) := hi

theorem read : Goes At E i (fun _ => i) (read : Prog σ ε σ) := fun _ hs => hs

theorem update {u : σ → σ} (hu : ∀ s, At i s → At j (u s)) :
    Goes At E i (fun _ => j) (update u : Prog σ ε Unit) := hu

theorem stop {e : ε} (he : E e) : Goes At E i g (stop e : Prog σ ε α) := fun _ _ => he

theorem require {c : Bool} {e : ε} (he : E e) :
    Goes At E i (fun _ => i) (require c e : Prog σ ε Unit) := by
  cases c with
  | false => exact stop he
  | true => exact pure fun _ hs => hs

theorem bind (hx : Goes At E i g x) (hf : ∀ a, Goes At E (g a) h (f a)) :
    Goes At E i h (x >>= f) := by
  intro s hs
  exact wp_seq (hx s hs) (fun _ he => he) fun a s' ha => hf a s' ha

theorem ite {c : Prop} [Decidable c] (hx : Goes At E i g x) (hy : Goes At E i g y) :
    Goes At E i g (if c then x else y) := by
  split
  · exact hx
  · exact hy

theorem whenever {c : Bool} {z : Prog σ ε Unit} (hz : Goes At E i (fun _ => i) z) :
    Goes At E i (fun _ => i) (whenever c z) := by
  cases c with
  | false => exact pure fun _ hs => hs
  | true => exact hz

/-- Give up with `y` if the answer is no, and go on with `z` otherwise. -/
theorem check {c : Prog σ ε Bool} {k : Bool → ι} {y z : Prog σ ε β} (hc : Goes At E i k c)
    (hy : Goes At E (k false) h y) (hz : Goes At E (k true) h z) :
    Goes At E i h (c >>= fun ok => if !ok then y else z) := by
  apply hc.bind
  intro ok
  cases ok with
  | false => exact hy
  | true => exact hz

/-- A program on a part of the state that is in the typestate of the whole. -/
theorem focus {At' : ι → τ → Prop} {get : τ → σ} {put : σ → τ → τ} (hx : Goes At E i g x)
    (hget : ∀ i t, At' i t → At i (get t)) (hput : ∀ i s t, At i s → At' i (put s t)) :
    Goes At' E i g (focus get put x) := by
  intro t ht
  rw [wp_focus]
  exact wp_mono (hx (get t) (hget i t ht)) (fun a s => hput (g a) s t) fun _ he => he

theorem embed {At' : ι → τ → Prop} {E' : ε' → Prop} {get : τ → σ} {put : σ → τ → τ}
    {raise : ε → ε'} (hx : Goes At E i g x) (hget : ∀ i t, At' i t → At i (get t))
    (hput : ∀ i s t, At i s → At' i (put s t)) (hraise : ∀ e, E e → E' (raise e)) :
    Goes At' E' i g (embed get put raise x) := by
  intro t ht
  rw [wp_embed]
  exact wp_mono (hx (get t) (hget i t ht)) (fun a s => hput (g a) s t) hraise

/-- A run that returned is in the typestate its result says. -/
theorem done {s s' : σ} {a : α} (hx : Goes At E i g x) (hs : At i s)
    (hrun : x s = .done a s') : At (g a) s' := by
  exact wp_done (Q := fun a s' => At (g a) s') (hx s hs) hrun

end Goes

end MutTracker.Logic.Prog
