/-!
# Programs over a state that may halt

A program reads and updates a state and either returns a value or halts for
a reason: a failed assertion, a wait that never ends.  `Prog σ ε α` is that
shape with nothing about any particular program in it, together with the one
judgement every later proof uses.

`wp x Q E s` says: run from `s`, the program `x` either returns with a value
and state satisfying `Q`, or halts for a reason satisfying `E`.  Total
correctness is `E := fun _ => False`, partial correctness is
`E := fun _ => True`, and a specification that names the admissible halts
sits in between.

## Main results

* `wp_bind` and the other `wp_*` equations run a program symbolically.
* `wp_seq` cites a callee's specification instead of unfolding the callee.
* `wp_focus` — a program on a part of the state leaves the rest alone.
* `wp_done`, `wp_halted`, `done_bind` — what is known of an actual run.
-/

namespace MutTracker.Logic

/-- What a run ends in: a value with the state it leaves, or a halt. -/
inductive Outcome (σ ε α : Type) where
  | done (value : α) (state : σ)
  | halt (reason : ε)

/-- What `look` sees of the state of a run that returned. -/
def Outcome.seen {σ ε α β : Type} (look : σ → β) : Outcome σ ε α → Option (α × β)
  | .done a s => some (a, look s)
  | .halt _ => none

theorem Outcome.of_seen {σ ε α β : Type} {look : σ → β} {o : Outcome σ ε α} {a : α} {b : β}
    (h : o.seen look = some (a, b)) : ∃ s, o = .done a s ∧ look s = b := by
  cases o with
  | done a' s =>
      cases h
      exact ⟨s, rfl, rfl⟩
  | halt e => cases h

/-- Why a run halted. -/
def Outcome.reason {σ ε α : Type} : Outcome σ ε α → Option ε
  | .done _ _ => none
  | .halt e => some e

theorem Outcome.of_reason {σ ε α : Type} {o : Outcome σ ε α} {e : ε}
    (h : o.reason = some e) : o = .halt e := by
  cases o with
  | done a s => cases h
  | halt e' =>
      cases h
      rfl

/-- Programs over states `σ` that may halt for a reason in `ε`. -/
def Prog (σ ε α : Type) : Type := σ → Outcome σ ε α

namespace Prog

variable {σ τ ε α β : Type}

protected def pure (a : α) : Prog σ ε α := fun s => .done a s

protected def bind (x : Prog σ ε α) (f : α → Prog σ ε β) : Prog σ ε β := fun s =>
  match x s with
  | .done a s' => f a s'
  | .halt e => .halt e

instance : Monad (Prog σ ε) where
  pure := Prog.pure
  bind := Prog.bind

/-- Read the whole state. -/
def read : Prog σ ε σ := fun s => .done s s

/-- Replace the state by its image under `f`. -/
def update (f : σ → σ) : Prog σ ε Unit := fun s => .done () (f s)

/-- Stop for the given reason. -/
def stop (e : ε) : Prog σ ε α := fun _ => .halt e

/-- Go on if `c` holds and stop for the given reason otherwise. -/
def require (c : Bool) (e : ε) : Prog σ ε Unit := if c then pure () else stop e

/-- Run `x` if `c` holds and do nothing otherwise. -/
def whenever (c : Bool) (x : Prog σ ε Unit) : Prog σ ε Unit := if c then x else pure ()

/-- Run a program on the part of the state that `get` and `put` select. -/
def focus (get : τ → σ) (put : σ → τ → τ) (x : Prog σ ε α) : Prog τ ε α := fun t =>
  match x (get t) with
  | .done a s => .done a (put s t)
  | .halt e => .halt e

/-- Run a program on a part of the state whose reasons to halt are others. -/
def embed {ε' : Type} (get : τ → σ) (put : σ → τ → τ) (raise : ε → ε') (x : Prog σ ε α) :
    Prog τ ε' α := fun t =>
  match x (get t) with
  | .done a s => .done a (put s t)
  | .halt e => .halt (raise e)

/-- Run from `s`, the program returns within `Q` or halts within `E`. -/
def wp (x : Prog σ ε α) (Q : α → σ → Prop) (E : ε → Prop) (s : σ) : Prop :=
  match x s with
  | .done a s' => Q a s'
  | .halt e => E e

/-! ## Equations -/

section Equations

variable {Q : α → σ → Prop} {R : β → σ → Prop} {U : Unit → σ → Prop} {E : ε → Prop} {s : σ}

@[simp] theorem wp_pure (a : α) : wp (pure a : Prog σ ε α) Q E s ↔ Q a s := Iff.rfl

@[simp] theorem wp_bind (x : Prog σ ε α) (f : α → Prog σ ε β) :
    wp (x >>= f) R E s ↔ wp x (fun a s' => wp (f a) R E s') E s := by
  show wp (Prog.bind x f) R E s ↔ _
  simp only [wp, Prog.bind]
  cases x s <;> rfl

@[simp] theorem wp_read {Q : σ → σ → Prop} :
    wp (read : Prog σ ε σ) Q E s ↔ Q s s := Iff.rfl

@[simp] theorem wp_update (f : σ → σ) :
    wp (update f : Prog σ ε Unit) U E s ↔ U () (f s) := Iff.rfl

@[simp] theorem wp_stop (e : ε) : wp (stop e : Prog σ ε α) Q E s ↔ E e := Iff.rfl

@[simp] theorem wp_require (c : Bool) (e : ε) :
    wp (require c e : Prog σ ε Unit) U E s ↔ if c then U () s else E e := by
  cases c <;> rfl

@[simp] theorem wp_whenever (c : Bool) (x : Prog σ ε Unit) :
    wp (whenever c x) U E s ↔ if c then wp x U E s else U () s := by
  cases c <;> rfl

theorem wp_assoc {γ : Type} {V : γ → σ → Prop} (x : Prog σ ε α) (f : α → Prog σ ε β)
    (g : β → Prog σ ε γ) :
    wp (x >>= f >>= g) V E s ↔ wp (x >>= fun a => f a >>= g) V E s := by
  simp only [wp_bind]

/-- Two things done under one condition are each done under it. -/
theorem wp_whenever_seq (c : Bool) (x y : Prog σ ε Unit) :
    wp (whenever c (do x; y)) U E s ↔
      wp (whenever c x) (fun _ s' => wp (whenever c y) U E s') E s := by
  cases c with
  | false => exact Iff.rfl
  | true => exact wp_bind x fun _ => y

theorem wp_ite (c : Prop) [Decidable c] (x y : Prog σ ε α) :
    wp (if c then x else y) Q E s ↔ if c then wp x Q E s else wp y Q E s := by
  split <;> rfl

/-- A program on a part of the state is judged there; the rest is a frame. -/
@[simp] theorem wp_focus {t : τ} (get : τ → σ) (put : σ → τ → τ)
    (x : Prog σ ε α) {Q : α → τ → Prop} :
    wp (focus get put x) Q E t ↔ wp x (fun a s' => Q a (put s' t)) E (get t) := by
  simp only [wp, focus]
  cases x (get t) <;> rfl

@[simp] theorem wp_embed {ε' : Type} {t : τ} (get : τ → σ) (put : σ → τ → τ) (raise : ε → ε')
    (x : Prog σ ε α) {Q : α → τ → Prop} {E : ε' → Prop} :
    wp (embed get put raise x) Q E t ↔
      wp x (fun a s' => Q a (put s' t)) (fun e => E (raise e)) (get t) := by
  simp only [wp, embed]
  cases x (get t) <;> rfl

end Equations

/-! ## Rules -/

section Rules

variable {Q Q' : α → σ → Prop} {R : β → σ → Prop} {E E' : ε → Prop} {s s' : σ}

/-- Consequence: a stronger postcondition and fewer halts. -/
theorem wp_mono {x : Prog σ ε α} (h : wp x Q E s)
    (hQ : ∀ a s', Q a s' → Q' a s') (hE : ∀ e, E e → E' e) : wp x Q' E' s := by
  unfold wp at h ⊢
  cases hx : x s with
  | done a s' => rw [hx] at h; exact hQ a s' h
  | halt e => rw [hx] at h; exact hE e h

/-- Sequencing through the first program's specification. -/
theorem wp_seq {x : Prog σ ε α} {f : α → Prog σ ε β} (h : wp x Q E' s)
    (hE : ∀ e, E' e → E e) (hf : ∀ a s', Q a s' → wp (f a) R E s') :
    wp (x >>= f) R E s :=
  (wp_bind x f).2 (wp_mono h hf hE)

/-- Sequencing when nothing need be known of the first program. -/
theorem wp_any {x : Prog σ ε α} {f : α → Prog σ ε β}
    (h : ∀ a s', wp (f a) R (fun _ => True) s') : wp (x >>= f) R (fun _ => True) s := by
  rw [wp_bind]
  unfold wp
  cases x s with
  | done a s' => exact h a s'
  | halt e => trivial

/-- A specification, read at a run that returned. -/
theorem wp_done {x : Prog σ ε α} {a : α} (h : wp x Q E s) (hx : x s = .done a s') :
    Q a s' := by
  unfold wp at h; rw [hx] at h; exact h

/-- A specification, read at a run that halted. -/
theorem wp_halted {x : Prog σ ε α} {e : ε} (h : wp x Q E s) (hx : x s = .halt e) :
    E e := by
  unfold wp at h; rw [hx] at h; exact h

/-- A program whose halts are all excluded returns. -/
theorem wp_returns {x : Prog σ ε α} (h : wp x Q E s) (hE : ∀ e, ¬ E e) :
    ∃ a s', x s = .done a s' ∧ Q a s' := by
  unfold wp at h
  cases hx : x s with
  | done a s' => rw [hx] at h; exact ⟨a, s', rfl, h⟩
  | halt e => rw [hx] at h; exact absurd h (hE e)

/-- A sequence that returned did so through both its parts. -/
theorem done_bind {x : Prog σ ε α} {f : α → Prog σ ε β} {b : β}
    (h : (x >>= f) s = .done b s') : ∃ a s₁, x s = .done a s₁ ∧ f a s₁ = .done b s' := by
  have h : Prog.bind x f s = .done b s' := h
  unfold Prog.bind at h
  cases hx : x s with
  | done a s₁ => rw [hx] at h; exact ⟨a, s₁, rfl, h⟩
  | halt e => rw [hx] at h; cases h

/-- A sequence goes on from where its first part returned. -/
theorem bind_done {x : Prog σ ε α} {f : α → Prog σ ε β} {a : α} (h : x s = .done a s') :
    (x >>= f) s = f a s' := by
  show Prog.bind x f s = f a s'
  unfold Prog.bind
  rw [h]

theorem bind_halt {x : Prog σ ε α} {f : α → Prog σ ε β} {e : ε} (h : x s = .halt e) :
    (x >>= f) s = .halt e := by
  show Prog.bind x f s = .halt e
  unfold Prog.bind
  rw [h]

theorem read_bind (f : σ → Prog σ ε α) : (read >>= f) s = f s s := rfl

theorem update_bind (g : σ → σ) (f : Unit → Prog σ ε α) : (update g >>= f) s = f () (g s) := rfl

theorem bind_assoc {γ : Type} (x : Prog σ ε α) (f : α → Prog σ ε β) (g : β → Prog σ ε γ) :
    x >>= f >>= g = x >>= fun a => f a >>= g := by
  funext s
  show Prog.bind (Prog.bind x f) g s = Prog.bind x (fun a => Prog.bind (f a) g) s
  unfold Prog.bind
  cases x s with
  | done a s' => rfl
  | halt e => rfl

/-- A run of a program on a part of the state is a run of it there. -/
theorem done_focus {t t' : τ} {get : τ → σ} {put : σ → τ → τ} {x : Prog σ ε α} {a : α}
    (h : focus get put x t = .done a t') : ∃ s', x (get t) = .done a s' ∧ t' = put s' t := by
  unfold focus at h
  cases hx : x (get t) with
  | done a' s' =>
      rw [hx] at h
      cases h
      exact ⟨s', rfl, rfl⟩
  | halt e => rw [hx] at h; cases h

theorem done_embed {ε' : Type} {t t' : τ} {get : τ → σ} {put : σ → τ → τ} {raise : ε → ε'}
    {x : Prog σ ε α} {a : α} (h : embed get put raise x t = .done a t') :
    ∃ s', x (get t) = .done a s' ∧ t' = put s' t := by
  unfold embed at h
  cases hx : x (get t) with
  | done a' s' =>
      rw [hx] at h
      cases h
      exact ⟨s', rfl, rfl⟩
  | halt e => rw [hx] at h; cases h

theorem focus_done {t : τ} {get : τ → σ} {put : σ → τ → τ} {x : Prog σ ε α} {a : α}
    (h : x (get t) = .done a s') : focus get put x t = .done a (put s' t) := by
  unfold focus
  rw [h]

theorem embed_done {ε' : Type} {t : τ} {get : τ → σ} {put : σ → τ → τ} {raise : ε → ε'}
    {x : Prog σ ε α} {a : α} (h : x (get t) = .done a s') :
    embed get put raise x t = .done a (put s' t) := by
  unfold embed
  rw [h]

/-- What holds of every run holds as a specification. -/
theorem wp_intro {x : Prog σ ε α} (hQ : ∀ a s', x s = .done a s' → Q a s')
    (hE : ∀ e, x s = .halt e → E e) : wp x Q E s := by
  unfold wp
  cases hx : x s with
  | done a s' => exact hQ a s' hx
  | halt e => exact hE e hx

/-- A specification may speak of the run itself. -/
theorem wp_run {x : Prog σ ε α} (h : wp x Q E s) :
    wp x (fun a s' => x s = .done a s' ∧ Q a s') E s :=
  wp_intro (fun _ _ hx => ⟨hx, wp_done h hx⟩) fun _ hx => wp_halted h hx

/-- Two specifications of one program hold together. -/
theorem wp_and {x : Prog σ ε α} (h : wp x Q E s) (h' : wp x Q' E' s) :
    wp x (fun a s' => Q a s' ∧ Q' a s') (fun e => E e ∧ E' e) s := by
  unfold wp at h h' ⊢
  cases hx : x s with
  | done a s' => rw [hx] at h h'; exact ⟨h, h'⟩
  | halt e => rw [hx] at h h'; exact ⟨h, h'⟩

end Rules

end Prog

end MutTracker.Logic
