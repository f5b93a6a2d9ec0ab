import MutTracker.Verified.Asked
import MutTracker.Verified.Rounds

/-!
# What the target can make the tracker abort over

The handlers assert what they rely on: that a resource they consume was not consumed,
that one they make is new, that no backtrace is closed too often, that the process is
stopped.  While the target's allocator keeps its promise all of these hold at every
call that `mut_run` comes to, whatever the target passes to it, but for one.

When memory is not freed, a `realloc` of an object that was freed before is reported
and then handled as any other.  The object is marked as free once more, and
`mut_resources_mark_as_free` asserts that it has no consumer.

## Main definitions

* `Mut.held` — the blocks that the target's allocator holds after a call.
* `Honest` — what it answers to one.

## Main results

* `Housed.step` — the resource list stays among the blocks held.
* `mutRunToAction_halts` — between two calls nothing is asserted in vain.
* `aborts_iff` — when no run of `mut_run` aborts.
-/

namespace MutTracker.Source

open MutTracker.Logic MutTracker.Logic.Prog MutTracker.Logic.Keyed

variable {flags : Control} {m m' m₀ mh : Mut} {a : Routine} {A : Word → Prop} {t : Target}
  {es : List Entry} {p : Word}

/-! ## The target's allocator -/

/-- The address that the function takes: when memory is not freed, a `realloc` is made
one of the null pointer. -/
def Mut.given (flags : Control) (m : Mut) (a : Routine) : Word :=
  if a = .realloc ∧ flags.free = false then 0 else m.target.arg 0

/-- The blocks held once the function of a call has come back, of the blocks `A` before
it.  A `realloc` that fails leaves its block alone, unless its size is 0. -/
def Mut.held (flags : Control) (m : Mut) (a : Routine) (A : Word → Prop) : Word → Prop :=
  if m.runs flags a = true then
    match a with
    | .malloc | .calloc => fun p => A p ∨ (p ≠ 0 ∧ p = m.result)
    | .realloc => fun p =>
        (A p ∧ (p = m.given flags a → m.result = 0 ∧ m.target.arg 1 ≠ 0)) ∨
          (p ≠ 0 ∧ p = m.result)
    | .free | .cfree => fun p => A p ∧ p ≠ m.given flags a
    | .usage => A
  else A

/-- A producer's function returns 0 or the address of a block that is not held, aligned
to a word; a `realloc` may return the block that it is given. -/
structure Honest (flags : Control) (A : Word → Prop) (m : Mut) (a : Routine) : Prop where
  aligned : a.produces → mutExecAddrAligned m.result = true
  free : a.produces → m.result ≠ 0 →
    ¬ A m.result ∨ (a = .realloc ∧ m.result = m.given flags a)

/-! ## The resource list and the blocks held -/

/-- Every entry is one of a block held, and aligned. -/
def Housed (A : Word → Prop) (es : List Entry) : Prop :=
  ∀ e ∈ es, A e.addr ∧ e.addr ≠ 0 ∧ mutExecAddrAligned e.addr = true

theorem Housed.mono {A' : Word → Prop} (h : Housed A es) (hA : ∀ e ∈ es, A e.addr → A' e.addr) :
    Housed A' es := by
  intro e he
  obtain ⟨hheld, hrest⟩ := h e he
  exact ⟨hA e he hheld, hrest⟩

theorem Housed.cons {e : Entry} (h : Housed A es) (hheld : A e.addr) (hne : e.addr ≠ 0)
    (hal : mutExecAddrAligned e.addr = true) : Housed A (e :: es) := by
  intro e' he'
  rcases List.mem_cons.1 he' with rfl | he'
  · exact ⟨hheld, hne, hal⟩
  · exact h e' he'

theorem Housed.find {e : Entry} (h : Housed A m.book.entries) (he : m.find p = some e) :
    A p ∧ p ≠ 0 ∧ mutExecAddrAligned p = true := by
  have hmem := h e (mem_of_get he)
  rw [show e.addr = p from key_of_get he] at hmem
  exact hmem

/-- The block that is consumed leaves the list, or is marked in it. -/
theorem Housed.consumeEntry (h : Housed A es) (hkeys : UniqueKeys Entry.addr es) (c : Routine) :
    Housed (fun q => A q ∧ (flags.free = true → q ≠ p)) (consumeEntry flags c p es) := by
  intro e he
  unfold Source.consumeEntry at he
  cases hfree : flags.free with
  | true =>
      rw [hfree, if_pos rfl] at he
      obtain ⟨hA, hrest⟩ := h e (List.mem_of_mem_eraseP he)
      have hnone : get Entry.addr p (remove Entry.addr p es) = none := by
        rw [get_remove hkeys, if_pos rfl]
      exact ⟨⟨hA, fun _ => get_eq_none.1 hnone e he⟩, hrest⟩
  | false =>
      rw [hfree, if_neg Bool.false_ne_true] at he
      obtain ⟨e', he', rfl⟩ := List.mem_map.1 he
      have haddr : (if e'.addr = p then e'.consumedBy c else e').addr = e'.addr := by
        split <;> rfl
      rw [haddr]
      obtain ⟨hA, hrest⟩ := h e' he'
      exact ⟨⟨hA, fun htrue => absurd htrue Bool.false_ne_true⟩, hrest⟩

/-- An entry has another address than one at which there is none. -/
theorem addr_ne_of_find {e : Entry} (he : e ∈ m.book.entries) (hnone : m.find p = none) :
    e.addr ≠ p :=
  get_eq_none.1 hnone e he

/-! ## What the promise comes to -/

theorem objectAt_off (hcheck : flags.check = false) : objectAt flags p = p := by
  unfold objectAt
  rw [hcheck]
  rfl

theorem Honest.fresh (h : Honest flags A m a) (hcheck : flags.check = false)
    (hkept : Housed A m.book.entries) : Fresh flags m a := by
  intro hproduces hne
  have hrecorded : m.recorded flags a = m.result := by
    unfold Mut.recorded
    rw [objectAt_off hcheck, ite_self]
  rw [hrecorded]
  cases hfind : m.find m.result with
  | none => exact .inl rfl
  | some e =>
      rcases h.free hproduces hne with hnot | ⟨rfl, hsame⟩
      · exact absurd (hkept.find hfind).1 hnot
      · refine .inr ⟨rfl, ?_⟩
        have hfree : ¬ flags.free = false := by
          intro hfree
          rw [Mut.given, if_pos ⟨rfl, hfree⟩] at hsame
          exact hne hsame
        rw [Mut.given, if_neg fun hboth => hfree hboth.2] at hsame
        rw [← hsame, hfind]
        exact ⟨rfl, rfl⟩

theorem Honest.alignedCall (h : Honest flags A m a) (hkept : Housed A m.book.entries) :
    Aligned m a where
  object _ e he := by
    rw [show e.addr = m.target.arg 0 from key_of_get he]
    exact (hkept.find he).2.2
  result := h.aligned

/-- The target does not get its own address for an object that stays allocated. -/
theorem Honest.moved (h : Honest flags A m a) (hkept : Housed A m.book.entries) :
    ¬ Unmoved flags m a := by
  intro hunmoved
  obtain ⟨rfl, hfree, ⟨hnonzero, hsome⟩, hsame⟩ := hunmoved
  obtain ⟨e, he⟩ := Option.isSome_iff_exists.1 hsome
  have hne : m.result ≠ 0 := hsame ▸ hnonzero
  rcases h.free rfl hne with hnot | ⟨-, hgiven⟩
  · exact hnot (hsame ▸ (hkept.find he).1)
  · rw [Mut.given, if_pos ⟨rfl, hfree⟩] at hgiven
    exact hne hgiven

/-! ## A call keeps the list among the blocks held -/

/-- The entries in use are no others when the call only reports something. -/
theorem Housed.produce (h : Housed A m.book.entries) (hcheck : flags.check = false)
    (ha : a = .malloc ∨ a = .calloc) (hhonest : Honest flags A m a) (warning : String)
    (arg size : Word) :
    Housed (m.held flags a A) (m.book.produce flags a warning arg size m.result).entries := by
  have hheld : m.held flags a A = fun p => A p ∨ (p ≠ 0 ∧ p = m.result) := by
    rcases ha with rfl | rfl <;> rfl
  have hproduces : a.produces = true := by
    rcases ha with rfl | rfl <;> rfl
  have hmono : Housed (m.held flags a A) m.book.entries := by
    rw [hheld]
    exact h.mono fun _ _ hA => .inl hA
  unfold Book.produce
  split
  · show Housed _ (m.book.hit flags a 1).entries
    rw [Book.hit_entries]
    exact hmono
  · rename_i hne
    show Housed _ (_ :: (m.book.hit flags a 1).entries)
    rw [Book.hit_entries, objectAt_off hcheck]
    refine hmono.cons ?_ hne (hhonest.aligned hproduces)
    rw [hheld]
    exact .inr ⟨hne, rfl⟩

theorem Housed.consume (h : Housed A m.book.entries) (hready : Ready flags m)
    (ha : a = .free ∨ a = .cfree) :
    Housed (m.held flags a A) (m.book.consume flags a (m.target.arg 0)).entries := by
  have hgiven : m.given flags a = m.target.arg 0 := by
    rcases ha with rfl | rfl <;> exact if_neg fun hboth => Routine.noConfusion hboth.1
  have hruns : m.runs flags a = (flags.free || m.target.arg 0 == 0) := by
    rcases ha with rfl | rfl <;> rfl
  have hheld : m.held flags a A =
      if (flags.free || m.target.arg 0 == 0) = true then fun p => A p ∧ p ≠ m.target.arg 0
      else A := by
    rw [← hruns, ← hgiven]
    rcases ha with rfl | rfl <;> rfl
  have hkeep : (∀ e ∈ m.book.entries, e.addr ≠ m.target.arg 0) →
      Housed (m.held flags a A) m.book.entries := by
    intro hother
    refine h.mono fun e he hA => ?_
    rw [hheld]
    split
    · exact ⟨hA, hother e he⟩
    · exact hA
  unfold Book.consume
  simp only [Book.find_hit]
  split
  · rename_i hzero
    rw [Book.hit_entries]
    refine hkeep fun e he => ?_
    rw [hzero]
    exact (h e he).2.1
  · rename_i hnonzero
    cases hfind : m.book.find (m.target.arg 0) with
    | none =>
        show Housed _ (m.book.hit flags a 1).entries
        rw [Book.hit_entries]
        exact hkeep fun e he => addr_ne_of_find he hfind
    | some e =>
        have hmem : e ∈ m.book.entries := mem_of_get hfind
        have haddr : e.addr = m.target.arg 0 := key_of_get hfind
        have hzero : (m.target.arg 0 == 0) = false := by simpa using hnonzero
        simp only
        split
        · rename_i hconsumed
          show Housed _ (m.book.hit flags a 1).entries
          rw [Book.hit_entries]
          -- An object that was freed is listed only when memory is not freed.
          have hfree : flags.free = false := by
            cases hfree : flags.free with
            | false => rfl
            | true =>
                obtain ⟨r, hr, rfl⟩ := List.mem_map.1 hmem
                have hlive := (hready.books.shelved.ok r hr).freeing hfree
                rw [show r.entry.consumer = none from hlive] at hconsumed
                exact absurd hconsumed Bool.false_ne_true
          refine h.mono fun _ _ hA => ?_
          rw [hheld, hfree, hzero]
          exact hA
        · have hkeys := uniqueKeys_entries hready.books.shelved.addrs
          show Housed _ (Source.consumeEntry flags a e.addr (m.book.hit flags a 1).entries)
          rw [Book.hit_entries, haddr]
          refine (h.consumeEntry hkeys a).mono fun _ _ hA => ?_
          rw [hheld]
          split
          · rename_i hruns
            rw [hzero, Bool.or_false] at hruns
            exact ⟨hA.1, hA.2 hruns⟩
          · exact hA.1

theorem Housed.reallocate (h : Housed A m.book.entries) (hready : Ready flags m)
    (hcheck : flags.check = false) (hhonest : Honest flags A m .realloc)
    (hmade : (flags.free = true → m.target.arg 0 ≠ 0 → (m.find (m.target.arg 0)).isSome) →
      m.result ≠ 0) :
    Housed (m.held flags .realloc A)
      (m.book.reallocate flags (m.target.arg 0) (m.target.arg 1) m.result).entries := by
  have hal : mutExecAddrAligned m.result = true := hhonest.aligned rfl
  have hstays : ∀ q, A q → q ≠ m.given flags .realloc → m.held flags .realloc A q := by
    intro q hA hother
    exact .inl ⟨hA, fun hsame => absurd hsame hother⟩
  have hnew : m.result ≠ 0 → m.held flags .realloc A m.result := fun hne => .inr ⟨hne, rfl⟩
  have hnull : m.given flags .realloc = 0 → Housed (m.held flags .realloc A) m.book.entries := by
    intro hzero
    refine h.mono fun e he hA => hstays _ hA ?_
    rw [hzero]
    exact (h e he).2.1
  have hmake : ∀ es, m.result ≠ 0 → Housed (m.held flags .realloc A) es → ∀ size,
      Housed (m.held flags .realloc A) (⟨m.result, size, some .realloc, none⟩ :: es) := by
    intro es hne hes size
    exact hes.cons (hnew hne) hne hal
  unfold Book.reallocate
  split
  · rename_i hzero
    have hgiven : m.given flags .realloc = 0 := by
      unfold Mut.given
      rw [hzero, ite_self]
    show Housed _ (_ :: (m.book.hit flags .realloc 1).entries)
    rw [Book.hit_entries, objectAt_off hcheck]
    exact hmake _ (hmade fun _ hnonzero => absurd hzero hnonzero) (hnull hgiven) _
  · cases hfind : m.book.find (m.target.arg 0) with
    | none =>
        simp only
        split
        · show Housed _ (m.book.hit flags .realloc 1).entries
          rw [Book.hit_entries]
          refine h.mono fun e he hA => hstays _ hA ?_
          have hother := addr_ne_of_find he hfind
          unfold Mut.given
          split
          · exact (h e he).2.1
          · exact hother
        · rename_i hkeep
          have hfree : flags.free = false := by simpa using hkeep
          show Housed _ (_ :: (m.book.hit flags .realloc 2).entries)
          rw [Book.hit_entries, objectAt_off hcheck]
          refine hmake _ (hmade fun hfreeing => ?_) (hnull (if_pos ⟨rfl, hfree⟩)) _
          rw [hfree] at hfreeing
          exact absurd hfreeing Bool.false_ne_true
    | some e =>
        have hne : m.result ≠ 0 := hmade fun _ _ => by rw [Mut.find, hfind]; rfl
        have haddr : e.addr = m.target.arg 0 := key_of_get hfind
        simp only
        split
        · rename_i hfree
          show Housed _ (adjust Entry.addr e.addr _ (m.book.hit flags .realloc 1).entries)
          rw [Book.hit_entries]
          intro e' he'
          obtain ⟨e₀, he₀, rfl⟩ := List.mem_map.1 he'
          split
          · exact ⟨hnew hne, hne, hal⟩
          · rename_i hother
            obtain ⟨hA, hrest⟩ := h e₀ he₀
            refine ⟨hstays _ hA ?_, hrest⟩
            unfold Mut.given
            rw [if_neg fun hboth => by rw [hfree] at hboth; exact Bool.noConfusion hboth.2,
              ← haddr]
            exact hother
        · rename_i hkeep
          have hfree : flags.free = false := by simpa using hkeep
          have hkeys := uniqueKeys_entries hready.books.shelved.addrs
          show Housed _ (_ :: Source.consumeEntry flags .realloc e.addr
            (m.book.hit flags .realloc 1).entries)
          rw [Book.hit_entries]
          refine hmake _ hne ?_ _
          refine ((hnull (if_pos ⟨rfl, hfree⟩)).consumeEntry hkeys .realloc).mono ?_
          exact fun _ _ hA => hA.1

/-- A call that is handled keeps the list among the blocks held. -/
theorem Housed.step (h : Housed A m.book.entries) (hready : Ready flags m)
    (hcheck : flags.check = false) (hhonest : Honest flags A m a)
    (hserved : Served flags m a t m') : Housed (m.held flags a A) m'.book.entries := by
  rw [hserved.midway.book]
  cases a with
  | malloc => exact h.produce hcheck (.inl rfl) hhonest _ _ _
  | calloc => exact h.produce hcheck (.inr rfl) hhonest _ _ _
  | realloc =>
      refine h.reallocate hready hcheck hhonest fun hlooked hzero => hserved.met ?_
      obtain ⟨t', hret, -⟩ := hserved.returned rfl
      exact ⟨rfl, by rw [hret]; rfl, hzero, hlooked⟩
  | free => exact h.consume hready (.inl rfl)
  | cfree => exact h.consume hready (.inr rfl)
  | usage => exact h

/-- What a handler can halt over is the object that it revives. -/
theorem Housed.halts {e : Halt} (h : Housed A m.book.entries) (hready : Ready flags m)
    (hcheck : flags.check = false) (ha : a ∈ m.root) (hhonest : Honest flags A m a)
    (hhalt : mutHandle flags a m = .halt e) : e = .blocked ∨ Revived flags m a := by
  cases mutHandle_halts hready ha (hhonest.fresh hcheck h) hhalt with
  | blocked _ _ => exact .inl rfl
  | revived hrevived => exact .inr hrevived
  | unmoved hunmoved => exact absurd hunmoved (hhonest.moved h)
  | unaligned hnot => exact absurd (hhonest.alignedCall h) hnot

/-- The handler that revives an object halts, where nothing is refused. -/
theorem Revived.halts (hready : Ready flags m) (hcheck : flags.check = false) (ha : a ∈ m.root)
    (hfresh : Fresh flags m a) (hgranted : ∀ f ∈ m.process.kernel.faults, f = none)
    (hroomy : ∀ f ∈ m.mem.full, f = none) (h : Revived flags m a) :
    ∃ e, mutHandle flags a m = .halt e ∧ e ≠ .blocked := by
  have hsmooth : Smooth flags m a := ⟨hgranted, hroomy, fun _ => h.returned⟩
  cases hrun : mutHandle flags a m with
  | done ok m' =>
      exfalso
      cases ok with
      | true =>
          obtain ⟨t, hserved⟩ := mutHandle_served hready ha hfresh hrun
          exact hserved.free (.inl h)
      | false =>
          rcases hsmooth.dropped (mutHandle_dropped hready ha hfresh hrun) with hunmet | hdamaged
          · exact h.result hunmet.zero
          · exact Bool.false_ne_true (hcheck.symm.trans hdamaged.checking)
  | halt e =>
      refine ⟨e, rfl, ?_⟩
      rintro rfl
      cases mutHandle_halts hready ha hfresh hrun with
      | blocked _ hhangs =>
          have hsome := h.returned
          rw [Mut.returning, Process.returning,
            show ending m.process.kernel.waits = .never from hhangs] at hsome
          exact absurd hsome Bool.false_ne_true

/-! ## Between two calls -/

theorem mutRemoveActionBreakpointsOf_halts (as : List Routine) (hp : m.Stopped)
    (hidle : m.process.log.Idle) :
    wp (mutRemoveActionBreakpointsOf as)
      (fun _ m' => m'.process.kernel.faults <:+ m.process.kernel.faults) (fun _ => False) m := by
  induction as generalizing m with
  | nil => exact List.suffix_rfl
  | cons a as ih =>
      simp only [mutRemoveActionBreakpointsOf, wp_bind, wp_read, wp_liftProcess]
      refine wp_mono (wp_and (mutProcessRestore_effect hp _ _)
        (mutProcessRestore_spec (E := fun _ => False) (.refl hp hidle) _ _)) ?_ fun _ he => he.2
      rintro ok q ⟨-, ⟨rfl, h⟩ | ⟨rfl, hfault⟩⟩
      · refine wp_mono (ih (m := { m with process := q }) h.status h.idle) ?_ fun _ he => he
        exact fun _ _ hsuffix => hsuffix.trans h.faults
      · obtain ⟨answers, errno, heq, -⟩ := hfault
        exact ⟨answers, heq⟩

theorem mutInstallActionBreakpointsOf_halts (as : List Routine) (hp : m.Stopped)
    (hidle : m.process.log.Idle) :
    wp (mutInstallActionBreakpointsOf as)
      (fun _ m' => m'.process.kernel.faults <:+ m.process.kernel.faults) (fun _ => False) m := by
  induction as generalizing m with
  | nil => exact List.suffix_rfl
  | cons a as ih =>
      simp only [mutInstallActionBreakpointsOf, wp_bind, wp_read, wp_liftProcess]
      refine wp_mono (mutProcessBreakpoint_spec (E := fun _ => False) (.refl hp hidle) _) ?_
        fun _ he => he
      rintro r q (⟨rfl, h⟩ | ⟨rfl, hfault⟩)
      · simp only [Mut.setAction, wp_bind, wp_update]
        refine wp_mono (ih h.status h.idle) ?_ fun _ he => he
        exact fun _ _ hsuffix => hsuffix.trans h.faults
      · obtain ⟨answers, errno, heq, -⟩ := hfault
        exact ⟨answers, heq⟩

/-- Up to the next call `mut_run` can only wait for ever. -/
theorem mutRunToAction_halts (hp : m.Stopped) (hidle : m.process.log.Idle) :
    wp mutRunToAction
      (fun r m' => Reached r → m'.process.kernel.faults <:+ m.process.kernel.faults)
      (fun e => e = .blocked) m := by
  unfold mutRunToAction
  rw [wp_bind, wp_liftProcess]
  refine wp_mono (mutProcessResume_spec (.refl hp hidle)) ?_ fun _ he => he
  rintro _ q₁ (⟨rfl, h₁⟩ | ⟨rfl, -⟩)
  · simp only [Bool.not_true, Bool.false_eq_true, if_false, wp_bind, wp_liftProcess]
    refine wp_mono (mutProcessWait_spec h₁.status h₁.idle) ?_ fun _ he => he.1
    intro r q₂ h₂
    cases r with
    | exited | failed => simp
    | stopped pc =>
        obtain ⟨t, -, -, hback, -⟩ := h₂
        have hfaults : q₂.kernel.faults <:+ m.process.kernel.faults :=
          hback.faults.trans h₁.faults
        simp only [mutActionsLookup, wp_bind, wp_read, wp_pure]
        cases m.root.find? fun a => (m.actions a).addr = pc with
        | none => exact fun _ => hfaults
        | some a =>
            simp only [mutRemoveActionBreakpoints, wp_bind, wp_read]
            refine wp_mono (mutRemoveActionBreakpointsOf_halts
              (m := { m with process := q₂ }) m.root hback.status hback.idle) ?_
              fun _ he => he.elim
            intro ok m' hsuffix
            cases ok with
            | false => simp
            | true => exact fun _ => hsuffix.trans hfaults
  · simp

/-! ## The rounds of `mut_run` -/

/-- The blocks held after the calls that the rounds handled. -/
def heldAfter (flags : Control) (A : Word → Prop) (rounds : List (Option Visit)) : Word → Prop :=
  (rounds.filterMap id).foldl (fun A v => v.tracker.held flags v.routine A) A

/-- The target's allocator, which holds the blocks `A` when `mut_run` begins, is honest at
each call that `mut_run` comes to. -/
def AllHonest (flags : Control) (A : Word → Prop) (m₀ : Mut) : Prop :=
  ∀ rounds m (v : Visit), Run (Round flags) m₀ rounds m →
    mutRunToAction m = .done (.ok v.routine) v.tracker →
      Honest flags (heldAfter flags A rounds) v.tracker v.routine

/-- What holds between two rounds while the blocks `A` are held. -/
structure Sane (flags : Control) (A : Word → Prop) (m : Mut) : Prop where
  ready : Ready flags m
  housed : Housed A m.book.entries
  granted : ∀ f ∈ m.process.kernel.faults, f = none
  roomy : ∀ f ∈ m.mem.full, f = none

variable {rounds : List (Option Visit)} {v : Option Visit}

theorem Sane.opened (hopen : Opened flags m) (hgranted : ∀ f ∈ m.process.kernel.faults, f = none)
    (hroomy : ∀ f ∈ m.mem.full, f = none) : Sane flags A m where
  ready := hopen.ready
  housed := by
    have hnone : m.book.entries = [] := by
      show m.resources.elems.map Resource.entry = []
      rw [hopen.elems]
      rfl
    rw [hnone]
    exact fun e he => absurd he List.not_mem_nil
  granted := hgranted
  roomy := hroomy

/-- At a call the tracker is as it was before the round. -/
theorem Sane.came {r : Except (Option Bool) Routine} (h : Sane flags A m)
    (hcame : mutRunToAction m = .done r mh) (hr : Reached r) : Sane flags A mh := by
  have hbetween := mutRunToAction_between h.ready.stopped hcame hr
  have hsuffix := wp_done (mutRunToAction_halts h.ready.stopped h.ready.idle) hcame hr
  refine ⟨hbetween.ready h.ready, ?_, fun f hf => h.granted f (hsuffix.subset hf), ?_⟩
  · rw [hbetween.book h.ready.idle]
    exact h.housed
  · rw [hbetween.mem]
    exact h.roomy

theorem Sane.handled {m₁ : Mut} (h : Sane flags A mh) (hcheck : flags.check = false)
    (ha : a ∈ mh.root) (hhonest : Honest flags A mh a)
    (hhandle : mutHandle flags a mh = .done true m₁) : Sane flags (mh.held flags a A) m₁ := by
  obtain ⟨t, hserved⟩ := mutHandle_served h.ready ha (hhonest.fresh hcheck h.housed) hhandle
  refine ⟨hserved.midway.ready h.ready, h.housed.step h.ready hcheck hhonest hserved, ?_, ?_⟩
  · exact fun f hf => h.granted f (hserved.midway.faults.subset hf)
  · exact fun f hf => h.roomy f (hserved.midway.later.full.subset hf)

theorem Sane.installed (h : Sane flags A m)
    (hinstall : mutInstallActionBreakpoints m = .done true m') : Sane flags A m' := by
  have hp := h.ready.stopped
  obtain ⟨hreplanted, -, hdone⟩ :=
    wp_done (mutInstallActionBreakpointsOf_effect m.root hp) hinstall
  have hbetween := hreplanted.between (hdone rfl).1
  have hsuffix := wp_done (mutInstallActionBreakpointsOf_halts m.root hp h.ready.idle) hinstall
  refine ⟨hbetween.ready h.ready, ?_, fun f hf => h.granted f (hsuffix.subset hf), ?_⟩
  · rw [hbetween.book h.ready.idle]
    exact h.housed
  · rw [hbetween.mem]
    exact h.roomy

/-- The routine of a call that `mut_run` comes to is one of the actions. -/
theorem Sane.listed (h : Sane flags A m) (hcame : mutRunToAction m = .done (.ok a) mh) :
    a ∈ mh.root := by
  have hfound := (wp_done (mutRunToAction_effect h.ready.stopped) hcame).found a rfl
  rw [(mutRunToAction_between h.ready.stopped hcame trivial).root]
  exact hfound.1

/-- Round for round the list stays among the blocks held. -/
theorem rounds_sane (hrun : Run (Round flags) m₀ rounds m) (hsane : Sane flags A m₀)
    (hcheck : flags.check = false) (hhonest : AllHonest flags A m₀) :
    Sane flags (heldAfter flags A rounds) m := by
  induction hrun with
  | start => exact hsane
  | @next rounds m m' v hrun hround ih =>
      cases hround with
      | foreign hcame =>
          have hsame : heldAfter flags A (rounds ++ [none]) = heldAfter flags A rounds := by
            unfold heldAfter
            rw [List.filterMap_append]
            exact congrArg _ (List.append_nil _)
          rw [hsame]
          exact ih.came hcame trivial
      | @call a mh m₁ _ hcame hhandle hinstall =>
          have hafter : heldAfter flags A (rounds ++ [some ⟨a, mh⟩]) =
              mh.held flags a (heldAfter flags A rounds) := by
            unfold heldAfter
            rw [List.filterMap_append, List.foldl_append]
            rfl
          rw [hafter]
          have hcall := ih.came hcame trivial
          have hanswer : Honest flags (heldAfter flags A rounds) mh a :=
            hhonest rounds m ⟨a, mh⟩ hrun hcame
          exact (hcall.handled hcheck (ih.listed hcame) hanswer hhandle).installed hinstall

/-! ## Following a run -/

theorem mutRunRounds_run (hrun : Run (Round flags) m₀ rounds m) (n : Nat) :
    mutRunRounds flags (rounds.length + n) m₀ = mutRunRounds flags n m := by
  induction hrun generalizing n with
  | start =>
      rw [List.length_nil, Nat.zero_add]
  | @next rounds m m' v hrun hround ih =>
      have hlength : (rounds ++ [v]).length + n = rounds.length + (n + 1) := by
        simp only [List.length_append, List.length_cons, List.length_nil]
        omega
      rw [hlength, ih (n + 1), mutRunRounds, bind_done hround.returns]

/-- Each round takes at least one of the reports to come. -/
theorem rounds_fewer (hrun : Run (Round flags) m₀ rounds m) (hp : m₀.Stopped)
    (htyped : Typed m₀) :
    rounds.length + m.process.kernel.waits.length ≤ m₀.process.kernel.waits.length := by
  induction hrun with
  | start => simp
  | @next rounds m m' v hrun hround ih =>
      obtain ⟨hstopped, htyped'⟩ := rounds_keep hrun hp htyped
      have hfewer : m'.process.kernel.waits.length < m.process.kernel.waits.length := by
        cases hround with
        | foreign hcame =>
            exact (wp_done (mutRunToAction_effect hstopped) hcame).fewer trivial
        | @call a mh m₁ _ hcame hhandle hinstall =>
            have hbetween := mutRunToAction_between hstopped hcame trivial
            have hcame' := wp_done (mutRunToAction_effect hstopped) hcame
            have hacts := wp_done (mutHandle_acts hbetween.stopped (hbetween.typed htyped' a
              (hbetween.root ▸ (hcame'.found a rfl).1))) hhandle
            obtain ⟨hreplanted, -⟩ :=
              wp_done (mutInstallActionBreakpointsOf_effect m₁.root (hacts.stopped rfl)) hinstall
            have hlast := hacts.waits.length_le
            have hfirst := hcame'.fewer trivial
            rw [hreplanted.waits]
            omega
      simp only [List.length_append, List.length_cons, List.length_nil]
      omega

/-! ## When `mut_run` aborts -/

/-- A round goes wrong in a handler only. -/
theorem Sane.round (h : Sane flags A m) (hcheck : flags.check = false)
    (hcalls : ∀ a mh, mutRunToAction m = .done (.ok a) mh →
      Honest flags A mh a ∧ ¬ Revived flags mh a) :
    wp (mutRunRound flags) (fun r m' => r = none → ∃ v, Round flags m v m')
      (fun e => e = .blocked) m := by
  have hdone : ∀ r m', mutRunRound flags m = .done r m' → r = none → ∃ v, Round flags m v m' := by
    intro r m' hrun hr
    rcases mutRunRound_done hrun with ⟨-, hround⟩ | ⟨ok, hok, -⟩
    · exact hround
    · rw [hr] at hok
      cases hok
  refine wp_intro hdone fun e hhalt => ?_
  have hspec : wp (mutRunRound flags) (fun _ _ => True) (fun e => e = .blocked) m := by
    unfold mutRunRound
    rw [wp_bind]
    refine wp_mono (wp_run (mutRunToAction_halts h.ready.stopped h.ready.idle)) ?_
      fun _ he => he
    rintro r mh ⟨hcame, -⟩
    cases r with
    | error r => trivial
    | ok a =>
        obtain ⟨hhonest, hnot⟩ := hcalls a mh hcame
        have hsane := h.came hcame trivial
        have hlisted := h.listed hcame
        simp only [wp_bind]
        refine wp_intro (fun ok m₁ hhandle => ?_) fun e hhalt => ?_
        · cases ok with
          | false => trivial
          | true =>
              have hsane₁ := hsane.handled hcheck hlisted hhonest hhandle
              simp only [mutInstallActionBreakpoints, Bool.not_true, Bool.false_eq_true, if_false,
                wp_bind, wp_read]
              refine wp_mono (mutInstallActionBreakpointsOf_halts _ hsane₁.ready.stopped
                hsane₁.ready.idle) ?_ fun _ he => he.elim
              intro ok m₂ _
              cases ok <;> trivial
        · rcases hsane.housed.halts hsane.ready hcheck hlisted hhonest hhalt with he | hrevived
          · exact he
          · exact absurd hrevived hnot
  exact wp_halted (E := fun e => e = .blocked) hspec hhalt

/-- While the target's allocator keeps its promise, and no request and no allocation of the
tracker is refused, `mut_run` fails no assertion and follows no bad pointer exactly when
it comes to no call that revives an object. -/
theorem aborts_iff (hopen : Opened flags m₀) (hcheck : flags.check = false)
    (hgranted : ∀ f ∈ m₀.process.kernel.faults, f = none)
    (hroomy : ∀ f ∈ m₀.mem.full, f = none) (hhonest : AllHonest flags A m₀) :
    (∀ e, mutRun flags m₀ = .halt e → e = .blocked) ↔
      ∀ v, Reaches flags m₀ v → ¬ Revived flags v.tracker v.routine := by
  have hsane : Sane flags A m₀ := .opened hopen hgranted hroomy
  constructor
  · rintro hblocked v ⟨rounds, m, hrun, hcame⟩ hrevived
    have h := rounds_sane hrun hsane hcheck hhonest
    have hcall := h.came hcame trivial
    have hanswer := hhonest rounds m v hrun hcame
    obtain ⟨e, hhalt, hne⟩ := hrevived.halts hcall.ready hcheck (h.listed hcame)
      (hanswer.fresh hcheck hcall.housed) hcall.granted hcall.roomy
    have hround : mutRunRound flags m = .halt e := by
      unfold mutRunRound
      rw [bind_done hcame]
      exact bind_halt hhalt
    have hfewer := rounds_fewer hrun hopen.ready.stopped hopen.ready.types
    obtain ⟨k, hk⟩ : ∃ k, m₀.process.kernel.waits.length + 1 = rounds.length + (k + 1) :=
      ⟨m₀.process.kernel.waits.length - rounds.length, by omega⟩
    refine hne (hblocked e ?_)
    unfold mutRun
    rw [read_bind, hk, mutRunRounds_run hrun, mutRunRounds]
    exact bind_halt hround
  · intro hnone e hhalt
    suffices hrounds : ∀ n rounds m, Run (Round flags) m₀ rounds m →
        wp (mutRunRounds flags n) (fun _ _ => True) (fun e => e = .blocked) m from
      wp_halted (E := fun e => e = .blocked) (hrounds _ [] m₀ .start) hhalt
    intro n
    induction n with
    | zero => exact fun _ _ _ => rfl
    | succ n ih =>
        intro rounds m hrun
        rw [mutRunRounds, wp_bind]
        have h := rounds_sane hrun hsane hcheck hhonest
        refine wp_mono (h.round hcheck fun a mh hcame => ⟨?_, ?_⟩) ?_ fun _ he => he
        · exact hhonest rounds m ⟨a, mh⟩ hrun hcame
        · exact hnone ⟨a, mh⟩ ⟨rounds, m, hrun, hcame⟩
        · intro r m' hround
          cases r with
          | some ok => trivial
          | none =>
              obtain ⟨v, hv⟩ := hround rfl
              exact ih (rounds ++ [v]) m' (.next hrun hv)

/-! ## A target that frees an object before it resizes it -/

/-- The allocator is honest from a call on when it is so at the call and after it. -/
theorem AllHonest.call (hcame : mutRunToAction m₀ = .done (.ok a) mh)
    (hhonest : Honest flags A mh a)
    (hnext : ∀ m', mutRunRound flags m₀ = .done none m' →
      AllHonest flags (mh.held flags a A) m') : AllHonest flags A m₀ := by
  intro rounds m v hrun hv
  rcases rounds_first hrun with ⟨rfl, rfl⟩ | ⟨v₁, rest, m₁, rfl, hfirst, hrest⟩
  · rw [hcame] at hv
    cases v
    cases hv
    exact hhonest
  · have hreturns := hfirst.returns
    cases hfirst with
    | foreign hforeign =>
        rw [hcame] at hforeign
        cases hforeign
    | call hcame₁ _ _ =>
        rw [hcame] at hcame₁
        cases hcame₁
        exact hnext m₁ hreturns rest m v hrest hv

/-- The calls are honest when the first round already ends `mut_run`. -/
theorem AllHonest.over (hcame : mutRunToAction m₀ = .done (.error (some true)) m') :
    AllHonest flags A m₀ := by
  intro rounds m v hrun hv
  rcases rounds_first hrun with ⟨rfl, rfl⟩ | ⟨v₁, rest, m₁, rfl, hfirst, -⟩
  · rw [hcame] at hv
    cases hv
  · cases hfirst with
    | foreign hforeign =>
        rw [hcame] at hforeign
        cases hforeign
    | call hcame₁ _ _ =>
        rw [hcame] at hcame₁
        cases hcame₁

/-- Where the functions of a small target begin. -/
def Routine.entryAddr : Routine → Word
  | .malloc => 0x10
  | .calloc => 0x20
  | .realloc => 0x30
  | .free => 0x40
  | .cfree => 0x50
  | .usage => 0x60

/-- The report of the stop at the entry of a function. -/
def Stop.entry (a : Routine) (arg₀ arg₁ : Word) : Stop :=
  .stopped sigtrap { Target.calling arg₀ arg₁ with eip := a.entryAddr + 1 }

/-- A tracker just opened, with what `waitpid` will report. -/
def Mut.opened (flags : Control) (waits : List Stop) : Mut :=
  let m := Mut.small flags (.calling 0 0) waits
  { m with actions := fun a => { m.actions a with addr := a.entryAddr } }

theorem opened_opened (flags : Control) (waits : List Stop) :
    Opened flags (.opened flags waits) := by
  obtain ⟨hready, helems, hstats, hhits⟩ := small_opened flags (.calling 0 0) waits
  exact ⟨⟨hready.stopped, hready.idle, hready.books, hready.names, hready.types⟩, helems,
    hstats, hhits⟩

/-- A `malloc` of 8 that returns 0x2000 and a `free` of it. -/
def Mut.freeing : Mut :=
  .opened .plain [.entry .malloc 8 0, (Target.calling 8 0).answers 0x2000,
    .entry .free 0x2000 0, .exited 0]

/-- A `malloc` of 8 that returns 0x2000, a `free` of it, and a `realloc` of what was
freed, which gets 0x3000. -/
def Mut.reviving : Mut :=
  .opened .plain [.entry .malloc 8 0, (Target.calling 8 0).answers 0x2000,
    .entry .free 0x2000 0, .entry .realloc 0x2000 8, (Target.calling 0 8).answers 0x3000]

/-- No block is held at first. -/
abbrev noBlock (_ : Word) : Prop := False

theorem freeing_honest : AllHonest .plain noBlock .freeing := by
  obtain ⟨mh, hcame, hresult⟩ : ∃ mh, mutRunToAction .freeing = .done (.ok .malloc) mh ∧
      mh.result = 0x2000 := Outcome.of_seen (by decide +kernel)
  obtain ⟨m₁, hround, hlook⟩ : ∃ m₁, mutRunRound .plain .freeing = .done none m₁ ∧
      (decide ((mutRunToAction m₁).seen (fun _ => ()) = some (.ok .free, ())),
        (mutRunRound .plain m₁).seen fun m₂ =>
          decide ((mutRunToAction m₂).seen (fun _ => ()) = some (.error (some true), ()))) =
            (true, some (none, true)) := Outcome.of_seen (by decide +kernel)
  obtain ⟨hlook₁, hlook₂⟩ := Prod.mk.inj hlook
  obtain ⟨mh₁, hcame₁, -⟩ := Outcome.of_seen (of_decide_eq_true hlook₁)
  obtain ⟨m₂, hround₂, hlook₃⟩ := Outcome.of_seen hlook₂
  obtain ⟨m₃, hover, -⟩ := Outcome.of_seen (of_decide_eq_true hlook₃)
  refine .call hcame ⟨fun _ => by rw [hresult]; rfl, fun _ _ => .inl id⟩ fun m' hm' => ?_
  rw [hround] at hm'
  cases hm'
  refine .call hcame₁ ⟨fun hproduces => ?_, fun hproduces => ?_⟩ fun m' hm' => ?_
  · cases hproduces
  · cases hproduces
  · rw [hround₂] at hm'
    cases hm'
    exact .over hover

/-- A run with a call of `malloc` and one of `free`. -/
theorem aborts_iff_freeing :
    (∀ e, mutRun .plain .freeing = .halt e → e = .blocked) ↔
      ∀ v, Reaches .plain .freeing v → ¬ Revived .plain v.tracker v.routine :=
  aborts_iff (opened_opened _ _) rfl (List.forall_mem_nil _) (List.forall_mem_nil _)
    freeing_honest

/-- The allocator is honest, and the tracker aborts over the `realloc`. -/
theorem reviving_aborts :
    Opened .plain .reviving ∧ AllHonest .plain noBlock .reviving ∧
      mutRun .plain .reviving = .halt (.assertion .noConsumer) := by
  refine ⟨opened_opened _ _, ?_, Outcome.of_reason (by decide +kernel)⟩
  obtain ⟨mh, hcame, hresult⟩ : ∃ mh, mutRunToAction .reviving = .done (.ok .malloc) mh ∧
      mh.result = 0x2000 := Outcome.of_seen (by decide +kernel)
  obtain ⟨m₁, hround, hlook⟩ : ∃ m₁, mutRunRound .plain .reviving = .done none m₁ ∧
      (decide ((mutRunToAction m₁).seen (·.target.arg 0) = some (.ok .free, 0x2000)),
        (mutRunRound .plain m₁).seen fun m₂ =>
          (decide ((mutRunToAction m₂).seen (·.result) = some (.ok .realloc, 0x3000)),
            ((mutRunRound .plain m₂).reason).isSome)) = (true, some (none, true, true)) :=
    Outcome.of_seen (by decide +kernel)
  obtain ⟨hlook₁, hlook₂⟩ := Prod.mk.inj hlook
  obtain ⟨mh₁, hcame₁, harg⟩ := Outcome.of_seen (of_decide_eq_true hlook₁)
  obtain ⟨m₂, hround₂, hlook₃⟩ := Outcome.of_seen hlook₂
  obtain ⟨hlook₃, hhalts⟩ := Prod.mk.inj hlook₃
  obtain ⟨mh₂, hcame₂, hresult₂⟩ := Outcome.of_seen (of_decide_eq_true hlook₃)
  refine .call hcame ⟨fun _ => by rw [hresult]; rfl, fun _ _ => .inl id⟩ fun m' hm' => ?_
  rw [hround] at hm'
  cases hm'
  refine .call hcame₁ ⟨fun hproduces => ?_, fun hproduces => ?_⟩ fun m' hm' => ?_
  · cases hproduces
  · cases hproduces
  rw [hround₂] at hm'
  cases hm'
  refine .call hcame₂ ⟨fun _ => by rw [hresult₂]; rfl, fun _ _ => .inl ?_⟩ fun m' hm' => ?_
  · have hskipped : mh₁.runs .plain .free = false := by
      show (false || mh₁.target.arg 0 == 0) = false
      rw [harg]
      rfl
    have hheld : mh₁.held .plain .free (mh.held .plain .malloc noBlock) =
        fun p => False ∨ (p ≠ 0 ∧ p = mh.result) := by
      unfold Mut.held
      rw [hskipped]
      rfl
    rw [hheld, hresult₂, hresult]
    simp
  · rw [hm'] at hhalts
    cases hhalts

end MutTracker.Source
