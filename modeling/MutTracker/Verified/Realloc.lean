import MutTracker.Source.Realloc
import MutTracker.Verified.Consumers

/-!
# realloc

Each way a `realloc` ends has its own specification, from the point where the
function has come back.  A new object is recorded after a null pointer and,
when memory is not freed, after an unknown one; a live object is re-addressed
when memory is freed, and marked with a new one beside it when it is not.

## Main results

* `mutReallocMalloc_spec`, `mutReallocMallocNoFree_spec` — a new object.
* `mutReallocReallocNoFree_spec`, `mutReallocRealloc_spec` — a live one.
* `mutDoRealloc_spec`.
-/

namespace MutTracker.Source

open MutTracker.Logic MutTracker.Logic.Prog MutTracker.Logic.Keyed

variable {flags : Control} {m m₁ : Mut} {a : Routine} {b : Book} {ran : Passage}
  {t t' : Target} {held : List Nat} {bt : Option Nat} {E : Halt → Prop} {o : Resource}
  {l₁ l₂ : List Resource}

theorem keeps_assert (hbt : flags.Keeps bt) : (flags.backtrace || bt.isNone) = true := by
  rw [← hbt]
  cases bt <;> rfl

theorem not_damaged_realloc : ¬ Damaged flags m .realloc := fun hdamaged => by
  simpa using hdamaged.consumer

/-! ## The function returned 0 -/

theorem Midway.reallocFailure {newSize oldAddr oldSize : Word}
    (h : Midway flags m b ran t bt.toList m₁) (hready : Ready flags m) (hbt : flags.Keeps bt)
    (hunmet : Unmet flags m .realloc) (hentries : b.entries = m.book.entries)
    (hstats : b.stats = m.book.stats) :
    wp (do
      mutReallocFailure flags newSize oldAddr oldSize bt
      return false) (Handled flags m .realloc) E m₁ := by
  rw [mutReallocFailure, wp_bind, wp_bind, wp_mutAssert, if_pos (keeps_assert hbt)]
  refine wp_mono (h.failure hready (by simp) hbt (by simp) _) ?_ fun _ he => he
  intro _ m₂ h₂
  refine .inr ⟨rfl, .unmet hunmet h₂.status ?_ ?_ ⟨oldAddr, b.reports, ?_⟩⟩
  · rw [h₂.book, ← hentries]
    rfl
  · rw [h₂.book, ← hstats]
    rfl
  · rw [h₂.book]
    rfl

/-! ## A new object -/

/-- A `realloc` that records a new object: of a null pointer, or of an unknown
one when memory is not freed. -/
def Renews (flags : Control) (m : Mut) : Prop :=
  m.target.arg 0 = 0 ∨ (m.find (m.target.arg 0) = none ∧ flags.free = false)

theorem Renews.fresh (h : Renews flags m) (hfresh : Fresh flags m .realloc)
    (hne : m.result ≠ 0) : m.find (objectAt flags m.result) = none := by
  have hrecorded : m.recorded flags .realloc = objectAt flags m.result := by
    refine if_neg fun ⟨_, hnonzero, hsome⟩ => ?_
    rcases h with hzero | ⟨hnone, -⟩
    · exact hnonzero hzero
    · rw [hnone] at hsome
      cases hsome
  rcases hfresh rfl hne with hnone | ⟨-, hsome, hsame⟩
  · rwa [hrecorded] at hnone
  · rcases h with hzero | ⟨hnone, -⟩
    · exact absurd (hsame.trans hzero) hne
    · rw [hnone] at hsome
      cases hsome

theorem Renews.unmet (h : Renews flags m) (hret : m.returning = some t)
    (hzero : m.result = 0) : Unmet flags m .realloc where
  routine := rfl
  returned := by rw [hret]; rfl
  zero := hzero
  looked hfree hnonzero := by
    rcases h with hnull | ⟨-, hkeep⟩
    · exact absurd hnull hnonzero
    · rw [hfree] at hkeep
      cases hkeep

/-- A resource is made at a fresh address, and it is new. -/
theorem Midway.createNew {f : Nat → MutM Bool} {fail : MutM Bool} {addr : Word}
    (h : Midway flags m b ran t held m₁) (hfresh : b.find addr = none)
    (hf : ∀ μ, m₁.mem.Grown μ →
      wp (f m₁.mem.next) (Handled flags m a) E
        { m₁ with resources := m₁.resources.cons (.blank m₁.mem.next addr), mem := μ })
    (hbad : ∀ μ, Sound μ (held ++ refsOf m₁.resources.elems) → GivesUp flags m a E μ fail) :
    wp (do
      let some obj ← mutResourcesCreateResource addr | fail
      mutAssert (mutResourceIsNew (← Mut.resource obj)) .isNew
      f obj) (Handled flags m a) E m₁ := by
  refine h.create hfresh (fun μ hgrown => ?_) hbad
  have hnew : mutResourceIsNew (.blank m₁.mem.next addr) = true := rfl
  rw [wp_bind]
  refine (wp_resource (o := .blank m₁.mem.next addr) (h.first rfl)).2 ?_
  rw [wp_bind, wp_mutAssert, if_pos hnew]
  exact hf μ hgrown

/-- The call is hit and its object counted. -/
theorem Midway.collect {f : Unit → MutM Bool} {c : Routine} {size : Word}
    (h : Midway flags m b ran t held m₁)
    (hf : ∀ m₂, m₂.resources = m₁.resources →
      Midway flags m ((b.hit flags c 1).counted flags fun s => s.produced size) ran t held m₂ →
      wp (f ()) (Handled flags m a) E m₂) :
    wp (whenever flags.stats (do
        Mut.hit c
        mutCollectProducerStats size) >>= f) (Handled flags m a) E m₁ := by
  rw [wp_bind, wp_whenever_seq]
  refine wp_mono (h.hit c) ?_ fun _ he => he
  rintro _ m₂ ⟨h₂, hres₂, -⟩
  refine wp_mono (h₂.stats fun s => s.produced size) ?_ fun _ he => he
  rintro _ m₃ ⟨h₃, hres₃, -⟩
  exact hf m₃ (hres₃.trans hres₂) h₃

theorem mutReallocMalloc_spec
    (h : Midway flags m m.book (.ran (m.handed flags .realloc)) t bt.toList m₁)
    (hready : Ready flags m) (hbt : flags.Keeps bt) (hret : m.returning = some t)
    (hfresh : Fresh flags m .realloc) (hnull : m.target.arg 0 = 0) :
    wp (mutReallocMalloc flags (m.target.arg 1) bt) (Handled flags m .realloc)
      (Stops flags m .realloc) m₁ := by
  have hrenews : Renews flags m := .inl hnull
  have hresult : m.result = t.eax := result_of_returning hret
  unfold mutReallocMalloc
  rw [wp_bind, wp_mutAssert, if_pos (keeps_assert hbt)]
  refine h.lift (mutProcessReadResult_spec h.calm) (fun m₂ h₂ _ _ => ?_) (.free h hbt)
  refine wp_seq (h₂.hit .realloc) (fun _ he => he) ?_
  rintro _ m₃ ⟨h₃, -, -⟩
  rw [wp_ite]
  split
  · rename_i hzero
    exact h₃.reallocFailure hready hbt (hrenews.unmet hret (hresult.trans hzero)) (by simp)
      (by simp)
  · rename_i hzero
    have hne : m.result ≠ 0 := hresult ▸ hzero
    have hnone : (m.book.hit flags .realloc 1).find (objectAt flags t.eax) = none := by
      rw [Book.find_hit, ← hresult]
      exact hrenews.fresh hfresh hne
    refine h₃.installZones rfl hresult (aligned_roundUp _) (fun m₄ h₄ => ?_) (.free h₃ hbt)
    refine h₄.createNew hnone (fun μ hgrown => ?_) fun μ hsound =>
      .sound hsound hbt
    have hat := h₄.first (r := .blank m₄.mem.next (objectAt flags t.eax)) rfl
    have hparty : (if flags.backtrace = true then bt else none) = bt := by
      rw [← hbt]
      cases bt <;> rfl
    rw [wp_bind]
    refine (wp_counted _).2 ?_
    rw [wp_bind]
    refine (wp_assign (o := .blank m₄.mem.next (objectAt flags t.eax)) hat _).2 ?_
    simp only [Resource.blank, hparty]
    have hmade := (h₄.counted fun s => s.produced (m.target.arg 1)).made hbt hgrown
      hnone (m.target.arg 1) .realloc
    refine wp_seq (hmade.trace (owned_producer hbt List.mem_cons_self rfl) _)
      (fun _ he => he) ?_
    rintro _ m₅ ⟨h₅, -, -⟩
    refine wp_seq h₅.usage (fun _ he => he) ?_
    rintro _ m₆ ⟨h₆, -, -⟩
    refine h₆.served ?_ rfl (fun _ => ⟨t, hret, ?_⟩) (fun h => Bool.noConfusion h)
      (fun hunmet => hne hunmet.zero)
      not_damaged_realloc (not_stuck fun _ _ hnonzero => absurd hnull hnonzero)
    · show _ = m.book.reallocate flags (m.target.arg 0) (m.target.arg 1) m.result
      rw [Book.reallocate, if_pos hnull, hresult]
      rfl
    · simp only [Mut.left, if_pos hnull, Target.made, if_neg hzero]

theorem mutReallocMallocNoFree_spec
    (h : Midway flags m
      ((m.book.hit flags .realloc 1).report "FUM" [.string "realloc", .execAddr (m.target.arg 0)])
      (.ran (m.handed flags .realloc)) t bt.toList m₁)
    (hready : Ready flags m) (hbt : flags.Keeps bt) (hret : m.returning = some t)
    (hfresh : Fresh flags m .realloc) (hnonzero : m.target.arg 0 ≠ 0)
    (hunknown : m.find (m.target.arg 0) = none) (hfree : flags.free = false) :
    wp (mutReallocMallocNoFree flags (m.target.arg 1) bt) (Handled flags m .realloc)
      (Stops flags m .realloc) m₁ := by
  have hrenews : Renews flags m := .inr ⟨hunknown, hfree⟩
  have hresult : m.result = t.eax := result_of_returning hret
  unfold mutReallocMallocNoFree
  rw [wp_bind, wp_mutAssert, if_pos (keeps_assert hbt)]
  refine h.lift (mutProcessReadResult_spec h.calm) (fun m₂ h₂ _ _ => ?_) (.free h hbt)
  rw [wp_ite]
  split
  · rename_i hzero
    refine h₂.reallocFailure hready hbt (hrenews.unmet hret (hresult.trans hzero)) ?_ ?_
    · exact Book.hit_entries ..
    · exact Book.hit_stats ..
  · rename_i hzero
    have hne : m.result ≠ 0 := hresult ▸ hzero
    have hnone : ((m.book.hit flags .realloc 1).report "FUM"
        [.string "realloc", .execAddr (m.target.arg 0)]).find (objectAt flags t.eax) = none := by
      rw [← hresult]
      exact (Book.find_hit ..).trans (hrenews.fresh hfresh hne)
    refine h₂.installZones rfl hresult (aligned_roundUp _) (fun m₃ h₃ => ?_) (.free h₂ hbt)
    refine h₃.createNew hnone (fun μ hgrown => ?_) fun μ hsound => .sound hsound hbt
    have hat := h₃.first (r := .blank m₃.mem.next (objectAt flags t.eax)) rfl
    rw [wp_bind, mutResourceMakeProducer]
    refine (wp_assign (o := .blank m₃.mem.next (objectAt flags t.eax)) hat _).2 ?_
    have hmade := h₃.made hbt hgrown hnone (m.target.arg 1) .realloc
    have hat' := h₃.first
      (r := .made m₃.mem.next (objectAt flags t.eax) (m.target.arg 1) .realloc bt) rfl
    rw [wp_bind]
    refine (wp_resource
      (o := .made m₃.mem.next (objectAt flags t.eax) (m.target.arg 1) .realloc bt) hat').2 ?_
    refine hmade.collect fun m₄ hres₄ h₄ => ?_
    have hmem : Resource.made m₃.mem.next (objectAt flags t.eax) (m.target.arg 1) .realloc bt ∈
        m₄.resources.elems := hres₄ ▸ List.mem_cons_self
    refine wp_seq (h₄.trace (owned_producer hbt hmem rfl) _) (fun _ he => he) ?_
    rintro _ m₅ ⟨h₅, -, -⟩
    refine h₅.served ?_ rfl (fun _ => ⟨t, hret, ?_⟩) (fun h => Bool.noConfusion h)
      (fun hunmet => hne hunmet.zero)
      not_damaged_realloc (not_stuck fun _ _ _ e he => ?_)
    · show _ = m.book.reallocate flags (m.target.arg 0) (m.target.arg 1) m.result
      rw [Book.reallocate_unknown _ _ hnonzero hunknown, hfree, if_neg (by simp), hresult,
        Book.hit_entered, Book.hit_report, Book.hit_hit]
      rfl
    · simp only [Mut.left, if_neg hnonzero, hunknown, hfree, Bool.false_eq_true, if_false,
        Target.made, if_neg hzero]
    · rw [hunknown] at he
      cases he

/-! ## A known object when memory is not freed -/

/-- What is fresh in a list is fresh in it when an object is marked. -/
theorem Book.find_left {c : Routine} {e : Entry} {addr : Word} (hfree : flags.free = false)
    (hnone : b.find addr = none) : (b.left flags c e).find addr = none := by
  have hget : get Entry.addr addr (adjust Entry.addr e.addr (Entry.consumedBy c) b.entries) =
      if addr = e.addr then (b.find e.addr).map (Entry.consumedBy c) else b.find addr :=
    get_adjust fun _ => rfl
  have hentries : (b.left flags c e).entries =
      adjust Entry.addr e.addr (Entry.consumedBy c) b.entries := if_neg (by simp [hfree])
  rw [Book.find, hentries, hget]
  split
  · rename_i haddr
    rw [← haddr, hnone]
    rfl
  · exact hnone

theorem Given.fresh (hgiven : Given m o) (hfresh : Fresh flags m .realloc)
    (hne : m.result ≠ 0) :
    m.find m.result = none ∨ m.result = m.target.arg 0 := by
  have hrecorded : m.recorded flags .realloc = m.result :=
    if_pos ⟨rfl, hgiven.nonzero, by rw [hgiven.found]; rfl⟩
  rcases hfresh rfl hne with hnone | ⟨-, -, hsame⟩
  · exact .inl (hrecorded ▸ hnone)
  · exact .inr hsame

theorem Given.unmet (hgiven : Given m o) (hret : m.returning = some t)
    (hzero : m.result = 0) : Unmet flags m .realloc where
  routine := rfl
  returned := by rw [hret]; rfl
  zero := hzero
  looked _ _ := by rw [hgiven.found]; rfl

theorem mutReallocReallocNoFree_spec
    (h : Midway flags m b (.ran (m.handed flags .realloc)) t bt.toList m₁)
    (hready : Ready flags m) (hbt : flags.Keeps bt) (hret : m.returning = some t)
    (hfresh : Fresh flags m .realloc) (hfree : flags.free = false) (hgiven : Given m o)
    (ho : o ∈ m₁.resources.elems) (hentries : b.entries = m.book.entries)
    (hstats : b.stats = m.book.stats) (hlive : o.consumer.action = none → b = m.book) :
    wp (mutReallocReallocNoFree flags o.ptr (m.target.arg 1) bt) (Handled flags m .realloc)
      (Stops flags m .realloc) m₁ := by
  obtain ⟨l₁, l₂, haround⟩ := h.books.around ho
  have hresult : m.result = t.eax := result_of_returning hret
  have hreturned : m.returning.isSome := by rw [hret]; rfl
  unfold mutReallocReallocNoFree
  rw [wp_bind, wp_resource ⟨haround.list, haround.ptr⟩, wp_bind, wp_mutAssert,
    if_pos (keeps_assert hbt)]
  refine h.lift (mutProcessReadResult_spec h.calm) (fun m₂ h₂ hres₂ _ => ?_) (.free h hbt)
  rw [wp_bind, wp_mutAssert]
  split
  swap
  · rename_i hsame
    have hsame : m.result = m.target.arg 0 := by
      rw [bne_iff_ne, not_not] at hsame
      rw [hresult, ← hsame, hgiven.addr]
    exact .unmoved ⟨rfl, hfree, ⟨hgiven.nonzero, by rw [hgiven.found]; rfl⟩, hsame⟩
  rename_i hmoved
  have hmoved : m.result ≠ m.target.arg 0 := fun hsame => by
    rw [bne_iff_ne] at hmoved
    exact hmoved (hgiven.addr.trans (hsame.symm.trans hresult))
  rw [wp_ite]
  split
  · rename_i hzero
    exact h₂.reallocFailure hready hbt (hgiven.unmet hret (hresult.trans hzero)) hentries hstats
  · rename_i hzero
    have hne : m.result ≠ 0 := hresult ▸ hzero
    refine wp_seq (h₂.stats fun s => s.consumed o.size) (fun _ he => he) ?_
    rintro _ m₃ ⟨h₃, hres₃, -⟩
    have ho₃ : o ∈ m₃.resources.elems := by rwa [hres₃, hres₂]
    cases hconsumer : o.consumer.action with
    | some c =>
        obtain ⟨l₁, l₂, haround₃⟩ := h₃.books.around ho₃
        have hconsumed : o.consumer.action.isSome := by rw [hconsumer]; rfl
        rw [wp_bind, mutResourcesDeleteResource_consumed haround₃ hconsumed]
        exact .revived
          ⟨rfl, hfree, ⟨hgiven.nonzero, o.entry, hgiven.found, hconsumed⟩, hreturned, hne⟩
    | none =>
        obtain rfl := hlive hconsumer
        refine h₃.leave hbt ho₃ hconsumer fun m₄ h₄ => ?_
        have hnone : ((m.book.counted flags fun s => s.consumed o.size).left flags .realloc
            o.entry).find t.eax = none := by
          refine Book.find_left hfree ?_
          rcases hgiven.fresh hfresh hne with hnone | hsame
          · rw [← hresult]
            exact hnone
          · exact absurd hsame hmoved
        refine h₄.createNew hnone (fun μ hgrown => ?_) fun μ hsound => .sound hsound hbt
        have hat := h₄.first (r := .blank m₄.mem.next t.eax) rfl
        rw [wp_bind, mutResourceMakeProducer]
        refine (wp_assign (o := .blank m₄.mem.next t.eax) hat _).2 ?_
        have hmade := h₄.made hbt hgrown hnone (m.target.arg 1) .realloc
        have hat' := h₄.first
          (r := .made m₄.mem.next t.eax (m.target.arg 1) .realloc bt) rfl
        rw [wp_bind]
        refine (wp_resource
          (o := .made m₄.mem.next t.eax (m.target.arg 1) .realloc bt) hat').2 ?_
        refine hmade.lift (mutProcessMemcpy_spec hmade.calm _ _ _ ?_) (fun m₅ h₅ hres₅ _ => ?_)
          (.false _)
        · rintro (hal | hal)
          · refine .unaligned fun haligned => ?_
            have hdest := haligned.result rfl
            rw [hresult] at hdest
            exact absurd (hdest.symm.trans hal) (by simp)
          · exact hgiven.unaligned rfl id hal
        refine h₅.zero hgiven rfl rfl (fun m₆ hres₆ h₆ => ?_) (.false _)
        refine h₆.collect fun m₇ hres₇ h₇ => ?_
        have hres : m₇.resources =
            m₄.resources.cons (.made m₄.mem.next t.eax (m.target.arg 1) .realloc bt) :=
          hres₇.trans (hres₆.trans hres₅)
        rw [← hres] at hat'
        have hmem : Resource.made m₄.mem.next t.eax (m.target.arg 1) .realloc bt ∈
            m₇.resources.elems := hres ▸ List.mem_cons_self
        rw [wp_bind]
        refine (wp_resource
          (o := .made m₄.mem.next t.eax (m.target.arg 1) .realloc bt) hat').2 ?_
        refine wp_seq (h₇.trace (owned_producer hbt hmem rfl) _) (fun _ he => he) ?_
        rintro _ m₈ ⟨h₈, -, -⟩
        refine wp_seq h₈.usage (fun _ he => he) ?_
        rintro _ m₉ ⟨h₉, -, -⟩
        refine h₉.served ?_ rfl (fun _ => ⟨t, hret, ?_⟩) (fun h => Bool.noConfusion h)
          (fun hunmet => hne hunmet.zero)
          not_damaged_realloc (not_stuck fun _ _ _ e he => ?_)
        · show _ = m.book.reallocate flags (m.target.arg 0) (m.target.arg 1) m.result
          rw [Book.reallocate_known _ _ hgiven.nonzero hgiven.found, hfree, if_neg (by simp),
            hresult, Book.hit_entered]
          show ((((m.book.consumed flags .realloc o.entry).hit flags .realloc 1).entered
            .realloc t.eax (m.target.arg 1)).counted flags fun s => s.produced _) = _
          rw [Book.hit_consumed]
          rfl
        · simp only [Mut.left, if_neg hgiven.nonzero, hgiven.found, hfree, Bool.false_eq_true,
            if_false]
          rfl
        · rw [hgiven.found] at he
          cases he
          exact ⟨hconsumer, hmoved⟩

/-! ## A known object when memory is freed -/

/-- The producer's backtrace is closed and the handler's takes its place. -/
theorem reallocBacktraces_spec {R : List Nat} (hat : At m₁.resources.elems o l₁ l₂)
    (hproducer : o.producer.backtrace.isSome = flags.backtrace)
    (hconsumer : o.consumer = ⟨none, none⟩) (hbt : flags.Keeps bt)
    (hsound : Sound m₁.mem (o.producer.backtrace.toList ++ R)) :
    wp (whenever flags.backtrace (mutReallocBacktraces o.ptr bt))
      (fun _ m₂ => ∃ μ,
        m₂ = { m₁ with
          resources := { m₁.resources with
            elems := l₁ ++ { o with producer := ⟨o.producer.action, bt⟩ } :: l₂ }
          mem := μ } ∧
        m₁.mem.Later μ ∧ Sound μ R) E m₁ := by
  obtain ⟨ptr, addr, size, ⟨action, backtrace⟩, consumer⟩ := o
  obtain rfl := hconsumer
  rw [wp_whenever]
  cases hon : flags.backtrace with
  | false =>
      obtain rfl : backtrace = none := by simpa using hproducer.trans hon
      obtain rfl : bt = none := by simpa using hbt.trans hon
      refine ⟨m₁.mem, ?_, .refl _, hsound⟩
      rw [← hat.list]
  | true =>
      obtain ⟨k, rfl⟩ := Option.isSome_iff_exists.1 (hproducer.trans hon)
      simp only [if_true, mutReallocBacktraces, wp_bind]
      refine (wp_resource hat).2 ?_
      simp only [wp_whenever, Option.isSome_none, Bool.false_eq_true, if_false]
      refine (wp_assign hat _).2 (wp_mono (mutBacktraceClose_spec hsound) ?_ fun _ he => he)
      rintro _ _ ⟨μ, rfl, hlater, hsound'⟩
      refine (wp_assign (o := ⟨ptr, addr, size, ⟨action, some k⟩, ⟨none, none⟩⟩)
        ⟨rfl, hat.ptr⟩ _).2 ?_
      exact ⟨μ, rfl, hlater, hsound'⟩

/-- The object is given its new address, unless it has it already. -/
theorem Midway.move {f : Bool → MutM Bool} {addr : Word}
    (h : Midway flags m b ran t held m₁) (hgiven : Given m o) (htakes : a.takes = true)
    (hlist : m₁.resources.elems = l₁ ++ o :: l₂) (hlive : o.consumer.action = none)
    (hf : ∀ m₂, m₂.resources = m₁.resources →
      Midway flags m b ran (if o.addr = addr then t else t.wiped flags o.entry) held m₂ →
      wp (f true) (Handled flags m a) (Stops flags m a)
        { m₂ with
          resources := { m₂.resources with elems := l₁ ++ { o with addr } :: l₂ } })
    (hbad : ∀ μ, GivesUp flags m a (Stops flags m a) μ (f false)) :
    wp (mutReallocMove flags o.ptr o addr >>= f) (Handled flags m a) (Stops flags m a) m₁ := by
  unfold mutReallocMove
  by_cases hsame : o.addr = addr
  · have hnot : (!mutResourcesResourceDeleted o) = true := by
      simp [mutResourcesResourceDeleted, hlive]
    rw [if_pos hsame] at hf
    have hend := hf m₁ rfl h
    rw [if_pos hsame, wp_assoc, wp_bind, wp_mutAssert, if_pos hnot]
    rwa [← hsame, ← hlist] at hend
  · rw [if_neg hsame] at hf
    rw [if_neg hsame, wp_assoc]
    refine h.zero hgiven htakes rfl (fun m₂ hres₂ h₂ => ?_) (hbad _)
    rw [← hres₂] at hlist
    have haround := h₂.books.split hlist
    show wp ((Mut.assign o.ptr _ >>= fun _ => pure true) >>= f) _ _ m₂
    rw [wp_assoc, wp_bind]
    refine (wp_assign ⟨hlist, haround.ptr⟩ _).2 ?_
    exact hf m₂ hres₂ h₂

/-- The object, re-addressed, is back in the books, and the handler's backtrace
is its producer's. -/
theorem Midway.readdressed {addr : Word} {μ : Mem}
    (h : Midway flags m b ran t bt.toList m₁) (size : Word) (hbt : flags.Keeps bt)
    (ho : Around flags m₁.resources m₁.mem bt.toList o l₁ l₂)
    (hlive : o.consumer.action = none) (haddr : ∀ s ∈ l₁ ++ l₂, s.addr ≠ addr)
    (hlater : m₁.mem.Later μ) (hsound : Sound μ (bt.toList ++ refsOf (l₁ ++ l₂))) :
    Midway flags m { b with
        entries :=
          adjust Entry.addr o.addr (fun _ => ⟨addr, size, some .realloc, none⟩) b.entries }
      ran t []
      { m₁ with
        resources := { m₁.resources with
          elems := l₁ ++ .made o.ptr addr size .realloc bt :: l₂ }
        mem := μ } := by
  have hactive := ho.active
  have hconsumed := ho.consumed
  rw [hlive] at hactive hconsumed
  have hbooks : Books flags { m₁.resources with
      elems := l₁ ++ .made o.ptr addr size .realloc bt :: l₂ } μ [] := by
    refine Books.put (r := .made o.ptr addr size .realloc bt) (ho.others.mono hlater.next)
      haddr ho.ptr ?_ (Nat.lt_of_lt_of_le ho.below hlater.next) rfl hactive hconsumed ho.mode
      ?_
    · exact
        { produced := rfl
          freeing := fun _ => rfl
          producerBacktrace := hbt
          consumerBacktrace := by simp [Resource.made] }
    · simpa [Resource.refs, Resource.made] using hsound
  have hmoved := h.resources hlater hbooks
  rw [← h.entries, ho.adjust_entry]
  simpa [Resources.entries, Resource.made, Resource.entry] using hmoved

theorem mutReallocRealloc_spec
    (h : Midway flags m m.book (.ran (m.handed flags .realloc)) t bt.toList m₁)
    (hready : Ready flags m) (hbt : flags.Keeps bt) (hret : m.returning = some t)
    (hfresh : Fresh flags m .realloc) (hfree : flags.free = true) (hgiven : Given m o)
    (ho : o ∈ m₁.resources.elems) :
    wp (mutReallocRealloc flags o.ptr (m.target.arg 1) bt) (Handled flags m .realloc)
      (Stops flags m .realloc) m₁ := by
  have hresult : m.result = t.eax := result_of_returning hret
  unfold mutReallocRealloc
  rw [wp_bind, wp_mutAssert, if_pos hfree, wp_bind, wp_mutAssert, if_pos (keeps_assert hbt)]
  refine h.lift (mutProcessReadResult_spec h.calm) (fun m₂ h₂ hres₂ _ => ?_) (.false _)
  refine wp_seq (h₂.hit .realloc) (fun _ he => he) ?_
  rintro _ m₃ ⟨h₃, hres₃, -⟩
  obtain ⟨l₁, l₂, hlist⟩ := List.append_of_mem ho
  rw [← hres₂, ← hres₃] at hlist
  have haround := h₃.books.split hlist
  have hlive : o.consumer.action = none := haround.ok.freeing hfree
  have hnobt : o.consumer.backtrace = none := by
    have := haround.ok.consumerBacktrace
    simpa [hlive] using this
  have hparty : o.consumer = ⟨none, none⟩ := by
    rw [← hlive, ← hnobt]
  obtain ⟨ptr, addr, size, producer, consumer⟩ := o
  obtain rfl := hparty
  rw [wp_bind, wp_resource ⟨hlist, haround.ptr⟩, wp_ite]
  split
  · rename_i hzero
    exact h₃.reallocFailure hready hbt (hgiven.unmet hret (hresult.trans hzero)) (by simp)
      (by simp)
  · rename_i hzero
    have hne : m.result ≠ 0 := hresult ▸ hzero
    refine wp_seq (h₃.stats fun s => s.consumed size) (fun _ he => he) ?_
    rintro _ m₄ ⟨h₄, hres₄, -⟩
    rw [← hres₄] at hlist
    refine h₄.move hgiven rfl hlist hlive (fun m₅ hres₅ h₅ => ?_) fun μ => .false μ
    rw [← hres₅] at hlist
    have haround₅ := h₅.books.split hlist
    have haddr : ∀ s ∈ l₁ ++ l₂, s.addr ≠ t.eax := by
      rcases hgiven.fresh hfresh hne with hnone | hsame
      · have hunlisted : get Resource.addr t.eax m₅.resources.elems = none := h₅.unlisted (by
          rw [← hresult]
          exact (Book.find_hit ..).trans hnone)
        rw [hlist] at hunlisted
        intro s hs
        refine get_eq_none.1 hunlisted s ?_
        simp only [List.mem_append, List.mem_cons] at hs ⊢
        exact hs.imp_right .inr
      · rw [← hresult, hsame, ← hgiven.addr]
        exact haround₅.addr
    refine (wp_bind _ _).2 ((wp_counted _).2 ?_)
    rw [wp_bind]
    refine (wp_assign (o := ⟨ptr, t.eax, size, producer, ⟨none, none⟩⟩)
      ⟨rfl, haround₅.ptr⟩ _).2 ?_
    refine wp_seq (reallocBacktraces_spec (R := bt.toList ++ refsOf (l₁ ++ l₂))
      (o := ⟨ptr, t.eax, m.target.arg 1, ⟨some .realloc, producer.backtrace⟩, ⟨none, none⟩⟩)
      ⟨rfl, haround₅.ptr⟩ haround₅.ok.producerBacktrace rfl hbt ?_) (fun _ he => he) ?_
    · have hsound : Sound m₅.mem
          (producer.backtrace.toList ++ (bt.toList ++ refsOf (l₁ ++ l₂))) := by
        simpa [Resource.refs] using haround₅.sound
      exact hsound
    · rintro _ _ ⟨μ, rfl, hlater, hsound⟩
      have h₆ := (h₅.counted fun s => s.produced (m.target.arg 1)).readdressed
        (m.target.arg 1) hbt haround₅ hlive haddr hlater hsound
      refine wp_seq (h₆.trace
        (owned_producer hbt (List.mem_append_right _ List.mem_cons_self) rfl) _)
        (fun _ he => he) ?_
      rintro _ m₇ ⟨h₇, -, -⟩
      refine wp_seq h₇.usage (fun _ he => he) ?_
      rintro _ m₈ ⟨h₈, -, -⟩
      refine h₈.served ?_ rfl (fun _ => ⟨t, hret, ?_⟩) (fun h => Bool.noConfusion h)
        (fun hunmet => hne hunmet.zero)
        not_damaged_realloc (not_stuck fun _ hkeep => ?_)
      · show _ = m.book.reallocate flags (m.target.arg 0) (m.target.arg 1) m.result
        rw [Book.reallocate_known _ _ hgiven.nonzero hgiven.found, hfree, if_pos rfl, hresult]
        rfl
      · simp only [Mut.left, if_neg hgiven.nonzero, hgiven.found, hfree, if_true]
        rfl
      · rw [hfree] at hkeep
        cases hkeep

/-! ## The handler -/

theorem mutReallocUnknown_spec
    (h : Midway flags m m.book .ahead m.target bt.toList m₁) (hready : Ready flags m)
    (hbt : flags.Keeps bt) (hfresh : Fresh flags m .realloc) (hnonzero : m.target.arg 0 ≠ 0)
    (hunknown : m.find (m.target.arg 0) = none) :
    wp (mutReallocUnknown flags .realloc (m.target.arg 0) (m.target.arg 1)
      m.target.returnAddr bt) (Handled flags m .realloc) (Stops flags m .realloc) m₁ := by
  unfold mutReallocUnknown
  refine wp_seq (h.hit .realloc) (fun _ he => he) ?_
  rintro _ m₂ ⟨h₂, -, -⟩
  refine wp_seq (h₂.fum hready (by simp) hbt _) (fun _ he => he) ?_
  rintro _ m₃ ⟨h₃, -, -⟩
  rw [wp_ite]
  split
  -- The target's function runs on what it was called with.
  · rename_i hfree
    have hhanded : m.handed flags .realloc = m.target := by
      simp only [Mut.handed, hfree, hunknown, Bool.true_eq_false, false_and, if_false,
        Option.isSome_none, Bool.false_eq_true, hnonzero, or_self, and_false]
    rw [mutReallocFumTrace]
    refine wp_seq (h₃.traceConsumer _) (fun _ he => he) ?_
    rintro _ m₄ ⟨h₄, -, -⟩
    refine wp_seq (h₄.closeBacktrace hbt) (fun _ he => he) ?_
    rintro _ m₅ ⟨h₅, -⟩
    refine wp_mono (h₅.acted (a := .realloc) rfl) ?_ fun _ he => he
    rintro ok m₆ (⟨rfl, -, -, t', hret, h₆⟩ | ⟨rfl, -, hdropped⟩)
    · refine h₆.served ?_ (by rw [hhanded]; rfl) (fun _ => ⟨t', hret, ?_⟩)
        (fun h => Bool.noConfusion h)
        (fun hunmet => ?_) not_damaged_realloc (not_stuck fun _ hkeep => ?_)
      · show _ = m.book.reallocate flags (m.target.arg 0) (m.target.arg 1) m.result
        rw [Book.reallocate_unknown _ _ hnonzero hunknown, if_pos hfree]
        rfl
      · simp only [Mut.left, if_neg hnonzero, hunknown, hfree, if_true]
      · have hsome := hunmet.looked hfree hnonzero
        rw [hunknown] at hsome
        cases hsome
      · rw [hfree] at hkeep
        cases hkeep
    · exact .inr ⟨rfl, hdropped⟩
  -- The target's function runs on a null pointer.
  · rename_i hkeep
    have hfree : flags.free = false := by simpa using hkeep
    have hhanded : m.handed flags .realloc =
        if flags.check then
          (m.target.setArg 0 0).setArg 1 (mutRoundUp (m.target.arg 1))
        else m.target.setArg 0 0 := by
      simp only [Mut.handed, hfree, ne_eq, hnonzero, not_false_eq_true, and_self, if_true,
        true_or, and_true]
    refine h₃.lift (mutProcessWriteArg_spec h₃.calm 0 0) (fun m₄ h₄ _ _ => ?_) (.free h₃ hbt)
    refine h₄.unless (mutProcessWriteArg_spec h₄.calm 1 _) (fun m₅ _ h₅ => ?_) (.free h₄ hbt)
    rw [← hhanded] at h₅
    refine h₅.act rfl (fun t' m₆ hret h₆ _ _ => ?_) (.free h₅ hbt)
    exact mutReallocMallocNoFree_spec h₆ hready hbt hret hfresh hnonzero hunknown hfree

/-- A consumed object is reported before its `realloc`. -/
theorem Midway.ffmIfConsumed (h : Midway flags m m.book .ahead m.target bt.toList m₁)
    (hready : Ready flags m) (hbt : flags.Keeps bt) (ho : o ∈ m₁.resources.elems)
    (addr : Word) :
    wp (whenever (mutResourcesResourceDeleted o) (mutLogFfm flags addr .realloc o.ptr bt))
      (fun _ m₂ => ∃ b, Midway flags m b .ahead m.target bt.toList m₂ ∧
        m₂.resources = m₁.resources ∧ b.entries = m.book.entries ∧ b.stats = m.book.stats ∧
        (o.consumer.action = none → b = m.book)) E m₁ := by
  obtain ⟨l₁, l₂, haround⟩ := h.books.around ho
  rw [wp_whenever]
  split
  · rename_i hconsumed
    have hnot : o.consumer.action ≠ none := by
      simpa [mutResourcesResourceDeleted, Option.isSome_iff_ne_none] using hconsumed
    have hfree : flags.free = false := by
      cases hfree : flags.free with
      | false => rfl
      | true => exact absurd (haround.ok.freeing hfree) hnot
    refine wp_mono (h.ffm hready (by simp) hbt hfree haround hconsumed addr) ?_ fun _ he => he
    rintro _ m₂ ⟨h₂, hres₂, -⟩
    exact ⟨_, h₂, hres₂, rfl, rfl, fun hlive => absurd hlive hnot⟩
  · exact ⟨m.book, h, rfl, rfl, rfl, fun _ => rfl⟩

theorem Given.handedRealloc (hgiven : Given m o) :
    m.handed flags .realloc =
      if flags.check then
        (if !flags.free then m.target.setArg 0 0 else m.target).setArg 1
          (mutRoundUp (m.target.arg 1))
      else if !flags.free then m.target.setArg 0 0 else m.target := by
  have hsome : (m.find (m.target.arg 0)).isSome := by rw [hgiven.found]; rfl
  have hwritten : (if flags.free = false ∧ m.target.arg 0 ≠ 0 then m.target.setArg 0 0
      else m.target) = if !flags.free then m.target.setArg 0 0 else m.target := by
    cases flags.free <;>
      simp only [ne_eq, hgiven.nonzero, not_false_eq_true, and_true, Bool.true_eq_false,
        Bool.not_true, Bool.not_false, Bool.false_eq_true]
  simp only [Mut.handed, hwritten, hsome, or_true, and_true]

theorem mutReallocKnown_spec
    (h : Midway flags m m.book .ahead m.target bt.toList m₁) (hready : Ready flags m)
    (hbt : flags.Keeps bt) (hfresh : Fresh flags m .realloc) (hgiven : Given m o)
    (ho : o ∈ m₁.resources.elems) :
    wp (mutReallocKnown flags .realloc (m.target.arg 0) (m.target.arg 1)
      m.target.returnAddr o.ptr bt) (Handled flags m .realloc) (Stops flags m .realloc) m₁ := by
  obtain ⟨l₁, l₂, haround⟩ := h.books.around ho
  have hfreeing := haround.ok.freeing
  unfold mutReallocKnown
  rw [wp_bind, wp_resource ⟨haround.list, haround.ptr⟩]
  refine wp_seq (h.ffmIfConsumed hready hbt ho _) (fun _ he => he) ?_
  rintro _ m₂ ⟨b, h₂, hres₂, hentries, hstats, hlive⟩
  refine h₂.unless (mutProcessWriteArg_spec h₂.calm 0 0) (fun m₃ hres₃ h₃ => ?_) (.free h₂ hbt)
  refine h₃.unless (mutProcessWriteArg_spec h₃.calm 1 _) (fun m₄ hres₄ h₄ => ?_) (.free h₃ hbt)
  rw [← hgiven.handedRealloc] at h₄
  refine h₄.act rfl (fun t' m₅ hret h₅ hres₅ _ => ?_) (.free h₄ hbt)
  have ho₅ : o ∈ m₅.resources.elems := by rwa [hres₅, hres₄, hres₃, hres₂]
  show wp (if flags.free = true then _ else _) _ _ m₅
  rw [wp_ite]
  split
  · rename_i hfree
    obtain rfl := hlive (hfreeing hfree)
    exact mutReallocRealloc_spec h₅ hready hbt hret hfresh hfree hgiven ho₅
  · rename_i hkeep
    exact mutReallocReallocNoFree_spec h₅ hready hbt hret hfresh (by simpa using hkeep) hgiven
      ho₅ hentries hstats hlive

theorem mutDoRealloc_spec (hready : Ready flags m) (hfresh : Fresh flags m .realloc) :
    wp (mutDoRealloc flags .realloc) (Handled flags m .realloc) (Stops flags m .realloc) m := by
  have h := hready.midway
  unfold mutDoRealloc
  refine h.lift (mutProcessReadArg_spec h.calm 0) (fun m₁ h₁ _ _ => ?_) (.false _)
  refine h₁.lift (mutProcessReadArg_spec h₁.calm 1) (fun m₂ h₂ _ _ => ?_) (.false _)
  refine h₂.lift (mutProcessFunctionReturnAddr_spec h₂.calm) (fun m₃ h₃ _ _ => ?_) (.false _)
  refine h₃.produceBacktrace (fun bt m₄ hbt h₄ _ => ?_) fun μ => .false μ
  simp only [wp_ite]
  split
  · rename_i hnull
    have hhanded : m.handed flags .realloc =
        if flags.check then m.target.setArg 1 (mutRoundUp (m.target.arg 1)) else m.target := by
      simp only [Mut.handed, hnull, ne_eq, not_true_eq_false, and_false, if_false, true_or,
        or_true, and_true]
    refine h₄.unless (mutProcessWriteArg_spec h₄.calm 1 _) (fun m₅ _ h₅ => ?_) (.free h₄ hbt)
    rw [← hhanded] at h₅
    refine h₅.act rfl (fun t' m₆ hret h₆ _ _ => ?_) (.free h₅ hbt)
    exact mutReallocMalloc_spec h₆ hready hbt hret hfresh hnull
  · rename_i hnonzero
    rw [wp_bind, wp_lookup]
    rcases h₄.lookup (m.target.arg 0) with ⟨hget, hnone⟩ | ⟨o, ho, hget, haddr, hfound⟩
    · simp only [hget, Option.map_none]
      exact mutReallocUnknown_spec h₄ hready hbt hfresh hnonzero hnone
    · simp only [hget, Option.map_some]
      exact mutReallocKnown_spec h₄ hready hbt hfresh ⟨hnonzero, haddr, hfound⟩ ho

end MutTracker.Source
