import MutTracker.Source.Consumers
import MutTracker.Verified.Producers

/-!
# free and cfree

A null pointer goes to the target's function; any other pointer is looked up,
and an unknown or a consumed one is reported.  A live object leaves the list,
or is marked, unless a damaged mark is found around it.

## Main results

* `Midway.zoneCheck` — the check passes exactly when both marks are whole.
* `mutDoConsumer_spec`.
-/

namespace MutTracker.Source

open MutTracker.Logic MutTracker.Logic.Prog MutTracker.Logic.Keyed

variable {flags : Control} {m m₁ : Mut} {a : Routine} {b : Book} {ran : Passage}
  {t : Target} {held : List Nat} {bt : Option Nat} {E : Halt → Prop} {o : Resource}
  {l₁ l₂ : List Resource}

theorem runs_consumer (ha : a = .free ∨ a = .cfree) :
    m.runs flags a = (flags.free || m.target.arg 0 == 0) := by rcases ha with rfl | rfl <;> rfl

theorem left_consumer (ha : a = .free ∨ a = .cfree) (t : Target) : m.left flags a t = t := by
  rcases ha with rfl | rfl <;> rfl

/-- A consumer makes no assertion about the list fail. -/
theorem not_stuck_consumer (ha : a = .free ∨ a = .cfree) : ¬ Stuck flags m a :=
  not_stuck fun hrealloc => by rcases ha with rfl | rfl <;> cases hrealloc

theorem handed_consumer (ha : a = .free ∨ a = .cfree) :
    m.handed flags a =
      match m.find (m.target.arg 0) with
      | some e =>
          if m.target.arg 0 ≠ 0 ∧ e.consumer = none then m.target.wiped flags e
          else m.target
      | none => m.target := by rcases ha with rfl | rfl <;> rfl

theorem step_consumer (ha : a = .free ∨ a = .cfree) :
    m.book.step flags (m.event a) = m.book.consume flags a (m.target.arg 0) := by
  rcases ha with rfl | rfl <;> rfl

/-- The object that a consumer is given, live in the list. -/
structure Given (m : Mut) (o : Resource) : Prop where
  nonzero : m.target.arg 0 ≠ 0
  addr : o.addr = m.target.arg 0
  found : m.find (m.target.arg 0) = some o.entry

theorem Given.unaligned (hgiven : Given m o) (htakes : a.takes = true) {addr : Word}
    (haddr : mutExecAddrAligned o.addr = true → mutExecAddrAligned addr = true)
    (hal : mutExecAddrAligned addr = false) : Stops flags m a (.assertion .aligned) := by
  refine .unaligned fun haligned => ?_
  have hentry := haligned.object htakes o.entry hgiven.found
  rw [haddr hentry] at hal
  cases hal

/-! ## Zones -/

theorem aligned_preZone {addr : Word} (h : mutExecAddrAligned addr = true) :
    mutExecAddrAligned (preZoneAddr addr) = true :=
  aligned_sub h (by decide)

theorem aligned_postZone {addr : Word} (h : mutExecAddrAligned addr = true) (size : Word) :
    mutExecAddrAligned (postZoneAddr addr size) = true :=
  aligned_sub (aligned_add (aligned_preZone h) (aligned_roundUp size)) (by decide)

/-- What a check of the zones of the object `o` comes to. -/
def Checked (flags : Control) (m : Mut) (a : Routine) (b : Book) (held : List Nat)
    (o : Resource) (m₁ : Mut) (ok : Bool) (m₂ : Mut) : Prop :=
  m₂.mem = m₁.mem ∧
    ((ok = true ∧ m.target.Intact o.addr o.size ∧ m₂.resources = m₁.resources ∧
        Midway flags m b .ahead m.target held m₂) ∨
      (ok = false ∧ Dropped flags m a m₂))

/-- A mark that is not whole ends the handler. -/
private theorem zone_damaged {zone value : Word}
    (h : Midway flags m b .ahead m.target bt.toList m₁) (hready : Ready flags m)
    (hbt : flags.Keeps bt) (ha : a = .free ∨ a = .cfree) (hcheck : flags.check = true)
    (hgiven : Given m o) (ho : o ∈ m₁.resources.elems) (hlive : o.consumer.action = none)
    (hentries : b.entries = m.book.entries) (hreports : b.reports = m.book.reports)
    (hdamaged : ¬ m.target.Intact o.addr o.size) :
    wp (do
      mutLogWum flags (m.target.arg 0) zone value a o.ptr bt
      return false) (Checked flags m a b bt.toList o m₁) E m₁ := by
  obtain ⟨l₁, l₂, haround⟩ := h.books.around ho
  have hname : a ≠ .usage := by rcases ha with rfl | rfl <;> simp
  refine wp_seq (h.wum hready hname hbt hcheck haround _ _ _) (fun _ he => he) ?_
  rintro _ m₂ ⟨h₂, -, hmem⟩
  refine ⟨hmem, .inr ⟨rfl, .damaged ?_ h₂.status ?_ ?_⟩⟩
  · exact ⟨hcheck, ha, hgiven.nonzero, o.entry, hgiven.found, hlive, hdamaged⟩
  · rw [h₂.book, ← hentries]
    rfl
  · rw [h₂.book, ← hreports]
    rfl

/-- The check passes when both marks are whole. -/
theorem Midway.zoneCheck (h : Midway flags m b .ahead m.target bt.toList m₁)
    (hready : Ready flags m) (hbt : flags.Keeps bt) (ha : a = .free ∨ a = .cfree)
    (hcheck : flags.check = true) (hgiven : Given m o) (ho : o ∈ m₁.resources.elems)
    (hlive : o.consumer.action = none) (hentries : b.entries = m.book.entries)
    (hreports : b.reports = m.book.reports) :
    wp (mutZoneCheck flags (m.target.arg 0) o.ptr a bt) (Checked flags m a b bt.toList o m₁)
      (Stops flags m a) m₁ := by
  obtain ⟨l₁, l₂, haround⟩ := h.books.around ho
  have htakes : a.takes = true := by rcases ha with rfl | rfl <;> rfl
  simp only [mutZoneCheck, wp_bind, wp_resource ⟨haround.list, haround.ptr⟩, wp_liftProcess]
  rw [← hgiven.addr]
  refine wp_mono (mutProcessReadWord_spec h.calm _
    (hgiven.unaligned htakes aligned_preZone)) ?_ fun _ he => he
  rintro _ q₂ (⟨rfl, hq₂⟩ | ⟨rfl, hfault⟩)
  swap
  · exact ⟨rfl, .inr ⟨rfl, .faulted (hfault.of_suffix h.faults)⟩⟩
  have h₂ := h.moved hq₂
  simp only [wp_ite]
  split
  · rename_i hpre
    rw [hgiven.addr]
    exact zone_damaged h₂ hready hbt ha hcheck hgiven ho hlive hentries hreports
      fun hintact => hpre hintact.pre
  · rename_i hpre
    simp only [wp_bind, wp_liftProcess]
    refine wp_mono (mutProcessReadWord_spec h₂.calm _
      (hgiven.unaligned htakes fun hal => aligned_postZone hal o.size)) ?_ fun _ he => he
    rintro _ q₃ (⟨rfl, hq₃⟩ | ⟨rfl, hfault⟩)
    swap
    · exact ⟨rfl, .inr ⟨rfl, .faulted (hfault.of_suffix h₂.faults)⟩⟩
    have h₃ := h₂.moved hq₃
    simp only [wp_ite]
    split
    · rename_i hpost
      rw [hgiven.addr]
      exact zone_damaged h₃ hready hbt ha hcheck hgiven ho hlive hentries hreports
        fun hintact => hpost hintact.post
    · rename_i hpost
      exact ⟨rfl, .inl ⟨rfl, ⟨not_not.1 hpre, not_not.1 hpost⟩, rfl, h₃⟩⟩

/-! ## The handler -/

/-- The target's function runs when memory is really freed and is skipped when
it is not. -/
theorem Midway.finish (h : Midway flags m b .ahead t [] m₁) (ha : a = .free ∨ a = .cfree)
    (hnonzero : m.target.arg 0 ≠ 0) (hbook : b = m.book.step flags (m.event a))
    (hhanded : t = m.handed flags a) (hwhole : ¬ Damaged flags m a) :
    wp (mutFinishConsumer flags m.target.returnAddr a) (Handled flags m a)
      (Stops flags m a) m₁ := by
  have hmet : ¬ Unmet flags m a := fun hunmet => by
    rcases ha with rfl | rfl <;> simpa using hunmet.routine
  unfold mutFinishConsumer
  cases hfree : flags.free with
  | true =>
      have hruns : m.runs flags a = true := by rw [runs_consumer ha, hfree, Bool.true_or]
      refine wp_mono (h.acted hruns) ?_ fun _ he => he
      rintro ok m₂ (⟨rfl, -, -, t', hret, h₂⟩ | ⟨rfl, -, hdropped⟩)
      · refine h₂.served hbook ?_ (fun _ => ⟨t', hret, (left_consumer ha t').symm⟩)
          (fun hskip => ?_) hmet hwhole (not_stuck_consumer ha)
        · rw [if_pos hruns, hhanded]
        · rw [hruns] at hskip
          cases hskip
      · exact .inr ⟨rfl, hdropped⟩
  | false =>
      have hruns : m.runs flags a = false := by
        rw [runs_consumer ha, hfree, Bool.false_or]
        exact beq_eq_false_iff_ne.2 hnonzero
      simp only [Bool.false_eq_true, if_false, wp_liftProcess]
      refine wp_mono (mutProcessSkipTo_spec h.calm _) ?_ fun _ he => he
      rintro ok q (⟨rfl, hq⟩ | ⟨rfl, hfault⟩)
      · refine (h.skipTo.moved hq).served hbook ?_ (fun hrun => ?_) (fun _ => by rw [hhanded]) hmet
          hwhole (not_stuck_consumer ha)
        · rw [hruns]
          rfl
        · rw [hruns] at hrun
          cases hrun
      · exact .inr ⟨rfl, .faulted (hfault.of_suffix h.faults)⟩

/-- What a consumer of a known object does to the account. -/
theorem Given.step (hgiven : Given m o) (flags : Control) (ha : a = .free ∨ a = .cfree) :
    m.book.step flags (m.event a) =
      if o.consumer.action.isSome then
        (m.book.hit flags a 1).report "FFM" [.string a.word, .execAddr (m.target.arg 0)]
      else (m.book.hit flags a 1).consumed flags a o.entry := by
  have hfound : (m.book.hit flags a 1).find (m.target.arg 0) = some o.entry := by
    rw [Book.find_hit]
    exact hgiven.found
  rw [step_consumer ha, Book.consume]
  simp only [if_neg hgiven.nonzero, hfound]
  rfl

/-- The object is zeroed before the function runs. -/
theorem Given.handed (hgiven : Given m o) (ha : a = .free ∨ a = .cfree) :
    m.handed flags a =
      if o.consumer.action = none then m.target.wiped flags o.entry else m.target := by
  rw [handed_consumer ha, hgiven.found]
  simp only [ne_eq, hgiven.nonzero, not_false_eq_true, true_and]
  rfl

/-- The object is zeroed when the tracker is asked to. -/
theorem Midway.zero {f : Bool → MutM Bool} {addr : Word}
    (h : Midway flags m b ran t held m₁) (hgiven : Given m o) (htakes : a.takes = true)
    (haddr : o.addr = addr)
    (hf : ∀ m₂, m₂.resources = m₁.resources →
      Midway flags m b ran (t.wiped flags o.entry) held m₂ →
      wp (f true) (Handled flags m a) (Stops flags m a) m₂)
    (hbad : GivesUp flags m a (Stops flags m a) m₁.mem (f false)) :
    wp (unlessFails flags.zero (liftM (mutProcessMemset addr 0 o.size)) >>= f)
      (Handled flags m a) (Stops flags m a) m₁ := by
  subst haddr
  exact h.unless (mutProcessMemset_spec h.calm _ _ _ (hgiven.unaligned htakes id)) hf hbad

/-- The object leaves the list, or is marked. -/
theorem Midway.leave {f : Unit → MutM Bool} {c : Routine}
    (h : Midway flags m b ran t bt.toList m₁) (hbt : flags.Keeps bt)
    (ho : o ∈ m₁.resources.elems) (hlive : o.consumer.action = none)
    (hf : ∀ m₂, Midway flags m (b.left flags c o.entry) ran t bt.toList m₂ →
      wp (f ()) (Handled flags m a) E m₂) :
    wp (mutResourcesDeleteResource o.ptr c bt >>= f) (Handled flags m a) E m₁ := by
  obtain ⟨l₁, l₂, haround⟩ := h.books.around ho
  rw [← List.append_nil bt.toList] at haround
  refine wp_seq (mutResourcesDeleteResource_spec haround hlive hbt c) (fun _ he => he) ?_
  rintro _ _ ⟨rs, μ, rfl, hlater, hbooks, hentries⟩
  rw [List.append_nil] at hbooks
  have h₂ := h.resources hlater hbooks
  rw [hentries, h.entries] at h₂
  exact hf _ h₂

/-- The object is live: it leaves the list, or is marked, when its marks are
whole. -/
theorem mutConsumeLive_spec
    (h : Midway flags m (m.book.hit flags a 1) .ahead m.target bt.toList m₁)
    (hready : Ready flags m) (hbt : flags.Keeps bt) (ha : a = .free ∨ a = .cfree)
    (hgiven : Given m o) (ho : o ∈ m₁.resources.elems) (hlive : o.consumer.action = none) :
    wp (mutConsumeLive flags (m.target.arg 0) m.target.returnAddr a o.ptr bt)
      (Handled flags m a) (Stops flags m a) m₁ := by
  obtain ⟨l₁, l₂, haround⟩ := h.books.around ho
  have htakes : a.takes = true := by rcases ha with rfl | rfl <;> rfl
  have hstep := hgiven.step flags ha
  rw [hlive, if_neg (by simp)] at hstep
  have hhanded : m.handed flags a = m.target.wiped flags o.entry := by
    rw [hgiven.handed ha, if_pos hlive]
  unfold mutConsumeLive
  rw [wp_bind, wp_resource ⟨haround.list, haround.ptr⟩]
  refine wp_seq (h.stats fun s => s.consumed o.size) (fun _ he => he) ?_
  rintro _ m₂ ⟨h₂, hres₂, -⟩
  rw [← hres₂] at ho
  have hend : ∀ {m₃}, ¬ Damaged flags m a →
      Midway flags m ((m.book.hit flags a 1).consumed flags a o.entry) .ahead
        (m.handed flags a) bt.toList m₃ →
      wp (do
        whenever flags.backtrace (mutBacktraceClose bt)
        whenever flags.usage (mutReportUsage flags)
        mutFinishConsumer flags m.target.returnAddr a) (Handled flags m a) (Stops flags m a)
        m₃ := by
    intro m₃ hwhole h₃
    refine wp_seq (h₃.closeBacktrace hbt) (fun _ he => he) ?_
    rintro _ m₄ ⟨h₄, -⟩
    refine wp_seq h₄.usage (fun _ he => he) ?_
    rintro _ m₅ ⟨h₅, -, -⟩
    exact h₅.finish ha hgiven.nonzero hstep.symm rfl hwhole
  refine wp_unlessFails.2 ?_
  split
  · rename_i hcheck
    refine wp_seq (h₂.zoneCheck hready hbt ha hcheck hgiven ho hlive (by simp) (by simp))
      (fun _ he => he) ?_
    rintro ok m₃ ⟨hmem, ⟨rfl, hintact, hres₃, h₃⟩ | ⟨rfl, hdropped⟩⟩
    · refine h₃.zero hgiven htakes hgiven.addr (fun m₄ hres₄ h₄ => ?_) (.free h₃ hbt)
      rw [← hhanded] at h₄
      refine h₄.leave hbt (by rwa [hres₄, hres₃]) hlive fun m₅ h₅ => hend (fun hdamaged => ?_) h₅
      obtain ⟨e, he, -, hnot⟩ := hdamaged.object.2
      rw [hgiven.found] at he
      cases he
      exact hnot hintact
    · exact GivesUp.free h₂ hbt m₃ hmem hdropped
  · rename_i hcheck
    refine h₂.zero hgiven htakes hgiven.addr (fun m₃ hres₃ h₃ => ?_) (.free h₂ hbt)
    rw [← hhanded] at h₃
    refine h₃.leave hbt (by rwa [hres₃]) hlive fun m₄ h₄ => hend (fun hdamaged => ?_) h₄
    exact hcheck hdamaged.checking

theorem mutDoConsumer_spec (hready : Ready flags m) (ha : a = .free ∨ a = .cfree) :
    wp (mutDoConsumer flags a) (Handled flags m a) (Stops flags m a) m := by
  have hname : a ≠ .usage := by rcases ha with rfl | rfl <;> simp
  have hmet : ¬ Unmet flags m a := fun hunmet => by
    rcases ha with rfl | rfl <;> simpa using hunmet.routine
  unfold mutDoConsumer
  refine wp_seq (hready.midway.hit a) (fun _ he => he) ?_
  rintro _ m₁ ⟨h₁, -, -⟩
  refine h₁.lift (mutProcessReadArg_spec h₁.calm 0) (fun m₂ h₂ _ _ => ?_) (.false _)
  refine h₂.lift (mutProcessFunctionReturnAddr_spec h₂.calm) (fun m₃ h₃ _ _ => ?_) (.false _)
  refine h₃.produceBacktrace (fun bt m₄ hbt h₄ _ => ?_) fun μ => .false μ
  simp only [wp_ite]
  split
  -- A null pointer goes to the target's function.
  · rename_i hzero
    have hruns : m.runs flags a = true := by
      rw [runs_consumer ha, hzero, beq_self_eq_true, Bool.or_true]
    have hhanded : m.handed flags a = m.target := by
      rw [handed_consumer ha]
      split
      · exact if_neg fun hnonzero => hnonzero.1 hzero
      · rfl
    refine wp_seq (h₄.traceConsumer _) (fun _ he => he) ?_
    rintro _ m₅ ⟨h₅, -, -⟩
    refine wp_seq (h₅.closeBacktrace hbt) (fun _ he => he) ?_
    rintro _ m₆ ⟨h₆, -⟩
    refine wp_mono (h₆.acted hruns) ?_ fun _ he => he
    rintro ok m₇ (⟨rfl, -, -, t', hret, h₇⟩ | ⟨rfl, -, hdropped⟩)
    · refine h₇.served ?_ (by rw [if_pos hruns, hhanded])
        (fun _ => ⟨t', hret, (left_consumer ha t').symm⟩) (fun hskip => ?_) hmet
        (fun hdamaged => hdamaged.object.1 hzero) (not_stuck_consumer ha)
      · rw [step_consumer ha, Book.consume, if_pos hzero]
      · rw [hruns] at hskip
        cases hskip
    · exact .inr ⟨rfl, hdropped⟩
  · rename_i hnonzero
    rw [wp_bind, wp_lookup]
    rcases h₄.lookup (m.target.arg 0) with ⟨hget, hnone⟩ | ⟨o, ho, hget, haddr, hfound⟩
    -- An address that was never allocated is reported.
    · have hunknown : m.find (m.target.arg 0) = none := by
        rw [Book.find_hit] at hnone
        exact hnone
      have hhanded : m.handed flags a = m.target := by rw [handed_consumer ha, hunknown]
      simp only [hget, Option.map_none]
      refine wp_seq (h₄.traceConsumer _) (fun _ he => he) ?_
      rintro _ m₅ ⟨h₅, -, -⟩
      refine wp_seq (h₅.fum hready hname hbt _) (fun _ he => he) ?_
      rintro _ m₆ ⟨h₆, -, -⟩
      refine wp_seq (h₆.closeBacktrace hbt) (fun _ he => he) ?_
      rintro _ m₇ ⟨h₇, -⟩
      refine h₇.finish ha hnonzero ?_ hhanded.symm fun hdamaged => ?_
      · rw [step_consumer ha, Book.consume, if_neg hnonzero, hnone]
      · obtain ⟨e, he, -⟩ := hdamaged.object.2
        rw [hunknown] at he
        cases he
    · have hgiven : Given m o := by
        refine ⟨hnonzero, haddr, ?_⟩
        rw [Book.find_hit] at hfound
        exact hfound
      obtain ⟨l₁, l₂, haround⟩ := h₄.books.around ho
      simp only [hget, Option.map_some]
      rw [wp_bind, wp_resource ⟨haround.list, haround.ptr⟩]
      refine wp_seq (h₄.traceConsumer _) (fun _ he => he) ?_
      rintro _ m₅ ⟨h₅, hres₅, hmem₅⟩
      rw [← hres₅, ← hmem₅] at haround
      rw [wp_ite]
      split
      -- An object that was consumed already is reported.
      · rename_i hconsumed
        have hfree : flags.free = false := by
          cases hfree : flags.free with
          | false => rfl
          | true => simp [mutResourcesResourceDeleted, haround.ok.freeing hfree] at hconsumed
        refine wp_seq (h₅.ffm hready hname hbt hfree haround hconsumed _) (fun _ he => he) ?_
        rintro _ m₆ ⟨h₆, -, -⟩
        refine wp_seq (h₆.closeBacktrace hbt) (fun _ he => he) ?_
        rintro _ m₇ ⟨h₇, -⟩
        have hnot : ¬ o.consumer.action = none := fun hlive => by
          simp [mutResourcesResourceDeleted, hlive] at hconsumed
        refine h₇.finish ha hnonzero ?_ ?_ fun hdamaged => ?_
        · exact ((hgiven.step flags ha).trans (if_pos hconsumed)).symm
        · rw [hgiven.handed ha, if_neg hnot]
        · obtain ⟨e, he, hlive, -⟩ := hdamaged.object.2
          rw [hgiven.found] at he
          cases he
          exact hnot hlive
      · rename_i hlive
        refine mutConsumeLive_spec h₅ hready hbt ha hgiven (hres₅ ▸ ho) ?_
        simpa [mutResourcesResourceDeleted] using hlive

end MutTracker.Source
