import MutTracker.Source.Producers
import MutTracker.Verified.Messages

/-!
# malloc and calloc

Both handlers are `mutProduce` with their own sizes: the function runs, and
its result becomes a resource or a warning.

## Main results

* `mutDoMalloc_spec`, `mutDoCalloc_spec`.
-/

namespace MutTracker.Source

open MutTracker.Logic MutTracker.Logic.Prog MutTracker.Logic.Keyed

variable {flags : Control} {m m₁ : Mut} {a : Routine} {b : Book} {ran : Passage}
  {t t' : Target} {held : List Nat} {bt : Option Nat} {E : Halt → Prop}

/-- A part of a handler that may be off. -/
theorem wp_unlessFails {σ β : Type} {Q : β → σ → Prop} {s : σ} {c : Bool}
    {x : Prog σ Halt Bool} {f : Bool → Prog σ Halt β} :
    wp (unlessFails c x >>= f) Q E s ↔
      if c then wp (x >>= f) Q E s else wp (f true) Q E s := by
  cases c <;> rfl

/-- Where the part leaves `P`, on or off, only what follows its success is left to show. -/
theorem wp_unlessFails_of {σ β : Type} {Q : β → σ → Prop} {s : σ} {c : Bool}
    {x : Prog σ Halt Bool} {f : Bool → Prog σ Halt β} {P : σ → Prop}
    (hon : c = true → wp x (fun ok s' =>
      (ok = true ∧ P s') ∨ (ok = false ∧ wp (f false) Q E s')) E s)
    (hoff : c = false → P s) (hrest : ∀ s', P s' → wp (f true) Q E s') :
    wp (unlessFails c x >>= f) Q E s := by
  cases c with
  | false => exact hrest s (hoff rfl)
  | true =>
      refine wp_seq (hon rfl) (fun _ he => he) ?_
      rintro ok s' (⟨rfl, hs'⟩ | ⟨rfl, hs'⟩)
      · exact hrest s' hs'
      · exact hs'

/-- An operation that is made only under `c` goes well, or the handler gives up. -/
theorem Midway.unless {y : ProcessM Bool} {f : Bool → MutM Bool} {c : Bool}
    (h : Midway flags m b ran t held m₁)
    (hy : wp y (Does m₁.process (Calm m₁.process [] t' m₁.process.kernel.text)) E m₁.process)
    (hf : ∀ m₂, m₂.resources = m₁.resources →
      Midway flags m b ran (if c then t' else t) held m₂ →
      wp (f true) (Handled flags m a) E m₂)
    (hbad : GivesUp flags m a E m₁.mem (f false)) :
    wp (unlessFails c (liftM y) >>= f) (Handled flags m a) E m₁ := by
  cases c with
  | true => exact h.lift hy (fun m₂ h₂ hres _ => hf m₂ hres h₂) hbad
  | false => exact hf m₁ rfl h

/-- The backtrace of a new resource is one of those referred to. -/
theorem owned_producer {elems : List Resource} {r : Resource} (hbt : flags.Keeps bt)
    (hr : r ∈ elems) (hparty : r.producer.backtrace = bt) :
    Owned flags ([] ++ refsOf elems) bt := by
  intro hon
  obtain ⟨k, rfl⟩ := Option.isSome_iff_exists.1 (hbt.trans hon)
  exact ⟨k, List.mem_flatMap.2 ⟨r, hr, by simp [Resource.refs, hparty]⟩, rfl⟩

/-- A new object is recorded. -/
theorem mutProducerSuccess_spec {addr : Word} (h : Midway flags m b ran t bt.toList m₁)
    (hbt : flags.Keeps bt) (hfresh : b.find addr = none) (again : String)
    (traced : List Arg) (size : Word)
    (hend : ∀ m₂, Midway flags m (b.made flags a addr size) ran t [] m₂ →
      Handled flags m a true m₂) :
    wp (mutProducerSuccess flags again a traced size addr bt) (Handled flags m a) E m₁ := by
  unfold mutProducerSuccess
  refine wp_seq (h.stats fun s => s.produced size) (fun _ he => he) ?_
  rintro _ m₂ ⟨h₂, -, -⟩
  refine h₂.create hfresh (fun μ hgrown => ?_) fun μ _ => .false μ
  have hat := h₂.first (r := .blank m₂.mem.next addr) rfl
  rw [wp_bind]
  refine (wp_resource (o := .blank m₂.mem.next addr) hat).2 ?_
  simp only [mutResourceIsNew, Resource.blank, Option.isNone_none, Bool.not_true,
    Bool.false_eq_true, if_false, mutResourceMakeProducer, wp_bind]
  refine (wp_assign (o := .blank m₂.mem.next addr) hat _).2 ?_
  have hmade := h₂.made hbt hgrown hfresh size a
  refine wp_mono (hmade.trace (owned_producer hbt List.mem_cons_self rfl) _) ?_ fun _ he => he
  rintro _ m₃ ⟨h₃, -, -⟩
  refine wp_mono h₃.usage ?_ fun _ he => he
  rintro _ m₄ ⟨h₄, -, -⟩
  exact hend m₄ h₄

/-- Zones are marked around a block that a producer's function returned. -/
theorem Midway.installZones {f : Option Word → MutM Bool} {size : Word}
    (h : Midway flags m b ran t held m₁) (hproduces : a.produces) (hret : m.result = t'.eax)
    (hsize : mutExecAddrAligned size = true)
    (hf : ∀ m₂, Midway flags m b ran (t.produced flags t'.eax size) held m₂ →
      wp (f (some (objectAt flags t'.eax))) (Handled flags m a) (Stops flags m a) m₂)
    (hbad : GivesUp flags m a (Stops flags m a) m₁.mem (f none)) :
    wp (installZonesIfChecking flags t'.eax size >>= f) (Handled flags m a) (Stops flags m a)
      m₁ := by
  refine wp_seq (installZonesIfChecking_spec h.calm t'.eax size ?_) (fun _ he => he) ?_
  · intro _ hal
    refine .unaligned fun haligned => ?_
    have hresult := haligned.result hproduces
    rw [hret] at hresult
    have hpost := aligned_sub (aligned_add hresult hsize) (n := mutZoneSize) (by decide)
    rcases hal with hal | hal
    · simp [hresult] at hal
    · simp [hpost] at hal
  · rintro _ _ ⟨q, rfl, ⟨rfl, hq⟩ | ⟨rfl, hfault⟩⟩
    · exact hf _ (h.moved hq)
    · exact hbad _ rfl (.faulted (hfault.of_suffix h.faults))

/-- The fault of an operation is a reason to give up. -/
theorem Midway.adjusted {y : ProcessM Bool} (h : Midway flags m b ran t held m₁) {t' : Target}
    (hy : wp y (Does m₁.process (Calm m₁.process [] t' m₁.process.kernel.text)) E m₁.process) :
    wp (liftM y : MutM Bool)
      (fun ok m₂ => m₂.mem = m₁.mem ∧ ((ok = true ∧ Midway flags m b ran t' held m₂) ∨
        (ok = false ∧ Dropped flags m a m₂))) E m₁ := by
  rw [wp_liftProcess]
  refine wp_mono hy ?_ fun _ he => he
  rintro ok q (⟨rfl, hq⟩ | ⟨rfl, hfault⟩)
  · exact ⟨rfl, .inl ⟨rfl, h.moved hq⟩⟩
  · exact ⟨rfl, .inr ⟨rfl, .faulted (hfault.of_suffix h.faults)⟩⟩

/-- The function of a producer runs on the adjusted arguments, and its result
is a warning or a new object. -/
theorem mutProduce_spec {adjust : MutM Bool} {adjustedSize size arg : Word}
    {failure : Option Nat → MutM Unit} {success : Word → Option Nat → MutM Bool}
    {warning : String} (h : Midway flags m m.book .ahead m.target bt.toList m₁)
    (hbt : flags.Keeps bt) (ha : a = .malloc ∨ a = .calloc)
    (hstep : m.book.step flags (m.event a) =
      m.book.produce flags a warning arg size m.result)
    (hfresh : Fresh flags m a) (hleft : ∀ t', m.left flags a t' = t'.made flags adjustedSize)
    (hoff : flags.check = false → m.handed flags a = m.target)
    (hsize : mutExecAddrAligned adjustedSize = true)
    (hadjust : ∀ m₂, flags.check = true → Midway flags m m.book .ahead m.target bt.toList m₂ →
      wp adjust (fun ok m₃ => m₃.mem = m₂.mem ∧
        ((ok = true ∧ Midway flags m m.book .ahead (m.handed flags a) bt.toList m₃) ∨
          (ok = false ∧ Dropped flags m a m₃))) (Stops flags m a) m₂)
    (hfailure : ∀ ran t m₂, Midway flags m (m.book.hit flags a 1) ran t bt.toList m₂ →
      wp (failure bt) (fun _ => Midway flags m
        ((m.book.hit flags a 1).report warning [.string a.word, .uint arg]) ran t [])
        (Stops flags m a) m₂)
    (hsuccess : ∀ ran t addr m₂, Midway flags m (m.book.hit flags a 1) ran t bt.toList m₂ →
      m.find addr = none →
      (∀ m₃, Midway flags m ((m.book.hit flags a 1).made flags a addr size) ran t [] m₃ →
        Handled flags m a true m₃) →
      wp (success addr bt) (Handled flags m a) (Stops flags m a) m₂) :
    wp (mutProduce flags a adjust adjustedSize failure success bt) (Handled flags m a)
      (Stops flags m a) m₁ := by
  have hproduces : a.produces := by rcases ha with rfl | rfl <;> rfl
  have hruns : m.runs flags a = true := by rcases ha with rfl | rfl <;> rfl
  have hother : a ≠ .realloc := by rcases ha with rfl | rfl <;> simp
  have hmet : ¬ Unmet flags m a := fun hunmet => hother hunmet.routine
  have hwhole : ¬ Damaged flags m a := fun hdamaged => by
    rcases ha with rfl | rfl <;> simpa using hdamaged.consumer
  have hrecorded : m.recorded flags a = objectAt flags m.result :=
    if_neg fun hrealloc => hother hrealloc.1
  unfold mutProduce
  refine h.lift (mutProcessFunctionReturnAddr_spec h.calm) (fun m₂ h₂ _ _ => ?_) (.free h hbt)
  refine wp_unlessFails_of (P := Midway flags m m.book .ahead (m.handed flags a) bt.toList) ?_
    (fun hcheck => hoff hcheck ▸ h₂) ?_
  · intro hcheck
    refine wp_mono (hadjust m₂ hcheck h₂) ?_ fun _ he => he
    rintro ok m₃ ⟨hmem, ⟨rfl, h₃⟩ | ⟨rfl, hdropped⟩⟩
    · exact .inl ⟨rfl, h₃⟩
    · exact .inr ⟨rfl, GivesUp.free h₂ hbt m₃ hmem hdropped⟩
  · -- Once the arguments are adjusted: the function runs and its result is looked at.
    intro m₂ h₂
    refine h₂.act hruns (fun t' m₃ hret h₃ _ _ => ?_) (.free h₂ hbt)
    have hresult : m.result = t'.eax := result_of_returning hret
    refine h₃.lift (mutProcessReadResult_spec h₃.calm) (fun m₄ h₄ _ _ => ?_) (.free h₃ hbt)
    refine wp_seq (h₄.hit a) (fun _ he => he) ?_
    rintro _ m₅ ⟨h₅, -, -⟩
    have hend : ∀ {t'' b'} m₆, Midway flags m b' (.ran (m.handed flags a)) t'' [] m₆ →
        b' = m.book.produce flags a warning arg size m.result →
        t'' = t'.made flags adjustedSize → Handled flags m a true m₆ := by
      intro t'' b' m₆ h₆ hbook ht''
      exact h₆.served (hbook.trans hstep.symm) (by rw [if_pos hruns])
        (fun _ => ⟨t', hret, ht''.trans (hleft t').symm⟩)
        (fun hskip => by rw [hruns] at hskip; cases hskip) hmet hwhole
        (not_stuck fun ha => absurd ha hother)
    rw [wp_ite]
    split
    · rename_i hzero
      rw [wp_bind]
      refine wp_mono (hfailure _ _ _ h₅) (fun _ m₆ h₆ => ?_) fun _ he => he
      refine hend m₆ h₆ ?_ (if_pos hzero).symm
      rw [Book.produce, if_pos (hresult.trans hzero)]
    · rename_i hzero
      have hne : m.result ≠ 0 := hresult ▸ hzero
      have hnone : m.find (objectAt flags t'.eax) = none := by
        rcases hfresh hproduces hne with hnone | ⟨hrealloc, -⟩
        · rwa [hrecorded, hresult] at hnone
        · exact absurd hrealloc hother
      refine h₅.installZones hproduces hresult hsize (fun m₆ h₆ => ?_) (.free h₅ hbt)
      refine hsuccess _ _ _ _ h₆ hnone fun m₇ h₇ => hend m₇ h₇ ?_ (if_neg hzero).symm
      rw [Book.produce, if_neg hne, hresult]

/-! ## The handlers -/

theorem mutDoMalloc_spec (hready : Ready flags m) (hfresh : Fresh flags m .malloc) :
    wp (mutDoMalloc flags .malloc) (Handled flags m .malloc) (Stops flags m .malloc) m := by
  have h := hready.midway
  unfold mutDoMalloc
  refine h.lift (mutProcessReadArg_spec h.calm 0) (fun m₁ h₁ _ _ => ?_) (.false _)
  refine h₁.produceBacktrace (fun bt m₂ hbt h₂ _ => ?_) fun μ => .false μ
  refine mutProduce_spec h₂ hbt (.inl rfl) rfl hfresh (fun _ => rfl) (fun hcheck => ?_)
    (aligned_roundUp (m.target.arg 0)) (fun m₃ hcheck h₃ => ?_)
    (fun ran t m₃ h₃ => ?_) fun ran t addr m₃ h₃ hnone hend => ?_
  · simp [Mut.handed, hcheck]
  · rw [Mut.handed, if_pos hcheck]
    exact h₃.adjusted (mutProcessWriteArg_spec h₃.calm _ _)
  · exact h₃.failure hready (by simp) hbt (by simp) _
  · rw [mutMallocSuccess, wp_bind, wp_mutAssert, if_pos]
    · exact mutProducerSuccess_spec h₃ hbt (by simpa using hnone) _ _ _ hend
    · rw [← hbt]
      cases bt <;> rfl

theorem mutDoCalloc_spec (hready : Ready flags m) (hfresh : Fresh flags m .calloc) :
    wp (mutDoCalloc flags .calloc) (Handled flags m .calloc) (Stops flags m .calloc) m := by
  have h := hready.midway
  unfold mutDoCalloc
  refine h.lift (mutProcessReadArg_spec h.calm 0) (fun m₁ h₁ _ _ => ?_) (.false _)
  refine h₁.lift (mutProcessReadArg_spec h₁.calm 1) (fun m₂ h₂ _ _ => ?_) (.false _)
  refine h₂.produceBacktrace (fun bt m₃ hbt h₃ _ => ?_) fun μ => .false μ
  refine mutProduce_spec h₃ hbt (.inr rfl) rfl hfresh (fun _ => rfl) (fun hcheck => ?_)
    (aligned_zones _) (fun m₄ hcheck h₄ => ?_) (fun ran t m₄ h₄ => ?_)
    fun ran t addr m₄ h₄ hnone hend => ?_
  · simp [Mut.handed, hcheck]
  · rw [Mut.handed, if_pos hcheck, wp_bind]
    refine wp_mono (h₄.adjusted (a := .calloc) (mutProcessWriteArg_spec h₄.calm _ _)) ?_
      fun _ he => he
    rintro _ m₅ ⟨hmem, ⟨rfl, h₅⟩ | ⟨rfl, hdropped⟩⟩
    · refine wp_mono (h₅.adjusted (a := .calloc) (mutProcessWriteArg_spec h₅.calm _ _)) ?_
        fun _ he => he
      exact fun ok m₆ h₆ => ⟨h₆.1.trans hmem, h₆.2⟩
    · exact ⟨hmem, .inr ⟨rfl, hdropped⟩⟩
  · exact h₄.failure hready (by simp) hbt (by simp) _
  · exact mutProducerSuccess_spec h₄ hbt (by simpa using hnone) _ _ _ hend

end MutTracker.Source
