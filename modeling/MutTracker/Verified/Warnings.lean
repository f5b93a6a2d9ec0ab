import MutTracker.Verified.Statistics

/-!
# Failed allocations and damaged objects

Two things happen to a program that the tracker should report and go on from:
an allocation fails, and a block is written past its ends.  What is asked of
a handler then is a property of how it returns, `Warned` and `Checked`; here is
for which calls the handlers have it.  The tracker is one after any run, and
`Smooth` says that nothing but the traced program gives it trouble.

## Main results

* `warned_iff` — a failed allocation is only a warning, unless in `realloc`.
* `examined_iff` — an object given away is reported and consumed, unless it is damaged.
-/

namespace MutTracker.Source

open MutTracker.Logic MutTracker.Logic.Prog MutTracker.Logic.Keyed

variable {flags : Control} {m m' mh m₀ : Mut} {a c : Routine} {b : Book} {e : Entry}
  {v : Visit} {vs : List Visit} {t : Target}

/-! ## The reports of a call -/

/-- The account `b'` has, after those of `b`, only reports that a handled call
makes: none of them is about marks. -/
def Adds (b b' : Book) : Prop :=
  ∃ rs : List Report, b'.reports = rs ++ b.reports ∧
    ∀ r ∈ rs, r.name ∈ ["MR0", "CR0", "FUM", "FFM"]

theorem Adds.none {b' : Book} (h : b'.reports = b.reports) : Adds b b' := ⟨[], h, nofun⟩

theorem Adds.one {b' : Book} {name : String} (args : List Arg)
    (hname : name ∈ ["MR0", "CR0", "FUM", "FFM"])
    (h : b'.reports = ⟨name, args⟩ :: b.reports) : Adds b b' :=
  ⟨[_], h, fun r hr => by rw [List.mem_singleton.1 hr]; exact hname⟩

/-- A report after a hit. -/
theorem Adds.hit {name : String} (hname : name ∈ ["MR0", "CR0", "FUM", "FFM"])
    (flags : Control) (a : Routine) (n : Nat) (args : List Arg) :
    Adds b ((b.hit flags a n).report name args) := by
  refine .one args hname ?_
  show ⟨name, args⟩ :: (b.hit flags a n).reports = _
  rw [Book.hit_reports]

theorem adds_produce {warning : String} (hname : warning ∈ ["MR0", "CR0", "FUM", "FFM"])
    (a : Routine) (arg size result : Word) :
    Adds b (b.produce flags a warning arg size result) := by
  unfold Book.produce
  split
  · exact .hit hname ..
  · exact .none (Book.hit_reports ..)

theorem adds_consume (c : Routine) (addr : Word) : Adds b (b.consume flags c addr) := by
  unfold Book.consume
  split
  · exact .none (Book.hit_reports ..)
  · dsimp only
    split
    · exact .hit (by decide) ..
    · split
      · exact .hit (by decide) ..
      · exact .none (Book.hit_reports ..)

theorem adds_reallocate (addr size result : Word) :
    Adds b (b.reallocate flags addr size result) := by
  unfold Book.reallocate
  split
  · exact .none (Book.hit_reports ..)
  · split
    · split
      · exact .hit (by decide) ..
      · exact .hit (by decide) ..
    · split
      · exact .none (Book.hit_reports ..)
      · exact .none (Book.hit_reports ..)

theorem adds_step (flags : Control) (ev : Event) : Adds b (b.step flags ev) := by
  obtain ⟨call, result⟩ := ev
  cases call with
  | malloc size => exact adds_produce (by decide) ..
  | calloc nElems elemSize => exact adds_produce (by decide) ..
  | realloc addr size => exact adds_reallocate ..
  | free addr => exact adds_consume ..
  | cfree addr => exact adds_consume ..
  | usage => exact .none rfl

/-- The number of the reports of damaged marks. -/
def overwrites (rs : List Report) : Nat := rs.countP fun r => r.name == "WUM"

theorem Adds.overwrites {b' : Book} (h : Adds b b') :
    overwrites b'.reports = overwrites b.reports := by
  obtain ⟨rs, heq, hnames⟩ := h
  rw [heq, Source.overwrites, List.countP_append, Source.overwrites]
  have hzero : rs.countP (fun r => r.name == "WUM") = 0 := List.countP_eq_zero.2 fun r hr => by
    have hname := hnames r hr
    simp only [List.mem_cons, List.not_mem_nil, or_false] at hname
    rcases hname with h | h | h | h <;> rw [h] <;> decide
  rw [hzero, Nat.zero_add]

/-! ## A failed allocation -/

/-- The warnings of failed allocations. -/
def Routine.warning : Routine → String
  | .malloc => "MR0"
  | .calloc => "CR0"
  | .realloc => "RR0"
  | .free | .cfree | .usage => ""

/-- The handler of `a` logs a warning, leaves the list and the statistics as
they are and goes on. -/
def Warned (flags : Control) (m : Mut) (a : Routine) : Prop :=
  ∃ m', mutHandle flags a m = .done true m' ∧
    m'.resources.entries = m.resources.entries ∧ m'.stats = m.stats ∧
    ∃ args, m'.process.log.reports = ⟨a.warning, args⟩ :: m.process.log.reports

/-- A failed `malloc` or `calloc` is only a warning. -/
theorem warned_producer (hready : Ready flags m) (ha : a = .malloc ∨ a = .calloc)
    (hlisted : a ∈ m.root) (hsmooth : Smooth flags m a) (hzero : m.result = 0) :
    Warned flags m a := by
  have hnot : a ≠ .realloc ∧ a ≠ .free ∧ a ≠ .cfree ∧ a.takes = false := by
    rcases ha with rfl | rfl <;> exact ⟨nofun, nofun, nofun, rfl⟩
  obtain ⟨t, m', hdone, hserved⟩ := mutHandle_returns hready hlisted
    (fun _ hne => absurd hzero hne) hsmooth (fun hunmet => hnot.1 hunmet.routine)
    (fun hdamaged => hdamaged.consumer.elim hnot.2.1 hnot.2.2.1)
    (not_stuck fun h => absurd h hnot.1)
    ⟨fun h => absurd (hnot.2.2.2.symm.trans h) nofun, fun _ => by rw [hzero]; rfl⟩
  have hbook : ∃ arg, m'.book =
      (m.book.hit flags a 1).report a.warning [.string a.word, .uint arg] := by
    rw [hserved.midway.book]
    rcases ha with rfl | rfl
    · exact ⟨m.target.arg 0, if_pos hzero⟩
    · exact ⟨m.target.arg 0, if_pos hzero⟩
  obtain ⟨arg, hbook⟩ := hbook
  refine ⟨m', hdone, ?_, ?_, [.string a.word, .uint arg], ?_⟩
  · exact (congrArg Book.entries hbook).trans (Book.hit_entries ..)
  · exact (congrArg Book.stats hbook).trans (Book.hit_stats ..)
  · have hreports : m'.process.log.reports =
        ⟨a.warning, [.string a.word, .uint arg]⟩ :: (m.book.hit flags a 1).reports :=
      congrArg Book.reports hbook
    rw [hreports, Book.hit_reports]
    rfl

/-- The handler of a `realloc` that fails gives up. -/
theorem not_warned_realloc (hready : Ready flags m) (hlisted : .realloc ∈ m.root)
    (hreturns : m.returning.isSome) (hzero : m.result = 0)
    (hlook : flags.free = true → m.target.arg 0 ≠ 0 → (m.find (m.target.arg 0)).isSome) :
    ¬ Warned flags m .realloc := by
  rintro ⟨m', hdone, -⟩
  obtain ⟨t, hserved⟩ := mutHandle_served hready hlisted (fun _ hne => absurd hzero hne) hdone
  exact hserved.met ⟨rfl, hreturns, hzero, hlook⟩

/-- In every reachable state an allocation that fails is only a warning when
it is not a `realloc`, and only then. -/
theorem warned_iff (hopen : Opened flags m₀) (hrun : Run (Step flags) m₀ vs m)
    (hfresh : AllFresh flags vs) (hbetween : Between m mh) (hlisted : a ∈ mh.root)
    (hproduces : a.produces = true) (hsmooth : Smooth flags mh a) (hzero : mh.result = 0)
    (hlook : a = .realloc → flags.free = true → mh.target.arg 0 ≠ 0 →
      (mh.find (mh.target.arg 0)).isSome) :
    Warned flags mh a ↔ a ≠ .realloc := by
  have hready := hbetween.ready (run_ready hrun hopen.ready hfresh)
  cases a with
  | malloc =>
      exact iff_of_true (warned_producer hready (.inl rfl) hlisted hsmooth hzero) nofun
  | calloc =>
      exact iff_of_true (warned_producer hready (.inr rfl) hlisted hsmooth hzero) nofun
  | realloc =>
      exact iff_of_false (not_warned_realloc hready hlisted (hsmooth.returns rfl) hzero
        (hlook rfl)) fun h => h rfl
  | free | cfree | usage => cases hproduces

/-- With two blocks in the list a `malloc` that fails is only a warning, and a `realloc` of one
of them that fails is not. -/
theorem warned_iff_threeBlocks :
    ∃ vs m, Run (Step .counting) (.fresh .counting) vs m ∧
      vs.map Visit.event = threeBlocks.map Coming.event ∧ m.stats.now = ⟨20, 2⟩ ∧
      m.find 0x3000 = some ⟨0x3000, 16, some .malloc, none⟩ ∧
      Warned .counting ((Coming.malloc 8 0).reached m) .malloc ∧
      ¬ Warned .counting ((Coming.realloc 0x3000 8 0).reached m) .realloc := by
  have hserves : (Mut.fresh .counting).serves .counting (Mut.obtainsNew .counting)
      (fun m => decide (m.stats.now = ⟨20, 2⟩ ∧
        m.find 0x3000 = some ⟨0x3000, 16, some .malloc, none⟩ ∧
        (Coming.malloc 8 0).meets m = true ∧ (Coming.realloc 0x3000 8 0).meets m = true))
      threeBlocks = true := by decide +kernel
  obtain ⟨vs, m, hrun, hfresh, hevents, -, hlast⟩ := serves_fresh hserves
  obtain ⟨hnow, hfound, hmalloc, hrealloc⟩ := of_decide_eq_true hlast
  have hopen : Opened .counting (.fresh .counting) := small_opened ..
  refine ⟨vs, m, hrun, hevents, hnow, hfound, ?_, ?_⟩
  · obtain ⟨hbetween, hlisted, hsmooth⟩ := Coming.meets_smooth hmalloc
    have hzero : ((Coming.malloc 8 0).reached m).result = 0 := rfl
    exact (warned_iff hopen hrun hfresh hbetween hlisted rfl hsmooth hzero
      fun h => Routine.noConfusion h).2 (by decide)
  · obtain ⟨hbetween, hlisted, hsmooth⟩ := Coming.meets_smooth hrealloc
    have hzero : ((Coming.realloc 0x3000 8 0).reached m).result = 0 := rfl
    intro hwarned
    exact (warned_iff hopen hrun hfresh hbetween hlisted rfl hsmooth hzero
      fun _ hfreeing => absurd hfreeing (by decide)).1 hwarned rfl

/-- A call of `realloc` of no object for 8 that returns 0. -/
def reallocFails (flags : Control) : Mut :=
  .small flags (.calling 0 8) [(Target.calling 0 8).answers 0]

/-- The tracker gives up over a `realloc` that fails. -/
theorem realloc_not_warned :
    Opened .plain (reallocFails .plain) ∧ Smooth .plain (reallocFails .plain) .realloc ∧
      (reallocFails .plain).result = 0 ∧ ¬ Warned .plain (reallocFails .plain) .realloc := by
  have hopen : Opened .plain (reallocFails .plain) := small_opened ..
  have hlisted : .realloc ∈ (reallocFails .plain).root := by simp [reallocFails, Mut.small]
  have hzero : (reallocFails .plain).result = 0 := rfl
  refine ⟨hopen, ⟨List.forall_mem_nil _, List.forall_mem_nil _, fun _ => rfl⟩, hzero, ?_⟩
  exact not_warned_realloc hopen.ready hlisted rfl hzero fun h => Bool.noConfusion h

/-! ## A damaged object -/

/-- The call gives the live object `e` to a routine that takes one. -/
structure Mut.Gives (m : Mut) (a : Routine) (e : Entry) : Prop where
  takes : a.takes = true
  nonzero : m.target.arg 0 ≠ 0
  found : m.find (m.target.arg 0) = some e
  live : e.consumer = none

/-- The handler of `a` reports the object `e` once when it is damaged, and does
all else as for one that is not. -/
def Examined (flags : Control) (m : Mut) (a : Routine) (e : Entry) : Prop :=
  ∃ m', mutHandle flags a m = .done true m' ∧
    m'.resources.entries = (m.book.step flags (m.event a)).entries ∧
    m'.stats = (m.book.step flags (m.event a)).stats ∧
    (m.target.Intact e.addr e.size →
      overwrites m'.process.log.reports = overwrites m.process.log.reports) ∧
    (¬ m.target.Intact e.addr e.size →
      overwrites m'.process.log.reports = overwrites m.process.log.reports + 1)

theorem Mut.Gives.not_stuck (h : m.Gives a e) (hmoved : ¬ Unmoved flags m a) :
    ¬ Stuck flags m a := by
  rintro (⟨-, -, ⟨-, e', he', hconsumed⟩, -⟩ | hunmoved)
  · rw [h.found] at he'
    rw [← Option.some.inj he', h.live] at hconsumed
    cases hconsumed
  · exact hmoved hunmoved

/-- A handled call does not count the damaged objects on. -/
theorem Served.overwrites (hs : Served flags m a t m') :
    overwrites m'.process.log.reports = overwrites m.process.log.reports := by
  have hadds := (adds_step (b := m.book) flags (m.event a)).overwrites
  rw [← hs.midway.book] at hadds
  exact hadds

/-- The handler does not do so over a damaged object. -/
theorem Examined.intact (h : Examined flags m a e) (hready : Ready flags m) (hlisted : a ∈ m.root)
    (hfresh : Fresh flags m a) : m.target.Intact e.addr e.size := by
  obtain ⟨m', hdone, -, -, -, hbad⟩ := h
  obtain ⟨t, hserved⟩ := mutHandle_served hready hlisted hfresh hdone
  refine Classical.byContradiction fun hnot => ?_
  have hcount := hserved.overwrites
  rw [hbad hnot] at hcount
  exact Nat.succ_ne_self _ hcount

/-- In every reachable state an object that is given away is reported when it
is damaged, and the call handled, only when it is not damaged and the call is
no `realloc` that fails. -/
theorem examined_iff (hopen : Opened flags m₀) (hrun : Run (Step flags) m₀ vs m)
    (hfresh : AllFresh flags vs) (hbetween : Between m mh) (hlisted : a ∈ mh.root)
    (hgives : mh.Gives a e) (hsmooth : Smooth flags mh a) (hfresh' : Fresh flags mh a)
    (haligned : Aligned mh a) (hmoved : ¬ Unmoved flags mh a) :
    Examined flags mh a e ↔
      mh.target.Intact e.addr e.size ∧ (a = .realloc → mh.result ≠ 0) := by
  have hready := hbetween.ready (run_ready hrun hopen.ready hfresh)
  constructor
  · intro hexamined
    refine ⟨hexamined.intact hready hlisted hfresh', ?_⟩
    rintro rfl
    obtain ⟨m', hdone, -⟩ := hexamined
    obtain ⟨t, hserved⟩ := mutHandle_served hready hlisted hfresh' hdone
    exact hserved.realloc_result fun _ _ => by rw [hgives.found]; rfl
  · rintro ⟨hintact, hresult⟩
    obtain ⟨t, m', hdone, hserved⟩ := mutHandle_returns hready hlisted hfresh' hsmooth
      (fun hunmet => hresult hunmet.routine hunmet.zero)
      (fun hdamaged => by
        obtain ⟨e', he', -, hbroken⟩ := hdamaged.object.2
        rw [hgives.found] at he'
        exact hbroken (Option.some.inj he' ▸ hintact))
      (hgives.not_stuck hmoved) haligned
    refine ⟨m', hdone, ?_, ?_, fun _ => hserved.overwrites, fun hnot => absurd hintact hnot⟩
    · exact congrArg Book.entries hserved.midway.book
    · exact congrArg Book.stats hserved.midway.book

/-- A tracker that checks zones. -/
def Control.checking : Control := { Control.plain with check := true }

/-- The object at 0x2004 of a block of 16 at 0x2000. -/
def smallObject : Entry := ⟨0x2004, 8, some .malloc, none⟩

/-- A call of `free` of that object when its marks are `pre` and `post`. -/
def Target.freeing (pre post : Word) : Target :=
  { Target.calling 0x2004 0 with
    data := ((Target.calling 0x2004 0).data.writeWord 0x2000 pre).writeWord 0x200c post }

/-- The object is allocated, and then given to `free`. -/
theorem small_freeing (t : Target) (harg : t.arg 0 = 0x2004) :
    ∃ m, Run (Step .checking) (mallocCall .checking) [⟨.malloc, mallocCall .checking⟩] m ∧
      AllFresh .checking [⟨.malloc, mallocCall .checking⟩] ∧ Between m (m.reaches t []) ∧
      .free ∈ (m.reaches t []).root ∧ (m.reaches t []).Gives .free smallObject ∧
      Smooth .checking (m.reaches t []) .free := by
  obtain ⟨t', m, hs, hfresh, hserved⟩ := small_served .checking (.calling 8 0)
    [(Target.calling 8 0).answers 0x2000] (a := .malloc) nofun rfl (by decide) rfl
  have hruns : (m.reaches t []).runs .checking .free = false := by
    show (false || t.arg 0 == 0) = false
    rw [harg]
    rfl
  obtain ⟨hsmooth, hroot⟩ := small_again (c := .free) hserved t [] fun h => by
    rw [hruns] at h
    cases h
  have hentries : m.book.entries = [smallObject] := congrArg Book.entries hserved.midway.book
  refine ⟨m, .next .start hs, hfresh, reaches_between hserved.midway.status t [], ?_,
    ⟨rfl, ?_, ?_, rfl⟩, hsmooth⟩
  · rw [hroot]
    simp [Mut.small]
  · show t.arg 0 ≠ 0
    rw [harg]
    decide
  · show get Entry.addr (t.arg 0) m.book.entries = some smallObject
    rw [harg, hentries]
    rfl

theorem examined_iff_free : ∃ m, Examined .checking m .free smallObject := by
  obtain ⟨m, hrun, hfresh, hbetween, hlisted, hgives, hsmooth⟩ :=
    small_freeing (.freeing mutZoneValue mutZoneValue) rfl
  have haligned : Aligned (m.reaches (.freeing mutZoneValue mutZoneValue) []) .free :=
    ⟨fun _ e he => by rw [← Option.some.inj (hgives.found.symm.trans he)]; rfl,
      fun h => nomatch h⟩
  have hintact : (Target.freeing mutZoneValue mutZoneValue).Intact 0x2004 8 := ⟨rfl, rfl⟩
  exact ⟨_, (examined_iff (small_opened ..) hrun hfresh hbetween hlisted hgives hsmooth
    (fun h => nomatch h) haligned fun h => nomatch h.routine).2 ⟨hintact, fun h => nomatch h⟩⟩

/-- The handler of `free` gives up over an object whose first mark was
overwritten. -/
theorem overwritten_not_examined :
    ∃ m, Run (Step .checking) (mallocCall .checking) [⟨.malloc, mallocCall .checking⟩] m ∧
      Between m (m.reaches (.freeing 0 mutZoneValue) []) ∧
      (m.reaches (.freeing 0 mutZoneValue) []).Gives .free smallObject ∧
      ¬ Examined .checking (m.reaches (.freeing 0 mutZoneValue) []) .free smallObject := by
  obtain ⟨m, hrun, hfresh, hbetween, hlisted, hgives, -⟩ :=
    small_freeing (.freeing 0 mutZoneValue) rfl
  refine ⟨m, hrun, hbetween, hgives, fun hexamined => ?_⟩
  have hopen : Opened .checking (mallocCall .checking) := small_opened ..
  have hready := hbetween.ready (run_ready hrun hopen.ready hfresh)
  have hpre := (hexamined.intact hready hlisted fun h => nomatch h).pre
  have hzero : (Target.freeing 0 mutZoneValue).data.readWord 0x2000 = 0 := rfl
  exact absurd (hzero.symm.trans hpre) (by decide)

end MutTracker.Source
