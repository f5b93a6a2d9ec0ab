import MutTracker.Verified.Ledger

/-!
# The statistics

`Stat.of es` is what `now` should be for the entries `es`: the number of the
active ones and the sum of their sizes.  Each call takes active entries away
and enters at most one, `Tally` says how the four statistics follow, and the
run lemmas make of it sums over the blocks entered and high-water marks over
the moments between calls.

The hits are another matter: a `realloc` of an address never allocated is
counted twice when memory is not freed.

## Main results

* `Book.tally` — what a handled call does to the statistics.
* `stats_exact` — the statistics after a run.
* `hits_exact_iff` — when the hits are the numbers of calls.
-/

namespace MutTracker.Source

open MutTracker.Logic MutTracker.Logic.Prog MutTracker.Logic.Keyed

/-! ## Sizes and numbers -/

/-- The number of the active entries and the sum of their sizes. -/
def Stat.of (es : List Entry) : Stat where
  space := ((es.filter Entry.active).map fun e => e.size.toNat).sum
  count := es.countP Entry.active

/-- The number of some blocks and the sum of their sizes. -/
def Stat.total (sizes : List Word) : Stat where
  space := (sizes.map BitVec.toNat).sum
  count := sizes.length

/-- One more block. -/
def Stat.plus (s : Stat) (size : Word) : Stat where
  space := s.space + size.toNat
  count := s.count + 1

/-- The size of the block that a handled call enters in the list.  A `realloc`
that is handled has returned one, but when memory is freed the block of an
address never allocated is not entered. -/
def Book.enters (flags : Control) (b : Book) : Event → Option Word
  | ⟨.malloc size, result⟩ => if result = 0 then none else some size
  | ⟨.calloc nElems elemSize, result⟩ => if result = 0 then none else some (nElems * elemSize)
  | ⟨.realloc addr size, _⟩ =>
      if flags.free = true ∧ addr ≠ 0 ∧ b.find addr = none then none else some size
  | ⟨.free _, _⟩ | ⟨.cfree _, _⟩ | ⟨.usage, _⟩ => none

def Visit.enters (flags : Control) (v : Visit) : Option Word :=
  v.tracker.book.enters flags v.event

variable {flags : Control} {m m' m₀ : Mut} {a c : Routine} {b b₁ : Book} {e : Entry}
  {es es₁ es₂ : List Entry} {v : Visit} {vs : List Visit} {t : Target}

/-- An active entry counts one and its size, wherever it is. -/
theorem Stat.of_split (es₁ es₂ : List Entry) (hactive : e.active = true) :
    Stat.of (es₁ ++ e :: es₂) = (Stat.of (es₁ ++ es₂)).plus e.size := by
  simp only [Stat.of, Stat.plus, List.filter_append, List.filter_cons_of_pos hactive,
    List.map_append, List.map_cons, List.sum_append, List.sum_cons, List.countP_append,
    List.countP_cons_of_pos hactive, Stat.mk.injEq]
  omega

theorem Stat.of_cons (a : Routine) (addr size : Word) :
    Stat.of (⟨addr, size, some a, none⟩ :: es) = (Stat.of es).plus size :=
  Stat.of_split [] es rfl

theorem Stat.of_split_inactive (hinactive : e.active = false) :
    Stat.of (es₁ ++ e :: es₂) = Stat.of (es₁ ++ es₂) := by
  have hnot : ¬ e.active = true := by rw [hinactive]; nofun
  simp only [Stat.of, List.filter_append, List.filter_cons_of_neg hnot, List.countP_append,
    List.countP_cons_of_neg hnot]

theorem active_of_live (hlive : e.consumer = none) : e.active = true := by
  rw [Entry.active, hlive]
  rfl

/-- An active object leaves with its size. -/
theorem Stat.of_consumeEntry (flags : Control) (hkeys : UniqueKeys Entry.addr es)
    (he : get Entry.addr e.addr es = some e) (hlive : e.consumer = none) (c : Routine) :
    Stat.of es = (Stat.of (consumeEntry flags c e.addr es)).plus e.size := by
  obtain ⟨es₁, es₂, rfl, h₁, h₂⟩ := hkeys.split (mem_of_get he)
  rw [Stat.of_split es₁ es₂ (active_of_live hlive), consumeEntry]
  split
  · rw [remove_split h₁]
  · rw [adjust_split (Entry.consumedBy c) h₁ h₂, Stat.of_split_inactive rfl]

/-- An active object gives place to another. -/
theorem Stat.of_moved (hkeys : UniqueKeys Entry.addr es)
    (he : get Entry.addr e.addr es = some e) (hlive : e.consumer = none) (a : Routine)
    (addr size : Word) :
    ∃ rest : Stat, Stat.of es = rest.plus e.size ∧
      Stat.of (adjust Entry.addr e.addr (fun _ => ⟨addr, size, some a, none⟩) es) =
        rest.plus size := by
  obtain ⟨es₁, es₂, rfl, h₁, h₂⟩ := hkeys.split (mem_of_get he)
  refine ⟨Stat.of (es₁ ++ es₂), Stat.of_split es₁ es₂ (active_of_live hlive), ?_⟩
  rw [adjust_split _ h₁ h₂, Stat.of_split es₁ es₂ rfl]

theorem Stat.minus_plus {s rest : Stat} {size : Word} (h : s = rest.plus size) :
    (⟨s.space - size.toNat, s.count - 1⟩ : Stat) = rest := by
  subst h
  simp [Stat.plus]

/-! ## One call -/

/-- The higher of two moments. -/
def Stat.higher (height : Stat → Nat) (mark now : Stat) : Stat :=
  if height mark < height now then now else mark

/-- From the account `b` to the account `b'`, in which a block of the size
`entered` was entered or none. -/
structure Tally (b : Book) (entered : Option Word) (b' : Book) : Prop where
  now : b'.stats.now = Stat.of b'.entries
  total : b'.stats.total = entered.elim b.stats.total b.stats.total.plus
  maxSpace : b'.stats.maxSpace = b.stats.maxSpace.higher Stat.space b'.stats.now
  maxCount : b'.stats.maxCount = b.stats.maxCount.higher Stat.count b'.stats.now

/-- The statistics are those of the entries. -/
structure Counted (b : Book) : Prop where
  now : b.stats.now = Stat.of b.entries
  space : b.stats.now.space ≤ b.stats.maxSpace.space
  count : b.stats.now.count ≤ b.stats.maxCount.count

theorem Stat.higher_of_le {height : Stat → Nat} {mark now : Stat} (h : height now ≤ height mark) :
    mark.higher height now = mark := if_neg (Nat.not_lt.2 h)

/-- A block that is entered in `b₁`, which has yet the marks of `b`. -/
theorem Tally.produced {size : Word} {b' : Book} (rest : Stat)
    (hstats : b'.stats = { b.stats with now := rest }.produced size)
    (hof : Stat.of b'.entries = rest.plus size) : Tally b (some size) b' where
  now := by rw [hof, hstats]; rfl
  total := by rw [hstats]; rfl
  maxSpace := by rw [hstats]; rfl
  maxCount := by rw [hstats]; rfl

/-- Nothing is entered, and what is active does not grow. -/
theorem Counted.lessened {b' : Book} (rest : Stat) (h : Counted b)
    (hstats : b'.stats = { b.stats with now := rest }) (hof : Stat.of b'.entries = rest)
    (hspace : rest.space ≤ b.stats.now.space) (hcount : rest.count ≤ b.stats.now.count) :
    Tally b none b' where
  now := by rw [hof, hstats]
  total := by rw [hstats]; rfl
  maxSpace := by
    rw [hstats]
    exact (Stat.higher_of_le (Nat.le_trans hspace h.space)).symm
  maxCount := by
    rw [hstats]
    exact (Stat.higher_of_le (Nat.le_trans hcount h.count)).symm

theorem Counted.same {b' : Book} (h : Counted b) (hstats : b'.stats = b.stats)
    (hentries : b'.entries = b.entries) : Tally b none b' :=
  h.lessened b.stats.now hstats (by rw [hentries, h.now]) (Nat.le_refl _)
    (Nat.le_refl _)

/-- After a call the statistics are again those of the entries. -/
theorem Tally.counted {b' : Book} {entered : Option Word} (h : Tally b entered b') :
    Counted b' where
  now := h.now
  space := by
    rw [h.maxSpace, Stat.higher]
    split <;> omega
  count := by
    rw [h.maxCount, Stat.higher]
    split <;> omega

theorem Book.counted_stats (hstats : flags.stats = true) (f : Stats → Stats) :
    (b.counted flags f).stats = f b.stats := if_pos hstats

section Step

variable (hstats : flags.stats = true) (h : Counted b)
include hstats h

theorem tally_made (hsame : b₁.stats = b.stats) (hentries : b₁.entries = b.entries)
    (a : Routine) (addr size : Word) : Tally b (some size) (b₁.made flags a addr size) := by
  refine .produced b.stats.now ?_ ?_
  · rw [Book.made, Book.counted_stats hstats, Book.entered, hsame]
  · rw [h.now, ← hentries]
    exact Stat.of_cons a addr size

theorem tally_produce (a : Routine) (warning : String) (arg size result : Word) :
    Tally b (if result = 0 then none else some size)
      (b.produce flags a warning arg size result) := by
  unfold Book.produce
  split
  · exact h.same (Book.hit_stats ..) (Book.hit_entries ..)
  · exact tally_made hstats h (Book.hit_stats ..) (Book.hit_entries ..) ..

theorem tally_consume (hkeys : UniqueKeys Entry.addr b.entries) (c : Routine) (addr : Word) :
    Tally b none (b.consume flags c addr) := by
  unfold Book.consume
  split
  · exact h.same (Book.hit_stats ..) (Book.hit_entries ..)
  · simp only [Book.find_hit]
    cases he : b.find addr with
    | none => exact h.same (Book.hit_stats ..) (Book.hit_entries ..)
    | some e =>
        obtain rfl := find_addr he
        dsimp only
        split
        · exact h.same (Book.hit_stats ..) (Book.hit_entries ..)
        · rename_i hlive
          have hlive : e.consumer = none := by simpa using hlive
          have hof := Stat.of_consumeEntry flags hkeys he hlive c
          rw [← h.now] at hof
          refine h.lessened (Stat.of (consumeEntry flags c e.addr b.entries)) ?_ ?_ ?_ ?_
          · rw [Book.consumed, Book.counted_stats hstats, Book.left, Book.hit_stats]
            rw [Stats.consumed, Stat.minus_plus hof]
          · rw [Book.consumed, Book.counted_entries, Book.left, Book.hit_entries]
          · rw [hof]; exact Nat.le_add_right _ _
          · rw [hof]; exact Nat.le_add_right _ _

/-- A `realloc` enters its block, and the object it was given is counted out. -/
theorem tally_reallocate (hkeys : UniqueKeys Entry.addr b.entries) {addr : Word}
    (hlive : addr ≠ 0 → ∀ e, b.find addr = some e → e.consumer = none) (size result : Word) :
    Tally b (if flags.free = true ∧ addr ≠ 0 ∧ b.find addr = none then none else some size)
      (b.reallocate flags addr size result) := by
  by_cases hzero : addr = 0
  · rw [Book.reallocate, if_pos hzero, if_neg fun h => h.2.1 hzero]
    exact tally_made hstats h (Book.hit_stats ..) (Book.hit_entries ..) ..
  · cases he : b.find addr with
    | none =>
        rw [Book.reallocate_unknown flags b hzero he]
        cases hfree : flags.free with
        | true =>
            rw [if_pos rfl, if_pos ⟨rfl, hzero, rfl⟩]
            exact h.same (Book.hit_stats ..) (Book.hit_entries ..)
        | false =>
            rw [if_neg (by simp), if_neg (by simp)]
            exact tally_made hstats h (by exact Book.hit_stats flags b .realloc 2)
              (by exact Book.hit_entries flags b .realloc 2) ..
    | some e =>
        have he_live := hlive hzero e he
        obtain rfl := find_addr he
        rw [Book.reallocate_known flags b hzero he, if_neg (by simp)]
        cases hfree : flags.free with
        | true =>
          obtain ⟨rest, hof, hmoved⟩ := Stat.of_moved hkeys he he_live .realloc result size
          rw [← h.now] at hof
          rw [if_pos rfl]
          refine .produced rest ?_ ?_
          · rw [Book.moved, Book.counted_stats hstats, Book.counted_stats hstats, Book.hit_stats,
              Stats.consumed, Stat.minus_plus hof]
          · rw [Book.moved, Book.counted_entries, Book.counted_entries, Book.hit_entries]
            exact hmoved
        | false =>
          have hof := Stat.of_consumeEntry flags hkeys he he_live .realloc
          rw [← h.now] at hof
          rw [if_neg (by simp)]
          refine .produced (Stat.of (consumeEntry flags .realloc e.addr b.entries)) ?_ ?_
          · rw [Book.made, Book.counted_stats hstats, Book.entered, Book.consumed,
              Book.counted_stats hstats, Book.left, Book.hit_stats, Stats.consumed,
              Stat.minus_plus hof]
          · rw [Book.made, Book.counted_entries, Book.entered, Book.consumed,
              Book.counted_entries, Book.left, Book.hit_entries]
            exact Stat.of_cons ..

end Step

/-- What a handled call does to the statistics. -/
theorem Served.tally (hs : Served flags m a t m') (hready : Ready flags m)
    (hstats : flags.stats = true) (h : Counted m.book) :
    Tally m.book (m.book.enters flags (m.event a)) (m.book.step flags (m.event a)) := by
  have hkeys : UniqueKeys Entry.addr m.book.entries :=
    uniqueKeys_entries hready.books.shelved.addrs
  cases a with
  | malloc => exact tally_produce hstats h ..
  | calloc => exact tally_produce hstats h ..
  | realloc =>
      exact tally_reallocate hstats h hkeys (fun hnonzero e he =>
        hs.realloc_live hready hnonzero he) ..
  | free => exact tally_consume hstats h hkeys ..
  | cfree => exact tally_consume hstats h hkeys ..
  | usage => exact h.same rfl rfl

/-! ## Runs -/

theorem Opened.counted (hopen : Opened flags m₀) : Counted m₀.book := by
  have hentries : m₀.book.entries = [] := by
    rw [Mut.book, Resources.entries, hopen.elems]
    rfl
  have hzero : m₀.book.stats = .zero := hopen.stats
  constructor
  · rw [hentries, hzero]
    rfl
  · rw [hzero]
    exact Nat.le_refl _
  · rw [hzero]
    exact Nat.le_refl _

/-- A handled call tallies from the account between the calls. -/
theorem Step.tally (hs : Step flags m v m') (hready : Ready flags m)
    (hfresh : Fresh flags v.tracker v.routine) (hstats : flags.stats = true)
    (h : Counted m.book) : Tally m.book (v.enters flags) m'.book := by
  obtain ⟨t, hserved⟩ := hs.served hready hfresh
  have hbook := hs.between.book hready.idle
  rw [← hbook] at h
  rw [← hbook, hserved.midway.book]
  exact hserved.tally (hs.entry hready) hstats h

/-- The tracker between two calls whose statistics are those of its entries. -/
structure Reckoned (flags : Control) (m : Mut) : Prop where
  ready : Ready flags m
  counted : Counted m.book

section Run

variable (hstats : flags.stats = true) (hopen : Opened flags m₀)
include hstats

/-- The steps of a run whose calls get from the allocator what it promises. -/
abbrev FreshStep (flags : Control) (m : Mut) (v : Visit) (m' : Mut) : Prop :=
  Step flags m v m' ∧ Fresh flags v.tracker v.routine

theorem FreshStep.reckoned (hs : FreshStep flags m v m') (h : Reckoned flags m) :
    Reckoned flags m' :=
  ⟨hs.1.ready h.ready hs.2, (hs.1.tally h.ready hs.2 hstats h.counted).counted⟩

/-- Both marks are high-water marks. -/
theorem marks_space :
    Marks (FreshStep flags) (Reckoned flags) Stat.space
      (fun m => Stat.of m.resources.entries) fun m => m.stats.maxSpace := by
  intro m v m' h hs _
  have htally := hs.1.tally h.ready hs.2 hstats h.counted
  have hmax : m'.stats.maxSpace = m.stats.maxSpace.higher Stat.space m'.stats.now :=
    htally.maxSpace
  have hnow : m'.stats.now = Stat.of m'.resources.entries := htally.now
  rw [hnow] at hmax
  exact hmax

theorem marks_count :
    Marks (FreshStep flags) (Reckoned flags) Stat.count
      (fun m => Stat.of m.resources.entries) fun m => m.stats.maxCount := by
  intro m v m' h hs _
  have htally := hs.1.tally h.ready hs.2 hstats h.counted
  have hmax : m'.stats.maxCount = m.stats.maxCount.higher Stat.count m'.stats.now :=
    htally.maxCount
  have hnow : m'.stats.now = Stat.of m'.resources.entries := htally.now
  rw [hnow] at hmax
  exact hmax

include hopen

theorem run_reckoned (hrun : Run (FreshStep flags) m₀ vs m) : Reckoned flags m :=
  hrun.invariant ⟨hopen.ready, hopen.counted⟩ fun _ _ _ h hs =>
    FreshStep.reckoned hstats hs h

/-- The totals are over the blocks entered so far. -/
theorem run_total (hrun : Run (FreshStep flags) m₀ vs m) :
    m.stats.total = Stat.total (vs.filterMap (Visit.enters flags)) := by
  refine (hrun.traced (R := fun us m => Reckoned flags m ∧
    m.stats.total = Stat.total (us.filterMap (Visit.enters flags))) ⟨⟨hopen.ready, hopen.counted⟩,
      by rw [hopen.stats]; rfl⟩ ?_).2
  rintro us m v m' ⟨h, htotal⟩ hs
  refine ⟨FreshStep.reckoned hstats hs h, ?_⟩
  have htally : m'.stats.total = (v.enters flags).elim m.stats.total m.stats.total.plus :=
    (hs.1.tally h.ready hs.2 hstats h.counted).total
  rw [htally, htotal, List.filterMap_append]
  cases henters : v.enters flags with
  | none => simp [henters]
  | some size => simp [henters, Stat.total, Stat.plus]

end Run

/-- After a run `now` is the number and the size of what is active, `total`
that of the blocks ever entered, and the marks are those of the moments
between calls at which the most space was taken, or by the most blocks. -/
theorem stats_exact (hstats : flags.stats = true) (hopen : Opened flags m₀)
    (hrun : Run (Step flags) m₀ vs m) (hfresh : AllFresh flags vs) :
    m.stats.now = Stat.of m.resources.entries ∧
      m.stats.now.count = m.resources.nActiveElems ∧
      m.stats.total = Stat.total (vs.filterMap (Visit.enters flags)) ∧
      (∃ m₁, Through (Step flags) m₀ vs m m₁ ∧
        m.stats.maxSpace = Stat.of m₁.resources.entries) ∧
      (∀ m₁, Through (Step flags) m₀ vs m m₁ →
        (Stat.of m₁.resources.entries).space ≤ m.stats.maxSpace.space) ∧
      (∃ m₁, Through (Step flags) m₀ vs m m₁ ∧
        m.stats.maxCount = Stat.of m₁.resources.entries) ∧
      ∀ m₁, Through (Step flags) m₀ vs m m₁ →
        (Stat.of m₁.resources.entries).count ≤ m.stats.maxCount.count := by
  have hrun' : Run (FreshStep flags) m₀ vs m := hrun.restrict hfresh
  have hfirst : Reckoned flags m₀ := ⟨hopen.ready, hopen.counted⟩
  have hkeep : ∀ m v m', Reckoned flags m → FreshStep flags m v m' → Reckoned flags m' :=
    fun _ _ _ h hs => FreshStep.reckoned hstats hs h
  have hzero : Stats.zero.maxSpace = Stat.of m₀.resources.entries := by
    rw [Resources.entries, hopen.elems]
    rfl
  have hspace : m₀.stats.maxSpace = Stat.of m₀.resources.entries := by rw [hopen.stats, hzero]
  have hcount : m₀.stats.maxCount = Stat.of m₀.resources.entries := by
    rw [hopen.stats]
    exact hzero
  have hreckoned := run_reckoned hstats hopen hrun'
  have hforget : ∀ m v m', FreshStep flags m v m' → Step flags m v m' := fun _ _ _ hs => hs.1
  refine ⟨hreckoned.counted.now, ?_, run_total hstats hopen hrun', ?_, fun m₁ hm₁ => ?_, ?_,
    fun m₁ hm₁ => ?_⟩
  · have hnow : m.stats.now = Stat.of m.resources.entries := hreckoned.counted.now
    rw [hnow, hreckoned.ready.books.active, Stat.of, Resources.entries, List.countP_map]
    rfl
  · obtain ⟨m₁, hm₁, hmax⟩ := hrun'.attained hfirst hkeep (marks_space hstats) hspace
    exact ⟨m₁, hm₁.mono hforget, hmax⟩
  · exact Run.highest (hm₁.restrict hfresh) hfirst hkeep (marks_space hstats) hspace
  · obtain ⟨m₁, hm₁, hmax⟩ := hrun'.attained hfirst hkeep (marks_count hstats) hcount
    exact ⟨m₁, hm₁.mono hforget, hmax⟩
  · exact Run.highest (hm₁.restrict hfresh) hfirst hkeep (marks_count hstats) hcount

/-- A tracker that collects statistics. -/
def Control.counting : Control := { Control.plain with stats := true }

/-- Three blocks, of which the first one is freed before the third one is obtained. -/
def threeBlocks : List Coming :=
  [.malloc 8 0x2000, .malloc 16 0x3000, .free 0x2000, .calloc 2 2 0x4000]

/-- Most was taken after the second call, and no more blocks at any time. -/
theorem stats_exact_threeBlocks :
    ∃ vs m, Run (Step .counting) (.fresh .counting) vs m ∧
      vs.map Visit.event = threeBlocks.map Coming.event ∧
      m.stats.now = Stat.of m.resources.entries ∧
      m.stats.total = Stat.total (vs.filterMap (Visit.enters .counting)) ∧
      (∃ m₁, Through (Step .counting) (.fresh .counting) vs m m₁ ∧
        m.stats.maxSpace = Stat.of m₁.resources.entries) ∧
      m.stats = { now := ⟨20, 2⟩, total := ⟨28, 3⟩, maxSpace := ⟨24, 2⟩, maxCount := ⟨24, 2⟩ } := by
  have hserves : (Mut.fresh .counting).serves .counting (Mut.obtainsNew .counting)
      (fun _ => true) threeBlocks = true := by decide +kernel
  obtain ⟨vs, m, hrun, hfresh, hevents, -⟩ := serves_fresh hserves
  have hopen : Opened .counting (.fresh .counting) := small_opened ..
  obtain ⟨hnow, -, htotal, hspace, -⟩ := stats_exact rfl hopen hrun hfresh
  have hbook := run_book hrun hopen.ready hfresh
  rw [hevents] at hbook
  refine ⟨vs, m, hrun, hevents, hnow, htotal, hspace, ?_⟩
  show m.book.stats = _
  rw [hbook]
  decide +kernel

/-! ## Hits -/

/-- The call is counted twice: it is a `realloc` of an address never allocated,
and memory is not freed. -/
structure CountedTwice (flags : Control) (m : Mut) (a : Routine) : Prop where
  routine : a = .realloc
  keeping : flags.free = false
  nonzero : m.target.arg 0 ≠ 0
  unknown : m.find (m.target.arg 0) = none

/-- The number of the calls of `a` in a run. -/
def calls (a : Routine) (vs : List Visit) : Nat := vs.countP fun v => v.routine = a

theorem calls_append (a : Routine) (vs : List Visit) (v : Visit) :
    calls a (vs ++ [v]) = calls a vs + if v.routine = a then 1 else 0 := by
  simp [calls, List.countP_append, List.countP_cons]

theorem counts_of_once (ha : a ≠ .usage) (h : ¬ CountedTwice flags m a) :
    m.counts flags a = 1 := by
  cases a with
  | usage => exact absurd rfl ha
  | malloc | calloc | free | cfree => rfl
  | realloc => exact if_neg fun hc => h ⟨rfl, hc.1, hc.2.1, hc.2.2⟩

theorem CountedTwice.counts (h : CountedTwice flags m a) : m.counts flags a = 2 := by
  obtain ⟨rfl, hkeep, hnonzero, hnone⟩ := h
  exact if_pos ⟨hkeep, hnonzero, hnone⟩

/-- What a run has counted so far. -/
structure Hits (flags : Control) (vs : List Visit) (m : Mut) : Prop where
  typed : Typed m
  atLeast : ∀ a, a ≠ .usage → calls a vs ≤ m.hits a
  exact_iff : (∀ a, a ≠ .usage → m.hits a = calls a vs) ↔
    ∀ v ∈ vs, ¬ CountedTwice flags v.tracker v.routine

/-- A handled call adds to the hits of its routine. -/
theorem Step.hits (hs : Step flags m v m') (htyped : Typed m) (hstats : flags.stats = true)
    (a : Routine) :
    m'.hits a =
      m.hits a + if v.routine = a then v.tracker.counts flags v.routine else 0 := by
  rw [(hs.acts htyped).hits rfl hstats, hs.between.hits, Function.update_apply]
  by_cases ha : a = v.routine
  · subst ha
    rw [if_pos rfl, if_pos rfl]
  · rw [if_neg ha, if_neg fun h => ha h.symm, Nat.add_zero]

theorem Hits.next (h : Hits flags vs m) (hs : Step flags m v m') (hstats : flags.stats = true) :
    Hits flags (vs ++ [v]) m' := by
  have hhits := hs.hits h.typed hstats
  by_cases htwice : CountedTwice flags v.tracker v.routine
  · have hcounts := htwice.counts
    refine ⟨hs.typed h.typed, fun a ha => ?_, fun hexact => ?_, fun honce => ?_⟩
    · have hle := h.atLeast a ha
      rw [hhits, calls_append, hcounts]
      split <;> omega
    · have hne : v.routine ≠ .usage := by rw [htwice.routine]; nofun
      have hle := h.atLeast v.routine hne
      have heq := hexact v.routine hne
      rw [hhits, calls_append, hcounts, if_pos rfl, if_pos rfl] at heq
      omega
    · exact absurd htwice (honce v (List.mem_append_right _ List.mem_cons_self))
  · have hcounts : ∀ a, a ≠ .usage → v.routine = a → v.tracker.counts flags v.routine = 1 := by
      rintro _ ha rfl
      exact counts_of_once ha htwice
    have hgrows : ∀ a, a ≠ .usage → ∃ n, m'.hits a = m.hits a + n ∧
        calls a (vs ++ [v]) = calls a vs + n := fun a ha => by
      refine ⟨if v.routine = a then 1 else 0, ?_, calls_append a vs v⟩
      rw [hhits]
      by_cases hv : v.routine = a
      · rw [if_pos hv, if_pos hv, hcounts a ha hv]
      · rw [if_neg hv, if_neg hv]
    refine ⟨hs.typed h.typed, fun a ha => ?_, ?_⟩
    · have hle := h.atLeast a ha
      obtain ⟨n, hn, hn'⟩ := hgrows a ha
      omega
    · have hsame : (∀ a, a ≠ .usage → m'.hits a = calls a (vs ++ [v])) ↔
          ∀ a, a ≠ .usage → m.hits a = calls a vs := by
        refine forall₂_congr fun a ha => ?_
        obtain ⟨n, hn, hn'⟩ := hgrows a ha
        omega
      rw [hsame, h.exact_iff]
      simp only [List.mem_append, List.mem_singleton, or_imp, forall_and, forall_eq, htwice,
        not_false_eq_true, and_true]

/-- The hits are the numbers of calls when no call of the run is counted
twice, and only then. -/
theorem hits_exact_iff (hstats : flags.stats = true) (hopen : Opened flags m₀)
    (hrun : Run (Step flags) m₀ vs m) :
    (∀ a, a ≠ .usage → m.hits a = calls a vs) ↔
      ∀ v ∈ vs, ¬ CountedTwice flags v.tracker v.routine := by
  have hfirst : Hits flags [] m₀ :=
    { typed := hopen.ready.types
      atLeast := fun a _ => Nat.zero_le _
      exact_iff := ⟨fun _ _ hv => (by cases hv), fun _ a _ => hopen.hits a⟩ }
  exact (hrun.traced hfirst fun _ _ _ _ h hs => h.next hs hstats).exact_iff

/-- Two blocks, of which the first one is resized and freed. -/
def resizedAndFreed : List Coming :=
  [.malloc 8 0x2000, .malloc 16 0x3000, .realloc 0x2000 32 0x4000, .free 0x4000]

/-- Every `realloc` of this run is of a block in the list. -/
theorem hits_exact_iff_resized :
    ∃ vs m, Run (Step .counting) (.fresh .counting) vs m ∧
      vs.map Visit.routine = [.malloc, .malloc, .realloc, .free] ∧
      m.hits .malloc = 2 ∧ m.hits .realloc = 1 ∧ m.hits .free = 1 ∧ m.hits .calloc = 0 := by
  have hserves : (Mut.fresh .counting).serves .counting
      (fun a mh => a != .realloc || (mh.find (mh.target.arg 0)).isSome) (fun _ => true)
      resizedAndFreed = true := by decide +kernel
  obtain ⟨vs, m, hrun, hknown, -, hroutines, -⟩ := serves_run hserves
  have honce : ∀ v ∈ vs, ¬ CountedTwice .counting v.tracker v.routine := by
    intro v hv htwice
    have hfound := hknown v hv
    rw [htwice.routine, htwice.unknown] at hfound
    cases hfound
  have hexact := (hits_exact_iff rfl (small_opened ..) hrun).2 honce
  have hcalls : ∀ a, calls a vs = (vs.map Visit.routine).count a := by
    intro a
    rw [List.count, List.countP_map]
    rfl
  refine ⟨vs, m, hrun, hroutines, ?_, ?_, ?_, ?_⟩ <;>
    rw [hexact _ (by simp), hcalls, hroutines] <;> rfl

/-- One call of `realloc` of an address never allocated makes two hits. -/
theorem realloc_hit_twice :
    ∃ m, Opened .counting (reallocCall .counting) ∧
      Run (Step .counting) (reallocCall .counting) [⟨.realloc, reallocCall .counting⟩] m ∧
      calls .realloc [⟨.realloc, reallocCall .counting⟩] = 1 ∧ m.hits .realloc = 2 := by
  obtain ⟨m, hrun, -, hbook⟩ := small_run .counting (.calling 0x5000 8)
    [(Target.calling 0x5000 8).answers 0x6000] (a := .realloc) nofun rfl (by decide) rfl
  refine ⟨m, small_opened .., hrun, rfl, ?_⟩
  rw [show m.hits = m.book.hits from rfl, hbook]
  rfl

end MutTracker.Source
