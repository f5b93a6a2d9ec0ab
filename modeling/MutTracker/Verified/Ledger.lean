import MutTracker.Verified.Leaks

/-!
# The ledger

What the tracker is for: an account of the blocks that the target obtained,
kept from the calls it made and their results alone.  `Ledger.step` is written
from that purpose and knows nothing of the resource list: a producer that
succeeds enters its block, and a consumer takes out the active block it is
given, or marks it when memory is not freed.  `Ledger.complaints` are the
errors of a call that is given a block it should not be given.

While zones are not checked, the resource list is the ledger after every run,
but for one call: a `realloc` of an address never allocated, when memory is
freed, makes a block that is not entered.

## Main definitions

* `Ledger.step`, `Ledger.complaints`, `Verdict` — the abstract account.
* `Unrecorded` — the call that is not entered.

## Main results

* `Step.verdict` — a handled call takes the abstract account one step on.
* `ledger_exact`, `ledger_exact_freeing` — the resource list is the ledger.
* `resized_unrecorded` — a block that is missing from the list.
-/

namespace MutTracker.Source

open MutTracker.Logic MutTracker.Logic.Prog MutTracker.Logic.Keyed

/-- The entry of the block at each address. -/
abbrev Ledger := Word → Option Entry

namespace Ledger

variable (freeing : Bool) (L : Ledger)

/-- The block at `addr` was obtained from `a`. -/
def record (a : Routine) (addr size : Word) : Ledger :=
  Function.update L addr (some ⟨addr, size, some a, none⟩)

/-- A producer of `size` returned `result`. -/
def produce (a : Routine) (size result : Word) : Ledger :=
  if result = 0 then L else L.record a result size

/-- The address is given to `c`: an active block there leaves, or is marked. -/
def consume (c : Routine) (addr : Word) : Ledger :=
  match L addr with
  | some e =>
      if addr ≠ 0 ∧ e.consumer = none then
        Function.update L addr (if freeing then none else some (e.consumedBy c))
      else L
  | none => L

/-- A `realloc` that fails leaves the block where it is. -/
def reallocate (addr size result : Word) : Ledger :=
  if result = 0 then L else (L.consume freeing .realloc addr).record .realloc result size

def step : Event → Ledger
  | ⟨.malloc size, result⟩ => L.produce .malloc size result
  | ⟨.calloc nElems elemSize, result⟩ => L.produce .calloc (nElems * elemSize) result
  | ⟨.realloc addr size, result⟩ => L.reallocate freeing addr size result
  | ⟨.free addr, _⟩ => L.consume freeing .free addr
  | ⟨.cfree addr, _⟩ => L.consume freeing .cfree addr
  | ⟨.usage, _⟩ => L

/-- The errors of giving `addr` to `c`. -/
def misuse (c : Routine) (addr : Word) : List Report :=
  if addr = 0 then []
  else
    match L addr with
    | none => [⟨"FUM", [.string c.word, .execAddr addr]⟩]
    | some e =>
        if e.consumer.isSome then [⟨"FFM", [.string c.word, .execAddr addr]⟩] else []

def complaints : Call → List Report
  | .realloc addr _ => L.misuse .realloc addr
  | .free addr => L.misuse .free addr
  | .cfree addr => L.misuse .cfree addr
  | .malloc _ | .calloc _ _ | .usage => []

end Ledger

/-- The errors about freed or unknown memory. -/
def Report.misuse (r : Report) : Bool := r.name == "FUM" || r.name == "FFM"

/-- The ledger with the complaints so far, latest first. -/
structure Verdict where
  ledger : Ledger
  complaints : List Report

def Verdict.step (freeing : Bool) (V : Verdict) (ev : Event) : Verdict where
  ledger := V.ledger.step freeing ev
  complaints := V.ledger.complaints ev.call ++ V.complaints

/-- Nothing was obtained and nothing was complained of. -/
def Verdict.blank : Verdict := { ledger := fun _ => none, complaints := [] }

/-- A `realloc` of an address never allocated is let run when memory is freed,
and returns a block. -/
structure Unrecorded (flags : Control) (m : Mut) (a : Routine) : Prop where
  routine : a = .realloc
  freeing : flags.free = true
  nonzero : m.target.arg 0 ≠ 0
  unknown : m.find (m.target.arg 0) = none
  result : m.result ≠ 0

variable {flags : Control} {m m' m₀ : Mut} {a : Routine} {b : Book} {v : Visit}
  {vs : List Visit} {t : Target}

/-! ## The account as a ledger -/

theorem find_entered (a : Routine) (addr size : Word) :
    (b.entered a addr size).find = Ledger.record b.find a addr size := by
  funext k
  rw [Book.find, Book.entered, get_cons, Ledger.record, Function.update_apply]
  by_cases h : k = addr
  · rw [if_pos h, if_pos h.symm]
  · rw [if_neg h, if_neg fun h' => h (Eq.symm h')]
    rfl

theorem find_left (flags : Control) {c : Routine} {e : Entry}
    (hkeys : UniqueKeys Entry.addr b.entries)
    (he : b.find e.addr = some e) (hnonzero : e.addr ≠ 0) (hlive : e.consumer = none) :
    (b.left flags c e).find = Ledger.consume flags.free b.find c e.addr := by
  funext k
  have hcond : e.addr ≠ 0 ∧ e.consumer = none := ⟨hnonzero, hlive⟩
  have hconsume : Ledger.consume flags.free b.find c e.addr =
      Function.update b.find e.addr
        (if flags.free then none else some (e.consumedBy c)) := by
    simp only [Ledger.consume, he, if_pos hcond]
  rw [hconsume, Function.update_apply]
  cases hfree : flags.free with
  | true =>
      have hentries : (b.left flags c e).entries = remove Entry.addr e.addr b.entries :=
        if_pos hfree
      rw [Book.find, hentries, get_remove hkeys]
      rfl
  | false =>
      have hentries : (b.left flags c e).entries =
          adjust Entry.addr e.addr (Entry.consumedBy c) b.entries := if_neg (by simp [hfree])
      have hget : get Entry.addr e.addr b.entries = some e := he
      rw [Book.find, hentries, get_adjust (f := Entry.consumedBy c) fun _ => rfl, hget]
      rfl

theorem find_moved {e : Entry} {addr : Word} (size : Word) (hkeys : UniqueKeys Entry.addr b.entries)
    (hfree : flags.free = true) (he : b.find e.addr = some e) (hnonzero : e.addr ≠ 0)
    (hlive : e.consumer = none) (hnew : b.find addr = none ∨ addr = e.addr) :
    (b.moved flags e addr size).find =
      Ledger.record (Ledger.consume flags.free b.find .realloc e.addr) .realloc addr size := by
  funext k
  have hcond : e.addr ≠ 0 ∧ e.consumer = none := ⟨hnonzero, hlive⟩
  have hconsume : Ledger.consume flags.free b.find .realloc e.addr =
      Function.update b.find e.addr none := by
    simp only [Ledger.consume, he, if_pos hcond, hfree, if_true]
  rw [hconsume, Ledger.record, Function.update_apply, Function.update_apply]
  exact get_rekey (f := fun _ => ⟨addr, size, some .realloc, none⟩) hkeys he
    (hnew.symm.imp_left fun h => h)

/-- An address that is not in the ledger is given to a consumer in vain. -/
theorem Ledger.consume_none {freeing : Bool} {L : Ledger} {addr : Word} (c : Routine)
    (h : addr = 0 ∨ L addr = none) : L.consume freeing c addr = L := by
  rcases h with rfl | h
  · unfold Ledger.consume
    split
    · rw [if_neg fun h => h.1 rfl]
    · rfl
  · simp only [Ledger.consume, h]

/-- A block that was consumed is given to a consumer in vain. -/
theorem Ledger.consume_consumed {freeing : Bool} {L : Ledger} {addr : Word} {e : Entry}
    (c : Routine) (he : L addr = some e) (hconsumed : e.consumer.isSome) :
    L.consume freeing c addr = L := by
  simp only [Ledger.consume, he]
  rw [if_neg fun h => by rw [h.2] at hconsumed; cases hconsumed]

theorem find_addr {addr : Word} {e : Entry} (he : b.find addr = some e) : e.addr = addr :=
  key_of_get he

/-! ## One call -/

theorem objectAt_unchecked (hcheck : flags.check = false) (addr : Word) :
    objectAt flags addr = addr := by
  rw [objectAt, hcheck]
  rfl

theorem find_produce (hcheck : flags.check = false) (a : Routine) (warning : String)
    (arg size result : Word) :
    (b.produce flags a warning arg size result).find = Ledger.produce b.find a size result := by
  unfold Book.produce Ledger.produce
  split
  · funext k
    exact Book.find_hit flags b a 1 k
  · rw [objectAt_unchecked hcheck]
    have hhit : (b.hit flags a 1).find = b.find := funext (Book.find_hit flags b a 1)
    exact (find_entered a result size).trans (by rw [hhit])

theorem find_consume (hkeys : UniqueKeys Entry.addr b.entries) (c : Routine) (addr : Word) :
    (b.consume flags c addr).find = Ledger.consume flags.free b.find c addr := by
  have hhit : (b.hit flags c 1).find = b.find := funext (Book.find_hit flags b c 1)
  unfold Book.consume
  by_cases hzero : addr = 0
  · rw [if_pos hzero, Ledger.consume_none c (.inl hzero), hhit]
  · rw [if_neg hzero]
    cases he : b.find addr with
    | none =>
        simp only [Book.find_hit, he]
        rw [Ledger.consume_none c (.inr he)]
        exact hhit
    | some e =>
        obtain rfl := find_addr he
        simp only [Book.find_hit, he]
        split
        · rename_i hconsumed
          rw [Ledger.consume_consumed c he hconsumed]
          exact hhit
        · rename_i hlive
          have hlive : e.consumer = none := by simpa using hlive
          have hkeys' : UniqueKeys Entry.addr (b.hit flags c 1).entries := by
            rw [Book.hit_entries]
            exact hkeys
          have he' : (b.hit flags c 1).find e.addr = some e := by rw [hhit]; exact he
          have hleft := find_left flags (c := c) hkeys' he' hzero hlive
          rw [hhit] at hleft
          exact hleft

/-- A `realloc` is served: what is known of its result. -/
theorem Served.realloc_result (hs : Served flags m .realloc t m')
    (hlook : flags.free = true → m.target.arg 0 ≠ 0 → (m.find (m.target.arg 0)).isSome) :
    m.result ≠ 0 := fun hzero => by
  obtain ⟨t', hret, -⟩ := hs.returned rfl
  exact hs.met ⟨rfl, by rw [hret]; rfl, hzero, hlook⟩

/-- In the list, what a served `realloc` is given is live. -/
theorem Served.realloc_live (hs : Served flags m .realloc t m') (hready : Ready flags m)
    {e : Entry} (hnonzero : m.target.arg 0 ≠ 0) (he : m.find (m.target.arg 0) = some e) :
    e.consumer = none := by
  cases hfree : flags.free with
  | true =>
      obtain ⟨o, ho, rfl⟩ := List.mem_map.1 (mem_of_get he)
      exact (hready.books.shelved.ok o ho).freeing hfree
  | false =>
      have hne := hs.realloc_result fun h => by rw [hfree] at h; cases h
      obtain ⟨t', hret, -⟩ := hs.returned rfl
      cases hconsumer : e.consumer with
      | none => rfl
      | some c =>
          refine absurd (.inl ?_) hs.free
          exact ⟨rfl, hfree, ⟨hnonzero, e, he, by rw [hconsumer]; rfl⟩,
            by rw [hret]; rfl, hne⟩

/-- A `realloc` whose block is entered does to the list what it does to the
ledger. -/
theorem find_reallocate (hcheck : flags.check = false) (hready : Ready flags m)
    (hfresh : Fresh flags m .realloc) (hs : Served flags m .realloc t m')
    (hrecorded : ¬ Unrecorded flags m .realloc) :
    (m.book.reallocate flags (m.target.arg 0) (m.target.arg 1) m.result).find =
      Ledger.reallocate flags.free m.find (m.target.arg 0) (m.target.arg 1) m.result := by
  have hkeys : UniqueKeys Entry.addr m.book.entries :=
    uniqueKeys_entries hready.books.shelved.addrs
  have hobject := objectAt_unchecked hcheck m.result
  have hhit : ∀ n, (m.book.hit flags .realloc n).find = m.find := fun n =>
    funext (Book.find_hit flags m.book .realloc n)
  by_cases hzero : m.target.arg 0 = 0
  · have hne := hs.realloc_result fun _ h => absurd hzero h
    rw [Book.reallocate, if_pos hzero, Ledger.reallocate, if_neg hne,
      Ledger.consume_none .realloc (.inl hzero), hobject, ← hhit 1]
    exact find_entered ..
  · cases he : m.find (m.target.arg 0) with
    | none =>
        rw [Book.reallocate_unknown flags m.book hzero he, Ledger.reallocate,
          Ledger.consume_none .realloc (.inr he), hobject]
        cases hfree : flags.free with
        | true =>
            have hresult : m.result = 0 := Classical.byContradiction fun hne =>
              hrecorded ⟨rfl, hfree, hzero, he, hne⟩
            rw [if_pos rfl, if_pos hresult]
            exact hhit 1
        | false =>
            have hne := hs.realloc_result fun h => by rw [hfree] at h; cases h
            rw [if_neg (by simp), if_neg hne, ← hhit 2]
            exact find_entered ..
    | some e =>
        have haddr := find_addr he
        have hlive := hs.realloc_live hready hzero he
        have hne := hs.realloc_result fun _ _ => by rw [he]; rfl
        have hrec : m.recorded flags .realloc = m.result := if_pos ⟨rfl, hzero, by rw [he]; rfl⟩
        have hnew : m.find m.result = none ∨ m.result = e.addr := by
          rcases hfresh rfl hne with hnone | ⟨-, -, hsame⟩
          · exact .inl (hrec ▸ hnone)
          · exact .inr (hsame.trans haddr.symm)
        have hkeys' : UniqueKeys Entry.addr (m.book.hit flags .realloc 1).entries := by
          rw [Book.hit_entries]
          exact hkeys
        have he' : (m.book.hit flags .realloc 1).find e.addr = some e := by
          rw [hhit, haddr]
          exact he
        rw [Book.reallocate_known flags m.book hzero he, Ledger.reallocate, if_neg hne, ← haddr]
        rw [← haddr] at hzero
        cases hfree : flags.free with
        | true =>
            have hmoved := find_moved (m.target.arg 1) hkeys' hfree he' hzero hlive
              (by rw [hhit]; exact hnew)
            rw [hhit, hfree] at hmoved
            rw [if_pos rfl]
            exact hmoved
        | false =>
            have hleft := find_left flags (c := .realloc) hkeys' he' hzero hlive
            rw [hhit, hfree] at hleft
            rw [if_neg (by simp), ← hleft]
            exact find_entered ..

/-- The list after a handled call is the ledger one step on. -/
theorem find_step (hcheck : flags.check = false) (hready : Ready flags m)
    (hfresh : Fresh flags m a) (hs : Served flags m a t m')
    (hrecorded : ¬ Unrecorded flags m a) :
    (m.book.step flags (m.event a)).find = Ledger.step flags.free m.find (m.event a) := by
  have hkeys : UniqueKeys Entry.addr m.book.entries :=
    uniqueKeys_entries hready.books.shelved.addrs
  cases a with
  | malloc => exact find_produce hcheck ..
  | calloc => exact find_produce hcheck ..
  | realloc => exact find_reallocate hcheck hready hfresh hs hrecorded
  | free => exact find_consume hkeys ..
  | cfree => exact find_consume hkeys ..
  | usage => rfl

/-! ## Complaints -/

theorem Book.reports_made (a : Routine) (addr size : Word) :
    (b.made flags a addr size).reports = b.reports := rfl

theorem reports_produce {a : Routine} {warning : String} {arg size result : Word}
    (hwarning : (Report.mk warning [.string a.word, .uint arg]).misuse = false) :
    (b.produce flags a warning arg size result).reports.filter Report.misuse =
      b.reports.filter Report.misuse := by
  unfold Book.produce
  split
  · rw [Book.report, List.filter_cons_of_neg (by rw [hwarning]; simp), Book.hit_reports]
  · rw [Book.reports_made, Book.hit_reports]

theorem reports_consume (c : Routine) (addr : Word) :
    (b.consume flags c addr).reports.filter Report.misuse =
      Ledger.misuse b.find c addr ++ b.reports.filter Report.misuse := by
  unfold Book.consume Ledger.misuse
  split
  · rw [Book.hit_reports]
    rfl
  · cases he : b.find addr with
    | none =>
        simp only [Book.find_hit, he, Book.report, Book.hit_reports]
        exact List.filter_cons_of_pos rfl
    | some e =>
        simp only [Book.find_hit, he]
        split
        · simp only [Book.report, Book.hit_reports]
          exact List.filter_cons_of_pos rfl
        · exact congrArg _ (Book.hit_reports flags b c 1)

/-- A served `realloc` is complained of when its address was never allocated. -/
theorem reports_reallocate (hready : Ready flags m) (hs : Served flags m .realloc t m') :
    (m.book.reallocate flags (m.target.arg 0) (m.target.arg 1) m.result).reports.filter
        Report.misuse =
      Ledger.misuse m.find .realloc (m.target.arg 0) ++ m.book.reports.filter Report.misuse := by
  unfold Ledger.misuse
  by_cases hzero : m.target.arg 0 = 0
  · rw [Book.reallocate, if_pos hzero, if_pos hzero, Book.reports_made, Book.hit_reports]
    rfl
  · rw [if_neg hzero]
    cases he : m.find (m.target.arg 0) with
    | none =>
        rw [Book.reallocate_unknown flags m.book hzero he]
        have hfum : ∀ n, ((m.book.hit flags .realloc n).report "FUM"
            [.string "realloc", .execAddr (m.target.arg 0)]).reports.filter Report.misuse =
            ⟨"FUM", [.string "realloc", .execAddr (m.target.arg 0)]⟩ ::
              m.book.reports.filter Report.misuse := fun n => by
          rw [Book.report, Book.hit_reports]
          exact List.filter_cons_of_pos rfl
        split
        · exact hfum 1
        · exact hfum 2
    | some e =>
        have hlive := hs.realloc_live hready hzero he
        have hnot : ¬ e.consumer.isSome = true := by rw [hlive]; simp
        rw [Book.reallocate_known flags m.book hzero he]
        simp only [if_neg hnot, List.nil_append]
        split
        · exact congrArg _ (Book.hit_reports flags m.book .realloc 1)
        · exact congrArg _ (Book.hit_reports flags m.book .realloc 1)

/-- A handled call complains of what the ledger complains of. -/
theorem reports_step (hready : Ready flags m) (hs : Served flags m a t m') :
    (m.book.step flags (m.event a)).reports.filter Report.misuse =
      Ledger.complaints m.find (m.call a) ++ m.book.reports.filter Report.misuse := by
  cases a with
  | malloc => exact reports_produce rfl
  | calloc => exact reports_produce rfl
  | realloc => exact reports_reallocate hready hs
  | free => exact reports_consume ..
  | cfree => exact reports_consume ..
  | usage => rfl

/-! ## Runs -/

/-- The tracker's account is the abstract one, with complaints after those of `rs`. -/
structure Agrees (rs : List Report) (m : Mut) (V : Verdict) : Prop where
  ledger : m.find = V.ledger
  complaints : m.process.log.reports.filter Report.misuse = V.complaints ++ rs

/-- A handled call takes the abstract account one step on. -/
theorem Step.verdict {rs : List Report} {V : Verdict} (hs : Step flags m v m')
    (hready : Ready flags m) (hcheck : flags.check = false)
    (hfresh : Fresh flags v.tracker v.routine)
    (hrecorded : ¬ Unrecorded flags v.tracker v.routine) (h : Agrees rs m V) :
    Agrees rs m' (V.step flags.free v.event) := by
  obtain ⟨t, hserved⟩ := hs.served hready hfresh
  have hentry := hs.entry hready
  have hbook := hs.between.book hready.idle
  have hfind : v.tracker.find = V.ledger := by
    rw [← h.ledger]
    exact congrArg Book.find hbook
  have hreports : v.tracker.book.reports.filter Report.misuse = V.complaints ++ rs := by
    rw [← h.complaints, hbook]
    rfl
  constructor
  · show m'.book.find = _
    rw [hserved.midway.book, find_step hcheck hentry hfresh hserved hrecorded, hfind]
    rfl
  · show m'.book.reports.filter _ = _
    rw [hserved.midway.book, reports_step hentry hserved, hreports, hfind, ← List.append_assoc]
    rfl

/-- The abstract account of a run. -/
def verdictOf (freeing : Bool) (vs : List Visit) : Verdict :=
  vs.foldl (fun V v => V.step freeing v.event) .blank

/-- From a list with nothing in it. -/
theorem run_agrees (hready : Ready flags m₀) (helems : m₀.resources.elems = [])
    (hcheck : flags.check = false) (hrun : Run (Step flags) m₀ vs m)
    (hfresh : AllFresh flags vs)
    (hrecorded : ∀ v ∈ vs, ¬ Unrecorded flags v.tracker v.routine) :
    Ready flags m ∧
      Agrees (m₀.process.log.reports.filter Report.misuse) m (verdictOf flags.free vs) := by
  have hblank : Agrees (m₀.process.log.reports.filter Report.misuse) m₀ .blank := by
    refine ⟨?_, rfl⟩
    funext addr
    rw [Mut.find, Book.find, Mut.book, Resources.entries, helems]
    rfl
  have hrun := hrun.restrict (P := fun v => Fresh flags v.tracker v.routine ∧
    ¬ Unrecorded flags v.tracker v.routine) fun v hv => ⟨hfresh v hv, hrecorded v hv⟩
  refine hrun.related (R := fun m V => Ready flags m ∧ Agrees _ m V) ⟨hready, hblank⟩ ?_
  rintro m v m' V ⟨hready, h⟩ ⟨hs, hfresh, hrecorded⟩
  exact ⟨hs.ready hready hfresh, hs.verdict hready hcheck hfresh hrecorded h⟩

theorem run_verdict (hopen : Opened flags m₀) (hcheck : flags.check = false)
    (hrun : Run (Step flags) m₀ vs m) (hfresh : AllFresh flags vs)
    (hrecorded : ∀ v ∈ vs, ¬ Unrecorded flags v.tracker v.routine) :
    Ready flags m ∧
      Agrees (m₀.process.log.reports.filter Report.misuse) m (verdictOf flags.free vs) :=
  run_agrees hopen.ready hopen.elems hcheck hrun hfresh hrecorded

/-- What a ledger is made of: blocks at their addresses, each from a producer. -/
structure Ledger.Sound (L : Ledger) : Prop where
  addr : ∀ k e, L k = some e → e.addr = k
  produced : ∀ k e, L k = some e → ∃ a, e.producer = some a ∧ a.produces = true

namespace Ledger.Sound

variable {L : Ledger} {freeing : Bool}

theorem record (h : L.Sound) (ha : a.produces = true) (addr size : Word) :
    (L.record a addr size).Sound := by
  constructor
  · intro k e he
    rw [Ledger.record, Function.update_apply] at he
    split at he
    · rename_i hk
      rw [← Option.some.inj he]
      exact hk.symm
    · exact h.addr k e he
  · intro k e he
    rw [Ledger.record, Function.update_apply] at he
    split at he
    · rw [← Option.some.inj he]
      exact ⟨a, rfl, ha⟩
    · exact h.produced k e he

theorem produce (h : L.Sound) (ha : a.produces = true) (size result : Word) :
    (L.produce a size result).Sound := by
  unfold Ledger.produce
  split
  · exact h
  · exact h.record ha result size

theorem consume (h : L.Sound) (c : Routine) (addr : Word) : (L.consume freeing c addr).Sound := by
  unfold Ledger.consume
  cases hL : L addr with
  | none => exact h
  | some e =>
      simp only
      split
      swap
      · exact h
      constructor
      · intro k e' he'
        rw [Function.update_apply] at he'
        split at he'
        · rename_i hk
          split at he'
          · cases he'
          · rw [← Option.some.inj he', hk]
            exact h.addr addr e hL
        · exact h.addr k e' he'
      · intro k e' he'
        rw [Function.update_apply] at he'
        split at he'
        · split at he'
          · cases he'
          · rw [← Option.some.inj he']
            exact h.produced addr e hL
        · exact h.produced k e' he'

theorem step (h : L.Sound) (ev : Event) : (L.step freeing ev).Sound := by
  obtain ⟨call, result⟩ := ev
  cases call with
  | malloc size => exact h.produce rfl ..
  | calloc nElems elemSize => exact h.produce rfl ..
  | realloc addr size =>
      show (L.reallocate freeing addr size result).Sound
      unfold Ledger.reallocate
      split
      · exact h
      · exact (h.consume .realloc addr).record rfl result size
  | free addr => exact h.consume ..
  | cfree addr => exact h.consume ..
  | usage => exact h

end Ledger.Sound

theorem verdictOf_sound (freeing : Bool) (vs : List Visit) :
    (verdictOf freeing vs).ledger.Sound := by
  have hblank : Verdict.blank.ledger.Sound := ⟨nofun, nofun⟩
  unfold verdictOf
  generalize Verdict.blank = V at hblank ⊢
  induction vs generalizing V with
  | nil => exact hblank
  | cons v vs ih => exact ih _ (hblank.step v.event)

/-- The leaks of a list that is a ledger: one for each active block, and no
other. -/
theorem leaks_iff {L : Ledger} (hkeys : UniqueKeys Entry.addr m.resources.entries)
    (hL : L.Sound) (h : m.find = L) :
    Made m.resources.entries ∧ (leaks m.resources.entries).reverse.Nodup ∧
      ∀ r, r ∈ (leaks m.resources.entries).reverse ↔
        ∃ addr e, L addr = some e ∧ e.active = true ∧ r = e.leak := by
  have hmem : ∀ e ∈ m.resources.entries, L e.addr = some e := fun e he => by
    rw [← h]
    exact hkeys.get_of_mem he
  refine ⟨fun e he => hL.produced _ e (hmem e he), List.nodup_reverse.2 (nodup_leaks hkeys),
    fun r => ?_⟩
  rw [List.mem_reverse, mem_leaks]
  constructor
  · rintro ⟨e, he, hactive, hr⟩
    exact ⟨e.addr, e, hmem e he, hactive, hr⟩
  · rintro ⟨addr, e, he, hactive, hr⟩
    rw [← h] at he
    exact ⟨e, mem_of_get he, hactive, hr⟩

theorem leaks_of_ledger {L : Ledger} (hready : Ready flags m) (hL : L.Sound) (h : m.find = L) :
    ∃ m' rs, mutLogLeaks flags m = .done () m' ∧
      m'.process.log.reports = rs ++ m.process.log.reports ∧ rs.Nodup ∧
      ∀ r, r ∈ rs ↔ ∃ addr e, L addr = some e ∧ e.active = true ∧ r = e.leak := by
  obtain ⟨hmade, hnodup, hiff⟩ :=
    leaks_iff (uniqueKeys_entries hready.books.shelved.addrs) hL h
  obtain ⟨m', hdone, hreports⟩ := mutLogLeaks_returns hready hmade
  exact ⟨m', _, hdone, hreports, hnodup, hiff⟩

/-- When memory is not freed the resource list is the ledger after every run:
the errors about freed and unknown memory are those of the ledger, and so are
the leaks. -/
theorem ledger_exact (hfree : flags.free = false) (hcheck : flags.check = false)
    (hopen : Opened flags m₀) (hrun : Run (Step flags) m₀ vs m) (hfresh : AllFresh flags vs) :
    m.find = (verdictOf false vs).ledger ∧
      UniqueKeys Entry.addr m.resources.entries ∧
      m.process.log.reports.filter Report.misuse =
        (verdictOf false vs).complaints ++ m₀.process.log.reports.filter Report.misuse ∧
      ∃ m' rs, mutLogLeaks flags m = .done () m' ∧
        m'.process.log.reports = rs ++ m.process.log.reports ∧ rs.Nodup ∧
        ∀ r, r ∈ rs ↔
          ∃ addr e, (verdictOf false vs).ledger addr = some e ∧ e.active = true ∧ r = e.leak := by
  obtain ⟨hready, hagrees⟩ := run_verdict hopen hcheck hrun hfresh fun v _ hunrecorded => by
    have hfreeing := hunrecorded.freeing
    rw [hfree] at hfreeing
    cases hfreeing
  rw [hfree] at hagrees
  exact ⟨hagrees.ledger, uniqueKeys_entries hready.books.shelved.addrs, hagrees.complaints,
    leaks_of_ledger hready (verdictOf_sound false vs) hagrees.ledger⟩

/-- When memory is freed the resource list is the ledger after every run in
which no `realloc` of an address never allocated returned a block. -/
theorem ledger_exact_freeing (hfree : flags.free = true) (hcheck : flags.check = false)
    (hopen : Opened flags m₀) (hrun : Run (Step flags) m₀ vs m) (hfresh : AllFresh flags vs)
    (hrecorded : ∀ v ∈ vs, ¬ Unrecorded flags v.tracker v.routine) :
    m.find = (verdictOf true vs).ledger ∧
      UniqueKeys Entry.addr m.resources.entries ∧
      (∀ e ∈ m.resources.entries, e.consumer = none) ∧
      ∃ m' rs, mutLogLeaks flags m = .done () m' ∧
        m'.process.log.reports = rs ++ m.process.log.reports ∧ rs.Nodup ∧
        ∀ r, r ∈ rs ↔ ∃ addr e, (verdictOf true vs).ledger addr = some e ∧ r = e.leak := by
  obtain ⟨hready, hagrees⟩ := run_verdict hopen hcheck hrun hfresh hrecorded
  rw [hfree] at hagrees
  have hlive : ∀ e ∈ m.resources.entries, e.consumer = none := fun e he => by
    obtain ⟨o, ho, rfl⟩ := List.mem_map.1 he
    exact (hready.books.shelved.ok o ho).freeing hfree
  obtain ⟨m', rs, hdone, hreports, hnodup, hrs⟩ :=
    leaks_of_ledger hready (verdictOf_sound true vs) hagrees.ledger
  refine ⟨hagrees.ledger, uniqueKeys_entries hready.books.shelved.addrs, hlive, m', rs, hdone,
    hreports, hnodup, fun r => ?_⟩
  rw [hrs]
  constructor
  · rintro ⟨addr, e, he, -, hr⟩
    exact ⟨addr, e, he, hr⟩
  · rintro ⟨addr, e, he, hr⟩
    refine ⟨addr, e, he, ?_, hr⟩
    have hmem : e ∈ m.resources.entries := by
      rw [← hagrees.ledger] at he
      exact mem_of_get he
    rw [Entry.active, hlive e hmem]
    rfl

/-- A tracker of memory that is really freed. -/
def Control.freeing : Control := { Control.plain with free := true }

/-- A call of `malloc` for 8 that returns 0x2000. -/
def mallocCall (flags : Control) : Mut :=
  .small flags (.calling 8 0) [(Target.calling 8 0).answers 0x2000]

/-- A call of `realloc` of the unknown 0x5000 that returns 0x6000. -/
def reallocCall (flags : Control) : Mut :=
  .small flags (.calling 0x5000 8) [(Target.calling 0x5000 8).answers 0x6000]

theorem verdictOf_events {freeing : Bool} {vs : List Visit} {events : List Event}
    (h : vs.map Visit.event = events) :
    verdictOf freeing vs = events.foldl (fun V ev => V.step freeing ev) .blank := by
  rw [← h, List.foldl_map]
  rfl

/-- Two blocks, of which the first one is freed twice and the second one resized. -/
def twiceFreed : List Coming :=
  [.malloc 8 0x2000, .malloc 16 0x3000, .free 0x2000, .free 0x2000, .realloc 0x3000 32 0x4000]

/-- The first block stays in the list as freed memory, and the second `free` is
complained of. -/
theorem ledger_exact_twiceFreed :
    ∃ vs m, Run (Step .plain) (.fresh .plain) vs m ∧
      vs.map Visit.event = twiceFreed.map Coming.event ∧
      m.find 0x2000 = some ⟨0x2000, 8, some .malloc, some .free⟩ ∧
      m.find 0x4000 = some ⟨0x4000, 32, some .realloc, none⟩ ∧
      m.process.log.reports.filter Report.misuse =
        [⟨"FFM", [.string "free", .execAddr 0x2000]⟩] := by
  have hserves : (Mut.fresh .plain).serves .plain (Mut.obtainsNew .plain) (fun _ => true)
      twiceFreed = true := by decide +kernel
  obtain ⟨vs, m, hrun, hfresh, hevents, -⟩ := serves_fresh hserves
  obtain ⟨hfind, -, hcomplaints, -⟩ := ledger_exact rfl rfl (small_opened ..) hrun hfresh
  rw [verdictOf_events hevents] at hfind hcomplaints
  refine ⟨vs, m, hrun, hevents, ?_, ?_, ?_⟩
  · rw [hfind]
    decide +kernel
  · rw [hfind]
    decide +kernel
  · rw [hcomplaints]
    decide +kernel

/-- A block whose address is taken again after it is freed, and resized then. -/
def takenAgain : List Coming :=
  [.malloc 8 0x2000, .free 0x2000, .malloc 16 0x2000, .realloc 0x2000 32 0x3000]

/-- Nothing is left of the first block, and the second one is where it was moved. -/
theorem ledger_exact_freeing_takenAgain :
    ∃ vs m, Run (Step .freeing) (.fresh .freeing) vs m ∧
      vs.map Visit.event = takenAgain.map Coming.event ∧
      m.find 0x2000 = none ∧ m.find 0x3000 = some ⟨0x3000, 32, some .realloc, none⟩ ∧
      ∀ e ∈ m.resources.entries, e.consumer = none := by
  have hserves : (Mut.fresh .freeing).serves .freeing (fun a mh => mh.obtainsNew .freeing a &&
      (mh.target.arg 0 == 0 || a != .realloc || (mh.find (mh.target.arg 0)).isSome))
      (fun _ => true) takenAgain = true := by decide +kernel
  obtain ⟨vs, m, hrun, hall, hevents, -⟩ := serves_run hserves
  have hfresh : AllFresh .freeing vs := fun v hv =>
    fresh_of_obtainsNew (Bool.and_eq_true_iff.1 (hall v hv)).1
  have hrecorded : ∀ v ∈ vs, ¬ Unrecorded .freeing v.tracker v.routine := by
    intro v hv hunrecorded
    have hknown := (Bool.and_eq_true_iff.1 (hall v hv)).2
    rw [hunrecorded.unknown, hunrecorded.routine] at hknown
    exact hunrecorded.nonzero (by simpa using hknown)
  obtain ⟨hfind, -, hlive, -⟩ :=
    ledger_exact_freeing rfl rfl (small_opened ..) hrun hfresh hrecorded
  rw [verdictOf_events hevents] at hfind
  refine ⟨vs, m, hrun, hevents, ?_, ?_, hlive⟩
  · rw [hfind]
    decide +kernel
  · rw [hfind]
    decide +kernel

/-- The block that a `realloc` of an unknown address returned is not in the
list. -/
theorem resized_unrecorded :
    ∃ m, Opened .freeing (reallocCall .freeing) ∧
      Run (Step .freeing) (reallocCall .freeing) [⟨.realloc, reallocCall .freeing⟩] m ∧
      AllFresh .freeing [⟨.realloc, reallocCall .freeing⟩] ∧
      (verdictOf true [⟨.realloc, reallocCall .freeing⟩]).ledger 0x6000 =
        some ⟨0x6000, 8, some .realloc, none⟩ ∧
      m.find 0x6000 = none := by
  obtain ⟨m, hrun, hfresh, hbook⟩ := small_run .freeing (.calling 0x5000 8)
    [(Target.calling 0x5000 8).answers 0x6000] (a := .realloc) nofun rfl (by decide) rfl
  refine ⟨m, small_opened .., hrun, hfresh, rfl, ?_⟩
  rw [Mut.find, hbook]
  rfl

end MutTracker.Source
