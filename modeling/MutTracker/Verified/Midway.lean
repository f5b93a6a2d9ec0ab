import MutTracker.Verified.Book

/-!
# In the middle of a handler

`Midway flags m b ran t held m'` relates the tracker `m'` in the middle of a
handler to the tracker `m` at which the handler took over: the account stands
at `b`, the target at `t`, the function has been let run on `ran` or not yet,
and the handler holds the backtraces `held`.  Each thing a handler does has a
rule that takes one `Midway` to the next; a handler is verified by citing the
rules in the order of its statements.

A handler ends in one of two ways.  `Served` is `Midway` at the account that
`Book.step` foretells, with nothing held; `Dropped` says why the handler gave
up.

## Main results

* `Midway.lift`, `Midway.act` — an operation on the process; the function runs.
* `Midway.produceBacktrace`, `Midway.closeBacktrace`, `GivesUp.free`.
* `Midway.hit`, `Midway.stats`, `Midway.logs`, `Midway.resources` — changes to
  the account.
* `Midway.served` — the end of a handler.
-/

namespace MutTracker.Source

open MutTracker.Logic MutTracker.Logic.Prog MutTracker.Logic.Keyed

/-- What a handler leaves alone. -/
structure Frame (m m' : Mut) : Prop where
  exec : m'.exec = m.exec
  root : m'.root = m.root
  actions : ∀ a, m'.actions a = { m.actions a with hits := (m'.actions a).hits }

/-- Counting a call leaves alone what a handler does. -/
theorem Frame.hit {m m' : Mut} (h : Frame m m') (c : Routine) :
    Frame m
      { m' with
        actions := Function.update m'.actions c
          { m'.actions c with hits := (m'.actions c).hits + 1 } } where
  exec := h.exec
  root := h.root
  actions c' := by
    by_cases hc : c' = c
    · subst hc
      simp only [Function.update_self]
      rw [h.actions c']
    · simp only [Function.update_of_ne hc]
      exact h.actions c'

/-- What has become of the function of the call: it is still to come, it was let run on
a target, or it was skipped. -/
inductive Passage where
  | ahead
  | ran (t : Target)
  | skipped

/-- Between `p` and `q` the function of the call at `p` came so far.  It is let run from
where `p` stopped, in a text with a breakpoint at its return address only, and once it has
run or was skipped the target is to go on there. -/
def Ran (p q : Process) : Passage → Prop
  | .ahead => q.kernel.waits = p.kernel.waits ∧ q.resumed = p.resumed ∧ q.pc = p.pc
  | .ran t =>
      q.kernel.waits <:+ p.kernel.waits ∧ q.pc = p.kernel.target.returnAddr ∧
        ∃ k, q.resumed = k :: p.resumed ∧
          k.Resumes p t (guarded p.kernel.text p.kernel.target.returnAddr)
  | .skipped =>
      q.kernel.waits = p.kernel.waits ∧ q.resumed = p.resumed ∧
        q.pc = p.kernel.target.returnAddr

/-- A process that looks the same has come as far. -/
theorem Ran.same {p q q' : Process} {ran : Passage} (h : Ran p q ran)
    (hwaits : q'.kernel.waits = q.kernel.waits) (hresumed : q'.resumed = q.resumed)
    (hpc : q'.pc = q.pc) : Ran p q' ran := by
  cases ran with
  | ahead => exact ⟨hwaits.trans h.1, hresumed.trans h.2.1, hpc.trans h.2.2⟩
  | ran t =>
      obtain ⟨k, hk, hresumes⟩ := h.2.2
      exact ⟨hwaits ▸ h.1, hpc.trans h.2.1, k, hresumed.trans hk, hresumes⟩
  | skipped => exact ⟨hwaits.trans h.1, hresumed.trans h.2.1, hpc.trans h.2.2⟩

structure Midway (flags : Control) (m : Mut) (b : Book) (ran : Passage) (t : Target)
    (held : List Nat) (m' : Mut) : Prop where
  status : m'.process.status = .stopped
  idle : m'.process.log.Idle
  target : m'.target = t
  text : m'.process.kernel.text = m.process.kernel.text
  faults : m'.process.kernel.faults <:+ m.process.kernel.faults
  ran : Ran m.process m'.process ran
  books : Books flags m'.resources m'.mem held
  later : m.mem.Later m'.mem
  book : m'.book = b
  frame : Frame m m'

/-- The handler of `a` went well. -/
structure Served (flags : Control) (m : Mut) (a : Routine) (t : Target) (m' : Mut) : Prop where
  midway : Midway flags m (m.book.step flags (m.event a))
    (if m.runs flags a then .ran (m.handed flags a) else .skipped) t [] m'
  returned : m.runs flags a → ∃ t', m.returning = some t' ∧ t = m.left flags a t'
  skipped : m.runs flags a = false → t = (m.handed flags a).skipped
  met : ¬ Unmet flags m a
  whole : ¬ Damaged flags m a
  free : ¬ Stuck flags m a

/-- Why the handler of `a` gave up. -/
inductive Dropped (flags : Control) (m : Mut) (a : Routine) (m' : Mut) : Prop
  | faulted : m.process.Faulted m'.process → Dropped flags m a m'
  | failed : m.mem.Failed m'.mem → m'.process.status = .stopped → Dropped flags m a m'
  | away : m.runs flags a → m.returning = none →
      (m'.process.status = .exited → m.process.Ends) → Dropped flags m a m'
  | unmet : Unmet flags m a → m'.process.status = .stopped →
      m'.book.entries = m.book.entries → m'.book.stats = m.book.stats →
      (∃ addr rs, m'.book.reports = ⟨"RR0", [.string "realloc", .execAddr addr]⟩ :: rs) →
      Dropped flags m a m'
  | damaged : Damaged flags m a → m'.process.status = .stopped →
      m'.book.entries = m.book.entries →
      m'.book.reports =
        ⟨"WUM", [.string a.word, .execAddr (m.target.arg 0)]⟩ :: m.book.reports →
      Dropped flags m a m'

/-- How the handler of `a` returns. -/
def Handled (flags : Control) (m : Mut) (a : Routine) (ok : Bool) (m' : Mut) : Prop :=
  (ok = true ∧ ∃ t, Served flags m a t m') ∨ (ok = false ∧ Dropped flags m a m')

variable {flags : Control} {m m₁ : Mut} {a : Routine} {b : Book} {ran : Passage}
  {t t' : Target} {held : List Nat} {bt : Option Nat} {E : Halt → Prop}

theorem Dropped.later {μ : Mem} (h : Dropped flags m a m₁) (hlater : m₁.mem.Later μ) :
    Dropped flags m a { m₁ with mem := μ } := by
  cases h with
  | faulted hfault => exact .faulted hfault
  | failed hfail hstatus => exact .failed (hfail.later hlater) hstatus
  | away hruns hret hexit => exact .away hruns hret hexit
  | unmet hunmet hstatus hentries hstats hreport =>
      exact .unmet hunmet hstatus hentries hstats hreport
  | damaged hdamaged hstatus hentries hreports =>
      exact .damaged hdamaged hstatus hentries hreports

theorem Ready.midway (h : Ready flags m) : Midway flags m m.book .ahead m.target [] m where
  status := h.stopped
  idle := h.idle
  target := rfl
  text := rfl
  faults := List.suffix_rfl
  ran := ⟨rfl, rfl, rfl⟩
  books := h.books
  later := .refl _
  book := rfl
  frame := ⟨rfl, rfl, fun _ => rfl⟩

/-- After a handler the tracker is ready for the next one. -/
theorem Midway.ready (h : Midway flags m b ran t [] m₁) (hready : Ready flags m) :
    Ready flags m₁ where
  stopped := h.status
  idle := h.idle
  books := h.books
  names a ha := by rw [h.frame.actions a]; exact hready.names a ha
  types a ha := by
    rw [h.frame.actions a]
    exact hready.types a (h.frame.root ▸ ha)

/-- The names of the actions stay what they were. -/
theorem Midway.name (h : Midway flags m b ran t held m₁) (hready : Ready flags m)
    (ha : a ≠ .usage) : (m₁.actions a).name = a.word := by
  rw [h.frame.actions a]
  exact hready.names a ha

/-! ## Giving up -/

/-- Run after a failure in `m₁`, the rest of the handler gives up. -/
def GivesUp (flags : Control) (m : Mut) (a : Routine) (E : Halt → Prop) (μ : Mem)
    (fail : MutM Bool) : Prop :=
  ∀ m₂ : Mut, m₂.mem = μ → Dropped flags m a m₂ → wp fail (Handled flags m a) E m₂

theorem GivesUp.false (μ : Mem) : GivesUp flags m a E μ (pure false) :=
  fun _ _ hdropped => .inr ⟨rfl, hdropped⟩

theorem GivesUp.sound {refs : List Nat} {μ : Mem} (hsound : Sound μ (bt.toList ++ refs))
    (hbt : flags.Keeps bt) : GivesUp flags m a E μ (freeBacktrace flags bt) := by
  rintro m₂ rfl hdropped
  refine freeBacktrace_spec hbt hsound fun μ hlater _ => ?_
  exact .inr ⟨rfl, hdropped.later hlater⟩

theorem GivesUp.free (h : Midway flags m b ran t bt.toList m₁) (hbt : flags.Keeps bt) :
    GivesUp flags m a E m₁.mem (freeBacktrace flags bt) :=
  .sound h.books.sound hbt

/-! ## The process -/

theorem Midway.calm (h : Midway flags m b ran t held m₁) :
    Calm m₁.process [] t m₁.process.kernel.text m₁.process :=
  h.target ▸ .refl h.status h.idle

/-- An operation on the process moves the target and nothing else. -/
theorem Midway.moved {q : Process} (h : Midway flags m b ran t held m₁)
    (hq : Calm m₁.process [] t' m₁.process.kernel.text q) :
    Midway flags m b ran t' held { m₁ with process := q } where
  status := hq.status
  idle := hq.idle
  target := hq.target
  text := hq.text.trans h.text
  faults := hq.faults.trans h.faults
  ran := h.ran.same hq.waits hq.resumed hq.pc
  books := h.books
  later := h.later
  book := by rw [← h.book, Mut.book, hq.reports]; rfl
  frame := ⟨h.frame.exec, h.frame.root, h.frame.actions⟩

/-- The target is to go on where the function would have returned. -/
theorem Midway.skipTo (h : Midway flags m b .ahead t held m₁) :
    Midway flags m b .skipped t held
      { m₁ with process := { m₁.process with pc := m.target.returnAddr } } where
  status := h.status
  idle := h.idle
  target := h.target
  text := h.text
  faults := h.faults
  ran := ⟨h.ran.1, h.ran.2.1, rfl⟩
  books := h.books
  later := h.later
  book := h.book
  frame := ⟨h.frame.exec, h.frame.root, h.frame.actions⟩

/-- An operation on the process goes well, or the handler gives up. -/
theorem Midway.lift {α : Type} {y : ProcessM α} {f : α → MutM Bool} {v bad : α}
    (h : Midway flags m b ran t held m₁)
    (hy : wp y (fun r q => (r = v ∧ Calm m₁.process [] t' m₁.process.kernel.text q) ∨
      (r = bad ∧ m₁.process.Faulted q)) E m₁.process)
    (hf : ∀ m₂, Midway flags m b ran t' held m₂ → m₂.resources = m₁.resources →
      m₂.mem = m₁.mem → wp (f v) (Handled flags m a) E m₂)
    (hbad : GivesUp flags m a E m₁.mem (f bad)) :
    wp (liftM y >>= f) (Handled flags m a) E m₁ := by
  rw [wp_bind, wp_liftProcess]
  refine wp_mono hy ?_ fun _ he => he
  rintro r q (⟨rfl, hq⟩ | ⟨rfl, hfault⟩)
  · exact hf _ (h.moved hq) rfl rfl
  · exact hbad _ rfl (.faulted (hfault.of_suffix h.faults))

/-- The function runs and comes back, or the handler gives up. -/
theorem Midway.acted (h : Midway flags m b .ahead t held m₁) (hruns : m.runs flags a) :
    wp (mutDoAction m.target.returnAddr a)
      (fun ok m₂ =>
        (ok = true ∧ m₂.resources = m₁.resources ∧ m₂.mem = m₁.mem ∧
          ∃ t', m.returning = some t' ∧ Midway flags m b (.ran t) t' held m₂) ∨
        (ok = false ∧ m₂.mem = m₁.mem ∧ Dropped flags m a m₂)) (Stops flags m a) m₁ := by
  have hwaits : m₁.process.kernel.waits = m.process.kernel.waits := h.ran.1
  have hret : m₁.process.returning m.target.returnAddr = m.returning := by
    rw [Mut.returning, Process.returning, hwaits, Process.returning]
  refine wp_mono (mutDoAction_spec h.calm _ a fun hhangs => ?_) ?_ fun _ he => he
  · exact .blocked hruns (by rw [Process.Hangs, ← hwaits]; exact hhangs)
  rintro ok _ ⟨q, rfl, ⟨rfl, t', ht', hq⟩ | ⟨rfl, hlost⟩⟩
  · refine .inl ⟨rfl, rfl, rfl, t', hret ▸ ht', ?_⟩
    exact
      { status := hq.status
        idle := hq.idle
        target := hq.target
        text := hq.text.trans h.text
        faults := hq.faults.trans h.faults
        ran := by
          obtain ⟨k, hresumed, hk⟩ := hq.resumed
          have hresumes : k.Resumes m.process t
              (guarded m.process.kernel.text m.target.returnAddr) :=
            ⟨h.ran.2.2 ▸ hk.target, h.text ▸ hk.text, hk.waits.trans hwaits⟩
          exact ⟨hwaits ▸ hq.waits, hq.pc, k, hresumed.trans (h.ran.2.1 ▸ rfl), hresumes⟩
        books := h.books
        later := h.later
        book := by rw [← h.book, Mut.book, hq.reports]; rfl
        frame := ⟨h.frame.exec, h.frame.root, h.frame.actions⟩ }
  · refine .inr ⟨rfl, rfl, ?_⟩
    rcases hlost with hfault | ⟨hnone, hexit⟩
    · exact .faulted (hfault.of_suffix h.faults)
    · refine .away hruns (hret ▸ hnone) fun hexited => ?_
      rw [Process.Ends, ← hwaits]
      exact hexit hexited

theorem Midway.act {f : Bool → MutM Bool} (h : Midway flags m b .ahead t held m₁)
    (hruns : m.runs flags a)
    (hf : ∀ t' m₂, m.returning = some t' → Midway flags m b (.ran t) t' held m₂ →
      m₂.resources = m₁.resources → m₂.mem = m₁.mem →
      wp (f true) (Handled flags m a) (Stops flags m a) m₂)
    (hbad : GivesUp flags m a (Stops flags m a) m₁.mem (f false)) :
    wp (mutDoAction m.target.returnAddr a >>= f) (Handled flags m a) (Stops flags m a) m₁ := by
  refine wp_seq (h.acted hruns) (fun _ he => he) ?_
  rintro ok m₂ (⟨rfl, hres, hmem, t', hret, h₂⟩ | ⟨rfl, hmem, hdropped⟩)
  · exact hf t' m₂ hret h₂ hres hmem
  · exact hbad m₂ hmem hdropped

/-! ## The handler's backtrace -/

theorem Midway.kept {p' : Process} {μ : Mem} (h : Midway flags m b ran t held m₁)
    (hcalm : Calm m₁.process [] t m₁.process.kernel.text p') (hlater : m₁.mem.Later μ)
    (hbooks : Books flags m₁.resources μ bt.toList) :
    Midway flags m b ran t bt.toList { m₁ with process := p', mem := μ } :=
  have hmoved := h.moved hcalm
  { hmoved with
    books := hbooks
    later := h.later.trans hlater
    book := hmoved.book
    frame := ⟨h.frame.exec, h.frame.root, h.frame.actions⟩ }

/-- The books do not depend on where the counted references are kept. -/
theorem Books.hold {rs : Resources} {μ μ' : Mem} {held' : List Nat}
    (h : Books flags rs μ held) (hlater : μ.Later μ')
    (hsound : Sound μ' (held' ++ refsOf rs.elems)) : Books flags rs μ' held' where
  shelved := h.shelved.mono hlater.next
  active := h.active
  consumed := h.consumed
  mode := h.mode
  sound := hsound

theorem Midway.produceBacktrace {f : Option (Option Nat) → MutM Bool}
    (h : Midway flags m b ran t [] m₁)
    (hf : ∀ bt m₂, flags.Keeps bt → Midway flags m b ran t bt.toList m₂ →
      m₂.resources = m₁.resources → wp (f (some bt)) (Handled flags m a) E m₂)
    (hbad : ∀ μ, GivesUp flags m a E μ (f none)) :
    wp (mutProduceBacktrace flags >>= f) (Handled flags m a) E m₁ := by
  refine wp_seq (mutProduceBacktrace_spec h.calm h.books.sound) (fun _ he => he) ?_
  rintro _ m₂ (⟨bt, rfl, hbt, hkept, hcalm⟩ | ⟨rfl, hkept, hbroken⟩)
  · have hres : m₂.resources = m₁.resources := by rw [hkept.same]
    refine hf bt m₂ hbt ?_ hres
    rw [hkept.same]
    exact h.kept hcalm hkept.later (h.books.hold hkept.later hkept.sound)
  · refine hbad _ _ rfl ?_
    rcases hbroken with hfault | ⟨hfail, hstatus⟩
    · exact .faulted (hfault.of_suffix h.faults)
    · exact .failed (hfail.of_later h.later) hstatus

theorem Midway.closeBacktrace (h : Midway flags m b ran t bt.toList m₁)
    (hbt : flags.Keeps bt) :
    wp (whenever flags.backtrace (mutBacktraceClose bt))
      (fun _ m₂ => Midway flags m b ran t [] m₂ ∧ m₂.resources = m₁.resources) E m₁ := by
  refine wp_mono (closeBacktrace_spec hbt h.books.sound) ?_ fun _ he => he
  rintro _ _ ⟨μ, rfl, hlater, hsound⟩
  have hbooks : Books flags m₁.resources μ (Option.toList none) := h.books.hold hlater hsound
  exact ⟨h.kept h.calm hlater hbooks, rfl⟩

/-! ## The account -/

section Account

/-- Whole messages add to the reports. -/
theorem Midway.logs {rs : List Report} {m₂ : Mut} (h : Midway flags m b ran t held m₁)
    (hl : Logs m₁ rs m₂) :
    Midway flags m { b with reports := rs ++ b.reports } ran t held m₂ := by
  obtain ⟨l', rfl, hreported⟩ := hl
  exact
    { status := h.status
      idle := hreported.idle
      target := h.target
      text := h.text
      faults := h.faults
      ran := h.ran.same rfl rfl rfl
      books := h.books
      later := h.later
      book := by
        rw [← h.book, Mut.book, withLog_log, hreported.reports]
        rfl
      frame := ⟨h.frame.exec, h.frame.root, h.frame.actions⟩ }

theorem Midway.hit (h : Midway flags m b ran t held m₁) (c : Routine) :
    wp (whenever flags.stats (Mut.hit c))
      (fun _ m₂ => Midway flags m (b.hit flags c 1) ran t held m₂ ∧
        m₂.resources = m₁.resources ∧ m₂.mem = m₁.mem) E m₁ := by
  rw [wp_whenever, Book.hit]
  split
  · refine ⟨?_, rfl, rfl⟩
    exact
      { status := h.status
        idle := h.idle
        target := h.target
        text := h.text
        faults := h.faults
        ran := h.ran
        books := h.books
        later := h.later
        book := by
          rw [← h.book]
          simp only [Mut.book, Book.mk.injEq, true_and, and_true]
          funext c'
          by_cases hc : c' = c
          · subst hc; simp [Mut.hits]
          · simp [Mut.hits, hc]
        frame := h.frame.hit c }
  · exact ⟨h, rfl, rfl⟩

/-- The tracker with its statistics changed when they are collected. -/
def Mut.counted (flags : Control) (f : Stats → Stats) (m : Mut) : Mut :=
  { m with stats := if flags.stats then f m.stats else m.stats }

@[simp] theorem wp_counted {Q : Unit → Mut → Prop} (f : Stats → Stats) :
    wp (whenever flags.stats (Mut.updateStats f)) Q E m₁ ↔ Q () (m₁.counted flags f) := by
  rw [wp_whenever, Mut.counted]
  split <;> exact Iff.rfl

theorem Midway.counted (h : Midway flags m b ran t held m₁) (f : Stats → Stats) :
    Midway flags m (b.counted flags f) ran t held (m₁.counted flags f) :=
  { h with
    book := by rw [← h.book]; rfl
    frame := ⟨h.frame.exec, h.frame.root, h.frame.actions⟩ }

theorem Midway.stats (h : Midway flags m b ran t held m₁) (f : Stats → Stats) :
    wp (whenever flags.stats (Mut.updateStats f))
      (fun _ m₂ => Midway flags m (b.counted flags f) ran t held m₂ ∧
        m₂.resources = m₁.resources ∧ m₂.mem = m₁.mem) E m₁ :=
  (wp_counted f).2 ⟨h.counted f, rfl, rfl⟩

/-- The resources change and the books are kept. -/
theorem Midway.resources {rs : Resources} {μ : Mem} {held' : List Nat}
    (h : Midway flags m b ran t held m₁) (hlater : m₁.mem.Later μ)
    (hbooks : Books flags rs μ held') :
    Midway flags m { b with entries := rs.entries } ran t held'
      { m₁ with resources := rs, mem := μ } :=
  { h with
    books := hbooks
    later := h.later.trans hlater
    book := by rw [← h.book]; rfl
    frame := ⟨h.frame.exec, h.frame.root, h.frame.actions⟩ }

theorem Midway.entries (h : Midway flags m b ran t held m₁) :
    m₁.resources.entries = b.entries := by rw [← h.book]; rfl

/-- An address without an entry is one without a resource. -/
theorem Midway.unlisted {addr : Word} (h : Midway flags m b ran t held m₁)
    (hnone : b.find addr = none) : get Resource.addr addr m₁.resources.elems = none := by
  rw [Book.find, ← h.entries, get_entries] at hnone
  simpa using hnone

/-- An address is looked up in the list as in the account. -/
theorem Midway.lookup (h : Midway flags m b ran t held m₁) (addr : Word) :
    (get Resource.addr addr m₁.resources.elems = none ∧ b.find addr = none) ∨
      ∃ o ∈ m₁.resources.elems, get Resource.addr addr m₁.resources.elems = some o ∧
        o.addr = addr ∧ b.find addr = some o.entry := by
  rw [Book.find, ← h.entries, get_entries]
  cases hget : get Resource.addr addr m₁.resources.elems with
  | none => exact .inl ⟨rfl, rfl⟩
  | some o => exact .inr ⟨o, mem_of_get hget, rfl, key_of_get hget, rfl⟩

/-- The new resource designates itself, in front of the others. -/
theorem Midway.first {r : Resource} (h : Midway flags m b ran t held m₁)
    (hr : r.ptr = m₁.mem.next) :
    At (m₁.resources.cons r).elems r [] m₁.resources.elems :=
  ⟨rfl, fun s hs => hr ▸ Nat.ne_of_lt (h.books.shelved.below s hs)⟩

/-- A resource is made at a fresh address, or the handler gives up. -/
theorem Midway.create {f : Option Nat → MutM Bool} {addr : Word}
    (h : Midway flags m b ran t held m₁) (hfresh : b.find addr = none)
    (hf : ∀ μ, m₁.mem.Grown μ →
      wp (f (some m₁.mem.next)) (Handled flags m a) E
        { m₁ with resources := m₁.resources.cons (.blank m₁.mem.next addr), mem := μ })
    (hbad : ∀ μ, Sound μ (held ++ refsOf m₁.resources.elems) →
      GivesUp flags m a E μ (f none)) :
    wp (mutResourcesCreateResource addr >>= f) (Handled flags m a) E m₁ := by
  refine wp_seq (mutResourcesCreateResource_spec h.books.sound h.calm (h.unlisted hfresh))
    (fun _ he => he) ?_
  rintro _ m₂ (⟨μ, rfl, hgrown, rfl⟩ | ⟨rfl, hkept, hfail, hstatus⟩)
  · exact hf μ hgrown
  · exact hbad _ hkept.sound m₂ rfl (.failed (hfail.of_later h.later) hstatus)

/-- The new resource is its producer's, who gives the backtrace up to it. -/
theorem Midway.made {addr : Word} {μ : Mem} (h : Midway flags m b ran t bt.toList m₁)
    (hbt : flags.Keeps bt) (hgrown : m₁.mem.Grown μ) (hfresh : b.find addr = none)
    (size : Word) (a : Routine) :
    Midway flags m (b.entered a addr size) ran t []
      { m₁ with
        resources := m₁.resources.cons (.made m₁.mem.next addr size a bt), mem := μ } := by
  have hbooks : Books flags m₁.resources m₁.mem (bt.toList ++ []) := by
    rw [List.append_nil]
    exact h.books
  have hmade := h.resources hgrown.later
    (hbooks.made hgrown (h.unlisted hfresh) hbt size a)
  rw [Book.entered, ← h.entries]
  exact hmade

end Account

/-! ## The end of a handler -/

theorem Midway.served {b' : Book} (h : Midway flags m b' ran t [] m₁)
    (hbook : b' = m.book.step flags (m.event a))
    (hran : ran = if m.runs flags a then .ran (m.handed flags a) else .skipped)
    (hret : m.runs flags a → ∃ t', m.returning = some t' ∧ t = m.left flags a t')
    (hskip : m.runs flags a = false → t = (m.handed flags a).skipped)
    (hmet : ¬ Unmet flags m a) (hwhole : ¬ Damaged flags m a) (hfree : ¬ Stuck flags m a) :
    Handled flags m a true m₁ :=
  .inl ⟨rfl, t, hran ▸ hbook ▸ h, hret, hskip, hmet, hwhole, hfree⟩

/-- What a function that came back returns. -/
theorem result_of_returning (hret : m.returning = some t) : m.result = t.eax := by
  unfold Mut.returning Process.returning at hret
  unfold Mut.result
  cases hending : ending m.process.kernel.waits with
  | stopped t' =>
      rw [hending] at hret
      simp only [Option.ite_none_right_eq_some, Option.some.injEq] at hret
      rw [hret.2]
  | never | failed | ended =>
      rw [hending] at hret
      cases hret

end MutTracker.Source
