import MutTracker.Source.Run
import MutTracker.Verified.Actions

/-!
# What a handled call does to the books

`Mut.book` is the tracker's account of the traced program: the entries of the
resource list, the statistics, the hits and the reports.  `Book.step` is what
a call that was handled with success does to it, whatever the flags.  The
call and its result are read off the tracker before the handler runs:
the arguments are on the target's stack, and the result is the one the
function will have come back with.

The predicates on the state before a call say everything else the handlers
depend on: whether they let the function run and on what, and what can stop
them.

## Main definitions

* `Mut.book`, `Book.step`, `Mut.event` — the account and what a call does to it.
* `Ready` — the invariant between handlers.
* `Fresh`, `Aligned` — what the allocator promises.
* `Unmet`, `Damaged`, `Stops` — why a handler does not go on.
-/

namespace MutTracker.Source

open MutTracker.Logic MutTracker.Logic.Prog MutTracker.Logic.Keyed

/-! ## Calls -/

/-- An intercepted call with its arguments. -/
inductive Call where
  | malloc (size : Word)
  | calloc (nElems elemSize : Word)
  | realloc (objAddr newSize : Word)
  | free (objAddr : Word)
  | cfree (objAddr : Word)
  | usage
  deriving DecidableEq, Repr

/-- A call and what the function returned, when it was let run. -/
structure Event where
  call : Call
  result : Word
  deriving DecidableEq, Repr

/-- The word in the messages for a routine. -/
def Routine.word : Routine → String
  | .malloc => "malloc"
  | .calloc => "calloc"
  | .realloc => "realloc"
  | .free => "free"
  | .cfree => "cfree"
  | .usage => ""

/-- The target as it stands at the breakpoint. -/
abbrev Mut.target (m : Mut) : Target := m.process.kernel.target

/-- The call of a routine from here. -/
def Mut.call (m : Mut) : Routine → Call
  | .malloc => .malloc (m.target.arg 0)
  | .calloc => .calloc (m.target.arg 0) (m.target.arg 1)
  | .realloc => .realloc (m.target.arg 0) (m.target.arg 1)
  | .free => .free (m.target.arg 0)
  | .cfree => .cfree (m.target.arg 0)
  | .usage => .usage

/-- How the intercepted function comes back. -/
def Mut.returning (m : Mut) : Option Target := m.process.returning m.target.returnAddr

/-- What the intercepted function returns. -/
def Mut.result (m : Mut) : Word :=
  match ending m.process.kernel.waits with
  | .stopped t => t.eax
  | .never | .failed | .ended => 0

def Mut.event (m : Mut) (a : Routine) : Event := ⟨m.call a, m.result⟩

/-! ## The account -/

structure Book where
  entries : List Entry
  stats : Stats
  hits : Routine → Nat
  reports : List Report

def Mut.hits (m : Mut) (a : Routine) : Nat := (m.actions a).hits

def Mut.book (m : Mut) : Book where
  entries := m.resources.entries
  stats := m.stats
  hits := m.hits
  reports := m.process.log.reports

namespace Book

variable (flags : Control) (b : Book)

/-- The statistics changed when they are collected. -/
def counted (f : Stats → Stats) : Book :=
  { b with stats := if flags.stats then f b.stats else b.stats }

@[simp] theorem counted_entries (f : Stats → Stats) : (b.counted flags f).entries = b.entries :=
  rfl

@[simp] theorem counted_reports (f : Stats → Stats) : (b.counted flags f).reports = b.reports :=
  rfl

def hit (a : Routine) (n : Nat) : Book :=
  if flags.stats then { b with hits := Function.update b.hits a (b.hits a + n) } else b

@[simp] theorem hit_entries (a : Routine) (n : Nat) :
    (b.hit flags a n).entries = b.entries := by
  unfold hit
  split <;> rfl

@[simp] theorem hit_stats (a : Routine) (n : Nat) : (b.hit flags a n).stats = b.stats := by
  unfold hit
  split <;> rfl

@[simp] theorem hit_reports (a : Routine) (n : Nat) :
    (b.hit flags a n).reports = b.reports := by
  unfold hit
  split <;> rfl

def report (name : String) (args : List Arg) : Book :=
  { b with reports := { name, args } :: b.reports }

/-- The block at `addr` is entered, live. -/
def entered (a : Routine) (addr size : Word) : Book :=
  { b with entries := ⟨addr, size, some a, none⟩ :: b.entries }

/-- The block at `addr` is entered and counted. -/
def made (a : Routine) (addr size : Word) : Book :=
  (b.entered a addr size).counted flags fun s => s.produced size

/-- The block of `e` leaves, or is marked. -/
def left (c : Routine) (e : Entry) : Book :=
  { b with entries := consumeEntry flags c e.addr b.entries }

/-- The block of `e` leaves, or is marked, and is counted out. -/
def consumed (c : Routine) (e : Entry) : Book :=
  (b.left flags c e).counted flags fun s => s.consumed e.size

/-- The block of `e` has become one of `size` at `addr`. -/
def moved (e : Entry) (addr size : Word) : Book :=
  ({ b with
      entries :=
        adjust Entry.addr e.addr (fun _ => ⟨addr, size, some .realloc, none⟩) b.entries }.counted
    flags fun s => s.consumed e.size).counted flags fun s => s.produced size

def find (addr : Word) : Option Entry := get Entry.addr addr b.entries

theorem hit_hit (a : Routine) : (b.hit flags a 1).hit flags a 1 = b.hit flags a 2 := by
  unfold hit
  split
  · simp only [Function.update_self, Function.update_idem, Nat.add_assoc]
  · rfl

theorem hit_report (a : Routine) (n : Nat) (name : String) (args : List Arg) :
    (b.report name args).hit flags a n = (b.hit flags a n).report name args := by
  unfold hit
  split <;> rfl

theorem hit_consumed (a c : Routine) (n : Nat) (e : Entry) :
    (b.consumed flags c e).hit flags a n = (b.hit flags a n).consumed flags c e := by
  unfold hit
  split <;> rfl

theorem hit_entered (a c : Routine) (n : Nat) (addr size : Word) :
    (b.entered c addr size).hit flags a n = (b.hit flags a n).entered c addr size := by
  unfold hit
  split <;> rfl

@[simp] theorem find_hit (a : Routine) (n : Nat) (addr : Word) :
    (b.hit flags a n).find addr = b.find addr := by
  rw [find, find, hit_entries]

/-- A `malloc` or `calloc` of `size`. -/
def produce (a : Routine) (warning : String) (arg size result : Word) : Book :=
  if result = 0 then (b.hit flags a 1).report warning [.string a.word, .uint arg]
  else (b.hit flags a 1).made flags a (objectAt flags result) size

/-- A `free` or `cfree` of the object at `addr`. -/
def consume (c : Routine) (addr : Word) : Book :=
  let b := b.hit flags c 1
  if addr = 0 then b
  else
    match b.find addr with
    | none => b.report "FUM" [.string c.word, .execAddr addr]
    | some e =>
        if e.consumer.isSome then b.report "FFM" [.string c.word, .execAddr addr]
        else b.consumed flags c e

/-- A `realloc` that returned `result`.  When memory is not freed, one of an
address that was never allocated is counted twice. -/
def reallocate (addr size result : Word) : Book :=
  if addr = 0 then (b.hit flags .realloc 1).made flags .realloc (objectAt flags result) size
  else
    match b.find addr with
    | none =>
        let fum (b : Book) := b.report "FUM" [.string "realloc", .execAddr addr]
        if flags.free then fum (b.hit flags .realloc 1)
        else (fum (b.hit flags .realloc 2)).made flags .realloc (objectAt flags result) size
    | some e =>
        if flags.free then (b.hit flags .realloc 1).moved flags e result size
        else ((b.hit flags .realloc 1).consumed flags .realloc e).made flags .realloc result size

theorem reallocate_unknown {addr : Word} (hnonzero : addr ≠ 0) (hnone : b.find addr = none)
    (size result : Word) :
    b.reallocate flags addr size result =
      if flags.free then
        (b.hit flags .realloc 1).report "FUM" [.string "realloc", .execAddr addr]
      else
        ((b.hit flags .realloc 2).report "FUM" [.string "realloc", .execAddr addr]).made flags
          .realloc (objectAt flags result) size := by
  rw [reallocate, if_neg hnonzero, hnone]

theorem reallocate_known {addr : Word} {e : Entry} (hnonzero : addr ≠ 0)
    (hsome : b.find addr = some e) (size result : Word) :
    b.reallocate flags addr size result =
      if flags.free then (b.hit flags .realloc 1).moved flags e result size
      else ((b.hit flags .realloc 1).consumed flags .realloc e).made flags .realloc result
        size := by
  rw [reallocate, if_neg hnonzero, hsome]

/-- What a call does that is handled with success. -/
def step : Event → Book
  | ⟨.malloc size, result⟩ => b.produce flags .malloc "MR0" size size result
  | ⟨.calloc nElems elemSize, result⟩ =>
      b.produce flags .calloc "CR0" nElems (nElems * elemSize) result
  | ⟨.realloc addr size, result⟩ => b.reallocate flags addr size result
  | ⟨.free addr, _⟩ => b.consume flags .free addr
  | ⟨.cfree addr, _⟩ => b.consume flags .cfree addr
  | ⟨.usage, _⟩ => b

end Book

/-! ## Before a call -/

/-- The entry the tracker has at an address. -/
abbrev Mut.find (m : Mut) (addr : Word) : Option Entry := m.book.find addr

/-- The tracker between two handlers: the process is stopped, nothing is being
logged, and the books are kept. -/
structure Ready (flags : Control) (m : Mut) : Prop where
  stopped : m.process.status = .stopped
  idle : m.process.log.Idle
  books : Books flags m.resources m.mem []
  names : ∀ a, a ≠ .usage → (m.actions a).name = a.word
  types : ∀ a ∈ m.root, (m.actions a).type = a.type

def Routine.produces : Routine → Bool
  | .malloc | .calloc | .realloc => true
  | .free | .cfree | .usage => false

/-- Whether the function takes the address of an object. -/
def Routine.takes : Routine → Bool
  | .realloc | .free | .cfree => true
  | .malloc | .calloc | .usage => false

/-- Whether the handler lets the function run. -/
def Mut.runs (flags : Control) (m : Mut) : Routine → Bool
  | .free | .cfree => flags.free || m.target.arg 0 == 0
  | .malloc | .calloc | .realloc | .usage => true

/-- The target with the object of `e` zeroed when the tracker is asked to. -/
def Target.wiped (flags : Control) (t : Target) (e : Entry) : Target :=
  if flags.zero then t.memset e.addr 0 e.size else t

/-- What the function is let run on, but for the program counter.  A function
that is skipped leaves that and its arguments. -/
def Mut.handed (flags : Control) (m : Mut) : Routine → Target
  | .malloc =>
      if flags.check then m.target.setArg 0 (mutRoundUp (m.target.arg 0)) else m.target
  | .calloc =>
      if flags.check then
        (m.target.setArg 0 (mutCallocZones (m.target.arg 0) (m.target.arg 1))).setArg 1
          mutZoneSize
      else m.target
  | .realloc =>
      let t :=
        if flags.free = false ∧ m.target.arg 0 ≠ 0 then m.target.setArg 0 0 else m.target
      if flags.check = true ∧
          (flags.free = false ∨ m.target.arg 0 = 0 ∨ (m.find (m.target.arg 0)).isSome) then
        t.setArg 1 (mutRoundUp (m.target.arg 1))
      else t
  | .free | .cfree =>
      match m.find (m.target.arg 0) with
      | some e =>
          if m.target.arg 0 ≠ 0 ∧ e.consumer = none then m.target.wiped flags e
          else m.target
      | none => m.target
  | .usage => m.target

/-- The target when its function has returned a block of `size`, or has failed. -/
def Target.made (flags : Control) (t : Target) (size : Word) : Target :=
  if t.eax = 0 then t else t.produced flags t.eax size

/-- What the handler leaves of the target `t` that its function came back as:
zones are marked, an object is copied, and one that is gone is zeroed. -/
def Mut.left (flags : Control) (m : Mut) (a : Routine) (t : Target) : Target :=
  match a with
  | .malloc => t.made flags (mutRoundUp (m.target.arg 0))
  | .calloc =>
      t.made flags (mutCallocZones (m.target.arg 0) (m.target.arg 1) * mutZoneSize)
  | .realloc =>
      if m.target.arg 0 = 0 then t.made flags (mutRoundUp (m.target.arg 1))
      else
        match m.find (m.target.arg 0) with
        | none => if flags.free then t else t.made flags (mutRoundUp (m.target.arg 1))
        | some e =>
            if flags.free then
              if e.addr = t.eax then t else t.wiped flags e
            else
              (t.memcpy t.eax e.addr
                (if e.size < m.target.arg 1 then e.size else m.target.arg 1)).wiped flags e
  | .free | .cfree | .usage => t

/-- Where a producer records the block its function returned.  A `realloc` of
an object in the list does not mark zones. -/
def Mut.recorded (flags : Control) (m : Mut) (a : Routine) : Word :=
  if a = .realloc ∧ m.target.arg 0 ≠ 0 ∧ (m.find (m.target.arg 0)).isSome then m.result
  else objectAt flags m.result

/-- A producer's function returns 0 or what is no object in the list, but that
`realloc` may return the object it is called with. -/
def Fresh (flags : Control) (m : Mut) (a : Routine) : Prop :=
  a.produces → m.result ≠ 0 →
    m.find (m.recorded flags a) = none ∨
      (a = .realloc ∧ (m.find (m.target.arg 0)).isSome ∧ m.result = m.target.arg 0)

/-- The object a function takes is aligned when it is in the list, and so is
what a producer's function returns. -/
structure Aligned (m : Mut) (a : Routine) : Prop where
  object : a.takes → ∀ e, m.find (m.target.arg 0) = some e → mutExecAddrAligned e.addr = true
  result : a.produces → mutExecAddrAligned m.result = true

/-- A `realloc` returned 0 to a handler that looks at its result. -/
structure Unmet (flags : Control) (m : Mut) (a : Routine) : Prop where
  routine : a = .realloc
  returned : m.returning.isSome
  zero : m.result = 0
  looked : flags.free = true → m.target.arg 0 ≠ 0 → (m.find (m.target.arg 0)).isSome

/-- The marks before and after the object of `size` at `addr` are whole. -/
structure Target.Intact (t : Target) (addr size : Word) : Prop where
  pre : t.data.readWord (preZoneAddr addr) = mutZoneValue
  post : t.data.readWord (postZoneAddr addr size) = mutZoneValue

/-- A live object with a damaged mark is given to `free` or `cfree` while zones
are checked. -/
structure Damaged (flags : Control) (m : Mut) (a : Routine) : Prop where
  checking : flags.check = true
  consumer : a = .free ∨ a = .cfree
  object : m.target.arg 0 ≠ 0 ∧ ∃ e, m.find (m.target.arg 0) = some e ∧
    e.consumer = none ∧ ¬ m.target.Intact e.addr e.size

/-- A consumed object is given to a `realloc` that is not really free, and the
target gets another one for it. -/
structure Revived (flags : Control) (m : Mut) (a : Routine) : Prop where
  routine : a = .realloc
  keeping : flags.free = false
  object : m.target.arg 0 ≠ 0 ∧ ∃ e, m.find (m.target.arg 0) = some e ∧ e.consumer.isSome
  returned : m.returning.isSome
  result : m.result ≠ 0

/-- An object is given to a `realloc` that is not really free, and the target
gets its own address for it. -/
structure Unmoved (flags : Control) (m : Mut) (a : Routine) : Prop where
  routine : a = .realloc
  keeping : flags.free = false
  object : m.target.arg 0 ≠ 0 ∧ (m.find (m.target.arg 0)).isSome
  result : m.result = m.target.arg 0

/-- The handler of `a` fails an assertion about the list. -/
def Stuck (flags : Control) (m : Mut) (a : Routine) : Prop :=
  Revived flags m a ∨ Unmoved flags m a

theorem not_stuck {flags : Control} {m : Mut} {a : Routine}
    (h : a = .realloc → flags.free = false → m.target.arg 0 ≠ 0 →
      ∀ e, m.find (m.target.arg 0) = some e →
        e.consumer = none ∧ m.result ≠ m.target.arg 0) : ¬ Stuck flags m a := by
  rintro (⟨ha, hkeep, ⟨hnonzero, e, he, hconsumed⟩, -⟩ | ⟨ha, hkeep, ⟨hnonzero, hsome⟩, hsame⟩)
  · rw [(h ha hkeep hnonzero e he).1] at hconsumed
    cases hconsumed
  · obtain ⟨e, he⟩ := Option.isSome_iff_exists.1 hsome
    exact (h ha hkeep hnonzero e he).2 hsame

/-- Why the tracker can halt in the handler of `a`. -/
inductive Stops (flags : Control) (m : Mut) (a : Routine) : Halt → Prop
  | blocked : m.runs flags a → m.process.Hangs → Stops flags m a .blocked
  | revived : Revived flags m a → Stops flags m a (.assertion .noConsumer)
  | unmoved : Unmoved flags m a → Stops flags m a (.assertion .moved)
  | unaligned : ¬ Aligned m a → Stops flags m a (.assertion .aligned)

end MutTracker.Source
