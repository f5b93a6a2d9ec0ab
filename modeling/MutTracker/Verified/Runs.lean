import MutTracker.Logic.Runs
import MutTracker.Verified.Acts
import MutTracker.Verified.Handlers

/-!
# Runs of handled calls

Between two handlers the tracker removes and installs breakpoints, lets the
target run and waits for it.  `Between` says all that a handler can see of
this: the target stops again, in whatever state, and the tracker's own records
stay as they are.  A run is a sequence of calls, each handled with success.

## Main results

* `Step.book`, `run_book` — a run takes the account one `Book.step` per call on.
* `run_ready` — the invariant of runs.
* `serves_run` — a run whose calls are written down.
-/

namespace MutTracker.Source

open MutTracker.Logic MutTracker.Logic.Prog

/-- The tracker `mh` when the target next stops at an intercepted call. -/
structure Between (m mh : Mut) : Prop where
  stopped : mh.Stopped
  log : m.process.log.Idle → mh.process.log.Idle ∧ mh.process.log.reports = m.process.log.reports
  exec : mh.exec = m.exec
  root : mh.root = m.root
  resources : mh.resources = m.resources
  stats : mh.stats = m.stats
  mem : mh.mem = m.mem
  actions : ∀ a, mh.actions a = { m.actions a with instr := (mh.actions a).instr }

/-- A handled call: the routine, and the tracker at the breakpoint on it. -/
structure Visit where
  routine : Routine
  tracker : Mut

def Visit.event (v : Visit) : Event := v.tracker.event v.routine

/-- The next call is handled, and the handler returns non-zero. -/
structure Step (flags : Control) (m : Mut) (v : Visit) (m' : Mut) : Prop where
  between : Between m v.tracker
  listed : v.routine ∈ v.tracker.root
  handled : mutHandle flags v.routine v.tracker = .done true m'

/-- The tracker just after `mut_open`. -/
structure Opened (flags : Control) (m : Mut) : Prop where
  ready : Ready flags m
  elems : m.resources.elems = []
  stats : m.stats = .zero
  hits : ∀ a, m.hits a = 0

variable {flags : Control} {m m' mh m₀ : Mut} {v : Visit} {vs : List Visit}

/-! ## One call -/

namespace Between

theorem refl (hp : m.Stopped) : Between m m :=
  ⟨hp, fun h => ⟨h, rfl⟩, rfl, rfl, rfl, rfl, rfl, fun _ => rfl⟩

theorem trans {m'' : Mut} (h : Between m m') (h' : Between m' m'') : Between m m'' where
  stopped := h'.stopped
  log hidle :=
    have h₁ := h.log hidle
    have h₂ := h'.log h₁.1
    ⟨h₂.1, h₂.2.trans h₁.2⟩
  exec := h'.exec.trans h.exec
  root := h'.root.trans h.root
  resources := h'.resources.trans h.resources
  stats := h'.stats.trans h.stats
  mem := h'.mem.trans h.mem
  actions a := by rw [h'.actions a, h.actions a]

theorem hits (h : Between m mh) : mh.hits = m.hits := by
  funext a
  rw [Mut.hits, h.actions a]
  rfl

theorem type (h : Between m mh) (a : Routine) : (mh.actions a).type = (m.actions a).type := by
  rw [h.actions a]

theorem book (h : Between m mh) (hidle : m.process.log.Idle) : mh.book = m.book := by
  rw [Mut.book, h.resources, h.stats, h.hits, (h.log hidle).2]
  rfl

theorem ready (h : Between m mh) (hready : Ready flags m) : Ready flags mh where
  stopped := h.stopped
  idle := (h.log hready.idle).1
  books := by rw [h.resources, h.mem]; exact hready.books
  names a ha := by rw [h.actions a]; exact hready.names a ha
  types a ha := (h.type a).trans (hready.types a (h.root ▸ ha))

end Between

namespace Step

theorem entry (hs : Step flags m v m') (hready : Ready flags m) : Ready flags v.tracker :=
  hs.between.ready hready

theorem served (hs : Step flags m v m') (hready : Ready flags m)
    (hfresh : Fresh flags v.tracker v.routine) : ∃ t, Served flags v.tracker v.routine t m' :=
  mutHandle_served (hs.entry hready) hs.listed hfresh hs.handled

theorem ready (hs : Step flags m v m') (hready : Ready flags m)
    (hfresh : Fresh flags v.tracker v.routine) : Ready flags m' := by
  obtain ⟨t, hserved⟩ := hs.served hready hfresh
  exact hserved.midway.ready (hs.entry hready)

/-- A handled call takes the account one step on. -/
theorem book (hs : Step flags m v m') (hready : Ready flags m)
    (hfresh : Fresh flags v.tracker v.routine) : m'.book = m.book.step flags v.event := by
  obtain ⟨t, hserved⟩ := hs.served hready hfresh
  rw [hserved.midway.book, hs.between.book hready.idle, Visit.event]

/-- What the handler of the call does, whatever the allocator returned. -/
theorem acts (hs : Step flags m v m') (htypes : ∀ a ∈ m.root, (m.actions a).type = a.type) :
    Acts flags v.tracker v.routine true m' :=
  wp_done (mutHandle_acts hs.between.stopped
    ((hs.between.type v.routine).trans (htypes v.routine (hs.between.root ▸ hs.listed))))
    hs.handled

end Step

/-! ## Runs -/

/-- Every call of the run gets from the allocator what it promises. -/
abbrev AllFresh (flags : Control) (vs : List Visit) : Prop :=
  ∀ v ∈ vs, Fresh flags v.tracker v.routine

/-- A run keeps the tracker ready, and what else every step keeps. -/
theorem run_invariant {I : Mut → Prop} (hrun : Run (Step flags) m₀ vs m)
    (hready : Ready flags m₀) (hfresh : AllFresh flags vs) (h : I m₀)
    (hstep : ∀ m v m', Ready flags m → Step flags m v m' → Fresh flags v.tracker v.routine →
      v ∈ vs → I m → I m') : Ready flags m ∧ I m := by
  have hrun := hrun.restrict (P := fun v => Fresh flags v.tracker v.routine ∧ v ∈ vs)
    fun v hv => ⟨hfresh v hv, hv⟩
  refine hrun.invariant (I := fun m => Ready flags m ∧ I m) ⟨hready, h⟩ ?_
  rintro m v m' ⟨hready, h⟩ ⟨hs, hfresh, hv⟩
  exact ⟨hs.ready hready hfresh, hstep m v m' hready hs hfresh hv h⟩

theorem run_ready (hrun : Run (Step flags) m₀ vs m) (hready : Ready flags m₀)
    (hfresh : AllFresh flags vs) : Ready flags m :=
  (run_invariant (I := fun _ => True) hrun hready hfresh trivial
    fun _ _ _ _ _ _ _ _ => trivial).1

/-- The account after a run is the fold of its events. -/
theorem run_book (hrun : Run (Step flags) m₀ vs m) (hready : Ready flags m₀)
    (hfresh : AllFresh flags vs) :
    m.book = (vs.map Visit.event).foldl (Book.step flags) m₀.book := by
  rw [List.foldl_map]
  refine Run.simulates Mut.book (fun b v => b.step flags v.event) (I := Ready flags)
    (hrun.restrict hfresh) hready ?_ ?_
  · exact fun m v m' hready hs => hs.1.ready hready hs.2
  · exact fun m v m' hready hs => hs.1.book hready hs.2

/-- A relation between the tracker and an abstract state that every handled
call keeps holds after a run. -/
theorem run_related {α : Type} {R : Mut → α → Prop} {astep : α → Visit → α} {x : α}
    (hrun : Run (Step flags) m₀ vs m) (hready : Ready flags m₀) (hfresh : AllFresh flags vs)
    (h : R m₀ x)
    (hstep : ∀ m v m' y, Ready flags m → Step flags m v m' → Fresh flags v.tracker v.routine →
      R m y → R m' (astep y v)) : Ready flags m ∧ R m (vs.foldl astep x) := by
  refine (hrun.restrict hfresh).related (R := fun m y => Ready flags m ∧ R m y) ⟨hready, h⟩ ?_
  rintro m v m' y ⟨hready, h⟩ ⟨hs, hfresh⟩
  exact ⟨hs.ready hready hfresh, hstep m v m' y hready hs hfresh h⟩

/-! ## Whatever the allocator returns -/

/-- The actions keep their types. -/
abbrev Typed (m : Mut) : Prop := ∀ a ∈ m.root, (m.actions a).type = a.type

theorem Step.typed (hs : Step flags m v m') (h : Typed m) : Typed m' := fun a ha => by
  have hframe := (hs.acts h).frame
  rw [hframe.root, hs.between.root] at ha
  rw [hframe.actions a]
  exact (hs.between.type a).trans (h a ha)

/-! ## A small target -/

/-- A target at the entry of a function that returns to 0x100. -/
def Target.calling (arg₀ arg₁ : Word) : Target where
  eip := 0x10
  eax := 0
  ebp := 0
  esp := 0x1000
  data :=
    ((Memory.writeWord (fun _ => 0) 0x1000 0x100).writeWord 0x1004 arg₀).writeWord 0x1008 arg₁

/-- The report of `waitpid` when the function has returned `result`. -/
def Target.answers (t : Target) (result : Word) : Stop :=
  .stopped sigtrap { t with eip := 0x101, eax := result, esp := t.esp + 4 }

/-- A tracker just opened, whose target is at an intercepted call. -/
def Mut.small (flags : Control) (t : Target) (waits : List Stop) : Mut where
  process :=
    { log := mutLogOpen
      child := 1
      status := .stopped
      pc := 0x10
      kernel := { target := t, text := fun _ => 0, faults := [], waits }
      resumed := [] }
  exec := { symtab := [], hasFullSymbols := false }
  actions a := { addr := 0x10, instr := 0, type := a.type, name := a.word, hits := 0 }
  root := [.malloc, .calloc, .realloc, .free, .cfree]
  resources := mutResourcesOpen flags.free
  stats := .zero
  mem := { full := [], next := 0, backtraces := fun _ => none }

/-- The target has come to another call. -/
def Mut.reaches (m : Mut) (t : Target) (waits : List Stop) : Mut :=
  { m with process := { m.process with kernel := { m.process.kernel with target := t, waits } } }

theorem small_opened (flags : Control) (t : Target) (waits : List Stop) :
    Opened flags (.small flags t waits) where
  ready :=
    { stopped := rfl
      idle := Log.idle_mutLogOpen
      books :=
        { shelved := ⟨List.nodup_nil, List.nodup_nil, nofun, nofun⟩
          active := rfl
          consumed := rfl
          mode := rfl
          sound := ⟨⟨nofun, nofun⟩, fun _ _ => rfl⟩ }
      names := fun _ _ => rfl
      types := fun _ _ => rfl }
  elems := rfl
  stats := rfl
  hits _ := rfl

theorem reaches_between {m : Mut} (hp : m.Stopped) (t : Target) (waits : List Stop) :
    Between m (m.reaches t waits) :=
  ⟨hp, fun hidle => ⟨hidle, rfl⟩, rfl, rfl, rfl, rfl, rfl, fun _ => rfl⟩

/-- The first call of a small target is handled. -/
theorem small_served (flags : Control) (t : Target) (waits : List Stop) {a : Routine}
    (ha : a ≠ .usage) (hret : (Mut.small flags t waits).returning.isSome)
    (hne : (Mut.small flags t waits).result ≠ 0)
    (hal : mutExecAddrAligned (Mut.small flags t waits).result = true) :
    ∃ t' m, Step flags (.small flags t waits) ⟨a, .small flags t waits⟩ m ∧
      AllFresh flags [⟨a, .small flags t waits⟩] ∧ Served flags (.small flags t waits) a t' m := by
  have hnone : ∀ addr, (Mut.small flags t waits).find addr = none := fun _ => rfl
  have hfresh : Fresh flags (.small flags t waits) a := fun _ _ => .inl (hnone _)
  have hroot : a ∈ (Mut.small flags t waits).root := by
    cases a with
    | usage => exact absurd rfl ha
    | malloc | calloc | realloc | free | cfree => simp [Mut.small]
  obtain ⟨t', m, hdone, hserved⟩ := mutHandle_returns (small_opened flags t waits).ready hroot
    hfresh ⟨nofun, nofun, fun _ => hret⟩ (fun hunmet => hne hunmet.zero)
    (fun hdamaged => by obtain ⟨e, he, -⟩ := hdamaged.object.2; cases he)
    (not_stuck fun _ _ _ e he => by cases he) ⟨fun _ _ he => (by cases he), fun _ => hal⟩
  refine ⟨t', m, ⟨.refl rfl, hroot, hdone⟩, fun v hv => ?_, hserved⟩
  rw [List.mem_singleton.1 hv]
  exact hfresh

theorem small_run (flags : Control) (t : Target) (waits : List Stop) {a : Routine}
    (ha : a ≠ .usage) (hret : (Mut.small flags t waits).returning.isSome)
    (hne : (Mut.small flags t waits).result ≠ 0)
    (hal : mutExecAddrAligned (Mut.small flags t waits).result = true) :
    ∃ m, Run (Step flags) (.small flags t waits) [⟨a, .small flags t waits⟩] m ∧
      AllFresh flags [⟨a, .small flags t waits⟩] ∧
      m.book = (Mut.small flags t waits).book.step flags ((Mut.small flags t waits).event a) := by
  obtain ⟨t', m, hs, hfresh, hserved⟩ := small_served flags t waits ha hret hne hal
  exact ⟨m, .next .start hs, hfresh, hserved.midway.book⟩

/-- After its first call a small target comes to another one, and nothing else gives
trouble. -/
theorem small_again {flags : Control} {t t' : Target} {waits : List Stop} {a c : Routine} {m : Mut}
    (hserved : Served flags (.small flags t waits) a t' m) (t₁ : Target) (waits₁ : List Stop)
    (hreturns : (m.reaches t₁ waits₁).runs flags c = true →
      (m.reaches t₁ waits₁).returning.isSome) :
    Smooth flags (m.reaches t₁ waits₁) c ∧
      (m.reaches t₁ waits₁).root = (Mut.small flags t waits).root := by
  have hfaults : m.process.kernel.faults = [] := List.suffix_nil.1 hserved.midway.faults
  have hfull : m.mem.full = [] := List.suffix_nil.1 hserved.midway.later.full
  refine ⟨⟨fun f hf => ?_, fun f hf => ?_, hreturns⟩, hserved.midway.frame.root⟩
  · have hf : f ∈ m.process.kernel.faults := hf
    rw [hfaults] at hf
    cases hf
  · have hf : f ∈ m.mem.full := hf
    rw [hfull] at hf
    cases hf

/-- The flags of a tracker that is asked for nothing. -/
def Control.plain : Control :=
  { trace := false, backtrace := false, free := false, stats := false, zero := false,
    usage := false, check := false }

/-! ## Runs that are looked at -/

/-- A block that the call of `a` obtains is not in the list. -/
def Mut.obtainsNew (flags : Control) (a : Routine) (mh : Mut) : Bool :=
  !a.produces || (mh.find (mh.recorded flags a)).isNone

theorem fresh_of_obtainsNew {a : Routine} (h : m.obtainsNew flags a = true) :
    Fresh flags m a := by
  intro hproduces _
  simp only [Mut.obtainsNew, hproduces, Bool.not_true, Bool.false_or] at h
  exact .inl (Option.isNone_iff_eq_none.1 h)

/-- A call that a target comes to, and what `waitpid` reports from then on. -/
structure Coming where
  routine : Routine
  target : Target
  waits : List Stop

namespace Coming

/-- A call with two arguments that returns `result` when it is run. -/
def of (a : Routine) (arg₀ arg₁ result : Word) : Coming :=
  ⟨a, .calling arg₀ arg₁, [(Target.calling arg₀ arg₁).answers result]⟩

def malloc (size result : Word) : Coming := of .malloc size 0 result

def calloc (nElems elemSize result : Word) : Coming := of .calloc nElems elemSize result

def realloc (addr size result : Word) : Coming := of .realloc addr size result

def free (addr : Word) : Coming := of .free addr 0 0

/-- The tracker `m` at the call. -/
def reached (c : Coming) (m : Mut) : Mut := m.reaches c.target c.waits

/-- The call with its result, which are the same in every tracker. -/
def event (c : Coming) : Event := (c.reached (.small .plain c.target [])).event c.routine

theorem reached_event (c : Coming) (m : Mut) : (c.reached m).event c.routine = c.event := by
  obtain ⟨a, t, waits⟩ := c
  cases a <;> rfl

end Coming

/-- From `m` on the calls `cs` are handled one after the other, `each` is true of the tracker
at each of them, and `last` of the tracker after them. -/
def Mut.serves (flags : Control) (each : Routine → Mut → Bool) (last : Mut → Bool) :
    List Coming → Mut → Bool
  | [], m => last m
  | c :: cs, m =>
      decide (m.process.status = .stopped ∧ c.routine ∈ (c.reached m).root) &&
        (each c.routine (c.reached m) &&
          decide ((mutHandle flags c.routine (c.reached m)).seen (Mut.serves flags each last cs) =
            some (true, true)))

/-- The calls that are looked at are a run. -/
theorem serves_run {each : Routine → Mut → Bool} {last : Mut → Bool} {cs : List Coming}
    (h : m₀.serves flags each last cs = true) :
    ∃ vs m, Run (Step flags) m₀ vs m ∧ (∀ v ∈ vs, each v.routine v.tracker = true) ∧
      vs.map Visit.event = cs.map Coming.event ∧
      vs.map Visit.routine = cs.map Coming.routine ∧ last m = true := by
  induction cs generalizing m₀ with
  | nil => exact ⟨[], m₀, .start, List.forall_mem_nil _, rfl, rfl, h⟩
  | cons c cs ih =>
      obtain ⟨hat, hrest⟩ := Bool.and_eq_true_iff.1 h
      obtain ⟨heach, hhandled⟩ := Bool.and_eq_true_iff.1 hrest
      obtain ⟨hstopped, hlisted⟩ := of_decide_eq_true hat
      obtain ⟨m₁, hhandle, hserves⟩ := Outcome.of_seen (of_decide_eq_true hhandled)
      obtain ⟨vs, m, hrun, hall, hevents, hroutines, hlast⟩ := ih hserves
      have hstep : Step flags m₀ ⟨c.routine, c.reached m₀⟩ m₁ :=
        ⟨reaches_between hstopped .., hlisted, hhandle⟩
      refine ⟨⟨c.routine, c.reached m₀⟩ :: vs, m, (Run.next .start hstep).trans hrun,
        List.forall_mem_cons.2 ⟨heach, hall⟩, ?_, congrArg (c.routine :: ·) hroutines, hlast⟩
      rw [List.map_cons, List.map_cons, hevents, ← c.reached_event m₀]
      rfl

/-- A run in which every block obtained is a new one. -/
theorem serves_fresh {last : Mut → Bool} {cs : List Coming}
    (h : m₀.serves flags (Mut.obtainsNew flags) last cs = true) :
    ∃ vs m, Run (Step flags) m₀ vs m ∧ AllFresh flags vs ∧
      vs.map Visit.event = cs.map Coming.event ∧
      vs.map Visit.routine = cs.map Coming.routine ∧ last m = true := by
  obtain ⟨vs, m, hrun, hall, hevents, hroutines, hlast⟩ := serves_run h
  exact ⟨vs, m, hrun, fun v hv => fresh_of_obtainsNew (hall v hv), hevents, hroutines, hlast⟩

/-- The target can come to the call `c` next, nothing fails there, and the function returns. -/
def Coming.meets (c : Coming) (m : Mut) : Bool :=
  decide (m.process.status = .stopped ∧ c.routine ∈ m.root ∧ m.process.kernel.faults = [] ∧
    m.mem.full = [] ∧ (c.reached m).returning.isSome = true)

theorem Coming.meets_smooth {c : Coming} (h : c.meets m = true) :
    Between m (c.reached m) ∧ c.routine ∈ (c.reached m).root ∧
      Smooth flags (c.reached m) c.routine := by
  obtain ⟨hstopped, hlisted, hfaults, hfull, hreturns⟩ := of_decide_eq_true h
  refine ⟨reaches_between hstopped .., hlisted, ?_, ?_, fun _ => hreturns⟩
  · show ∀ f ∈ m.process.kernel.faults, f = none
    rw [hfaults]
    exact List.forall_mem_nil _
  · show ∀ f ∈ m.mem.full, f = none
    rw [hfull]
    exact List.forall_mem_nil _

/-- A small tracker before its first call. -/
def Mut.fresh (flags : Control) : Mut := .small flags (.calling 0 0) []

end MutTracker.Source
