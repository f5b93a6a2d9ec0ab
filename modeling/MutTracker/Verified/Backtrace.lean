import MutTracker.Logic.RefCount
import MutTracker.Source.Backtrace
import MutTracker.Verified.Process

/-!
# Backtraces and who refers to them

`Sound μ refs`: the tracker's storage `μ` counts every backtrace as often as
the list `refs` refers to it.  A handler holds a reference of its own while
it runs, and the resources hold the others; the specifications below say how
each operation moves references about.

A backtrace changes nothing about the traced program and, logged inside a
message, only lengthens it.

## Main results

* `mutProduceBacktrace_spec` — a handler gets a reference of its own.
* `mutLogBacktrace_spec` — logging a live backtrace adds arguments.
* `closeBacktrace_spec` — the handler's reference goes.
-/

namespace MutTracker.Source

open MutTracker.Logic MutTracker.Logic.Prog

/-- The tracker's storage counts the references `refs`. -/
structure Sound (μ : Mem) (refs : List Nat) : Prop where
  counts : Counts μ.backtraces Backtrace.refCount refs
  fresh : ∀ k, μ.next ≤ k → μ.backtraces k = none

/-- Some `mut_mem_malloc` between `μ` and `μ'` failed. -/
def Mem.Failed (μ μ' : Mem) : Prop :=
  ∃ answers errno, answers ++ μ'.full = μ.full ∧ some errno ∈ answers

/-- The storage `μ'` some operations after `μ`. -/
structure Mem.Later (μ μ' : Mem) : Prop where
  next : μ.next ≤ μ'.next
  full : μ'.full <:+ μ.full

theorem Mem.Later.refl (μ : Mem) : μ.Later μ := ⟨Nat.le_refl _, List.suffix_rfl⟩

theorem Mem.Later.trans {μ μ' μ'' : Mem} (h : μ.Later μ') (h' : μ'.Later μ'') : μ.Later μ'' :=
  ⟨Nat.le_trans h.next h'.next, h'.full.trans h.full⟩

theorem Mem.Failed.of_later {μ μ' μ'' : Mem} (h : μ'.Failed μ'') (hlater : μ.Later μ') :
    μ.Failed μ'' := by
  obtain ⟨answers, errno, heq, hmem⟩ := h
  obtain ⟨earlier, hearlier⟩ := hlater.full
  exact ⟨earlier ++ answers, errno, by rw [List.append_assoc, heq, hearlier],
    List.mem_append_right earlier hmem⟩

theorem Mem.Failed.later {μ μ' μ'' : Mem} (h : μ.Failed μ') (hlater : μ'.Later μ'') :
    μ.Failed μ'' := by
  obtain ⟨answers, errno, heq, hmem⟩ := h
  obtain ⟨rest, hrest⟩ := hlater.full
  exact ⟨answers ++ rest, errno, by rw [List.append_assoc, hrest, heq],
    List.mem_append_left rest hmem⟩

theorem Sound.perm {μ : Mem} {refs refs' : List Nat} (h : Sound μ refs)
    (hperm : refs.Perm refs') : Sound μ refs' :=
  ⟨h.counts.perm hperm, h.fresh⟩

variable {m : Mut} {E : Halt → Prop} {refs : List Nat} {k : Nat} {l : Log} {msg : Message}

@[simp] theorem wp_liftProcess {α : Type} {Q : α → Mut → Prop} (y : ProcessM α) :
    wp (liftM y : MutM α) Q E m ↔ wp y (fun a p => Q a { m with process := p }) E m.process :=
  wp_focus Mut.process (fun p m => { m with process := p }) y

@[simp] theorem wp_liftLogMut {Q : Unit → Mut → Prop} (y : LogM Unit) :
    wp (liftM y : MutM Unit) Q E m ↔
      wp y (fun a l => Q a { m with process := { m.process with log := l } }) E m.process.log :=
  (wp_liftProcess (liftM y)).trans (wp_liftLog y)

/-! ## Storage -/

theorem mutMalloc_spec (m : Mut) :
    wp Mut.malloc
      (fun r m' => ∃ μ, m' = { m with mem := μ } ∧ m.mem.Later μ ∧
        μ.backtraces = m.mem.backtraces ∧
        ((r = .ok m.mem.next ∧ μ.next = m.mem.next + 1) ∨
          (∃ errno, r = .error errno) ∧ m.mem.Failed μ)) E m := by
  simp only [Mut.malloc, wp_bind, wp_read]
  cases hfull : m.mem.full.head?.join with
  | none =>
      simp only [wp_bind, wp_update, wp_pure]
      exact ⟨_, rfl, ⟨Nat.le_succ _, List.tail_suffix _⟩, rfl, .inl ⟨trivial, rfl⟩⟩
  | some errno =>
      simp only [wp_bind, wp_update, wp_pure]
      have hhead : [some errno] ++ m.mem.full.tail = m.mem.full := by
        cases hlist : m.mem.full with
        | nil => simp [hlist] at hfull
        | cons answer rest => simp_all
      exact ⟨_, rfl, ⟨Nat.le_refl _, List.tail_suffix _⟩, rfl,
        .inr ⟨⟨errno, rfl⟩, [some errno], errno, hhead, List.mem_singleton_self _⟩⟩

/-- A backtrace that is referred to can be followed. -/
theorem mutBacktrace_spec {Q : Nat × Backtrace → Mut → Prop} (h : Sound m.mem refs)
    (hk : k ∈ refs)
    (hQ : ∀ b, m.mem.backtraces k = some b → 0 < b.refCount → Q (k, b) m) :
    wp (Mut.backtrace (some k)) Q E m := by
  obtain ⟨b, hb, hpos⟩ := h.counts.alive hk
  simp only [Mut.backtrace, wp_bind, wp_read, hb, wp_pure]
  exact hQ b hb hpos

/-! ## References -/

/-- The storage with the backtrace at `k` replaced. -/
def Mem.put (μ : Mem) (k : Nat) (b : Option Backtrace) : Mem :=
  { μ with backtraces := Function.update μ.backtraces k b }

theorem Mem.later_put (μ : Mem) (k : Nat) (b : Option Backtrace) : μ.Later (μ.put k b) :=
  ⟨Nat.le_refl _, List.suffix_rfl⟩

@[simp] theorem wp_setBacktrace {Q : Unit → Mut → Prop} (k : Nat) (b : Option Backtrace) :
    wp (Mut.setBacktrace k b) Q E m ↔ Q () { m with mem := m.mem.put k b } := Iff.rfl

/-- What is changed at a live backtrace leaves fresh pointers fresh. -/
private theorem Sound.fresh_put (h : Sound m.mem refs) {b : Backtrace} {b' : Option Backtrace}
    (hk : m.mem.backtraces k = some b) :
    ∀ j, m.mem.next ≤ j → (m.mem.put k b').backtraces j = none := by
  intro j hj
  have hne : j ≠ k := by
    rintro rfl
    rw [h.fresh j hj] at hk
    cases hk
  simp only [Mem.put]
  rw [Function.update_of_ne hne]
  exact h.fresh j hj

/-- Closing gives a reference up. -/
theorem mutBacktraceClose_spec (h : Sound m.mem (k :: refs)) :
    wp (mutBacktraceClose (some k))
      (fun _ m' => ∃ μ, m' = { m with mem := μ } ∧ m.mem.Later μ ∧ Sound μ refs) E m := by
  simp only [mutBacktraceClose, wp_bind]
  refine mutBacktrace_spec h List.mem_cons_self fun b hb hpos => ?_
  have hne : (b.refCount != 0) = true := by simpa using Nat.ne_of_gt hpos
  simp only [wp_mutAssert, hne, if_true, wp_setBacktrace]
  refine ⟨_, rfl, Mem.later_put _ _ _, ?_, h.fresh_put hb⟩
  by_cases hone : b.refCount = 1
  · rw [if_pos hone]
    exact h.counts.freed hb hone
  · rw [if_neg hone]
    exact h.counts.dropped hb (by simp; omega) (by simp; omega)

/-- Sharing makes a reference. -/
theorem mutBacktraceShare_spec (h : Sound m.mem refs) (hk : k ∈ refs) :
    wp (mutBacktraceShare (some k))
      (fun r m' => r = some k ∧ ∃ μ, m' = { m with mem := μ } ∧ m.mem.Later μ ∧
        Sound μ (k :: refs)) E m := by
  simp only [mutBacktraceShare, wp_bind]
  refine mutBacktrace_spec h hk fun b hb _ => ?_
  simp only [wp_setBacktrace, wp_pure]
  exact ⟨trivial, _, rfl, Mem.later_put _ _ _, h.counts.shared hb rfl, h.fresh_put hb⟩

/-- How many frames the backtrace at `k` holds. -/
def Mem.entered (μ : Mem) (k : Nat) : Nat :=
  match μ.backtraces k with
  | some b => b.frames.length
  | none => 0

theorem Mem.entered_of_some {μ : Mem} {b : Backtrace} (h : μ.backtraces k = some b) :
    μ.entered k = b.frames.length := by
  simp only [Mem.entered, h]

@[simp] theorem Mem.entered_put (μ : Mem) (k : Nat) (b : Backtrace) :
    (μ.put k (some b)).entered k = b.frames.length :=
  Mem.entered_of_some (Function.update_self ..)

/-- Entering a frame leaves the references alone, and fills a place that was free. -/
theorem mutBacktraceEnter_spec (h : Sound m.mem refs) (hk : k ∈ refs) (ra : Word) :
    wp (mutBacktraceEnter k ra)
      (fun ok m' => ∃ μ, m' = { m with mem := μ } ∧ m.mem.Later μ ∧ Sound μ refs ∧
        (ok = true → m.mem.entered k < mutBacktraceFramesMax ∧
          μ.entered k = m.mem.entered k + 1)) E m := by
  simp only [mutBacktraceEnter, wp_bind]
  refine mutBacktrace_spec h hk fun b hb hpos => ?_
  rw [wp_ite]
  split
  · rename_i hroom
    simp only [wp_bind, wp_setBacktrace, wp_pure]
    refine ⟨_, rfl, Mem.later_put _ _ _, ⟨?_, h.fresh_put hb⟩, fun _ => ?_⟩
    · exact h.counts.changed hb rfl
    · rw [Mem.entered_of_some hb, Mem.entered_put, List.length_append]
      exact ⟨hroom, rfl⟩
  · exact ⟨_, rfl, Mem.Later.refl _, h, fun hok => by cases hok⟩

/-! ## A backtrace of the call -/

/-- Nothing but the process and the storage differs between `m` and `m'`, and
the storage counts the references `refs`. -/
structure Kept (m : Mut) (refs : List Nat) (m' : Mut) : Prop where
  same : m' = { m with process := m'.process, mem := m'.mem }
  later : m.mem.Later m'.mem
  sound : Sound m'.mem refs

theorem Kept.refl (h : Sound m.mem refs) : Kept m refs m := ⟨rfl, .refl _, h⟩

/-- A program on the process keeps everything else. -/
theorem Kept.process {m₀ : Mut} (h : Kept m₀ refs m) (q : Process) :
    Kept m₀ refs { m with process := q } :=
  ⟨by rw [h.same], h.later, h.sound⟩

theorem Kept.mem {m₀ : Mut} {refs' : List Nat} {μ : Mem} (h : Kept m₀ refs m)
    (hlater : m.mem.Later μ) (hsound : Sound μ refs') : Kept m₀ refs' { m with mem := μ } :=
  ⟨by rw [h.same], h.later.trans hlater, hsound⟩

variable {p : Process} {rs : List Report} {t : Target} {x : Memory} {m₀ : Mut}

/-- A new backtrace comes with a reference, or memory is full. -/
theorem mutBacktraceOpen_spec (h : Sound m.mem refs) (hcalm : Calm p rs t x m.process) :
    wp mutBacktraceOpen
      (fun r m' =>
        (∃ k, r = some k ∧ Kept m (k :: refs) m' ∧ Calm p rs t x m'.process) ∨
          r = none ∧ Kept m refs m' ∧ m.mem.Failed m'.mem ∧ m'.process.status = .stopped) E m := by
  simp only [mutBacktraceOpen, wp_bind]
  refine wp_mono (mutMalloc_spec m) ?_ fun _ he => he
  rintro r _ ⟨μ, rfl, hlater, hsame, ⟨rfl, hnext⟩ | ⟨⟨errno, rfl⟩, hfull⟩⟩
  · simp only [wp_bind, wp_setBacktrace, wp_pure]
    refine .inl ⟨_, rfl, ⟨rfl, ⟨?_, hlater.full⟩, ?_, ?_⟩, hcalm⟩
    · exact Nat.le_trans (Nat.le_succ _) (Nat.le_of_eq hnext.symm)
    · have hopened := h.counts.opened (a := { refCount := 1, frames := [] })
        (h.fresh _ (Nat.le_refl m.mem.next)) rfl
      simpa only [Mem.put, hsame] using hopened
    · intro j hj
      have hlt : m.mem.next < j := Nat.lt_of_lt_of_le (hnext ▸ Nat.lt_succ_self _) hj
      simp only [Mem.put, hsame]
      rw [Function.update_of_ne (Nat.ne_of_gt hlt)]
      exact h.fresh j (Nat.le_of_lt hlt)
  · simp only [wp_bind, wp_liftLogMut, wp_mutLogMemFull hcalm.idle, wp_pure]
    refine .inr ⟨trivial, ⟨rfl, hlater, hsame ▸ h.counts, fun j hj => ?_⟩, hfull, hcalm.status⟩
    simpa only [hsame] using h.fresh j (Nat.le_trans hlater.next hj)

/-- What a walk over the stack leaves: the references are counted as they were,
and the process is calm unless a request was refused. -/
abbrev Walked (m : Mut) (p : Process) (rs : List Report) (t : Target) (x : Memory)
    (refs : List Nat) (ok : Bool) (m' : Mut) : Prop :=
  Kept m refs m' ∧ Does p (Calm p rs t x) ok m'.process

/-- A word read in the middle of a walk, that ends when it is refused. -/
private theorem walk_read {f : Word → MutM Bool} {v : Word} {y : ProcessM (Option Word)}
    (hy : ∀ q, Calm p rs t x q → wp y (Gives p v (Calm p rs t x)) E q)
    (hkept : Kept m₀ refs m) (h : Calm p rs t x m.process)
    (hf : ∀ m', m'.mem = m.mem → Kept m₀ refs m' → Calm p rs t x m'.process →
      wp (f v) (Walked m₀ p rs t x refs) E m') :
    wp (do let some v ← liftM y | return false
           f v) (Walked m₀ p rs t x refs) E m := by
  rw [wp_bind, wp_liftProcess]
  refine wp_mono (hy _ h) ?_ fun _ he => he
  rintro _ q (⟨rfl, hq⟩ | ⟨rfl, hfault⟩)
  · exact hf _ rfl (hkept.process q) hq
  · exact ⟨hkept.process q, .inr ⟨rfl, hfault⟩⟩

/-- A frame entered in the middle of a walk, that ends when there is no room. -/
private theorem walk_enter {y : MutM Bool} {ra : Word} (hkept : Kept m₀ refs m)
    (h : Calm p rs t x m.process) (hk : k ∈ refs)
    (hy : ∀ m', m.mem.entered k < mutBacktraceFramesMax →
      m'.mem.entered k = m.mem.entered k + 1 → Kept m₀ refs m' → Calm p rs t x m'.process →
      wp y (Walked m₀ p rs t x refs) E m') :
    wp (do if !(← mutBacktraceEnter k ra) then return true
           y) (Walked m₀ p rs t x refs) E m := by
  rw [wp_bind]
  refine wp_mono (mutBacktraceEnter_spec hkept.sound hk ra) ?_ fun _ he => he
  rintro ok _ ⟨μ, rfl, hlater, hsound, hentered⟩
  cases ok with
  | false => exact ⟨hkept.mem hlater hsound, .inl ⟨rfl, h⟩⟩
  | true =>
      have hplace := hentered rfl
      exact hy _ hplace.1 hplace.2 (hkept.mem hlater hsound) h

/-- The loop ends for its own reasons before its rounds run out: each round fills one of
the places that are left. -/
theorem mutProcessBacktraceFrom_spec (rounds : Nat) (ebp base : Word)
    (hkept : Kept m₀ refs m) (h : Calm p rs t x m.process) (hk : k ∈ refs)
    (hplaces : m.mem.entered k ≤ mutBacktraceFramesMax)
    (hrounds : mutBacktraceFramesMax < rounds + m.mem.entered k) :
    wp (mutProcessBacktraceFrom k rounds ebp base) (Walked m₀ p rs t x refs) E m := by
  induction rounds generalizing ebp base m with
  | zero => omega
  | succ rounds ih =>
      unfold mutProcessBacktraceFrom
      rw [wp_ite]
      split
      · exact ⟨hkept, .inl ⟨rfl, h⟩⟩
      · refine walk_read (fun q hq => mutTraceReadData_spec hq _) hkept h
          fun m₁ hmem₁ hkept₁ h₁ => ?_
        rw [wp_ite]
        split
        · exact ⟨hkept₁, .inl ⟨rfl, h₁⟩⟩
        · refine walk_enter hkept₁ h₁ hk fun m₂ hplace hentered hkept₂ h₂ => ?_
          refine walk_read (fun q hq => mutTraceReadData_spec hq _) hkept₂ h₂
            fun m₃ hmem₃ hkept₃ h₃ => ?_
          rw [hmem₁] at hplace hentered
          rw [← hmem₃] at hentered
          apply ih _ _ hkept₃ h₃
          · omega
          · omega

theorem mutProcessFunctionBacktrace_spec (hkept : Kept m₀ refs m)
    (h : Calm p rs t x m.process) (hk : k ∈ refs) :
    wp (mutProcessFunctionBacktrace k) (Walked m₀ p rs t x refs) E m := by
  refine walk_read (fun q hq => mutTraceReadReg_spec hq .esp) hkept h
    fun m₁ _ hkept₁ h₁ => ?_
  refine walk_read (fun q hq => mutTraceReadData_spec hq _) hkept₁ h₁
    fun m₂ _ hkept₂ h₂ => ?_
  refine walk_enter hkept₂ h₂ hk fun m₃ hplace hentered hkept₃ h₃ => ?_
  refine walk_read (fun q hq => mutTraceReadReg_spec hq .ebp) hkept₃ h₃
    fun m₄ hmem₄ hkept₄ h₄ => ?_
  rw [← hmem₄] at hentered
  apply mutProcessBacktraceFrom_spec _ _ _ hkept₄ h₄ hk
  · omega
  · omega

/-! ## Logging a backtrace -/

/-- Inside a message a frame is so many arguments. -/
theorem mutLogFrame_spec (e : Exec) (addr : Word) :
    wp (mutLogFrame e addr)
      (fun _ l' => ∃ more, l' = l.start { msg with args := msg.args ++ more }) E
      (l.start msg) := by
  unfold mutLogFrame
  cases mutExecAddrName e addr <;>
    simp only [wp_bind, mutLogString, mutLogExecAddr, mutLogUint, wp_mutLogArg,
      List.append_assoc]
  all_goals exact ⟨_, rfl⟩

theorem mutLogFrames_spec (e : Exec) (frames : List Word) :
    wp (mutLogFrames e frames)
      (fun _ l' => ∃ more, l' = l.start { msg with args := msg.args ++ more }) E
      (l.start msg) := by
  induction frames generalizing msg with
  | nil => exact ⟨[], by simp⟩
  | cons addr frames ih =>
      simp only [mutLogFrames, wp_bind]
      refine wp_mono (mutLogFrame_spec e addr) ?_ fun _ he => he
      rintro _ _ ⟨more, rfl⟩
      refine wp_mono ih ?_ fun _ he => he
      rintro _ _ ⟨more', rfl⟩
      exact ⟨more ++ more', by simp⟩

/-- The tracker with its log replaced. -/
def Mut.withLog (m : Mut) (l : Log) : Mut := { m with process := { m.process with log := l } }

@[simp] theorem withLog_log : (m.withLog l).process.log = l := rfl

/-- Whole messages were logged that report `rs`, and nothing else happened. -/
abbrev Logs (m : Mut) (rs : List Report) (m' : Mut) : Prop :=
  ∃ l', m' = m.withLog l' ∧ Reported m.process.log rs l'

/-- The message `msg`, open after `l`, has taken some more arguments. -/
abbrev Extends (m : Mut) (l : Log) (msg : Message) (m' : Mut) : Prop :=
  ∃ more, m' = m.withLog (l.start { msg with args := msg.args ++ more })

/-- Inside a message a live backtrace is so many arguments. -/
theorem mutLogBacktrace_spec (h : Sound m.mem refs) (hk : k ∈ refs) :
    wp (mutLogBacktrace (some k)) (fun _ => Extends m l msg) E (m.withLog (l.start msg)) := by
  unfold mutLogBacktrace
  rw [wp_bind]
  refine mutBacktrace_spec h hk fun b _ _ => ?_
  simp only [wp_bind, wp_read, wp_liftLogMut, withLog_log, mutLogUint, wp_mutLogArg]
  refine wp_mono (mutLogFrames_spec _ _) ?_ fun _ he => he
  rintro _ _ ⟨more, rfl⟩
  exact ⟨_ :: more, by simp [Mut.withLog]; rfl⟩

/-- Inside a message a backtrace is so many arguments, and none where backtraces are off. -/
theorem logBacktrace_spec {bt : Option Nat} {on : Bool} (h : Sound m.mem refs)
    (hon : on = true → ∃ k ∈ refs, bt = some k) :
    wp (whenever on (mutLogBacktrace bt)) (fun _ => Extends m l msg) E
      (m.withLog (l.start msg)) := by
  cases on with
  | false => exact ⟨[], by simp⟩
  | true =>
      obtain ⟨k, hk, rfl⟩ := hon rfl
      exact mutLogBacktrace_spec h hk

end MutTracker.Source
