import MutTracker.Verified.Backtrace
import MutTracker.Verified.Wait
import MutTracker.Verified.Runs

/-!
# The frames on the stack

Whatever the target's registers and memory are, the chain of frame pointers is
followed only upwards, so it comes to an end: `stackFrom` is the whole chain,
`stackFrames` with the call itself in front of it.  The backtrace holds the first
`mutBacktraceFramesMax` of these, however long the chain, and however it goes on
beyond them.

## Main results

* `wp_peek_granted` — a request that is granted.
* `backtraceFrom_exact` — the loop records the chain as far as there is room.
* `functionBacktrace_exact` — a backtrace is the start of the list of frames.
-/

namespace MutTracker.Source

open MutTracker.Logic MutTracker.Logic.Prog

/-! ## The chain -/

/-- The return address stored above the frame pointer `e`. -/
def Target.frameReturn (t : Target) (e : Word) : Word := t.data.readWord (e + mutArgSize)

/-- The frame pointer `e` goes on from `base`. -/
def Target.Climbs (t : Target) (e base : Word) : Prop :=
  e ≠ 0 ∧ base < e ∧ t.frameReturn e ≠ 0

instance (t : Target) (e base : Word) : Decidable (t.Climbs e base) :=
  inferInstanceAs (Decidable (_ ∧ _))

/-- The calls along the chain from the frame pointer `e`, which is to be above `base`. -/
def stackFrom (t : Target) (e base : Word) : List Word :=
  if _h : t.Climbs e base then
    (t.frameReturn e - 5) :: stackFrom t (t.data.readWord e) e
  else []
termination_by 2 ^ 32 - base.toNat
decreasing_by
  have hup : base.toNat < e.toNat := _h.2.1
  exact Nat.sub_lt_sub_left (Nat.lt_trans hup e.isLt) hup

/-- The call that was made last, and the calls along the chain. -/
def stackFrames (t : Target) : List Word :=
  (t.data.readWord t.esp - 5) :: stackFrom t t.ebp t.esp

/-- How many words are read to follow the chain with room for `room` more calls. -/
def readsFrom (t : Target) : Nat → Word → Word → Nat
  | 0, e, base => if e = 0 ∨ e ≤ base then 0 else 1
  | room + 1, e, base =>
      if e = 0 ∨ e ≤ base then 0
      else if t.frameReturn e = 0 then 1
      else 2 + readsFrom t room (t.data.readWord e) e

/-- How many words and registers are read for a backtrace. -/
def stackReads (t : Target) : Nat := 3 + readsFrom t (mutBacktraceFramesMax - 1) t.ebp t.esp

/-- The next `n` requests are granted. -/
def Kernel.Grants (k : Kernel) (n : Nat) : Prop := ∀ answer ∈ k.faults.take n, answer = none

/-! ## Reading -/

variable {m : Mut} {b : Backtrace} {bt : Nat} {E : Halt → Prop}

theorem Kernel.Grants.refuses {k : Kernel} {n : Nat} (h : k.Grants (n + 1)) :
    k.refuses = false := by
  unfold Kernel.refuses
  cases hfaults : k.faults with
  | nil => rfl
  | cons answer faults =>
      have hnone : answer = none := h answer (by rw [hfaults]; exact List.mem_cons_self)
      subst hnone
      rfl

theorem Kernel.Grants.answered {k : Kernel} {n : Nat} (h : k.Grants (n + 1)) :
    k.answered.Grants n := by
  intro answer hanswer
  cases hfaults : k.faults with
  | nil =>
      simp only [Kernel.answered, hfaults, List.tail_nil, List.take_nil] at hanswer
      cases hanswer
  | cons first faults =>
      simp only [Kernel.answered, hfaults, List.tail_cons] at hanswer
      refine h answer ?_
      rw [hfaults, List.take_succ_cons]
      exact List.mem_cons_of_mem _ hanswer

theorem Kernel.Grants.mono {k : Kernel} {n n' : Nat} (h : k.Grants n) (hn : n' ≤ n) :
    k.Grants n' := by
  intro answer hanswer
  exact h answer ((List.take_sublist_take_left hn).mem hanswer)

/-- The tracker after the kernel answered a request. -/
def Mut.asked (m : Mut) : Mut :=
  { m with process := { m.process with kernel := m.process.kernel.answered } }

/-- A word asked for is brought back when the request is granted. -/
theorem wp_peek_granted {Q : Option Word → Mut → Prop} {n : Nat}
    (h : m.process.kernel.Grants (n + 1)) (failure : String) (arg : Arg)
    (look : Kernel → Word) :
    wp (liftM (mutTracePeek failure arg look) : MutM (Option Word)) Q E m ↔
      Q (some (look m.process.kernel.answered)) m.asked := by
  have hgranted : m.process.kernel.faults.head?.join = none := by
    have hrefuses := h.refuses
    unfold Kernel.refuses at hrefuses
    cases hjoin : m.process.kernel.faults.head?.join with
    | none => rfl
    | some errno =>
        rw [hjoin] at hrefuses
        cases hrefuses
  rw [wp_liftProcess]
  simp only [mutTracePeek, mutTraceRequest, ptrace, wp_bind, wp_read, wp_update, wp_pure, hgranted]
  exact Iff.rfl

/-- A return address is entered while there is room. -/
theorem wp_enter {Q : Bool → Mut → Prop} (hbt : m.mem.backtraces bt = some b) (ra : Word) :
    wp (mutBacktraceEnter bt ra) Q E m ↔
      if b.frames.length < mutBacktraceFramesMax then
        Q true { m with mem := { m.mem with
          backtraces := Function.update m.mem.backtraces bt
            (some { b with frames := b.frames ++ [ra] }) } }
      else Q false m := by
  simp only [mutBacktraceEnter, Mut.backtrace, wp_bind, wp_read, hbt, wp_pure]
  split
  · simp only [Mut.setBacktrace, wp_bind, wp_update, wp_pure]
  · rfl

/-! ## Following the chain -/

/-- From any frame pointer the loop records the chain as far as there is room. -/
theorem backtraceFrom_exact {rounds : Nat} {ebp base : Word}
    (hbt : m.mem.backtraces bt = some b) (hroom : b.frames.length ≤ mutBacktraceFramesMax)
    (hrounds : mutBacktraceFramesMax < rounds + b.frames.length)
    (hgrants : m.process.kernel.Grants
      (readsFrom m.target (mutBacktraceFramesMax - b.frames.length) ebp base)) :
    wp (mutProcessBacktraceFrom bt rounds ebp base)
      (fun ok m' => ok = true ∧ m'.mem.backtraces bt = some { b with
        frames := (b.frames ++ stackFrom m.target ebp base).take mutBacktraceFramesMax })
      (fun _ => False) m := by
  have hfull : b.frames.take mutBacktraceFramesMax = b.frames := List.take_of_length_le hroom
  induction rounds generalizing m b ebp base with
  | zero => omega
  | succ rounds ih =>
      unfold mutProcessBacktraceFrom
      rw [wp_ite]
      by_cases hstop : ebp = 0 ∨ ebp ≤ base
      · rw [if_pos hstop]
        have hnot : ¬ m.target.Climbs ebp base := by
          intro hclimbs
          rcases hstop with hzero | hle
          · exact hclimbs.1 hzero
          · exact absurd hclimbs.2.1 (by rw [BitVec.not_lt]; exact hle)
        unfold stackFrom
        rw [dif_neg hnot, List.append_nil, hfull]
        exact ⟨rfl, hbt⟩
      · rw [if_neg hstop]
        have hup : ebp ≠ 0 ∧ base < ebp := by
          refine ⟨fun hzero => hstop (.inl hzero), ?_⟩
          exact BitVec.not_le.1 fun hle => hstop (.inr hle)
        -- the return address above the frame pointer is read in any case
        have hone : m.process.kernel.Grants 1 := by
          refine hgrants.mono ?_
          cases mutBacktraceFramesMax - b.frames.length with
          | zero =>
              have hreads : readsFrom m.target 0 ebp base = 1 := if_neg hstop
              exact Nat.le_of_eq hreads.symm
          | succ room =>
              rw [readsFrom, if_neg hstop]
              split <;> omega
        rw [wp_bind]
        refine (wp_peek_granted hone _ _ _).2 ?_
        show wp (if m.target.frameReturn ebp = 0 then pure true else _) _ _ m.asked
        rw [wp_ite]
        by_cases hzero : m.target.frameReturn ebp = 0
        · rw [if_pos hzero]
          unfold stackFrom
          rw [dif_neg fun hclimbs => hclimbs.2.2 hzero, List.append_nil, hfull]
          exact ⟨rfl, hbt⟩
        · rw [if_neg hzero, wp_bind, wp_enter (m := m.asked) hbt]
          have hclimbs : m.target.Climbs ebp base := ⟨hup.1, hup.2, hzero⟩
          unfold stackFrom
          rw [dif_pos hclimbs]
          by_cases hlt : b.frames.length < mutBacktraceFramesMax
          · rw [if_pos hlt]
            obtain ⟨room, hroom'⟩ : ∃ room, mutBacktraceFramesMax - b.frames.length = room + 1 :=
              ⟨mutBacktraceFramesMax - b.frames.length - 1, by omega⟩
            rw [hroom', readsFrom, if_neg hstop, if_neg hzero, Nat.add_comm] at hgrants
            have htwo := hgrants.answered
            simp only [Bool.not_true, Bool.false_eq_true, if_false, wp_bind]
            refine (wp_peek_granted htwo _ _ _).2 ?_
            refine wp_mono
              (ih (b := { b with frames := b.frames ++ [m.target.frameReturn ebp - 5] })
              ?_ ?_ ?_ ?_ ?_) ?_ fun _ he => he
            · exact Function.update_self ..
            · simp only [List.length_append, List.length_singleton]
              omega
            · simp only [List.length_append, List.length_singleton]
              omega
            · have hcount : mutBacktraceFramesMax -
                  (b.frames ++ [m.target.frameReturn ebp - 5]).length = room := by
                simp only [List.length_append, List.length_singleton]
                omega
              rw [hcount]
              exact htwo.answered
            · apply List.take_of_length_le
              simp only [List.length_append, List.length_singleton]
              omega
            · intro ok m' h
              refine ⟨h.1, h.2.trans ?_⟩
              rw [List.append_assoc]
              rfl
          · rw [if_neg hlt]
            have hlen : b.frames.length = mutBacktraceFramesMax := by omega
            refine ⟨rfl, ?_⟩
            rw [← hlen, List.take_left]
            exact hbt

/-- When the words needed can be read, the walk comes to an end and a new backtrace records
the start of the list of frames, whatever the registers and the memory are. -/
theorem functionBacktrace_exact (hbt : m.mem.backtraces bt = some b) (hnew : b.frames = [])
    (hgrants : m.process.kernel.Grants (stackReads m.target)) :
    ∃ m', mutProcessFunctionBacktrace bt m = .done true m' ∧
      m'.mem.backtraces bt =
        some { b with frames := (stackFrames m.target).take mutBacktraceFramesMax } := by
  have hreads : stackReads m.target =
      readsFrom m.target (mutBacktraceFramesMax - 1) m.target.ebp m.target.esp + 1 + 1 + 1 := by
    unfold stackReads
    omega
  rw [hreads] at hgrants
  have hspec : wp (mutProcessFunctionBacktrace bt) (fun ok m' => ok = true ∧
      m'.mem.backtraces bt =
        some { b with frames := (stackFrames m.target).take mutBacktraceFramesMax })
      (fun _ => False) m := by
    unfold mutProcessFunctionBacktrace
    rw [wp_bind]
    refine (wp_peek_granted hgrants _ _ _).2 ?_
    rw [wp_bind]
    refine (wp_peek_granted (m := m.asked) hgrants.answered _ _ _).2 ?_
    rw [wp_bind, wp_enter (m := m.asked.asked) hbt, hnew]
    rw [if_pos (by decide)]
    simp only [Bool.not_true, Bool.false_eq_true, if_false, wp_bind]
    refine (wp_peek_granted hgrants.answered.answered _ _ _).2 ?_
    refine wp_mono (backtraceFrom_exact (b := { b with
      frames := [] ++ [m.target.data.readWord m.target.esp - 5] }) ?_ ?_ ?_ ?_) ?_ fun _ he => he
    · exact Function.update_self ..
    · show 1 ≤ mutBacktraceFramesMax
      decide
    · show mutBacktraceFramesMax < mutBacktraceFramesMax + 1 + 1
      decide
    · exact hgrants.answered.answered.answered
    · exact fun ok m' h => h
  obtain ⟨ok, m', hrun, rfl, hframes⟩ := wp_returns hspec fun _ he => he
  exact ⟨m', hrun, hframes⟩

/-- A stack with two frames above the call. -/
def Target.framed : Target where
  eip := 0x10
  eax := 0
  ebp := 0x110
  esp := 0x100
  data := (((Memory.writeWord (fun _ => 0) 0x100 0x1005).writeWord 0x110 0x120).writeWord
    0x114 0x2005).writeWord 0x124 0x3005

/-- A tracker with a new backtrace for a call on that stack. -/
def Mut.framed : Mut :=
  let m := Mut.small .plain .framed []
  { m with mem := { m.mem with backtraces := fun _ => some ⟨1, []⟩ } }

/-- The call and the two above it. -/
theorem functionBacktrace_framed : ∃ m', mutProcessFunctionBacktrace 0 .framed = .done true m' ∧
    m'.mem.backtraces 0 = some ⟨1, [0x1000, 0x2000, 0x3000]⟩ := by
  have hlive : Mut.framed.mem.backtraces 0 = some ⟨1, []⟩ := rfl
  obtain ⟨m', hrun, hframes⟩ := functionBacktrace_exact hlive rfl nofun
  have hlist : stackFrames Mut.framed.target = [0x1000, 0x2000, 0x3000] := by
    rw [stackFrames, stackFrom, dif_pos (by decide +kernel), stackFrom,
      dif_pos (by decide +kernel), stackFrom, dif_neg (by decide +kernel)]
    decide +kernel
  rw [hlist] at hframes
  exact ⟨m', hrun, hframes⟩

end MutTracker.Source
