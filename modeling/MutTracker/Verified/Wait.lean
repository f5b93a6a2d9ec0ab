import MutTracker.Verified.Steady

/-!
# Letting the target run, from any stopped process

Only `mut_process_resume` and `mut_process_wait` change the status of the
process.  Here they are followed from any stopped process, whatever its log:
what `mut_do_action` does to the text, to the coming reports and to the
status, and when it leaves the target running.

The target is left running when `waitpid` fails, or when `ptrace` refuses to
continue it past a report that is passed over.  `Kernel.strays` decides that
from what the kernel will answer when `mut_process_wait` is called.

## Main results

* `mutProcessWait_effect` — the status after waiting.
* `mutDoAction_effect` — the breakpoint at the return address comes and goes.
-/

namespace MutTracker.Source

open MutTracker.Logic MutTracker.Logic.Prog

variable {p q : Process} {m : Mut}

/-! ## Requests -/

/-- Logging changes the log, or halts for the state it is in. -/
theorem wp_mildLog {y : LogM Unit} [hy : Mild y] {Q : Unit → Process → Prop}
    (hQ : ∀ l, Q () { p with log := l }) : wp (liftM y : ProcessM Unit) Q Orderly p := by
  rw [wp_liftLog]
  exact wp_mono (hy.mild p.log) (fun _ l _ => hQ l) fun _ he => he

theorem wp_mildMessage {y : LogM Unit} [hy : Mild y] {Q : Unit → Mut → Prop}
    (hQ : ∀ l, Q () (m.withLog l)) : wp (liftM y : MutM Unit) Q Orderly m := by
  rw [wp_liftLogMut]
  exact wp_mono (hy.mild m.process.log) (fun _ l _ => hQ l) fun _ he => he

/-- The kernel after it answered a request. -/
def Kernel.answered (k : Kernel) : Kernel := { k with faults := k.faults.tail }

/-- The next request is refused. -/
def Kernel.refuses (k : Kernel) : Bool := k.faults.head?.join.isSome

/-- The process `q` after a request of `p`, by whether it was granted. -/
structure Requested (p : Process) (change : Kernel → Kernel) (ok : Bool) (q : Process) :
    Prop where
  status : q.status = p.status
  resumed : q.resumed = p.resumed
  pc : q.pc = p.pc
  granted : ok = !p.kernel.refuses
  log : ok = true → q.log = p.log
  kernel : q.kernel = if ok then change p.kernel.answered else p.kernel.answered

theorem mutTraceRequest_effect (failure : String) (arg : Arg) (change : Kernel → Kernel) :
    wp (mutTraceRequest failure arg change) (Requested p change) Orderly p := by
  simp only [mutTraceRequest, ptrace, wp_bind, wp_read, wp_update, wp_pure]
  cases hfault : p.kernel.faults.head?.join with
  | none =>
      simp only [wp_bind, wp_update, wp_pure]
      exact ⟨rfl, rfl, rfl, by rw [Kernel.refuses, hfault]; rfl, fun _ => rfl, rfl⟩
  | some errno =>
      simp only [wp_bind]
      refine wp_mildLog fun _ => wp_mildLog fun _ => wp_mildLog fun _ => ?_
      exact ⟨rfl, rfl, rfl, by rw [Kernel.refuses, hfault]; rfl, by simp, rfl⟩

/-- The process `q` after `p` was asked for a word. -/
structure Peeked (p : Process) (look : Kernel → Word) (r : Option Word) (q : Process) :
    Prop where
  status : q.status = p.status
  resumed : q.resumed = p.resumed
  pc : q.pc = p.pc
  kernel : q.kernel = p.kernel.answered
  log : r.isSome → q.log = p.log
  found : ∀ v, r = some v → v = look p.kernel.answered

theorem mutTracePeek_effect (failure : String) (arg : Arg) (look : Kernel → Word) :
    wp (mutTracePeek failure arg look) (Peeked p look) Orderly p := by
  rw [mutTracePeek, wp_bind]
  refine wp_mono (mutTraceRequest_effect failure arg id) ?_ fun _ he => he
  rintro ok q h
  have hsame : q.kernel = p.kernel.answered := by rw [h.kernel]; exact ite_self _
  cases ok with
  | true =>
      exact ⟨h.status, h.resumed, h.pc, hsame, fun _ => h.log rfl,
        fun v hv => hsame ▸ (Option.some.inj hv).symm⟩
  | false => exact ⟨h.status, h.resumed, h.pc, hsame, by simp, by simp⟩

/-! ## Breakpoints -/

/-- A breakpoint was set at `addr`, and the word there brought back. -/
structure Planted (p : Process) (addr : Word) (r : Option Word) (q : Process) : Prop where
  status : q.status = .stopped
  resumed : q.resumed = p.resumed
  pc : q.pc = p.pc
  waits : q.kernel.waits = p.kernel.waits
  target : q.kernel.target = p.kernel.target
  log : r.isSome → q.log = p.log
  saved : ∀ instr, r = some instr → instr = p.kernel.text.readWord addr
  text : r.isSome → q.kernel.text = p.kernel.text.writeWord addr mutInstrBp

theorem mutProcessBreakpoint_effect (hp : p.Stopped) (pc : Word) :
    wp (mutProcessBreakpoint pc) (Planted p pc) Orderly p := by
  rw [mutProcessBreakpoint, wp_bind, wp_mutAssertStatus, if_pos hp, wp_bind]
  refine wp_mono (mutTracePeek_effect ..) ?_ fun _ he => he
  rintro r q hq
  have hstatus : q.status = .stopped := hq.status.trans hp
  have hwaits : q.kernel.waits = p.kernel.waits := by rw [hq.kernel]; rfl
  have htarget : q.kernel.target = p.kernel.target := by rw [hq.kernel]; rfl
  cases r with
  | none => exact ⟨hstatus, hq.resumed, hq.pc, hwaits, htarget, by simp, by simp, by simp⟩
  | some instr =>
      rw [wp_bind]
      refine wp_mono (mutTraceRequest_effect ..) ?_ fun _ he => he
      rintro ok q' hq'
      have hstatus' : q'.status = .stopped := hq'.status.trans hstatus
      have hresumed' : q'.resumed = p.resumed := hq'.resumed.trans hq.resumed
      have hpc' : q'.pc = p.pc := hq'.pc.trans hq.pc
      have hkernel := hq'.kernel
      rw [hq.kernel] at hkernel
      have hwaits' : q'.kernel.waits = p.kernel.waits := by
        rw [hkernel]
        cases ok <;> rfl
      have htarget' : q'.kernel.target = p.kernel.target := by
        rw [hkernel]
        cases ok <;> rfl
      cases ok with
      | true =>
          refine ⟨hstatus', hresumed', hpc', hwaits', htarget',
            fun _ => (hq'.log rfl).trans (hq.log rfl), fun i hi => ?_,
            fun _ => by rw [hkernel]; rfl⟩
          rw [← Option.some.inj hi, hq.found _ rfl]
          rfl
      | false => exact ⟨hstatus', hresumed', hpc', hwaits', htarget', by simp, by simp, by simp⟩

/-- The word at `addr` was put back. -/
structure Restored (p : Process) (addr instr : Word) (ok : Bool) (q : Process) : Prop where
  status : q.status = .stopped
  resumed : q.resumed = p.resumed
  pc : q.pc = p.pc
  waits : q.kernel.waits = p.kernel.waits
  target : q.kernel.target = p.kernel.target
  log : ok = true → q.log = p.log
  text : ok = true → q.kernel.text = p.kernel.text.writeWord addr instr

theorem mutProcessRestore_effect (hp : p.Stopped) (pc instr : Word) :
    wp (mutProcessRestore pc instr) (Restored p pc instr) Orderly p := by
  rw [mutProcessRestore, wp_bind, wp_mutAssertStatus, if_pos hp]
  refine wp_mono (mutTraceRequest_effect ..) ?_ fun _ he => he
  rintro ok q hq
  have hstatus : q.status = .stopped := hq.status.trans hp
  have hkernel := hq.kernel
  cases ok with
  | true =>
      exact ⟨hstatus, hq.resumed, hq.pc, by rw [hkernel]; rfl, by rw [hkernel]; rfl,
        fun _ => hq.log rfl, fun _ => by rw [hkernel]; rfl⟩
  | false =>
      exact ⟨hstatus, hq.resumed, hq.pc, by rw [hkernel]; rfl, by rw [hkernel]; rfl, by simp,
        by simp⟩

/-! ## Resuming -/

/-- The process `q` after `p` was to be resumed: the target runs on from `p.pc`,
or nothing has happened. -/
structure Left (p : Process) (ok : Bool) (q : Process) : Prop where
  status : q.status = if ok then .running else .stopped
  text : q.kernel.text = p.kernel.text
  waits : q.kernel.waits = p.kernel.waits
  resumed : q.resumed = if ok then q.kernel :: p.resumed else p.resumed
  target : ok = true → q.kernel.target = { p.kernel.target with eip := p.pc }

theorem mutProcessResume_effect (hp : p.Stopped) :
    wp mutProcessResume (Left p) Orderly p := by
  rw [mutProcessResume, wp_bind, wp_mutAssertStatus, if_pos hp]
  simp only [wp_bind, wp_read, mutProcessWritePc, wp_mutAssertStatus, if_pos hp]
  refine wp_mono (mutTraceRequest_effect ..) ?_ fun _ he => he
  rintro ok q hq
  have hkernel := hq.kernel
  cases ok with
  | false =>
      exact ⟨hq.status.trans hp, by rw [hkernel]; rfl, by rw [hkernel]; rfl, hq.resumed, by simp⟩
  | true =>
      simp only [Bool.not_true, Bool.false_eq_true, if_false, wp_bind]
      refine wp_mono (mutTraceRequest_effect ..) ?_ fun _ he => he
      rintro ok q' hq'
      have hkernel' := hq'.kernel
      rw [hkernel] at hkernel'
      have hresumed : q'.resumed = p.resumed := hq'.resumed.trans hq.resumed
      cases ok with
      | false =>
          exact ⟨hq'.status.trans (hq.status.trans hp), by rw [hkernel']; rfl,
            by rw [hkernel']; rfl, hresumed, by simp⟩
      | true =>
          simp only [Bool.not_true, Bool.false_eq_true, if_false, wp_bind, wp_update, wp_pure]
          exact ⟨rfl, by rw [hkernel']; rfl, by rw [hkernel']; rfl,
            by simp only [hresumed, if_true], fun _ => by rw [hkernel']; rfl⟩

/-! ## Waiting -/

/-- Waiting ends with the target running: `waitpid` fails, or `ptrace` refuses
to continue the target past a report that is passed over. -/
def strays : List (Option Nat) → List Stop → Bool
  | _, [] => false
  | _, .failed _ _ :: _ => true
  | _, .exited _ :: _ => false
  | _, .signaled _ :: _ => false
  | faults, .stopped signal _ :: rest =>
      if signal = sigtrap then false else faults.head?.join.isSome || strays faults.tail rest
  | faults, .other _ _ :: rest => faults.head?.join.isSome || strays faults.tail rest

/-- The wait that the kernel answers leaves the target running. -/
def Kernel.strays (k : Kernel) : Bool := Source.strays k.faults k.waits

/-- What waiting from `p` for one of the reports `w` comes to. -/
structure Ended (p : Process) (w : List Stop) (r : WaitStatus) (q : Process) : Prop where
  text : q.kernel.text = p.kernel.text
  waits : q.kernel.waits <:+ w
  fewer : q.kernel.waits.length < w.length
  resumed : q.resumed = p.resumed
  exited : q.status = .exited ↔ r = .exited
  running : q.status = .running ↔ Source.strays p.kernel.faults w = true
  failed : q.status = .running → r = .failed
  ended : r = .exited → ending w = .ended
  stopped : ∀ pc, r = .stopped pc →
    q.status = .stopped ∧ ∃ t, ending w = .stopped t ∧ q.kernel.target = t ∧
      pc = mutPcAdjust t.eip ∧ q.pc = pc

/-- A report that is passed over adds nothing. -/
theorem Ended.passed {p p' : Process} {w : List Stop} {s : Stop} {r : WaitStatus}
    (h : Ended p' w r q) (htext : p'.kernel.text = p.kernel.text)
    (hresumed : p'.resumed = p.resumed) (hending : ending (s :: w) = ending w)
    (hstrays : strays p.kernel.faults (s :: w) = strays p'.kernel.faults w) :
    Ended p (s :: w) r q where
  text := h.text.trans htext
  waits := h.waits.trans (List.suffix_cons s w)
  fewer := Nat.lt_succ_of_lt h.fewer
  resumed := h.resumed.trans hresumed
  exited := h.exited
  running := by rw [hstrays]; exact h.running
  failed := h.failed
  ended hr := hending.trans (h.ended hr)
  stopped pc hr := by
    obtain ⟨hstatus, t, ht, htarget⟩ := h.stopped pc hr
    exact ⟨hstatus, t, hending.trans ht, htarget⟩

/-- The target is let run on from a report, or that is refused. -/
theorem passed_effect {signal : Nat} {s : Stop} {w : List Stop} {p p' : Process}
    (hrun : p'.status = .running) (hwaits : p'.kernel.waits = w)
    (htext : p'.kernel.text = p.kernel.text) (hresumed : p'.resumed = p.resumed)
    (hfaults : p'.kernel.faults = p.kernel.faults) (hending : ending (s :: w) = ending w)
    (hstrays : strays p.kernel.faults (s :: w) =
      (p.kernel.refuses || strays p.kernel.faults.tail w))
    (ih : ∀ {p : Process}, p.status = .running →
      wp (mutProcessWaitFor w) (Ended p w) Orderly p) :
    wp (mutTraceContinue signal)
      (fun ok => wp (if !ok then pure .failed else mutProcessWaitFor w) (Ended p (s :: w))
        Orderly) Orderly p' := by
  refine wp_mono (mutTraceRequest_effect ..) ?_ fun _ he => he
  rintro ok q hq
  have hgranted := hq.granted
  have hrefuses : p'.kernel.refuses = p.kernel.refuses := by
    rw [Kernel.refuses, hfaults, Kernel.refuses]
  rw [hrefuses] at hgranted
  have hkernel : q.kernel = p'.kernel.answered := by
    rw [hq.kernel]
    exact ite_self _
  have hqwaits : q.kernel.waits = w := by rw [hkernel]; exact hwaits
  have hqtext : q.kernel.text = p.kernel.text := by rw [hkernel]; exact htext
  cases ok with
  | false =>
      have hrefused : p.kernel.refuses = true := by simpa using hgranted.symm
      refine ⟨hqtext, hqwaits ▸ List.suffix_cons s w, hqwaits ▸ Nat.lt_succ_self _,
        hq.resumed.trans hresumed, ?_, ?_, fun _ => rfl, nofun, nofun⟩
      · rw [hq.status, hrun]
        exact ⟨nofun, nofun⟩
      · rw [hq.status, hrun, hstrays, hrefused]
        exact ⟨fun _ => rfl, fun _ => rfl⟩
  | true =>
      have hpassed : p.kernel.refuses = false := by simpa using hgranted.symm
      refine wp_mono (ih (hq.status.trans hrun)) (fun r q' h => ?_) fun _ he => he
      refine h.passed hqtext (hq.resumed.trans hresumed) hending ?_
      rw [hstrays, hpassed, Bool.false_or, hkernel]
      exact congrArg (fun faults => strays faults.tail w) hfaults.symm

theorem mutProcessWaitFor_effect (w : List Stop) {p : Process} (hrun : p.status = .running) :
    wp (mutProcessWaitFor w) (Ended p w) Orderly p := by
  induction w generalizing p with
  | nil => rfl
  | cons s rest ih =>
      have hsuffix : rest <:+ s :: rest := List.suffix_cons s rest
      have hfewer : rest.length < (s :: rest).length := Nat.lt_succ_self _
      cases s with
      | failed errno =>
          simp only [mutProcessWaitFor, wp_bind, wp_update]
          refine wp_mildLog fun _ => wp_mildLog fun _ => wp_mildLog fun _ => ?_
          refine ⟨rfl, hsuffix, hfewer, rfl, ?_, ?_, fun _ => rfl, by simp, by simp⟩
          · show p.status = .exited ↔ _
            rw [hrun]
            exact ⟨by simp, by simp⟩
          · exact ⟨fun _ => rfl, fun _ => hrun⟩
      | exited n | signaled n =>
          simp only [mutProcessWaitFor, mutProcessExited, wp_bind, wp_update]
          refine wp_mildLog fun _ => wp_mildLog fun _ => wp_mildLog fun _ => ?_
          exact ⟨rfl, hsuffix, hfewer, rfl, ⟨fun _ => rfl, fun _ => rfl⟩,
            ⟨by simp, by simp [strays]⟩, by simp, fun _ => rfl, by simp⟩
      | stopped signal t =>
          simp only [mutProcessWaitFor, wp_bind, wp_update]
          rw [wp_ite]
          split
          · rename_i htrap
            have hstrays : strays p.kernel.faults (.stopped signal t :: rest) = false :=
              if_pos htrap
            simp only [wp_bind, wp_update, mutProcessReadPc, wp_mutAssertStatus, if_true]
            refine wp_mono (mutTracePeek_effect ..) ?_ fun _ he => he
            rintro r q hq
            have hstatus : q.status = .stopped := hq.status
            have htext : q.kernel.text = p.kernel.text := by rw [hq.kernel]; rfl
            have hwaits : q.kernel.waits = rest := by rw [hq.kernel]; rfl
            have hexited : ¬ q.status = .exited := by rw [hstatus]; simp
            have hrunning : ¬ q.status = .running := by rw [hstatus]; simp
            cases r with
            | none =>
                refine ⟨htext, hwaits ▸ hsuffix, hwaits ▸ hfewer, hq.resumed,
                  ⟨fun h => absurd h hexited, by simp⟩, ⟨fun h => absurd h hrunning, fun h => ?_⟩,
                  fun _ => rfl, by simp, by simp⟩
                rw [hstrays] at h
                cases h
            | some pc =>
                refine ⟨htext, hwaits ▸ hsuffix, hwaits ▸ hfewer, hq.resumed,
                  ⟨fun h => absurd h hexited, by simp⟩, ⟨fun h => absurd h hrunning, fun h => ?_⟩,
                  fun h => absurd h hrunning, by simp, fun pc' hpc => ?_⟩
                · rw [hstrays] at h
                  cases h
                · have htarget : q.kernel.target = t := by rw [hq.kernel]; rfl
                  have hpc' : pc' = mutPcAdjust pc := by cases hpc; rfl
                  have heip : pc = t.eip := hq.found pc rfl
                  exact ⟨hstatus, t, if_pos htrap, htarget, heip ▸ hpc', hpc'.symm⟩
          · rename_i htrap
            have hending : ending (.stopped signal t :: rest) = ending rest := if_neg htrap
            have hstrays : strays p.kernel.faults (.stopped signal t :: rest) =
                (p.kernel.refuses || strays p.kernel.faults.tail rest) := if_neg htrap
            rw [wp_bind]
            exact passed_effect hrun rfl rfl rfl rfl hending hstrays ih
      | other n t =>
          simp only [mutProcessWaitFor, wp_bind, wp_update]
          refine wp_mildLog fun _ => wp_mildLog fun _ => wp_mildLog fun _ => ?_
          exact passed_effect hrun rfl rfl rfl rfl rfl rfl ih

theorem mutProcessWait_effect (hp : p.status = .running) :
    wp mutProcessWait (Ended p p.kernel.waits) Orderly p := by
  rw [mutProcessWait, wp_bind, wp_mutAssertStatus, if_pos hp]
  exact mutProcessWaitFor_effect p.kernel.waits hp

/-! ## Letting a function run -/

/-- What the function that `p` is about to let run returns. -/
def Process.result (p : Process) : Word :=
  match ending p.kernel.waits with
  | .stopped t => t.eax
  | .never | .failed | .ended => 0

/-- The process `q` after `mut_do_action` let the target of `p` run. -/
structure Done (p : Process) (ok : Bool) (q : Process) : Prop where
  text : ok = true → q.kernel.text = p.kernel.text
  waits : q.kernel.waits <:+ p.kernel.waits
  stopped : ok = true → q.status = .stopped
  ended : q.status = .exited → p.Ends
  result : ok = true → q.kernel.target.eax = p.result
  resumed : ∃ ks, q.resumed = ks ++ p.resumed ∧
    (q.status = .running ↔ ∃ k ∈ ks, k.strays = true)

/-- Nothing was let run. -/
theorem Done.stayed (hstatus : q.status = .stopped) (hwaits : q.kernel.waits = p.kernel.waits)
    (hresumed : q.resumed = p.resumed) : Done p false q where
  text := nofun
  waits := hwaits ▸ List.suffix_rfl
  stopped := nofun
  ended h := by rw [hstatus] at h; cases h
  result := nofun
  resumed := ⟨[], hresumed, by rw [hstatus]; exact ⟨nofun, nofun⟩⟩

theorem mutDoAction_effect (hp : m.Stopped) (ra : Word) (a : Routine) :
    wp (mutDoAction ra a) (fun ok m' => ∃ q, m' = { m with process := q } ∧
      Done m.process ok q) Orderly m := by
  unfold mutDoAction
  rw [wp_bind, wp_liftProcess]
  refine wp_mono (mutProcessBreakpoint_effect hp ra) ?_ fun _ he => he
  rintro r q₁ h₁
  cases r with
  | none => exact ⟨q₁, rfl, .stayed h₁.status h₁.waits h₁.resumed⟩
  | some instr =>
      obtain rfl := h₁.saved instr rfl
      simp only [wp_bind, wp_liftProcess]
      refine wp_mono (mutProcessResume_effect h₁.status) ?_ fun _ he => he
      rintro ok q₂ h₂
      have hwaits : q₂.kernel.waits = m.process.kernel.waits := h₂.waits.trans h₁.waits
      cases ok with
      | false => exact ⟨q₂, rfl, .stayed h₂.status hwaits (h₂.resumed.trans h₁.resumed)⟩
      | true =>
          simp only [Bool.not_true, Bool.false_eq_true, if_false, wp_bind, wp_liftProcess]
          refine wp_mono (mutProcessWait_effect h₂.status) ?_ fun _ he => he
          rintro r q₃ h₃
          have hresumed : ∃ ks, q₃.resumed = ks ++ m.process.resumed ∧
              (q₃.status = .running ↔ ∃ k ∈ ks, k.strays = true) := by
            refine ⟨[q₂.kernel], ?_, ?_⟩
            · rw [h₃.resumed, h₂.resumed, h₁.resumed]
              rfl
            · rw [h₃.running]
              simp only [List.mem_singleton, exists_eq_left, Kernel.strays]
          have hsuffix := h₃.waits
          rw [hwaits] at hsuffix
          cases r with
          | exited =>
              refine ⟨q₃, rfl, by simp, hsuffix, by simp, fun _ => ?_, by simp, hresumed⟩
              have hended := h₃.ended rfl
              rwa [hwaits] at hended
          | failed =>
              exact ⟨q₃, rfl, by simp, hsuffix, by simp, fun h => absurd (h₃.exited.1 h) (by simp),
                by simp, hresumed⟩
          | stopped pc =>
              obtain ⟨hstatus₃, t, ht, htarget, -⟩ := h₃.stopped pc rfl
              have hleft : ¬ q₃.status = .exited := by rw [hstatus₃]; simp
              simp only [wp_ite]
              split
              · simp only [wp_bind, wp_read]
                refine wp_mildMessage fun _ => wp_mildMessage fun _ => wp_mildMessage fun _ =>
                  wp_mildMessage fun _ => wp_mildMessage fun _ => ?_
                exact ⟨_, rfl, by simp, hsuffix, by simp, fun h => absurd h hleft, by simp,
                  hresumed⟩
              · rw [wp_liftProcess]
                refine wp_mono (mutProcessRestore_effect hstatus₃ ra _) ?_ fun _ he => he
                rintro ok q₄ h₄
                have hleft₄ : ¬ q₄.status = .exited := by rw [h₄.status]; simp
                refine ⟨q₄, rfl, fun hok => ?_, h₄.waits ▸ hsuffix, fun _ => h₄.status,
                  fun h => absurd h hleft₄, fun _ => ?_, ?_⟩
                · rw [h₄.text hok, h₃.text, h₂.text, h₁.text rfl,
                    Memory.writeWord_writeWord_self, Memory.writeWord_readWord]
                · rw [hwaits] at ht
                  rw [h₄.target, htarget, Process.result, ht]
                · rw [h₄.resumed, h₄.status, ← hstatus₃]
                  exact hresumed

end MutTracker.Source
