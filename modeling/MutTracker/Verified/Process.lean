import MutTracker.Source.Process
import MutTracker.Verified.Log

/-!
# What the operations on the traced process do

Between two stops the tracker only looks at the traced program and pokes at
it.  `Calm p rs t x q` is what is known of the process `q` at such a point,
some operations after `p`: it is stopped, its log is idle and reports `rs`
more, and the target and its text are `t` and `x`.  Every operation takes one
calm process to another or is refused by `ptrace`, which `Faulted` records.

How the traced program comes back when it is let run is decided by the first
report of `waitpid` that is not passed over; `ending` finds it, and `wait`
brings back nothing else.

## Main results

* `mutTraceRequest_spec` — a request is granted or refused.
* `mutProcessReadArg_spec` and its like, one for each operation.
* `mutProcessWait_spec` — waiting finds the `ending`.
-/

namespace MutTracker.Source

open MutTracker.Logic MutTracker.Logic.Prog

/-- Some `ptrace` call between `p` and `q` was refused. -/
def Process.Faulted (p q : Process) : Prop :=
  ∃ answers errno, answers ++ q.kernel.faults = p.kernel.faults ∧ some errno ∈ answers

/-- The process `q`, some operations after `p` and without a stop between, in
the given status. -/
structure Quiet (status : ProcessStatus) (p : Process) (rs : List Report) (t : Target)
    (x : Memory) (q : Process) : Prop where
  status : q.status = status
  idle : q.log.Idle
  reports : q.log.reports = rs ++ p.log.reports
  pc : q.pc = p.pc
  target : q.kernel.target = t
  text : q.kernel.text = x
  faults : q.kernel.faults <:+ p.kernel.faults
  waits : q.kernel.waits = p.kernel.waits
  resumed : q.resumed = p.resumed

/-- The stopped process `q`, some operations after `p`. -/
abbrev Calm := Quiet .stopped

/-- The operation went well and brought back `v`, or was refused. -/
abbrev Gives {α : Type} (p : Process) (v : α) (C : Process → Prop) :
    Option α → Process → Prop :=
  fun r q => (r = some v ∧ C q) ∨ (r = none ∧ p.Faulted q)

/-- The operation went well, or was refused. -/
abbrev Does (p : Process) (C : Process → Prop) : Bool → Process → Prop :=
  fun r q => (r = true ∧ C q) ∨ (r = false ∧ p.Faulted q)

section

variable {p q : Process} {rs : List Report} {t : Target} {x : Memory}

/-- A refusal is one for whoever started earlier. -/
theorem Process.Faulted.of_suffix {p' : Process} (h : p'.Faulted q)
    (hsuf : p'.kernel.faults <:+ p.kernel.faults) : p.Faulted q := by
  obtain ⟨answers, errno, heq, hmem⟩ := h
  obtain ⟨earlier, hearlier⟩ := hsuf
  exact ⟨earlier ++ answers, errno, by rw [List.append_assoc, heq, hearlier],
    List.mem_append_right earlier hmem⟩

theorem Quiet.refl {status : ProcessStatus} (hstatus : p.status = status)
    (hidle : p.log.Idle) : Quiet status p [] p.kernel.target p.kernel.text p where
  status := hstatus
  idle := hidle
  reports := rfl
  pc := rfl
  target := rfl
  text := rfl
  faults := List.suffix_rfl
  waits := rfl
  resumed := rfl

/-- A whole message keeps the process calm. -/
theorem Quiet.say {status : ProcessStatus} (h : Quiet status p rs t x q) (msg : Message) :
    Quiet status p (msg.report.toList ++ rs) t x { q with log := q.log.say msg } where
  status := h.status
  idle := h.idle.say
  reports := by rw [Log.reports_say, h.reports, List.append_assoc]
  pc := h.pc
  target := h.target
  text := h.text
  faults := h.faults
  waits := h.waits
  resumed := h.resumed

end

variable {p q : Process} {rs : List Report} {t : Target} {x : Memory} {E : Halt → Prop}
  {status : ProcessStatus}

@[simp] theorem wp_liftLog {Q : Unit → Process → Prop} (y : LogM Unit) :
    wp (liftM y : ProcessM Unit) Q E q ↔
      wp y (fun _ l => Q () { q with log := l }) E q.log :=
  wp_focus Process.log (fun l p => { p with log := l }) y

/-! ## Requests -/

/-- A request is granted and makes its change, or is refused. -/
theorem mutTraceRequest_spec (h : Quiet status p rs t x q) (failure : String) (arg : Arg)
    {change : Kernel → Kernel} {t' : Target} {x' : Memory}
    (ht : ∀ k, k.target = t → k.text = x → (change k).target = t' ∧ (change k).text = x')
    (hk : ∀ k, (change k).faults = k.faults ∧ (change k).waits = k.waits) :
    wp (mutTraceRequest failure arg change) (Does p (Quiet status p rs t' x')) E q := by
  simp only [mutTraceRequest, ptrace, wp_bind, wp_read, wp_update, wp_pure]
  cases hfault : q.kernel.faults.head?.join with
  | some errno =>
      have hhead : [some errno] ++ q.kernel.faults.tail = q.kernel.faults := by
        cases hfaults : q.kernel.faults with
        | nil => simp [hfaults] at hfault
        | cons answer rest => simp_all
      simp only [wp_bind, wp_liftLog, wp_mutLogFatal h.idle, wp_mutLogArg, wp_mutLogEnd,
        wp_pure]
      refine .inr ⟨rfl, Process.Faulted.of_suffix ?_ h.faults⟩
      exact ⟨[some errno], errno, hhead, List.mem_singleton_self _⟩
  | none =>
      simp only [wp_bind, wp_update, wp_pure]
      obtain ⟨ht', hx'⟩ := ht { q.kernel with faults := q.kernel.faults.tail } h.target h.text
      obtain ⟨hf, hw⟩ := hk { q.kernel with faults := q.kernel.faults.tail }
      refine .inl ⟨rfl, ?_⟩
      exact
        { status := h.status
          idle := h.idle
          reports := h.reports
          pc := h.pc
          target := ht'
          text := hx'
          faults := hf ▸ (List.tail_suffix _).trans h.faults
          waits := hw.trans h.waits
          resumed := h.resumed }

/-- A request that changes nothing brings back what it looks at. -/
theorem mutTracePeek_spec (h : Calm p rs t x q) (failure : String) (arg : Arg)
    {look : Kernel → Word} {v : Word}
    (hlook : ∀ k, k.target = t → k.text = x → look k = v) :
    wp (mutTracePeek failure arg look) (Gives p v (Calm p rs t x)) E q := by
  simp only [mutTracePeek, wp_bind]
  refine wp_mono (mutTraceRequest_spec h failure arg (fun _ ht hx => ⟨ht, hx⟩)
    fun _ => ⟨rfl, rfl⟩) ?_ fun _ he => he
  rintro _ q' (⟨rfl, h'⟩ | ⟨rfl, hfault⟩)
  · exact .inl ⟨congrArg some (hlook _ h'.target h'.text), h'⟩
  · exact .inr ⟨rfl, hfault⟩

theorem mutTraceReadData_spec (h : Calm p rs t x q) (addr : Word) :
    wp (mutTraceReadData addr) (Gives p (t.data.readWord addr) (Calm p rs t x)) E q :=
  mutTracePeek_spec h _ _ fun k ht _ => by rw [ht]

theorem mutTraceReadText_spec (h : Calm p rs t x q) (addr : Word) :
    wp (mutTraceReadText addr) (Gives p (x.readWord addr) (Calm p rs t x)) E q :=
  mutTracePeek_spec h _ _ fun k _ hx => by rw [hx]

theorem mutTraceReadReg_spec (h : Calm p rs t x q) (reg : Reg) :
    wp (mutTraceReadReg reg) (Gives p (reg.get t) (Calm p rs t x)) E q :=
  mutTracePeek_spec h _ _ fun k ht _ => by rw [ht]

/-- The target with the word at `addr` of its data replaced. -/
def Target.writeData (t : Target) (addr value : Word) : Target :=
  { t with data := t.data.writeWord addr value }

theorem mutTraceWriteData_spec (h : Calm p rs t x q) (addr value : Word) :
    wp (mutTraceWriteData addr value) (Does p (Calm p rs (t.writeData addr value) x)) E q :=
  mutTraceRequest_spec h _ _
    (fun _ ht hx => ⟨by simp only [ht, Target.writeData], hx⟩) fun _ => ⟨rfl, rfl⟩

theorem mutTraceWriteText_spec (h : Calm p rs t x q) (addr value : Word) :
    wp (mutTraceWriteText addr value) (Does p (Calm p rs t (x.writeWord addr value))) E q :=
  mutTraceRequest_spec h _ _ (fun _ ht hx => ⟨ht, by simp only [hx]⟩) fun _ => ⟨rfl, rfl⟩

theorem mutTraceWriteReg_spec (h : Calm p rs t x q) (reg : Reg) (value : Word) :
    wp (mutTraceWriteReg reg value) (Does p (Calm p rs (reg.set value t) x)) E q :=
  mutTraceRequest_spec h _ _ (fun _ ht hx => ⟨by simp only [ht], hx⟩) fun _ => ⟨rfl, rfl⟩

theorem mutTraceContinue_spec (h : Quiet status p rs t x q) (signal : Nat) :
    wp (mutTraceContinue signal) (Does p (Quiet status p rs t x)) E q :=
  mutTraceRequest_spec h _ _ (fun _ ht hx => ⟨ht, hx⟩) fun _ => ⟨rfl, rfl⟩

/-! ## Operations on a stopped process -/

@[simp] theorem wp_mutAssertStatus {Q : Unit → Process → Prop} (status : ProcessStatus)
    (a : Assertion) :
    wp (mutAssertStatus status a) Q E q ↔
      if q.status = status then Q () q else E (.assertion a) := by
  simp [mutAssertStatus]

/-- Argument `n` of the function the target is about to enter. -/
def Target.arg (t : Target) (n : Word) : Word := t.data.readWord (argAddr t.esp n)

/-- The target with argument `n` replaced. -/
def Target.setArg (t : Target) (n v : Word) : Target := t.writeData (argAddr t.esp n) v

/-- Where the function the target is about to enter returns to. -/
def Target.returnAddr (t : Target) : Word := t.data.readWord t.esp

theorem mutProcessReadPc_spec (h : Calm p rs t x q) :
    wp mutProcessReadPc (Gives p t.eip (Calm p rs t x)) E q := by
  simp only [mutProcessReadPc, wp_bind, wp_mutAssertStatus, if_pos h.status]
  exact mutTraceReadReg_spec h .eip

theorem mutProcessWritePc_spec (h : Calm p rs t x q) (pc : Word) :
    wp (mutProcessWritePc pc) (Does p (Calm p rs { t with eip := pc } x)) E q := by
  simp only [mutProcessWritePc, wp_bind, wp_mutAssertStatus, if_pos h.status]
  exact mutTraceWriteReg_spec h .eip pc

theorem mutProcessReadArg_spec (h : Calm p rs t x q) (n : Word) :
    wp (mutProcessReadArg n) (Gives p (t.arg n) (Calm p rs t x)) E q := by
  simp only [mutProcessReadArg, wp_bind, wp_mutAssertStatus, if_pos h.status]
  refine wp_mono (mutTraceReadReg_spec h .esp) ?_ fun _ he => he
  rintro _ q' (⟨rfl, h'⟩ | ⟨rfl, hfault⟩)
  · exact mutTraceReadData_spec h' _
  · exact .inr ⟨rfl, hfault⟩

theorem mutProcessWriteArg_spec (h : Calm p rs t x q) (n v : Word) :
    wp (mutProcessWriteArg n v) (Does p (Calm p rs (t.setArg n v) x)) E q := by
  simp only [mutProcessWriteArg, wp_bind, wp_mutAssertStatus, if_pos h.status]
  refine wp_mono (mutTraceReadReg_spec h .esp) ?_ fun _ he => he
  rintro _ q' (⟨rfl, h'⟩ | ⟨rfl, hfault⟩)
  · exact mutTraceWriteData_spec h' _ v
  · exact .inr ⟨rfl, hfault⟩

theorem mutProcessFunctionReturnAddr_spec (h : Calm p rs t x q) :
    wp mutProcessFunctionReturnAddr (Gives p t.returnAddr (Calm p rs t x)) E q := by
  simp only [mutProcessFunctionReturnAddr, wp_bind, wp_mutAssertStatus, if_pos h.status]
  refine wp_mono (mutTraceReadReg_spec h .esp) ?_ fun _ he => he
  rintro _ q' (⟨rfl, h'⟩ | ⟨rfl, hfault⟩)
  · exact mutTraceReadData_spec h' _
  · exact .inr ⟨rfl, hfault⟩

theorem mutProcessReadResult_spec (h : Calm p rs t x q) :
    wp mutProcessReadResult (Gives p t.eax (Calm p rs t x)) E q := by
  simp only [mutProcessReadResult, wp_bind, wp_mutAssertStatus, if_pos h.status]
  exact mutTraceReadReg_spec h .eax

theorem mutProcessWriteResult_spec (h : Calm p rs t x q) (v : Word) :
    wp (mutProcessWriteResult v) (Does p (Calm p rs { t with eax := v } x)) E q := by
  simp only [mutProcessWriteResult, wp_bind, wp_mutAssertStatus, if_pos h.status]
  exact mutTraceWriteReg_spec h .eax v

/-- The function returns without running: the target pops its return address. -/
def Target.skipped (t : Target) : Target := { t with esp := t.esp + mutArgSize }

theorem mutProcessSkipTo_spec (h : Calm p rs t x q) (pc : Word) :
    wp (mutProcessSkipTo pc) (Does p (Calm { p with pc } rs t.skipped x)) E q := by
  have hpc : Calm { p with pc } rs t x { q with pc } := { h with pc := rfl }
  simp only [mutProcessSkipTo, wp_bind, wp_mutAssertStatus, if_pos h.status, wp_update]
  refine wp_mono (mutTraceReadReg_spec hpc .esp) ?_ fun _ he => he
  rintro _ q' (⟨rfl, h'⟩ | ⟨rfl, hfault⟩)
  · exact mutTraceWriteReg_spec h' .esp _
  · exact .inr ⟨rfl, hfault⟩

theorem mutProcessBreakpoint_spec (h : Calm p rs t x q) (pc : Word) :
    wp (mutProcessBreakpoint pc)
      (Gives p (x.readWord pc) (Calm p rs t (x.writeWord pc mutInstrBp))) E q := by
  simp only [mutProcessBreakpoint, wp_bind, wp_mutAssertStatus, if_pos h.status]
  refine wp_mono (mutTraceReadText_spec h pc) ?_ fun _ he => he
  rintro _ q' (⟨rfl, h'⟩ | ⟨rfl, hfault⟩)
  · simp only [wp_bind]
    refine wp_mono (mutTraceWriteText_spec h' pc mutInstrBp) ?_ fun _ he => he
    rintro _ q'' (⟨rfl, h''⟩ | ⟨rfl, hfault⟩)
    · exact .inl ⟨rfl, h''⟩
    · exact .inr ⟨rfl, hfault⟩
  · exact .inr ⟨rfl, hfault⟩

theorem mutProcessRestore_spec (h : Calm p rs t x q) (pc instr : Word) :
    wp (mutProcessRestore pc instr) (Does p (Calm p rs t (x.writeWord pc instr))) E q := by
  simp only [mutProcessRestore, wp_bind, wp_mutAssertStatus, if_pos h.status]
  exact mutTraceWriteText_spec h pc instr

/-! ## Words and ranges of data -/

theorem mutProcessReadWord_spec (h : Calm p rs t x q) (addr : Word)
    (hE : mutExecAddrAligned addr = false → E (.assertion .aligned)) :
    wp (mutProcessReadWord addr) (Gives p (t.data.readWord addr) (Calm p rs t x)) E q := by
  simp only [mutProcessReadWord, wp_bind, wp_mutAssertStatus, if_pos h.status, wp_mutAssert]
  split
  · exact mutTraceReadData_spec h addr
  · rename_i hal
    exact hE (by simpa using hal)

theorem mutProcessWriteWord_spec (h : Calm p rs t x q) (addr v : Word)
    (hE : mutExecAddrAligned addr = false → E (.assertion .aligned)) :
    wp (mutProcessWriteWord addr v) (Does p (Calm p rs (t.writeData addr v) x)) E q := by
  simp only [mutProcessWriteWord, wp_bind, wp_mutAssertStatus, if_pos h.status, wp_mutAssert]
  split
  · exact mutTraceWriteData_spec h addr v
  · rename_i hal
    exact hE (by simpa using hal)

/-- What the whole words of `mut_process_memset` leave. -/
def Target.setWords (pattern : Word) : Nat → Word → Target → Target
  | 0, _, t => t
  | nwords + 1, addr, t => setWords pattern nwords (addr + 4) (t.writeData addr pattern)

/-- What `mut_process_memset` leaves. -/
def Target.memset (t : Target) (addr c n : Word) : Target :=
  let pattern := c ||| (c <<< 8) ||| (c <<< 16) ||| (c <<< 24)
  let t := t.setWords pattern (n.toNat / 4) addr
  let addr := addr + BitVec.ofNat 32 (4 * (n.toNat / 4))
  if n.toNat % 4 = 0 then t
  else
    t.writeData addr
      (pattern ||| (t.data.readWord addr &&& mutProcessByteMask (n.toNat % 4)))

theorem mutProcessMemsetWords_spec (h : Calm p rs t x q) (pattern : Word) (nwords : Nat)
    (addr : Word) :
    wp (mutProcessMemsetWords pattern nwords addr)
      (Does p (Calm p rs (t.setWords pattern nwords addr) x)) E q := by
  induction nwords generalizing addr t q with
  | zero => exact .inl ⟨rfl, h⟩
  | succ nwords ih =>
      simp only [mutProcessMemsetWords, wp_bind]
      refine wp_mono (mutTraceWriteData_spec h addr pattern) ?_ fun _ he => he
      rintro _ q' (⟨rfl, h'⟩ | ⟨rfl, hfault⟩)
      · exact ih h' (addr + 4)
      · exact .inr ⟨rfl, hfault⟩

theorem mutProcessMemset_spec (h : Calm p rs t x q) (addr c n : Word)
    (hE : mutExecAddrAligned addr = false → E (.assertion .aligned)) :
    wp (mutProcessMemset addr c n) (Does p (Calm p rs (t.memset addr c n) x)) E q := by
  simp only [mutProcessMemset, wp_bind, wp_mutAssertStatus, if_pos h.status, wp_mutAssert]
  split
  · refine wp_mono (mutProcessMemsetWords_spec h _ (n.toNat / 4) addr) ?_ fun _ he => he
    rintro _ q' (⟨rfl, h'⟩ | ⟨rfl, hfault⟩)
    · by_cases hbytes : n.toNat % 4 = 0
      · simp only [Bool.not_true, Bool.false_eq_true, if_false, if_pos hbytes, wp_pure]
        refine .inl ⟨rfl, ?_⟩
        simpa only [Target.memset, if_pos hbytes] using h'
      · simp only [Bool.not_true, Bool.false_eq_true, if_false, if_neg hbytes, wp_bind]
        refine wp_mono (mutTraceReadData_spec h' _) ?_ fun _ he => he
        rintro _ q'' (⟨rfl, h''⟩ | ⟨rfl, hfault⟩)
        · simpa only [Target.memset, if_neg hbytes] using mutTraceWriteData_spec h'' _ _
        · exact .inr ⟨rfl, hfault⟩
    · exact .inr ⟨rfl, hfault⟩
  · rename_i hal
    exact hE (by simpa using hal)

/-- What the whole words of `mut_process_memcpy` leave. -/
def Target.copyWords : Nat → Word → Word → Target → Target
  | 0, _, _, t => t
  | nwords + 1, dest, src, t =>
      copyWords nwords (dest + 4) (src + 4) (t.writeData dest (t.data.readWord src))

/-- What `mut_process_memcpy` leaves. -/
def Target.memcpy (t : Target) (dest src n : Word) : Target :=
  let t := t.copyWords (n.toNat / 4) dest src
  let dest := dest + BitVec.ofNat 32 (4 * (n.toNat / 4))
  let src := src + BitVec.ofNat 32 (4 * (n.toNat / 4))
  if n.toNat % 4 = 0 then t
  else
    t.writeData dest
      (t.data.readWord src ||| (t.data.readWord dest &&& mutProcessByteMask (n.toNat % 4)))

theorem mutProcessMemcpyWords_spec (h : Calm p rs t x q) (nwords : Nat) (dest src : Word) :
    wp (mutProcessMemcpyWords nwords dest src)
      (Does p (Calm p rs (t.copyWords nwords dest src) x)) E q := by
  induction nwords generalizing dest src t q with
  | zero => exact .inl ⟨rfl, h⟩
  | succ nwords ih =>
      simp only [mutProcessMemcpyWords, wp_bind]
      refine wp_mono (mutTraceReadData_spec h src) ?_ fun _ he => he
      rintro _ q' (⟨rfl, h'⟩ | ⟨rfl, hfault⟩)
      · simp only [wp_bind]
        refine wp_mono (mutTraceWriteData_spec h' dest _) ?_ fun _ he => he
        rintro _ q'' (⟨rfl, h''⟩ | ⟨rfl, hfault⟩)
        · exact ih h'' (dest + 4) (src + 4)
        · exact .inr ⟨rfl, hfault⟩
      · exact .inr ⟨rfl, hfault⟩

theorem mutProcessMemcpy_spec (h : Calm p rs t x q) (dest src n : Word)
    (hE : mutExecAddrAligned dest = false ∨ mutExecAddrAligned src = false →
      E (.assertion .aligned)) :
    wp (mutProcessMemcpy dest src n) (Does p (Calm p rs (t.memcpy dest src n) x)) E q := by
  simp only [mutProcessMemcpy, wp_bind, wp_mutAssertStatus, if_pos h.status, wp_mutAssert]
  split
  · split
    · refine wp_mono (mutProcessMemcpyWords_spec h (n.toNat / 4) dest src) ?_ fun _ he => he
      rintro _ q₁ (⟨rfl, h₁⟩ | ⟨rfl, hfault⟩)
      · by_cases hbytes : n.toNat % 4 = 0
        · simp only [Bool.not_true, Bool.false_eq_true, if_false, if_pos hbytes, wp_pure]
          refine .inl ⟨rfl, ?_⟩
          simpa only [Target.memcpy, if_pos hbytes] using h₁
        · simp only [Bool.not_true, Bool.false_eq_true, if_false, if_neg hbytes, wp_bind]
          refine wp_mono (mutTraceReadData_spec h₁ _) ?_ fun _ he => he
          rintro _ q₂ (⟨rfl, h₂⟩ | ⟨rfl, hfault⟩)
          · simp only [wp_bind]
            refine wp_mono (mutTraceReadData_spec h₂ _) ?_ fun _ he => he
            rintro _ q₃ (⟨rfl, h₃⟩ | ⟨rfl, hfault⟩)
            · simpa only [Target.memcpy, if_neg hbytes] using mutTraceWriteData_spec h₃ _ _
            · exact .inr ⟨rfl, hfault⟩
          · exact .inr ⟨rfl, hfault⟩
      · exact .inr ⟨rfl, hfault⟩
    · rename_i hal
      exact hE (.inr (by simpa using hal))
  · rename_i hal
    exact hE (.inl (by simpa using hal))

/-! ## Running and waiting -/

/-- How the traced program comes back: the first report of `waitpid` that
`mut_process_wait` does not pass over. -/
inductive Ending where
  | never
  | failed
  | ended
  | stopped (t : Target)

def ending : List Stop → Ending
  | [] => .never
  | .failed _ _ :: _ => .failed
  | .exited _ :: _ => .ended
  | .signaled _ :: _ => .ended
  | .stopped signal t :: rest => if signal = sigtrap then .stopped t else ending rest
  | .other _ _ :: rest => ending rest

/-- The process `q` when the target has come back to `p` as `t`. -/
structure Back (p : Process) (t : Target) (q : Process) : Prop where
  status : q.status = .stopped
  idle : q.log.Idle
  reports : q.log.reports = p.log.reports
  pc : q.pc = mutPcAdjust t.eip
  target : q.kernel.target = t
  text : q.kernel.text = p.kernel.text
  faults : q.kernel.faults <:+ p.kernel.faults
  resumed : q.resumed = p.resumed

/-- What waiting from `p` for one of the reports `w` brings back. -/
def Waited (p : Process) (w : List Stop) : WaitStatus → Process → Prop
  | .stopped pc, q =>
      ∃ t, ending w = .stopped t ∧ pc = mutPcAdjust t.eip ∧ Back p t q ∧
        q.kernel.waits <:+ w ∧ q.kernel.waits.length < w.length
  | .exited, q =>
      ending w = .ended ∧ q.status = .exited ∧ q.log.Idle ∧ q.log.reports = p.log.reports
  | .failed, q => (ending w = .failed ∧ q.status ≠ .exited) ∨ p.Faulted q

/-- The process with a report taken off, which brought the target `t`. -/
def Process.took (p : Process) (rest : List Stop) (t : Target) : Process :=
  { p with kernel := { p.kernel with waits := rest, target := t } }

/-- Waiting on from `p₂` is waiting from `p` when a report was passed over. -/
theorem Waited.passed {p p₁ p₂ : Process} {s : Stop} {w : List Stop} {r : WaitStatus}
    (h : Waited p₂ w r q) (hq : Quiet .running p₁ rs t p.kernel.text p₂) (hrs : rs = [])
    (hreports : p₁.log.reports = p.log.reports) (hfaults : p₁.kernel.faults = p.kernel.faults)
    (hresumed : p₁.resumed = p.resumed) (hending : ending (s :: w) = ending w) :
    Waited p (s :: w) r q := by
  subst hrs
  have hsame : p₂.log.reports = p.log.reports := hq.reports.trans hreports
  have hsuf : p₂.kernel.faults <:+ p.kernel.faults := hfaults ▸ hq.faults
  cases r with
  | stopped pc =>
      obtain ⟨t, ht, hpc, hback, hwaits, hlen⟩ := h
      refine ⟨t, hending.trans ht, hpc, ?_, hwaits.trans (List.suffix_cons s w),
        Nat.lt_succ_of_lt hlen⟩
      exact
        { status := hback.status
          idle := hback.idle
          reports := hback.reports.trans hsame
          pc := hback.pc
          target := hback.target
          text := hback.text.trans hq.text
          faults := hback.faults.trans hsuf
          resumed := hback.resumed.trans (hq.resumed.trans hresumed) }
  | exited =>
      obtain ⟨hend, hstatus, hidle, hrep⟩ := h
      exact ⟨hending.trans hend, hstatus, hidle, hrep.trans hsame⟩
  | failed =>
      exact h.imp (fun h => ⟨hending.trans h.1, h.2⟩) (·.of_suffix hsuf)

/-- The loop passes over reports without losing track of them. -/
theorem mutProcessWaitFor_spec (w : List Stop) {p : Process} (hrun : p.status = .running)
    (hidle : p.log.Idle) :
    wp (mutProcessWaitFor w) (Waited p w) (fun e => e = .blocked ∧ ending w = .never) p := by
  induction w generalizing p with
  | nil => exact ⟨rfl, rfl⟩
  | cons s rest ih =>
      cases s with
      | failed errno =>
          simp only [mutProcessWaitFor, wp_bind, wp_update, wp_liftLog, wp_mutLogFatal hidle,
            mutLogInt, wp_mutLogArg, wp_mutLogEnd, wp_pure]
          exact .inl ⟨rfl, by simp [hrun]⟩
      | exited n =>
          simp only [mutProcessWaitFor, mutProcessExited, wp_bind, wp_update, wp_liftLog,
            mutLogInfo, mutLogInt, wp_mutLogBegin hidle, wp_mutLogArg, wp_mutLogEnd, wp_pure]
          exact ⟨rfl, rfl, hidle.say, by simp [Message.report]⟩
      | signaled n =>
          simp only [mutProcessWaitFor, mutProcessExited, wp_bind, wp_update, wp_liftLog,
            mutLogInfo, mutLogInt, wp_mutLogBegin hidle, wp_mutLogArg, wp_mutLogEnd, wp_pure]
          exact ⟨rfl, rfl, hidle.say, by simp [Message.report]⟩
      | stopped signal t =>
          simp only [mutProcessWaitFor, wp_bind, wp_update, wp_ite]
          split
          · rename_i htrap
            refine wp_mono (mutProcessReadPc_spec (.refl rfl hidle)) ?_ fun _ he => he
            rintro _ q (⟨rfl, h⟩ | ⟨rfl, hfault⟩)
            · simp only [wp_bind, wp_update, wp_pure]
              refine ⟨t, if_pos htrap, rfl, ?_, ?_, ?_⟩
              · exact
                  { status := h.status
                    idle := h.idle
                    reports := h.reports
                    pc := rfl
                    target := h.target
                    text := h.text
                    faults := h.faults
                    resumed := h.resumed }
              · exact h.waits ▸ List.suffix_cons _ rest
              · exact h.waits ▸ Nat.lt_succ_self rest.length
            · exact .inr hfault
          · rename_i htrap
            have hquiet : Quiet .running (p.took rest t) [] t p.kernel.text (p.took rest t) :=
              .refl hrun hidle
            refine wp_mono (mutTraceContinue_spec hquiet signal) ?_ fun _ he => he
            rintro _ q (⟨rfl, h⟩ | ⟨rfl, hfault⟩)
            · have hpass : ending (.stopped signal t :: rest) = ending rest := if_neg htrap
              refine wp_mono (ih h.status h.idle) (fun _ _ hw => ?_) fun e he => ?_
              · exact hw.passed h rfl rfl rfl rfl hpass
              · exact ⟨he.1, hpass.trans he.2⟩
            · exact .inr hfault
      | other n t =>
          simp only [mutProcessWaitFor, wp_bind, wp_update, wp_liftLog, mutLogInfo,
            mutLogUintHex, wp_mutLogBegin hidle, wp_mutLogArg, wp_mutLogEnd]
          have hquiet : Quiet .running (p.took rest t) [] t p.kernel.text (p.took rest t) :=
            .refl hrun hidle
          refine wp_mono (mutTraceContinue_spec (hquiet.say _) 0) ?_ fun _ he => he
          rintro _ q (⟨rfl, h⟩ | ⟨rfl, hfault⟩)
          · refine wp_mono (ih h.status h.idle) (fun _ _ hw => ?_) fun e he => he
            exact hw.passed h (by simp [Message.report]) rfl rfl rfl rfl
          · exact .inr hfault

/-- Waiting while the target runs finds the `ending` of the reports to come. -/
theorem mutProcessWait_spec (hrun : p.status = .running) (hidle : p.log.Idle) :
    wp mutProcessWait (Waited p p.kernel.waits)
      (fun e => e = .blocked ∧ ending p.kernel.waits = .never) p := by
  simp only [mutProcessWait, wp_bind, wp_mutAssertStatus, if_pos hrun, wp_read]
  exact mutProcessWaitFor_spec p.kernel.waits hrun hidle

/-- The kernel `k` when the target `t` was let run from where `p` had stopped, in the
text `x` and before any report to come. -/
structure Kernel.Resumes (k : Kernel) (p : Process) (t : Target) (x : Memory) : Prop where
  target : k.target = { t with eip := p.pc }
  text : k.text = x
  waits : k.waits = p.kernel.waits

/-- The process `q` just after the calm `p` let its target `t` run. -/
structure Away (p : Process) (rs : List Report) (t : Target) (x : Memory) (q : Process) :
    Prop where
  status : q.status = .running
  idle : q.log.Idle
  reports : q.log.reports = rs ++ p.log.reports
  text : q.kernel.text = x
  faults : q.kernel.faults <:+ p.kernel.faults
  waits : q.kernel.waits = p.kernel.waits
  resumed : ∃ k, q.resumed = k :: p.resumed ∧ k.Resumes p t x

theorem mutProcessResume_spec (h : Calm p rs t x q) :
    wp mutProcessResume (Does p (Away p rs t x)) E q := by
  simp only [mutProcessResume, wp_bind, wp_mutAssertStatus, if_pos h.status, wp_read]
  refine wp_mono (mutProcessWritePc_spec h q.pc) ?_ fun _ he => he
  rintro _ q₁ (⟨rfl, h₁⟩ | ⟨rfl, hfault⟩)
  · simp only [Bool.not_true, Bool.false_eq_true, if_false, wp_bind]
    refine wp_mono (mutTraceContinue_spec h₁ 0) ?_ fun _ he => he
    rintro _ q₂ (⟨rfl, h₂⟩ | ⟨rfl, hfault⟩)
    · refine .inl ⟨rfl, ?_⟩
      exact
        { status := rfl
          idle := h₂.idle
          reports := h₂.reports
          text := h₂.text
          faults := h₂.faults
          waits := h₂.waits
          resumed := ⟨q₂.kernel, by simp only [h₂.resumed], h.pc ▸ h₂.target, h₂.text, h₂.waits⟩ }
    · exact .inr ⟨rfl, hfault⟩
  · exact .inr ⟨rfl, hfault⟩

end MutTracker.Source
