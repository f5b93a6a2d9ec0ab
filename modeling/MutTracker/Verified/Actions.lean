import MutTracker.Source.Actions
import MutTracker.Verified.Resources

/-!
# What the handlers share

Letting an intercepted function run, getting and giving up a backtrace,
logging and counting.

## Main results

* `mutDoAction_spec` — the function runs and comes back, or the process is
  lost in one of the foreseen ways.
* `mutProduceBacktrace_spec`, `closeBacktrace_spec` — the handler's own
  reference to its backtrace.
* `mutReportUsage_spec` — a report of the usage changes the log alone.
-/

namespace MutTracker.Source

open MutTracker.Logic MutTracker.Logic.Prog MutTracker.Logic.Keyed

variable {m m₀ : Mut} {p : Process} {rs : List Report} {t : Target} {x : Memory}
  {E : Halt → Prop} {flags : Control} {bt : Option Nat} {refs : List Nat}

/-! ## Letting a function run -/

/-- How the function that returns to `ra` comes back when the target of `p` is
let run, as the traced program and the kernel decide it. -/
def Process.returning (p : Process) (ra : Word) : Option Target :=
  match ending p.kernel.waits with
  | .stopped t => if mutPcAdjust t.eip = ra then some t else none
  | _ => none

/-- The traced program ends while it is let run from `p`. -/
def Process.Ends (p : Process) : Prop := ending p.kernel.waits = .ended

/-- The traced program never stops again once it is let run from `p`. -/
def Process.Hangs (p : Process) : Prop := ending p.kernel.waits = .never

/-- The text while the function that returns to `ra` runs. -/
def guarded (x : Memory) (ra : Word) : Memory := x.writeWord ra mutInstrBp

/-- The process `q` when the function that `p` let run on the target `t` has
come back to `ra` as `t'`. -/
structure Returned (p : Process) (rs : List Report) (t t' : Target) (x : Memory) (ra : Word)
    (q : Process) : Prop where
  status : q.status = .stopped
  idle : q.log.Idle
  reports : q.log.reports = rs ++ p.log.reports
  pc : q.pc = ra
  target : q.kernel.target = t'
  text : q.kernel.text = x
  faults : q.kernel.faults <:+ p.kernel.faults
  waits : q.kernel.waits <:+ p.kernel.waits
  resumed : ∃ k, q.resumed = k :: p.resumed ∧ k.Resumes p t (guarded x ra)

/-- What letting a function run that returns to `ra` comes to. -/
def Acted (p : Process) (rs : List Report) (t : Target) (x : Memory) (ra : Word)
    (ok : Bool) (q : Process) : Prop :=
  (ok = true ∧ ∃ t', p.returning ra = some t' ∧ Returned p rs t t' x ra q) ∨
    ok = false ∧
      (p.Faulted q ∨ (p.returning ra = none ∧ (q.status = .exited → p.Ends)))

theorem mutDoAction_spec (h : Calm p rs t x m.process) (ra : Word) (a : Routine)
    (hE : p.Hangs → E .blocked) :
    wp (mutDoAction ra a)
      (fun ok m' => ∃ q, m' = { m with process := q } ∧ Acted p rs t x ra ok q) E m := by
  unfold mutDoAction
  simp only [wp_bind, wp_liftProcess]
  refine wp_mono (mutProcessBreakpoint_spec h ra) ?_ fun _ he => he
  rintro _ q₁ (⟨rfl, h₁⟩ | ⟨rfl, hfault⟩)
  swap
  · exact ⟨q₁, rfl, .inr ⟨rfl, .inl hfault⟩⟩
  simp only [wp_bind, wp_liftProcess]
  refine wp_mono (mutProcessResume_spec h₁) ?_ fun _ he => he
  rintro _ q₂ (⟨rfl, h₂⟩ | ⟨rfl, hfault⟩)
  swap
  · exact ⟨q₂, rfl, .inr ⟨rfl, .inl hfault⟩⟩
  simp only [Bool.not_true, Bool.false_eq_true, if_false, wp_bind, wp_liftProcess]
  have hwaits : q₂.kernel.waits = p.kernel.waits := h₂.waits
  refine wp_mono (mutProcessWait_spec h₂.status h₂.idle) ?_ ?_
  · intro r q₃ hw
    rw [hwaits] at hw
    cases r with
    | exited =>
        obtain ⟨hend, -⟩ := hw
        exact ⟨q₃, rfl, .inr ⟨rfl, .inr ⟨by simp [Process.returning, hend], fun _ => hend⟩⟩⟩
    | failed =>
        refine ⟨q₃, rfl, .inr ⟨rfl, ?_⟩⟩
        rcases hw with ⟨hend, hstatus⟩ | hfault
        · exact .inr ⟨by simp [Process.returning, hend], fun hexit => absurd hexit hstatus⟩
        · exact .inl (hfault.of_suffix h₂.faults)
    | stopped pc =>
        obtain ⟨t', hend, rfl, hback, hsuf, -⟩ := hw
        simp only [wp_ite]
        split
        · rename_i hne
          simp only [wp_bind, wp_read, wp_liftLogMut, wp_mutLogFatal hback.idle, mutLogString,
            mutLogExecAddr, wp_mutLogArg, wp_mutLogEnd, wp_pure]
          refine ⟨_, rfl, .inr ⟨rfl, .inr ⟨?_, fun hexit => ?_⟩⟩⟩
          · simp only [Process.returning, hend, if_neg hne]
          · exact absurd (hback.status.symm.trans hexit) (by decide)
        · rename_i heq
          have hret : p.returning ra = some t' := by
            simp only [Process.returning, hend, if_pos (not_not.1 heq)]
          have hcalm : Calm q₃ [] q₃.kernel.target q₃.kernel.text q₃ :=
            .refl hback.status hback.idle
          have hfaults : q₃.kernel.faults <:+ p.kernel.faults := hback.faults.trans h₂.faults
          rw [wp_liftProcess]
          refine wp_mono (mutProcessRestore_spec hcalm ra (x.readWord ra)) ?_ fun _ he => he
          rintro _ q₄ (⟨rfl, h₄⟩ | ⟨rfl, hfault⟩)
          · obtain ⟨k, hresumed, hk⟩ := h₂.resumed
            refine ⟨q₄, rfl, .inl ⟨rfl, t', hret, ?_⟩⟩
            exact
              { status := h₄.status
                idle := h₄.idle
                reports := h₄.reports.trans (hback.reports.trans h₂.reports)
                pc := h₄.pc.trans (hback.pc.trans (not_not.1 heq))
                target := h₄.target.trans hback.target
                text := by
                  rw [h₄.text, hback.text, h₂.text, Memory.writeWord_writeWord_self,
                    Memory.writeWord_readWord]
                faults := h₄.faults.trans hfaults
                waits := h₄.waits ▸ hsuf
                resumed := ⟨k, h₄.resumed.trans (hback.resumed.trans hresumed), hk⟩ }
          · exact ⟨q₄, rfl, .inr ⟨rfl, .inl (hfault.of_suffix hfaults)⟩⟩
  · rintro _ ⟨rfl, hend⟩
    exact hE (by rw [Process.Hangs, ← hwaits]; exact hend)

/-! ## Backtraces of the handler -/

/-- The handler gets a backtrace of its own when backtraces are on. -/
theorem mutProduceBacktrace_spec (h : Calm p rs t x m.process) (hsound : Sound m.mem refs) :
    wp (mutProduceBacktrace flags)
      (fun r m' =>
        (∃ bt, r = some bt ∧ flags.Keeps bt ∧ Kept m (bt.toList ++ refs) m' ∧
          Calm p rs t x m'.process) ∨
        r = none ∧ Kept m refs m' ∧
          (p.Faulted m'.process ∨ (m.mem.Failed m'.mem ∧ m'.process.status = .stopped))) E m := by
  unfold mutProduceBacktrace
  rw [wp_ite]
  split
  · rename_i hon
    rw [wp_bind]
    refine wp_mono (mutBacktraceOpen_spec hsound h) ?_ fun _ he => he
    rintro _ m₁ (⟨k, rfl, hkept₁, h₁⟩ | ⟨rfl, hkept₁, hfull⟩)
    · simp only [wp_bind]
      refine wp_mono (mutProcessFunctionBacktrace_spec hkept₁ h₁ List.mem_cons_self) ?_
        fun _ he => he
      rintro ok m₂ ⟨hkept₂, ⟨rfl, h₂⟩ | ⟨rfl, hfault⟩⟩
      · exact .inl ⟨some k, rfl, hon.symm, hkept₂, h₂⟩
      · simp only [Bool.not_false, if_true, wp_bind]
        refine wp_mono (mutBacktraceClose_spec hkept₂.sound) ?_ fun _ he => he
        rintro _ _ ⟨μ, rfl, hlater, hsound'⟩
        exact .inr ⟨rfl, hkept₂.mem hlater hsound', .inl hfault⟩
    · exact .inr ⟨rfl, hkept₁, .inr hfull⟩
  · rename_i hoff
    exact .inl ⟨none, rfl, (Bool.eq_false_iff.2 hoff).symm, .refl hsound, h⟩

/-- The handler's backtrace is closed when backtraces are on. -/
theorem closeBacktrace_spec (hbt : flags.Keeps bt) (hsound : Sound m.mem (bt.toList ++ refs)) :
    wp (whenever flags.backtrace (mutBacktraceClose bt))
      (fun _ m' => ∃ μ, m' = { m with mem := μ } ∧ m.mem.Later μ ∧ Sound μ refs) E m := by
  rw [wp_whenever, ← hbt]
  cases bt with
  | none => exact ⟨_, rfl, .refl _, hsound⟩
  | some k => exact mutBacktraceClose_spec hsound

/-- A handler gives up its backtrace and returns zero. -/
theorem freeBacktrace_spec {Q : Bool → Mut → Prop} (hbt : flags.Keeps bt)
    (hsound : Sound m.mem (bt.toList ++ refs))
    (hQ : ∀ μ, m.mem.Later μ → Sound μ refs → Q false { m with mem := μ }) :
    wp (freeBacktrace flags bt) Q E m := by
  unfold freeBacktrace
  rw [wp_bind]
  refine wp_mono (closeBacktrace_spec hbt hsound) ?_ fun _ he => he
  rintro _ _ ⟨μ, rfl, hlater, hsound'⟩
  exact hQ μ hlater hsound'

/-! ## Alignment -/

theorem aligned_iff (a : Word) : mutExecAddrAligned a = true ↔ a.toNat % 4 = 0 := by
  have hmask : (a &&& 3).toNat = a.toNat % 4 := by
    rw [BitVec.toNat_and]
    exact Nat.and_two_pow_sub_one_eq_mod a.toNat 2
  rw [mutExecAddrAligned, beq_iff_eq, ← BitVec.toNat_inj, hmask]
  rfl

theorem aligned_add {a n : Word} (ha : mutExecAddrAligned a = true)
    (hn : mutExecAddrAligned n = true) : mutExecAddrAligned (a + n) = true := by
  rw [aligned_iff] at *
  rw [BitVec.toNat_add]
  omega

theorem aligned_sub {a n : Word} (ha : mutExecAddrAligned a = true)
    (hn : mutExecAddrAligned n = true) : mutExecAddrAligned (a - n) = true := by
  rw [aligned_iff] at *
  rw [BitVec.toNat_sub]
  omega

theorem aligned_roundUp (size : Word) : mutExecAddrAligned (mutRoundUp size) = true := by
  refine aligned_add ?_ (by decide)
  have hzero : ~~~(mutZoneSize - 1) &&& (3 : Word) = 0 := by decide
  rw [mutExecAddrAligned, BitVec.and_assoc, hzero]
  simp

theorem aligned_zones (n : Word) : mutExecAddrAligned (n * mutZoneSize) = true := by
  have hsize : mutZoneSize.toNat = 4 := rfl
  rw [aligned_iff, BitVec.toNat_mul, hsize]
  omega

/-! ## Zones -/

/-- What marking a block of `size` at `addr` leaves: both marks are written and
the function's result is the object between them. -/
def Target.zoned (t : Target) (addr size : Word) : Target :=
  { (t.writeData addr mutZoneValue).writeData (addr + size - mutZoneSize) mutZoneValue with
    eax := addr + mutZoneSize }

theorem mutInstallCheckZones_spec (h : Calm p rs t x m.process) (addr size : Word)
    (hE : mutExecAddrAligned addr = false ∨
      mutExecAddrAligned (addr + size - mutZoneSize) = false → E (.assertion .aligned)) :
    wp (mutInstallCheckZones addr size)
      (fun r m' => ∃ q, m' = { m with process := q } ∧
        Gives p (addr + mutZoneSize) (Calm p rs (t.zoned addr size) x) r q) E m := by
  unfold mutInstallCheckZones
  simp only [wp_bind, wp_liftProcess]
  refine wp_mono (mutProcessWriteWord_spec h addr mutZoneValue fun hal => hE (.inl hal)) ?_
    fun _ he => he
  rintro _ q₁ (⟨rfl, h₁⟩ | ⟨rfl, hfault⟩)
  swap
  · exact ⟨q₁, rfl, .inr ⟨rfl, hfault⟩⟩
  simp only [Bool.not_true, Bool.false_eq_true, if_false, wp_bind, wp_liftProcess]
  refine wp_mono (mutProcessWriteWord_spec h₁ _ mutZoneValue fun hal => hE (.inr hal)) ?_
    fun _ he => he
  rintro _ q₂ (⟨rfl, h₂⟩ | ⟨rfl, hfault⟩)
  swap
  · exact ⟨q₂, rfl, .inr ⟨rfl, hfault⟩⟩
  simp only [Bool.not_true, Bool.false_eq_true, if_false, wp_bind, wp_liftProcess]
  refine wp_mono (mutProcessWriteResult_spec h₂ _) ?_ fun _ he => he
  rintro _ q₃ (⟨rfl, h₃⟩ | ⟨rfl, hfault⟩)
  · exact ⟨q₃, rfl, .inl ⟨rfl, h₃⟩⟩
  · exact ⟨q₃, rfl, .inr ⟨rfl, hfault⟩⟩

/-- The address of the object a producer's function returned at `addr`. -/
def objectAt (flags : Control) (addr : Word) : Word :=
  if flags.check then addr + mutZoneSize else addr

/-- The target of a producer when its function has returned at `addr`. -/
def Target.produced (flags : Control) (t : Target) (addr size : Word) : Target :=
  if flags.check then t.zoned addr size else t

theorem installZonesIfChecking_spec (h : Calm p rs t x m.process) (addr size : Word)
    (hE : flags.check = true → (mutExecAddrAligned addr = false ∨
      mutExecAddrAligned (addr + size - mutZoneSize) = false) → E (.assertion .aligned)) :
    wp (installZonesIfChecking flags addr size)
      (fun r m' => ∃ q, m' = { m with process := q } ∧
        Gives p (objectAt flags addr) (Calm p rs (t.produced flags addr size) x) r q) E m := by
  unfold installZonesIfChecking objectAt Target.produced
  cases hcheck : flags.check with
  | false => exact ⟨m.process, rfl, .inl ⟨rfl, h⟩⟩
  | true => exact mutInstallCheckZones_spec h addr size (hE hcheck)

/-! ## Reporting the usage -/

/-- The name of an action that is there. -/
@[simp] theorem wp_actionName {Q : String → Mut → Prop} (a : Routine) :
    wp (Mut.actionName (some a)) Q E m ↔ Q (m.actions a).name m := Iff.rfl

/-- A resource of the usage report is so many arguments. -/
theorem mutReportResource_spec {l : Log} {msg : Message} {r : Resource} (hok : r.Ok flags)
    (hsound : Sound m.mem refs) (hrefs : ∀ k ∈ r.refs, k ∈ refs) :
    wp (mutReportResource flags r) (fun _ => Extends m l msg) E (m.withLog (l.start msg)) := by
  obtain ⟨a, ha⟩ := Option.isSome_iff_exists.1 hok.produced
  simp only [mutReportResource, mutResourceProducerName, ha, wp_bind, wp_actionName,
    wp_liftLogMut, withLog_log, mutLogString, mutLogExecAddr, mutLogUlong, wp_mutLogArg]
  refine wp_mono (logBacktrace_spec (m := m) hsound fun hon => ?_) ?_ fun _ he => he
  · obtain ⟨k, hk⟩ := Option.isSome_iff_exists.1 (hok.producerBacktrace.trans hon)
    exact ⟨k, hrefs k (by simp [Resource.refs, hk]), hk⟩
  · rintro _ _ ⟨more, rfl⟩
    refine ⟨[.string (m.actions a).name, .execAddr r.addr, .ulong r.size] ++ more, ?_⟩
    simp only [List.append_assoc, List.cons_append, List.nil_append]
    rfl

/-- A loop inside a message is so many arguments when each of its rounds is. -/
theorem forEachResource_args {all : Bool} {body : Resource → MutM Unit} {l : Log}
    (elems : List Resource)
    (hbody : ∀ r ∈ elems, ∀ msg : Message,
      wp (body r) (fun _ => Extends m l msg) E (m.withLog (l.start msg))) (msg : Message) :
    wp (forEachResource all body elems) (fun _ => Extends m l msg) E
      (m.withLog (l.start msg)) := by
  induction elems generalizing msg with
  | nil => exact ⟨[], by simp⟩
  | cons r elems ih =>
      have ih := ih fun s hs => hbody s (List.mem_cons_of_mem r hs)
      simp only [forEachResource, wp_bind, wp_whenever]
      split
      · refine wp_mono (hbody r List.mem_cons_self msg) ?_ fun _ he => he
        rintro _ _ ⟨more, rfl⟩
        refine wp_mono (ih _) ?_ fun _ he => he
        rintro _ _ ⟨more', rfl⟩
        exact ⟨more ++ more', by simp⟩
      · exact ih msg

theorem mutReportUsage_spec {held : List Nat} (hbooks : Books flags m.resources m.mem held)
    (hidle : m.process.log.Idle) :
    wp (mutReportUsage flags) (fun _ m' => Logs m [] m') E m := by
  have hbody : ∀ r ∈ m.resources.elems, ∀ msg : Message,
      wp (mutReportResource flags r) (fun _ => Extends m m.process.log msg) E
        (m.withLog (m.process.log.start msg)) := fun r hr msg =>
    mutReportResource_spec (hbooks.shelved.ok r hr) hbooks.sound fun k hk =>
      List.mem_append_right held (List.mem_flatMap.2 ⟨r, hr, hk⟩)
  simp only [mutReportUsage, wp_bind, wp_liftLogMut, mutLogInfo, wp_mutLogBegin hidle,
    mutResourcesIterOpen, wp_read, wp_pure, mutLogUlong, wp_mutLogArg]
  refine wp_mono (forEachResource_args m.resources.elems hbody _) ?_ fun _ he => he
  rintro _ _ ⟨more, rfl⟩
  simp only [withLog_log, wp_mutLogEnd]
  exact ⟨_, rfl, .say hidle rfl⟩

/-- Whether the usage is reported or not, nothing but the log changes. -/
theorem reportUsage_spec {held : List Nat} (hbooks : Books flags m.resources m.mem held)
    (hidle : m.process.log.Idle) :
    wp (whenever flags.usage (mutReportUsage flags)) (fun _ m' => Logs m [] m') E m := by
  rw [wp_whenever]
  split
  · exact mutReportUsage_spec hbooks hidle
  · exact ⟨m.process.log, rfl, .refl hidle⟩

end MutTracker.Source
