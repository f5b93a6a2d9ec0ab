import MutTracker.Verified.Acts
import MutTracker.Verified.Book

/-!
# What a function is let run on

A handler reads the arguments of the call, rewrites some of them, and lets the
function run.  `Mut.handed` is the target that the function is then let run
on.  For the functions that produce objects this needs nothing of the list,
the log or the allocator: from any state in which the process is stopped, the
handler lets the target run on that or not at all.

Before the function runs the handler looks at the target and keeps its own
accounts.  `Mut.Kept` is what that leaves alone, and `Hands` says of the rest of
a handler, when the target has been made into `t`, that it lets nothing run but
`u`.

## Main results

* `mutHandle_hands` — what a producer is let run on.
-/

namespace MutTracker.Source

open MutTracker.Logic MutTracker.Logic.Prog

variable {flags : Control} {p : Process} {m m₁ m₂ : Mut} {a : Routine} {α : Type}

/-! ## What is kept -/

/-- The target is looked at and not let run. -/
structure Process.Kept (p q : Process) : Prop where
  status : q.status = p.status
  resumed : q.resumed = p.resumed
  target : q.kernel.target = p.kernel.target

/-- The target and the list are looked at. -/
structure Mut.Kept (m m' : Mut) : Prop where
  process : m.process.Kept m'.process
  resources : m'.resources = m.resources

instance : Carries Process.Stopped Process.Kept where
  refl _ := ⟨rfl, rfl, rfl⟩
  trans _ _ _ h h' :=
    ⟨h'.status.trans h.status, h'.resumed.trans h.resumed, h'.target.trans h.target⟩
  carry _ _ h hs := h.status.trans hs

instance : Carries Mut.Stopped Mut.Kept where
  refl m := ⟨refl_of _ m.process, rfl⟩
  trans _ _ _ h h' := ⟨trans_of _ h.process h'.process, h'.resources.trans h.resources⟩
  carry _ _ h hs := h.process.status.trans hs

/-- The operation on a stopped process keeps the target. -/
abbrev KeepsProcess (x : ProcessM α) : Prop :=
  Within Process.Stopped (fun _ => True) Process.Kept x

/-- The operation of the tracker, on a stopped process, keeps the target and the
list. -/
abbrev Keeps (x : MutM α) : Prop := Within Mut.Stopped (fun _ => True) Mut.Kept x

/-- Nothing is asked of a run. -/
theorem wp_trivial {σ ε : Type} (x : Prog σ ε α) (s : σ) :
    wp x (fun _ _ => True) (fun _ => True) s := by
  unfold wp
  cases x s with
  | done a s' => trivial
  | halt e => trivial

theorem kept_liftLog (y : LogM α) : KeepsProcess (liftM y : ProcessM α) :=
  .focus (I := fun _ => True) (R := fun _ _ => True) (fun l _ => wp_trivial y l)
    (fun _ _ => trivial) fun _ _ _ => ⟨rfl, rfl, rfl⟩

theorem kept_peek (failure : String) (arg : Arg) (look : Kernel → Word) :
    KeepsProcess (mutTracePeek failure arg look) := fun p _ => by
  refine wp_mono (mutTracePeek_effect failure arg look) ?_ fun _ _ => trivial
  intro r q h
  exact ⟨h.status, h.resumed, by rw [h.kernel]; rfl⟩

theorem kept_assertStopped (a : Assertion) :
    KeepsProcess (mutAssertStatus .stopped a) := fun p hp => by
  rw [wp_mutAssertStatus, if_pos hp]
  exact refl_of _ p

theorem kept_readArg (n : Word) : KeepsProcess (mutProcessReadArg n) :=
  .bind (kept_assertStopped _) fun _ => .bind (kept_peek _ _ _) fun
    | some _ => kept_peek _ _ _
    | none => .pure _

theorem kept_functionReturnAddr : KeepsProcess mutProcessFunctionReturnAddr :=
  .bind (kept_assertStopped _) fun _ => .bind (kept_peek _ _ _) fun
    | some _ => kept_peek _ _ _
    | none => .pure _

theorem kept_lift {y : ProcessM α} (hy : KeepsProcess y) : Keeps (liftM y : MutM α) :=
  .focus hy (fun _ h => h) fun _ _ h => ⟨h, rfl⟩

theorem kept_log (y : LogM α) : Keeps (liftM y : MutM α) := kept_lift (kept_liftLog y)

/-- A change to what is neither the process nor the list. -/
theorem kept_update {f : Mut → Mut}
    (hf : ∀ m, (f m).process = m.process ∧ (f m).resources = m.resources) :
    Keeps (update f : MutM Unit) :=
  .update fun m => by
    refine ⟨?_, (hf m).2⟩
    rw [(hf m).1]
    exact refl_of _ m.process

theorem kept_malloc : Keeps Mut.malloc :=
  .bind .read fun m => by
    cases m.mem.full.head?.join with
    | some errno => exact .bind (kept_update fun _ => ⟨rfl, rfl⟩) fun _ => .pure _
    | none => exact .bind (kept_update fun _ => ⟨rfl, rfl⟩) fun _ => .pure _

theorem kept_resource (obj : Nat) : Keeps (Mut.resource obj) :=
  .bind .read fun m => by
    cases Keyed.get Resource.ptr obj m.resources.elems with
    | some r => exact .pure r
    | none => exact .stop _ trivial

theorem kept_actionName (a : Option Routine) : Keeps (Mut.actionName a) := by
  cases a with
  | some a => exact .bind .read fun _ => .pure _
  | none => exact .stop _ trivial

theorem kept_hit (a : Routine) : Keeps (Mut.hit a) := kept_update fun _ => ⟨rfl, rfl⟩

/-! ## Backtraces and messages -/

theorem kept_backtrace (bt : Option Nat) : Keeps (Mut.backtrace bt) := by
  cases bt with
  | none => exact .stop _ trivial
  | some ptr =>
      exact .bind .read fun m => by
        cases m.mem.backtraces ptr with
        | some b => exact .pure _
        | none => exact .stop _ trivial

theorem kept_setBacktrace (bt : Nat) (b : Option Backtrace) : Keeps (Mut.setBacktrace bt b) :=
  kept_update fun _ => ⟨rfl, rfl⟩

theorem kept_backtraceOpen : Keeps mutBacktraceOpen :=
  .bind kept_malloc fun
    | .error _ => .bind (kept_log _) fun _ => .pure _
    | .ok _ => .bind (kept_setBacktrace _ _) fun _ => .pure _

theorem kept_backtraceEnter (bt : Nat) (ra : Word) : Keeps (mutBacktraceEnter bt ra) :=
  .bind (kept_backtrace _) fun _ =>
    .ite (.bind (kept_setBacktrace _ _) fun _ => .pure _) (.pure _)

theorem kept_backtraceClose (bt : Option Nat) : Keeps (mutBacktraceClose bt) :=
  .bind (kept_backtrace _) fun _ => .bind (.require _ _ trivial) fun _ =>
    kept_setBacktrace _ _

theorem kept_logBacktrace (bt : Option Nat) : Keeps (mutLogBacktrace bt) :=
  .bind (kept_backtrace _) fun _ => .bind .read fun _ => .bind (kept_log _) fun _ =>
    kept_log _

theorem kept_backtraceFrom (bt rounds : Nat) (ebp base : Word) :
    Keeps (mutProcessBacktraceFrom bt rounds ebp base) := by
  induction rounds generalizing ebp base with
  | zero => exact .stop _ trivial
  | succ rounds ih =>
      refine .ite (.pure _) (.bind (kept_lift (kept_peek _ _ _)) fun
        | none => .pure _
        | some _ => .ite (.pure _) (.bind (kept_backtraceEnter _ _) fun _ =>
            .ite (.pure _) (.bind (kept_lift (kept_peek _ _ _)) fun
              | none => .pure _
              | some _ => ih _ _)))

theorem kept_functionBacktrace (bt : Nat) : Keeps (mutProcessFunctionBacktrace bt) :=
  .bind (kept_lift (kept_peek _ _ _)) fun
    | none => .pure _
    | some _ => .bind (kept_lift (kept_peek _ _ _)) fun
      | none => .pure _
      | some _ => .bind (kept_backtraceEnter _ _) fun _ =>
          .ite (.pure _) (.bind (kept_lift (kept_peek _ _ _)) fun
            | none => .pure _
            | some _ => kept_backtraceFrom _ _ _ _)

theorem kept_produceBacktrace : Keeps (mutProduceBacktrace flags) :=
  .ite (.bind kept_backtraceOpen fun
    | none => .pure _
    | some _ => .bind (kept_functionBacktrace _) fun _ =>
        .ite (.bind (kept_backtraceClose _) fun _ => .pure _) (.pure _)) (.pure _)

theorem kept_traceConsumer (a : Routine) (args : List Arg) :
    Keeps (mutTraceConsumer flags a args) :=
  .whenever (.bind (kept_log _) fun _ => .bind .read fun _ => .bind (kept_log _) fun _ =>
    .bind (kept_log _) fun _ => kept_log _)

theorem kept_fum (addr : Word) (a : Routine) (bt : Option Nat) :
    Keeps (mutLogFum flags addr a bt) :=
  .bind (kept_log _) fun _ => .bind .read fun _ => .bind (kept_log _) fun _ =>
    .bind (kept_log _) fun _ => .bind (.whenever (kept_logBacktrace _)) fun _ => kept_log _

theorem kept_ffm (addr : Word) (a : Routine) (obj : Nat) (bt : Option Nat) :
    Keeps (mutLogFfm flags addr a obj bt) :=
  .bind (.require _ _ trivial) fun _ => .bind (kept_resource _) fun _ =>
    .bind (.require _ _ trivial) fun _ => .bind (kept_log _) fun _ => .bind .read fun _ =>
      .bind (kept_log _) fun _ => .bind (kept_log _) fun _ =>
        .bind (.whenever (kept_logBacktrace _)) fun _ => .bind (kept_actionName _) fun _ =>
          .bind (kept_log _) fun _ => .bind (.whenever (kept_logBacktrace _)) fun _ =>
            kept_log _

/-! ## The rest of a handler -/

/-- The tracker lets the target run on `u`, or not at all. -/
def RunsOn (m : Mut) (u : Target) (m' : Mut) : Prop :=
  m'.process.resumed = m.process.resumed ∨
    ∃ k, m'.process.resumed = k :: m.process.resumed ∧ ∃ pc, k.target = { u with eip := pc }

/-- The tracker in a handler that started at `m`, with its target made into
`t`. -/
structure Readied (m : Mut) (t : Target) (m₁ : Mut) : Prop where
  stopped : m₁.Stopped
  resumed : m₁.process.resumed = m.process.resumed
  resources : m₁.resources = m.resources
  target : m₁.target = t

/-- From where the target has been made into `t`, the program lets it run on `u`
or not at all. -/
def Hands (m : Mut) (u t : Target) (x : MutM Bool) : Prop :=
  ∀ m₁, Readied m t m₁ → wp x (fun _ m' => RunsOn m u m') (fun _ => True) m₁

theorem Readied.kept {t : Target} (h : Readied m t m₁) (hk : m₁.Kept m₂) : Readied m t m₂ where
  stopped := hk.process.status.trans h.stopped
  resumed := hk.process.resumed.trans h.resumed
  resources := hk.resources.trans h.resources
  target := hk.process.target.trans h.target

/-- An argument of the call was to be replaced. -/
structure Rewritten (p : Process) (n v : Word) (ok : Bool) (q : Process) : Prop where
  status : q.status = .stopped
  resumed : q.resumed = p.resumed
  target : ok = true → q.kernel.target = p.kernel.target.setArg n v

theorem mutProcessWriteArg_effect (hp : p.Stopped) (n v : Word) :
    wp (mutProcessWriteArg n v) (Rewritten p n v) Orderly p := by
  rw [mutProcessWriteArg, wp_bind, wp_mutAssertStatus, if_pos hp, wp_bind]
  refine wp_mono (mutTracePeek_effect ..) ?_ fun _ he => he
  intro r q hq
  cases r with
  | none => exact ⟨hq.status.trans hp, hq.resumed, by simp⟩
  | some esp =>
      refine wp_mono (mutTraceRequest_effect ..) ?_ fun _ he => he
      intro ok q' hq'
      refine ⟨hq'.status.trans (hq.status.trans hp), hq'.resumed.trans hq.resumed, fun hok => ?_⟩
      have hkernel := hq'.kernel
      rw [if_pos hok, hq.kernel] at hkernel
      rw [hkernel, hq.found esp rfl]
      rfl

/-- `mut_do_action` lets the target run once, as it is. -/
theorem mutDoAction_runsOn (hp : m.Stopped) (ra : Word) (a : Routine) :
    wp (mutDoAction ra a) (fun _ m' => RunsOn m m.target m') Orderly m := by
  unfold mutDoAction
  rw [wp_bind, wp_liftProcess]
  refine wp_mono (mutProcessBreakpoint_effect hp ra) ?_ fun _ he => he
  intro r q₁ h₁
  cases r with
  | none => exact .inl h₁.resumed
  | some instr =>
      simp only [wp_bind, wp_liftProcess]
      refine wp_mono (mutProcessResume_effect h₁.status) ?_ fun _ he => he
      intro ok q₂ h₂
      cases ok with
      | false => exact .inl (h₂.resumed.trans h₁.resumed)
      | true =>
          have hruns : ∀ q : Process, q.resumed = q₂.resumed →
              RunsOn m m.target { m with process := q } := by
            intro q hq
            refine .inr ⟨q₂.kernel, ?_, q₁.pc, ?_⟩
            · show q.resumed = _
              rw [hq, h₂.resumed, if_pos rfl, h₁.resumed]
            · rw [h₂.target rfl, h₁.target]
          simp only [Bool.not_true, Bool.false_eq_true, if_false, wp_bind, wp_liftProcess]
          refine wp_mono (mutProcessWait_effect h₂.status) ?_ fun _ he => he
          intro r q₃ h₃
          cases r with
          | exited => exact hruns q₃ h₃.resumed
          | failed => exact hruns q₃ h₃.resumed
          | stopped pc =>
              obtain ⟨hstatus, -⟩ := h₃.stopped pc rfl
              simp only [wp_ite]
              split
              next =>
                  simp only [wp_bind, wp_read]
                  refine wp_mildMessage fun _ => wp_mildMessage fun _ => wp_mildMessage fun _ =>
                    wp_mildMessage fun _ => wp_mildMessage fun _ => ?_
                  exact hruns _ h₃.resumed
              next =>
                  rw [wp_liftProcess]
                  refine wp_mono (mutProcessRestore_effect hstatus ra _) ?_ fun _ he => he
                  intro ok q₄ h₄
                  exact hruns q₄ (h₄.resumed.trans h₃.resumed)

namespace Hands

variable {u t : Target} {x y : MutM Bool} {f : Bool → MutM Bool} {ra : Word}

theorem bind {z : MutM α} {g : α → MutM Bool} (hz : Keeps z)
    (hg : ∀ r, Hands m u t (g r)) : Hands m u t (z >>= g) := fun _ h =>
  hz.seq h.stopped fun r _ hk => hg r _ (h.kept hk)

/-- A program that gives up lets nothing run. -/
theorem fail (hx : Fails x) : Hands m u t x := fun m₁ h => by
  refine wp_mono (hx m₁) ?_ fun _ _ => trivial
  intro ok m' hm'
  obtain ⟨-, μ, rfl⟩ := hm'
  exact .inl h.resumed

theorem ite {c : Prop} [Decidable c] (hx : c → Hands m u t x) (hy : ¬ c → Hands m u t y) :
    Hands m u t (if c then x else y) := by
  by_cases hc : c
  · rw [if_pos hc]
    exact hx hc
  · rw [if_neg hc]
    exact hy hc

/-- An argument of the call is replaced. -/
theorem writeArg {n v : Word} (hf : Hands m u (t.setArg n v) (f true)) (hfail : Fails (f false)) :
    Hands m u t (liftM (mutProcessWriteArg n v) >>= f) := fun m₁ h => by
  rw [wp_bind, wp_liftProcess]
  refine wp_mono (mutProcessWriteArg_effect h.stopped n v) ?_ fun _ _ => trivial
  intro ok q hq
  have hresumed : q.resumed = m.process.resumed := hq.resumed.trans h.resumed
  cases ok with
  | false =>
      refine wp_mono (hfail _) ?_ fun _ _ => trivial
      intro ok m' hm'
      obtain ⟨-, μ, rfl⟩ := hm'
      exact .inl hresumed
  | true =>
      refine hf _ ⟨hq.status, hresumed, h.resources, ?_⟩
      rw [← h.target]
      exact hq.target rfl

/-- The function runs, and the handler goes on or gives up. -/
theorem act (hok : SteadyMut ⟨false, false, false⟩ (f true)) (hfail : Fails (f false)) :
    Hands m u u (mutDoAction ra a >>= f) := fun m₁ h => by
  have hruns := mutDoAction_runsOn h.stopped ra a
  rw [wp_bind]
  refine wp_mono (wp_and hruns (mutDoAction_effect h.stopped ra a)) ?_ fun _ _ => trivial
  rintro ok _ ⟨hruns, q, rfl, hdone⟩
  have hruns : RunsOn m u { m₁ with process := q } := by
    unfold RunsOn at hruns ⊢
    rw [← h.resumed, ← h.target]
    exact hruns
  cases ok with
  | false =>
      refine wp_mono (hfail _) ?_ fun _ _ => trivial
      intro ok m' hm'
      obtain ⟨-, μ, rfl⟩ := hm'
      exact hruns
  | true =>
      refine wp_mono (hok _ (hdone.stopped rfl)) ?_ fun _ _ => trivial
      intro ok m' hs
      unfold RunsOn
      rw [hs.process.resumed]
      exact hruns

/-- The handler ends by letting the function run. -/
theorem acted : Hands m u u (mutDoAction ra a) := fun m₁ h => by
  have hpure : Hands m u u (mutDoAction ra a >>= pure) := .act (.pure true) fails_false
  exact (wp_bind (mutDoAction ra a) pure).1 (hpure m₁ h)

/-- The list is looked up as it was. -/
theorem lookup {g : Option Nat → MutM Bool} {addr : Word}
    (hnone : m.find addr = none → Hands m u t (g none))
    (hsome : ∀ obj, (m.find addr).isSome → Hands m u t (g (some obj))) :
    Hands m u t (mutResourcesLookup addr >>= g) := fun m₁ h => by
  have hfind : m.find addr = (Keyed.get Resource.addr addr m.resources.elems).map
      Resource.entry := get_entries addr
  rw [wp_bind, wp_lookup, h.resources]
  cases hget : Keyed.get Resource.addr addr m.resources.elems with
  | none => exact hnone (by rw [hfind, hget]; rfl) m₁ h
  | some o => exact hsome o.ptr (by rw [hfind, hget]; rfl) m₁ h

/-- An argument is read as the call has it. -/
theorem readArg {n : Word} {g : Option Word → MutM Bool} (hfail : Fails (g none))
    (hg : Hands m u t (g (some (t.arg n)))) :
    Hands m u t (liftM (mutProcessReadArg n) >>= g) := fun m₁ h => by
  rw [wp_bind, wp_liftProcess]
  have hkept := kept_readArg n m₁.process h.stopped
  refine wp_mono (wp_and hkept (mutProcessReadArg_effect h.stopped n)) ?_ fun _ _ => trivial
  intro r q hq
  obtain ⟨hkept, -, hread⟩ := hq
  have hready : Readied m t { m₁ with process := q } := h.kept ⟨hkept, rfl⟩
  cases r with
  | none => exact fail hfail _ hready
  | some v =>
      have hv : v = t.arg n := by
        rw [← h.target]
        exact hread v rfl
      rw [hv]
      exact hg _ hready

end Hands

/-! ## What comes after the function -/

/-- What an operation after the function is not asked to leave alone. -/
abbrev Leaves.nothing : Leaves := ⟨false, false, false⟩

theorem steady_hit {k : Leaves} (hk : k.hits = false) (a : Routine) : SteadyMut k (Mut.hit a) :=
  .update fun m => ⟨refl_of _ m.process, Frame.hit ⟨rfl, rfl, fun _ => rfl⟩ a,
    fun h => absurd (hk.symm.trans h) nofun, fun _ => rfl⟩

theorem steady_reallocMalloc (size : Word) (bt : Option Nat) :
    SteadyMut .nothing (mutReallocMalloc flags size bt) :=
  .bind (.require _ _ rfl) fun _ => .bind (steady_lift steady_readResult) fun
    | none => steady_freeBacktrace _
    | some _ => .bind (.whenever (steady_hit rfl _)) fun _ => .ite
        (.bind (steady_reallocFailure _ _ _ _) fun _ => .pure _)
        (.bind (steady_installZones rfl _ _) fun
          | none => steady_freeBacktrace _
          | some _ => .bind (steady_createResource rfl _) fun
            | none => steady_freeBacktrace _
            | some _ => .bind (steady_resource _) fun _ => .bind (.require _ _ rfl) fun _ =>
                .bind (.whenever (steady_updateStats _)) fun _ =>
                  .bind (steady_assign rfl _ _) fun _ => .bind (steady_traceCall _ _ _) fun _ =>
                    .bind (.whenever steady_reportUsage) fun _ => .pure true)

theorem steady_reallocMallocNoFree (size : Word) (bt : Option Nat) :
    SteadyMut .nothing (mutReallocMallocNoFree flags size bt) :=
  .bind (.require _ _ rfl) fun _ => .bind (steady_lift steady_readResult) fun
    | none => steady_freeBacktrace _
    | some _ => .ite (.bind (steady_reallocFailure _ _ _ _) fun _ => .pure _)
        (.bind (steady_installZones rfl _ _) fun
          | none => steady_freeBacktrace _
          | some _ => .bind (steady_createResource rfl _) fun
            | none => steady_freeBacktrace _
            | some _ => .bind (steady_resource _) fun _ => .bind (.require _ _ rfl) fun _ =>
                .bind (steady_assign rfl _ _) fun _ => .bind (steady_resource _) fun _ =>
                  .bind (.whenever (.bind (steady_hit rfl _) fun _ =>
                    steady_updateStats _)) fun _ =>
                    .bind (steady_traceCall _ _ _) fun _ => .pure true)

theorem steady_reallocRealloc (obj : Nat) (size : Word) (bt : Option Nat) :
    SteadyMut .nothing (mutReallocRealloc flags obj size bt) :=
  .bind (.require _ _ rfl) fun _ => .bind (.require _ _ rfl) fun _ =>
    .bind (steady_lift steady_readResult) fun
      | none => .pure _
      | some _ => .bind (.whenever (steady_hit rfl _)) fun _ => .bind (steady_resource _) fun _ =>
          .ite (.bind (steady_reallocFailure _ _ _ _) fun _ => .pure _)
            (.bind (.whenever (steady_updateStats _)) fun _ =>
              .bind (steady_reallocMove rfl _ _ _) fun _ => .ite (.pure _)
                (.bind (.whenever (steady_updateStats _)) fun _ =>
                  .bind (steady_assign rfl _ _) fun _ =>
                    .bind (.whenever (steady_reallocBacktraces rfl _ _)) fun _ =>
                      .bind (steady_traceCall _ _ _) fun _ =>
                        .bind (.whenever steady_reportUsage) fun _ => .pure true))

theorem steady_reallocReallocNoFree (obj : Nat) (size : Word) (bt : Option Nat) :
    SteadyMut .nothing (mutReallocReallocNoFree flags obj size bt) :=
  .bind (steady_resource _) fun _ => .bind (.require _ _ rfl) fun _ =>
    .bind (steady_lift steady_readResult) fun
      | none => steady_freeBacktrace _
      | some _ => .bind (.require _ _ rfl) fun _ =>
          .ite (.bind (steady_reallocFailure _ _ _ _) fun _ => .pure _)
            (.bind (.whenever (steady_updateStats _)) fun _ =>
              .bind (steady_deleteResource rfl _ _ _) fun _ =>
                .bind (steady_createResource rfl _) fun
                  | none => steady_freeBacktrace _
                  | some _ => .bind (steady_resource _) fun _ => .bind (.require _ _ rfl) fun _ =>
                      .bind (steady_assign rfl _ _) fun _ => .bind (steady_resource _) fun _ =>
                        .bind (steady_lift (steady_memcpy _ _ _)) fun _ => .ite (.pure _)
                          (.bind (steady_unlessFails (steady_lift (steady_memset _ _ _)))
                            fun _ => .ite (.pure _)
                              (.bind (.whenever (.bind (steady_hit rfl _) fun _ =>
                                steady_updateStats _)) fun _ =>
                                .bind (steady_resource _) fun _ =>
                                  .bind (steady_traceCall _ _ _) fun _ =>
                                    .bind (.whenever steady_reportUsage) fun _ => .pure true)))

/-! ## The producers -/

/-- `malloc` and `calloc`, whose arguments are rewritten by `adjust`. -/
theorem mutProduce_hands {adjust : MutM Bool} {u t : Target} {size : Word}
    {failure : Option Nat → MutM Unit} {success : Word → Option Nat → MutM Bool}
    (bt : Option Nat) (hfailure : SteadyMut .nothing (failure bt))
    (hsuccess : ∀ addr, SteadyMut .nothing (success addr bt))
    (hadjust : ∀ f : Bool → MutM Bool, Hands m u u (f true) → Fails (f false) →
      Hands m u t (unlessFails flags.check adjust >>= f)) :
    Hands m u t (mutProduce flags a adjust size failure success bt) :=
  .bind (kept_lift kept_functionReturnAddr) fun
    | none => .fail (fails_freeBacktrace bt)
    | some _ => hadjust _ (.act (.bind (steady_lift steady_readResult) fun
        | none => steady_freeBacktrace _
        | some _ => .bind (.whenever (steady_hit rfl _)) fun _ =>
            .ite (.bind hfailure fun _ => .pure _) (.bind (steady_installZones rfl _ _) fun
              | none => steady_freeBacktrace _
              | some addr => hsuccess addr)) (fails_freeBacktrace bt))
        (fails_freeBacktrace bt)

theorem mutDoMalloc_hands :
    Hands m (m.handed flags .malloc) m.target (mutDoMalloc flags .malloc) :=
  .readArg fails_false (.bind kept_produceBacktrace fun
    | none => .fail fails_false
    | some bt => mutProduce_hands bt (steady_failure _ _ _ _ _)
        (fun _ => .bind (.require _ _ rfl) fun _ => steady_success rfl _ _ _ _ _ _)
        fun f hok hfail => by
          cases hcheck : flags.check with
          | false =>
              have hsame : m.handed flags .malloc = m.target := by
                rw [Mut.handed, hcheck]
                rfl
              rw [hsame] at hok ⊢
              exact hok
          | true =>
              refine .writeArg ?_ hfail
              have hset : m.handed flags .malloc =
                  m.target.setArg 0 (mutRoundUp (m.target.arg 0)) := by
                rw [Mut.handed, hcheck]
                rfl
              rw [hset] at hok ⊢
              exact hok)

theorem mutDoCalloc_hands :
    Hands m (m.handed flags .calloc) m.target (mutDoCalloc flags .calloc) :=
  .readArg fails_false (.readArg fails_false (.bind kept_produceBacktrace fun
    | none => .fail fails_false
    | some bt => mutProduce_hands bt (steady_failure _ _ _ _ _)
        (fun _ => steady_success rfl _ _ _ _ _ _)
        fun f hok hfail => by
          cases hcheck : flags.check with
          | false =>
              have hsame : m.handed flags .calloc = m.target := by
                rw [Mut.handed, hcheck]
                rfl
              rw [hsame] at hok ⊢
              exact hok
          | true =>
              have hset : m.handed flags .calloc = (m.target.setArg 0
                  (mutCallocZones (m.target.arg 0) (m.target.arg 1))).setArg 1 mutZoneSize := by
                rw [Mut.handed, hcheck]
                rfl
              rw [hset] at hok ⊢
              intro m₁ h
              rw [unlessFails, if_pos rfl, wp_assoc]
              have hsecond := Hands.writeArg hok hfail
              exact Hands.writeArg (f := fun ok => (if !ok then pure false else
                liftM (mutProcessWriteArg 1 mutZoneSize)) >>= f) hsecond hfail m₁ h))

/-- An argument of the call is replaced under a condition. -/
theorem Hands.rewritten {c : Bool} {f : Bool → MutM Bool} {u t s : Target} {n v : Word}
    (hs : s = if c then t.setArg n v else t) (hok : Hands m u s (f true))
    (hfail : Fails (f false)) :
    Hands m u t (unlessFails c (liftM (mutProcessWriteArg n v)) >>= f) := by
  rw [hs] at hok
  cases c with
  | false => exact hok
  | true => exact .writeArg hok hfail

/-- The size of a `realloc` is rounded up, unless memory is freed and its object
is not in the list. -/
theorem handed_sized {t : Target}
    (ht : (if flags.free = false ∧ m.target.arg 0 ≠ 0 then m.target.setArg 0 0 else m.target) = t)
    (hsized : flags.free = false ∨ m.target.arg 0 = 0 ∨ (m.find (m.target.arg 0)).isSome) :
    m.handed flags .realloc =
      if flags.check then t.setArg 1 (mutRoundUp (m.target.arg 1)) else t := by
  rw [Mut.handed, ht]
  by_cases hcheck : flags.check = true
  · rw [if_pos hcheck]
    exact if_pos ⟨hcheck, hsized⟩
  · rw [if_neg hcheck]
    exact if_neg fun h => hcheck h.1

theorem handed_unsized (hfree : flags.free = true) (hnonzero : m.target.arg 0 ≠ 0)
    (hnone : m.find (m.target.arg 0) = none) : m.handed flags .realloc = m.target := by
  have hunsized : ¬ (flags.check = true ∧
      (flags.free = false ∨ m.target.arg 0 = 0 ∨ (m.find (m.target.arg 0)).isSome)) := by
    rintro ⟨-, h | h | h⟩
    · rw [hfree] at h
      cases h
    · exact hnonzero h
    · rw [hnone] at h
      cases h
  have hgiven : ¬ (flags.free = false ∧ m.target.arg 0 ≠ 0) := by
    rintro ⟨h, -⟩
    rw [hfree] at h
    cases h
  rw [Mut.handed, if_neg hgiven]
  exact if_neg hunsized

theorem mutReallocUnknown_hands (hnonzero : m.target.arg 0 ≠ 0)
    (hnone : m.find (m.target.arg 0) = none) (ra : Word) (bt : Option Nat) :
    Hands m (m.handed flags .realloc) m.target
      (mutReallocUnknown flags .realloc (m.target.arg 0) (m.target.arg 1) ra bt) :=
  .bind (.whenever (kept_hit _)) fun _ => .bind (kept_fum _ _ _) fun _ => .ite
    (fun hfree => by
      rw [handed_unsized hfree hnonzero hnone]
      exact .bind (kept_traceConsumer _ _) fun _ =>
        .bind (.whenever (kept_backtraceClose _)) fun _ => .acted)
    fun hfree => by
      have hkept : flags.free = false := Bool.eq_false_iff.2 hfree
      refine .writeArg (.ite nofun fun _ => .rewritten
        (handed_sized (if_pos ⟨hkept, hnonzero⟩) (.inl hkept)) (.ite nofun fun _ =>
        .act (.ite (steady_freeBacktrace _) (steady_reallocMallocNoFree _ _))
          (fails_freeBacktrace bt)) (fails_freeBacktrace bt)) (fails_freeBacktrace bt)

theorem mutReallocKnown_hands (hnonzero : m.target.arg 0 ≠ 0)
    (hknown : (m.find (m.target.arg 0)).isSome) (ra : Word) (obj : Nat) (bt : Option Nat) :
    Hands m (m.handed flags .realloc) m.target
      (mutReallocKnown flags .realloc (m.target.arg 0) (m.target.arg 1) ra obj bt) := by
  refine .bind (kept_resource obj) fun _ => .bind (.whenever (kept_ffm _ _ _ _)) fun _ => ?_
  have hgiven :
      (if flags.free = false ∧ m.target.arg 0 ≠ 0 then m.target.setArg 0 0 else m.target) =
      if !flags.free then m.target.setArg 0 0 else m.target := by
    cases flags.free with
    | true => rfl
    | false => exact if_pos ⟨rfl, hnonzero⟩
  refine .rewritten hgiven (.ite nofun fun _ => .rewritten
    (handed_sized rfl (.inr (.inr hknown))) (.ite nofun fun _ => .act ?_ (fails_freeBacktrace bt))
    (fails_freeBacktrace bt)) (fails_freeBacktrace bt)
  exact .ite (steady_freeBacktrace _)
    (.ite (steady_reallocRealloc _ _ _) (steady_reallocReallocNoFree _ _ _))

theorem mutDoRealloc_hands :
    Hands m (m.handed flags .realloc) m.target (mutDoRealloc flags .realloc) := by
  refine .readArg fails_false (.readArg fails_false (.bind (kept_lift kept_functionReturnAddr) fun
    | none => .fail fails_false
    | some ra => .bind kept_produceBacktrace fun
      | none => .fail fails_false
      | some bt => ?_))
  refine .ite (fun hzero => ?_) fun hnonzero => ?_
  · have hgiven : ¬ (flags.free = false ∧ m.target.arg 0 ≠ 0) := fun h => h.2 hzero
    exact .rewritten (handed_sized (if_neg hgiven) (.inr (.inl hzero))) (.ite nofun fun _ =>
      .act (.ite (steady_freeBacktrace _) (steady_reallocMalloc _ _)) (fails_freeBacktrace bt))
      (fails_freeBacktrace bt)
  · exact .lookup (fun hnone => mutReallocUnknown_hands hnonzero hnone _ _)
      fun obj hknown => mutReallocKnown_hands hnonzero hknown _ _ _

/-- The handler of a function that produces objects, from any state in which the
process is stopped, lets it run on what it is handed, or not at all. -/
theorem mutHandle_hands (hp : m.Stopped) (htype : (m.actions a).type = a.type)
    (hproduces : a.produces = true) :
    wp (mutHandle flags a) (fun _ m' => RunsOn m (m.handed flags a) m') (fun _ => True) m := by
  have hready : Readied m m.target m := ⟨hp, rfl, rfl, rfl⟩
  simp only [mutHandle, wp_bind, wp_read, htype]
  cases a with
  | malloc => exact mutDoMalloc_hands m hready
  | calloc => exact mutDoCalloc_hands m hready
  | realloc => exact mutDoRealloc_hands m hready
  | free | cfree | usage => cases hproduces

end MutTracker.Source
