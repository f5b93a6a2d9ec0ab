import MutTracker.Verified.Handed
import MutTracker.Verified.Warnings

/-!
# Which resources are taken for new

`mut_resource_is_new` asks whether a resource has a backtrace of its producer.
In every list that the handlers leave, each resource has one exactly when
backtraces are made: `Attributed`.  So with backtraces the question is answered
as it should be, and without them every resource is taken for new.

The list is followed through the handlers with nothing assumed of the
allocator.  `Tends` says of an operation that it keeps the list attributed, and
`Attributes` of the rest of a handler that it leaves it so if it succeeds;
`Fills` is the same from where a resource was made but has no producer yet.

## Main results

* `run_attributed` — every list that the handlers leave is attributed.
* `distinguishes_iff` — when a resource that was listed is told from a new one.
* `listed_taken_for_new` — one that is not.
-/

namespace MutTracker.Source

open MutTracker.Logic MutTracker.Logic.Prog MutTracker.Logic.Keyed

variable {flags : Control} {m m' m₀ : Mut} {a : Routine} {α : Type} {r : Resource}
  {l : List Resource} {obj : Nat} {bt : Option Nat} {v : Visit} {vs : List Visit}

/-! ## Attributed lists -/

/-- The resource has a producer, with a backtrace when backtraces are made. -/
structure Resource.Attributed (flags : Control) (r : Resource) : Prop where
  action : r.producer.action.isSome = true
  backtrace : r.producer.backtrace.isSome = flags.backtrace

abbrev Attributed (flags : Control) (l : List Resource) : Prop := ∀ r ∈ l, r.Attributed flags

/-- All resources are attributed but for `obj`, which may have no producer
yet. -/
abbrev Filling (flags : Control) (obj : Nat) (l : List Resource) : Prop :=
  ∀ r ∈ l, r.Attributed flags ∨ (r.ptr = obj ∧ r.producer.backtrace = none)

theorem attributed_adjust {f : Resource → Resource}
    (hf : ∀ r, r.Attributed flags → (f r).Attributed flags) (h : Attributed flags l) :
    Attributed flags (adjust Resource.ptr obj f l) := by
  intro r hr
  obtain ⟨s, hs, rfl⟩ := List.mem_map.1 hr
  by_cases hobj : s.ptr = obj
  · rw [if_pos hobj]
    exact hf s (h s hs)
  · rw [if_neg hobj]
    exact h s hs

/-- The resource that was made is given its producer. -/
theorem Filling.adjust {f : Resource → Resource}
    (hf : ∀ r, r.Attributed flags ∨ r.producer.backtrace = none → (f r).Attributed flags)
    (h : Filling flags obj l) : Attributed flags (adjust Resource.ptr obj f l) := by
  intro r hr
  obtain ⟨s, hs, rfl⟩ := List.mem_map.1 hr
  by_cases hobj : s.ptr = obj
  · rw [if_pos hobj]
    exact hf s ((h s hs).imp id And.right)
  · rw [if_neg hobj]
    exact (h s hs).resolve_right fun hblank => hobj hblank.1

theorem attributed_remove {k : Word} (h : Attributed flags l) :
    Attributed flags (remove Resource.addr k l) := fun r hr =>
  h r (List.mem_of_mem_eraseP hr)

/-! ## Operations -/

/-- What an operation that leaves the list alone may change. -/
abbrev Leaves.listed : Leaves := ⟨false, false, true⟩

/-- The list stays attributed. -/
structure Tending (flags : Control) (m m' : Mut) : Prop where
  steady : m.Steady .nothing m'
  attributed : Attributed flags m.resources.elems → Attributed flags m'.resources.elems

instance : Carries Mut.Stopped (Tending flags) where
  refl m := ⟨refl_of _ m, id⟩
  trans _ _ _ h h' := ⟨trans_of _ h.steady h'.steady, fun hl => h'.attributed (h.attributed hl)⟩
  carry _ _ h hs := Carries.carry _ _ h.steady hs

/-- The operation, on a stopped process, keeps the list attributed. -/
abbrev Tends (flags : Control) (x : MutM α) : Prop :=
  Within Mut.Stopped Orderly (Tending flags) x

theorem Mut.Steady.weaken (h : m.Steady .listed m') : m.Steady .nothing m' :=
  ⟨⟨h.process.status, h.process.text, h.process.waits, h.process.resumed, nofun⟩, h.frame,
    nofun, nofun⟩

/-- An operation that leaves the list alone. -/
theorem tends_steady {x : MutM α} (hx : SteadyMut .listed x) : Tends flags x := fun m hp => by
  refine wp_mono (hx m hp) ?_ fun _ he => he
  intro _ m' hs
  refine ⟨hs.weaken, fun h => ?_⟩
  rw [hs.list rfl]
  exact h

theorem tends_resources (f : Mut → Resources)
    (hf : ∀ m, Attributed flags m.resources.elems → Attributed flags (f m).elems) :
    Tends flags (update fun m => { m with resources := f m } : MutM Unit) :=
  .update fun m =>
    ⟨⟨refl_of _ m.process, ⟨rfl, rfl, fun _ => rfl⟩, nofun, nofun⟩, hf m⟩

theorem tends_assign (obj : Nat) {f : Resource → Resource}
    (hf : ∀ r, r.Attributed flags → (f r).Attributed flags) :
    Tends flags (Mut.assign obj f) :=
  .bind (tends_steady (steady_resource obj)) fun _ =>
    tends_resources _ fun _ h => attributed_adjust hf h

theorem tends_deleteResource (obj : Nat) (c : Routine) (bt : Option Nat) :
    Tends flags (mutResourcesDeleteResource obj c bt) := by
  refine .bind .read fun _ => .ite ?_ ?_
  · refine .bind (tends_steady (steady_resource _)) fun o => .bind .read fun m =>
      .bind (.require _ _ rfl) fun _ => .bind (.require _ _ rfl) fun _ => ?_
    cases get Resource.addr o.addr m.resources.elems with
    | none => exact .stop _ rfl
    | some r =>
        exact .bind (tends_resources _ fun _ h => attributed_remove h) fun _ =>
          .bind (.whenever (tends_steady (steady_backtraceClose _))) fun _ =>
            tends_resources _ fun _ h => h
  · exact .bind (tends_steady (steady_resource _)) fun _ => .bind .read fun _ =>
      .bind (.require _ _ rfl) fun _ => .bind (.require _ _ rfl) fun _ =>
        .bind (tends_assign _ fun _ h => ⟨h.action, h.backtrace⟩) fun _ =>
          .bind (.whenever (.bind (tends_steady (steady_backtraceShare _)) fun _ =>
            tends_assign _ fun _ h => ⟨h.action, h.backtrace⟩)) fun _ =>
              tends_resources _ fun _ h => h

theorem tends_reallocBacktraces (obj : Nat) (hbt : bt.isSome = flags.backtrace) :
    Tends flags (mutReallocBacktraces obj bt) :=
  .bind (tends_steady (steady_resource _)) fun _ =>
    .bind (.whenever (tends_steady (steady_backtraceClose _))) fun _ =>
      .bind (tends_assign _ fun _ h => ⟨h.action, h.backtrace⟩) fun _ =>
        .bind (tends_steady (steady_backtraceClose _)) fun _ =>
          tends_assign _ fun _ h => ⟨h.action, hbt⟩

theorem tends_reallocMove (obj : Nat) (old : Resource) (addr : Word) :
    Tends flags (mutReallocMove flags obj old addr) :=
  .ite (.bind (.require _ _ rfl) fun _ => .pure _)
    (.bind (tends_steady (steady_unlessFails (steady_lift (steady_memset _ _ _)))) fun _ =>
      .ite (.pure _) (.bind (tends_assign _ fun _ h => ⟨h.action, h.backtrace⟩) fun _ => .pure _))

/-! ## The rest of a handler -/

/-- From an attributed list, the program leaves one if it succeeds. -/
def Attributes (flags : Control) (x : MutM Bool) : Prop :=
  ∀ m : Mut, m.Stopped → Attributed flags m.resources.elems →
    wp x (fun ok m' => ok = true → Attributed flags m'.resources.elems) Orderly m

/-- From a list in which only `obj` may have no producer yet, the program leaves an
attributed one if it succeeds. -/
def Fills (flags : Control) (obj : Nat) (x : MutM Bool) : Prop :=
  ∀ m : Mut, m.Stopped → Filling flags obj m.resources.elems →
    wp x (fun ok m' => ok = true → Attributed flags m'.resources.elems) Orderly m

namespace Fills

variable {x y : MutM Bool}

theorem bind {z : MutM α} {f : α → MutM Bool} (hz : SteadyMut .listed z)
    (hf : ∀ r, Fills flags obj (f r)) : Fills flags obj (z >>= f) := fun m hp h => by
  refine hz.seq hp fun r m' hs => hf r m' (Carries.carry _ _ hs hp) ?_
  rw [hs.list rfl]
  exact h

theorem ite {c : Prop} [Decidable c] (hx : Fills flags obj x) (hy : Fills flags obj y) :
    Fills flags obj (if c then x else y) := by
  by_cases hc : c
  · rw [if_pos hc]
    exact hx
  · rw [if_neg hc]
    exact hy

theorem false : Fills flags obj (pure false) := fun _ _ _ => nofun

/-- The resource is given its producer. -/
theorem made {f : Resource → Resource} {g : Unit → MutM Bool}
    (hf : ∀ r, r.Attributed flags ∨ r.producer.backtrace = none → (f r).Attributed flags)
    (hg : ∀ u, Attributes flags (g u)) : Fills flags obj (Mut.assign obj f >>= g) :=
  fun m hp h => by
    have hassign : wp (Mut.assign obj f)
        (fun _ m' => Attributed flags m'.resources.elems) Orderly m := by
      rw [Mut.assign, wp_bind]
      refine wp_mono (Q := fun _ m' => m' = m) ?_ ?_ fun _ he => he
      · rw [Mut.resource, wp_bind, wp_read]
        cases get Resource.ptr obj m.resources.elems with
        | some r => rfl
        | none => rfl
      · intro _ m₁ hm₁
        rw [hm₁]
        exact h.adjust hf
    refine wp_seq (wp_and (steady_assign (k := .nothing) rfl obj f m hp) hassign)
      (fun _ he => he.1) ?_
    intro u m' hm'
    exact hg u m' (Carries.carry _ _ hm'.1 hp) hm'.2

end Fills

namespace Attributes

variable {x y : MutM Bool} {ra : Word}

theorem bind {z : MutM α} {f : α → MutM Bool} (hz : Tends flags z)
    (hf : ∀ r, Attributes flags (f r)) : Attributes flags (z >>= f) := fun _ hp h =>
  hz.seq hp fun r m' ht => hf r m' (Carries.carry _ _ ht.steady hp) (ht.attributed h)

theorem finish {z : MutM Bool} (hz : Tends flags z) : Attributes flags z := fun m hp h =>
  wp_mono (hz m hp) (fun _ _ ht _ => ht.attributed h) fun _ he => he

theorem steady {z : MutM α} {f : α → MutM Bool} (hz : SteadyMut .listed z)
    (hf : ∀ r, Attributes flags (f r)) : Attributes flags (z >>= f) := .bind (tends_steady hz) hf

theorem ite {c : Prop} [Decidable c] (hx : Attributes flags x) (hy : Attributes flags y) :
    Attributes flags (if c then x else y) := by
  by_cases hc : c
  · rw [if_pos hc]
    exact hx
  · rw [if_neg hc]
    exact hy

theorem fail (hx : Fails x) : Attributes flags x := fun m _ _ =>
  wp_mono (hx m) (fun ok m' hm' hok => by rw [hm'.1] at hok; cases hok) fun _ he => he

/-- The function runs, and the handler goes on or gives up. -/
theorem act {f : Bool → MutM Bool} (hf : Attributes flags (f true)) (hfail : Fails (f false)) :
    Attributes flags (mutDoAction ra a >>= f) := fun m hp h => by
  refine wp_seq (mutDoAction_effect hp ra a) (fun _ he => he) ?_
  rintro ok _ ⟨q, rfl, hdone⟩
  cases ok with
  | false =>
      exact wp_mono (hfail _) (fun ok m' hm' hok => by rw [hm'.1] at hok; cases hok)
        fun _ he => he
  | true => exact hf _ (hdone.stopped rfl) h

theorem acted : Attributes flags (mutDoAction ra a) := fun m hp h => by
  have hpure : Attributes flags (mutDoAction ra a >>= pure) :=
    .act (.finish (.pure true)) fails_false
  exact (wp_bind (mutDoAction ra a) pure).1 (hpure m hp h)

/-- A backtrace is made when backtraces are. -/
theorem produceBacktrace {f : Option (Option Nat) → MutM Bool} (hnone : Fails (f none))
    (hf : ∀ bt : Option Nat, bt.isSome = flags.backtrace → Attributes flags (f (some bt))) :
    Attributes flags (mutProduceBacktrace flags >>= f) := fun m hp h => by
  have hkeeps : wp (mutProduceBacktrace flags)
      (fun r _ => ∀ bt, r = some bt → bt.isSome = flags.backtrace) (fun _ => True) m := by
    unfold mutProduceBacktrace
    cases flags.backtrace with
    | false =>
        intro bt hbt
        cases hbt
        rfl
    | true =>
        rw [if_pos rfl, wp_bind]
        refine wp_mono (wp_trivial _ m) ?_ fun _ _ => trivial
        intro opened m₁ _
        cases opened with
        | none => exact nofun
        | some ptr =>
            simp only [wp_bind]
            refine wp_mono (wp_trivial _ m₁) ?_ fun _ _ => trivial
            intro ok m₂ _
            cases ok with
            | false =>
                simp only [Bool.not_false, if_true, wp_bind]
                exact wp_mono (wp_trivial _ m₂) (fun _ _ _ => nofun) fun _ _ => trivial
            | true =>
                intro bt hbt
                cases hbt
                rfl
  have htends : Tends flags (mutProduceBacktrace flags) := tends_steady steady_produceBacktrace
  refine wp_seq (wp_and (htends m hp) hkeeps) (fun _ he => he.1) ?_
  intro r m' hm'
  have hp' : m'.Stopped := Carries.carry _ _ hm'.1.steady hp
  cases r with
  | none => exact fail hnone m' hp' (hm'.1.attributed h)
  | some bt => exact hf bt (hm'.2 bt rfl) m' hp' (hm'.1.attributed h)

/-- A resource is made, or found in the list. -/
theorem create {f : Option Nat → MutM Bool} {addr : Word} (hnone : Fails (f none))
    (hf : ∀ obj, Fills flags obj (f (some obj))) :
    Attributes flags (mutResourcesCreateResource addr >>= f) := fun m hp h => by
  have hfilling : ∀ obj, Filling flags obj m.resources.elems := fun _ r hr => .inl (h r hr)
  have hmade : wp (mutResourcesCreateResource addr)
      (fun r m' => ∀ obj, r = some obj → Filling flags obj m'.resources.elems)
      (fun _ => True) m := by
    rw [mutResourcesCreateResource, wp_bind, wp_read]
    cases get Resource.addr addr m.resources.elems with
    | some r => exact fun obj _ => hfilling obj
    | none =>
        rw [Mut.malloc, wp_bind, wp_bind, wp_read]
        cases m.mem.full.head?.join with
        | some errno =>
            simp only [wp_bind, wp_update, wp_pure]
            exact wp_mono (wp_trivial _ _) (fun _ _ _ => by simp) fun _ _ => trivial
        | none =>
            simp only [wp_bind, wp_update, wp_pure, wp_updateResources]
            intro obj hobj r hr
            cases hobj
            rcases List.mem_cons.1 hr with rfl | hr
            · exact .inr ⟨rfl, rfl⟩
            · exact hfilling _ r hr
  refine wp_seq (wp_and (steady_createResource (k := .nothing) rfl addr m hp) hmade)
    (fun _ he => he.1) ?_
  intro r m' hm'
  have hp' : m'.Stopped := Carries.carry _ _ hm'.1 hp
  cases r with
  | none =>
      exact wp_mono (hnone m') (fun ok m'' hm'' hok => by rw [hm''.1] at hok; cases hok)
        fun _ he => he
  | some obj => exact hf obj m' hp' (hm'.2 obj rfl)

end Attributes

/-! ## The handlers -/

theorem mutProducerSuccess_attributes (again : String) (a : Routine) (traced : List Arg)
    (size addr : Word) (hbt : bt.isSome = flags.backtrace) :
    Attributes flags (mutProducerSuccess flags again a traced size addr bt) :=
  .steady (.whenever (steady_updateStats _)) fun _ => .create fails_false fun _ =>
    .bind (steady_resource _) fun _ => .ite
      (.bind (steady_log _) fun _ => .bind .read fun _ => .bind (steady_log _) fun _ =>
        .bind (steady_actionName _) fun _ => .bind (steady_log _) fun _ =>
          .bind (steady_log _) fun _ => .bind (steady_log _) fun _ => .false)
      (.made (fun _ _ => ⟨rfl, hbt⟩) fun _ => .finish (tends_steady
        (.bind (steady_traceCall _ _ _) fun _ => .bind (.whenever steady_reportUsage) fun _ =>
          .pure true)))

theorem mutProduce_attributes {adjust : MutM Bool} {size : Word}
    {failure : Option Nat → MutM Unit} {success : Word → Option Nat → MutM Bool}
    (hadjust : SteadyMut .listed adjust) (hfailure : SteadyMut .listed (failure bt))
    (hsuccess : ∀ addr, Attributes flags (success addr bt)) :
    Attributes flags (mutProduce flags a adjust size failure success bt) :=
  .steady (steady_lift steady_functionReturnAddr) fun
    | none => .fail (fails_freeBacktrace bt)
    | some _ => .steady (steady_unlessFails hadjust) fun
      | false => .fail (fails_freeBacktrace bt)
      | true => .act (.steady (steady_lift steady_readResult) fun
          | none => .fail (fails_freeBacktrace bt)
          | some _ => .steady (.whenever (steady_hit rfl _)) fun _ => .ite
              (.steady hfailure fun _ => .finish (.pure true))
              (.steady (steady_installZones rfl _ _) fun
                | none => .fail (fails_freeBacktrace bt)
                | some addr => hsuccess addr)) (fails_freeBacktrace bt)

theorem mutDoMalloc_attributes : Attributes flags (mutDoMalloc flags .malloc) :=
  .steady (steady_lift (steady_readArg 0)) fun
    | none => .fail fails_false
    | some _ => .produceBacktrace fails_false fun _ hbt =>
        mutProduce_attributes (steady_lift (steady_writeArg _ _)) (steady_failure _ _ _ _ _)
          fun _ => .steady (.require _ _ rfl) fun _ =>
            mutProducerSuccess_attributes _ _ _ _ _ hbt

theorem mutDoCalloc_attributes : Attributes flags (mutDoCalloc flags .calloc) :=
  .steady (steady_lift (steady_readArg 0)) fun
    | none => .fail fails_false
    | some _ => .steady (steady_lift (steady_readArg 1)) fun
      | none => .fail fails_false
      | some _ => .produceBacktrace fails_false fun _ hbt =>
          mutProduce_attributes
            (.bind (steady_lift (steady_writeArg _ _)) fun _ =>
              .ite (.pure false) (steady_lift (steady_writeArg _ _)))
            (steady_failure _ _ _ _ _) fun _ => mutProducerSuccess_attributes _ _ _ _ _ hbt

/-- What `realloc` makes of a new resource. -/
theorem attributed_realloc (hbt : bt.isSome = flags.backtrace) (size : Word)
    (h : r.Attributed flags ∨ r.producer.backtrace = none) :
    Resource.Attributed flags
      { r with
        producer :=
          { action := some .realloc
            backtrace := if flags.backtrace then bt else r.producer.backtrace }
        size := size } := by
  refine ⟨rfl, ?_⟩
  show (if flags.backtrace then bt else r.producer.backtrace).isSome = flags.backtrace
  cases hon : flags.backtrace with
  | true =>
      rw [if_pos rfl, hbt]
      exact hon
  | false =>
      rw [if_neg Bool.false_ne_true]
      rcases h with h | h
      · exact h.backtrace.trans hon
      · rw [h]
        rfl

theorem mutReallocMalloc_attributes (hbt : bt.isSome = flags.backtrace) (size : Word) :
    Attributes flags (mutReallocMalloc flags size bt) :=
  .steady (.require _ _ rfl) fun _ => .steady (steady_lift steady_readResult) fun
    | none => .fail (fails_freeBacktrace bt)
    | some _ => .steady (.whenever (steady_hit rfl _)) fun _ => .ite
        (.steady (steady_reallocFailure _ _ _ _) fun _ => .fail fails_false)
        (.steady (steady_installZones rfl _ _) fun
          | none => .fail (fails_freeBacktrace bt)
          | some _ => .create (fails_freeBacktrace bt) fun _ =>
              .bind (steady_resource _) fun _ => .bind (.require _ _ rfl) fun _ =>
                .bind (.whenever (steady_updateStats _)) fun _ =>
                  .made (fun _ h => attributed_realloc hbt size h) fun _ =>
                    .finish (tends_steady (.bind (steady_traceCall _ _ _) fun _ =>
                      .bind (.whenever steady_reportUsage) fun _ => .pure true)))

theorem mutReallocMallocNoFree_attributes (hbt : bt.isSome = flags.backtrace) (size : Word) :
    Attributes flags (mutReallocMallocNoFree flags size bt) :=
  .steady (.require _ _ rfl) fun _ => .steady (steady_lift steady_readResult) fun
    | none => .fail (fails_freeBacktrace bt)
    | some _ => .ite (.steady (steady_reallocFailure _ _ _ _) fun _ => .fail fails_false)
        (.steady (steady_installZones rfl _ _) fun
          | none => .fail (fails_freeBacktrace bt)
          | some _ => .create (fails_freeBacktrace bt) fun _ =>
              .bind (steady_resource _) fun _ => .bind (.require _ _ rfl) fun _ =>
                .made (fun _ _ => ⟨rfl, hbt⟩) fun _ => .finish (tends_steady
                  (.bind (steady_resource _) fun _ =>
                    .bind (.whenever (.bind (steady_hit rfl _) fun _ => steady_updateStats _))
                      fun _ => .bind (steady_traceCall _ _ _) fun _ => .pure true)))

theorem mutReallocUnknown_attributes (hbt : bt.isSome = flags.backtrace) (addr size ra : Word) :
    Attributes flags (mutReallocUnknown flags .realloc addr size ra bt) :=
  .steady (.whenever (steady_hit rfl _)) fun _ => .steady (steady_fum _ _ _) fun _ => .ite
    (.steady (steady_traceConsumer _ _) fun _ =>
      .steady (.whenever (steady_backtraceClose _)) fun _ => .acted)
    (.steady (steady_lift (steady_writeArg _ _)) fun _ => .ite (.fail (fails_freeBacktrace bt))
      (.steady (steady_unlessFails (steady_lift (steady_writeArg _ _))) fun _ =>
        .ite (.fail (fails_freeBacktrace bt)) (.act
          (.ite (.fail (fails_freeBacktrace bt)) (mutReallocMallocNoFree_attributes hbt size))
          (fails_freeBacktrace bt))))

theorem mutReallocRealloc_attributes (hbt : bt.isSome = flags.backtrace) (obj : Nat)
    (size : Word) : Attributes flags (mutReallocRealloc flags obj size bt) :=
  .steady (.require _ _ rfl) fun _ => .steady (.require _ _ rfl) fun _ =>
    .steady (steady_lift steady_readResult) fun
      | none => .fail fails_false
      | some _ => .steady (.whenever (steady_hit rfl _)) fun _ =>
          .steady (steady_resource _) fun _ =>
            .ite (.steady (steady_reallocFailure _ _ _ _) fun _ => .fail fails_false)
              (.steady (.whenever (steady_updateStats _)) fun _ =>
                .bind (tends_reallocMove _ _ _) fun _ => .ite (.fail fails_false)
                  (.steady (.whenever (steady_updateStats _)) fun _ =>
                    .bind (tends_assign _ fun _ h => ⟨rfl, h.backtrace⟩) fun _ =>
                      .bind (.whenever (tends_reallocBacktraces _ hbt)) fun _ =>
                        .finish (tends_steady (.bind (steady_traceCall _ _ _) fun _ =>
                          .bind (.whenever steady_reportUsage) fun _ => .pure true))))

theorem mutReallocReallocNoFree_attributes (hbt : bt.isSome = flags.backtrace) (obj : Nat)
    (size : Word) : Attributes flags (mutReallocReallocNoFree flags obj size bt) :=
  .steady (steady_resource _) fun _ => .steady (.require _ _ rfl) fun _ =>
    .steady (steady_lift steady_readResult) fun
      | none => .fail (fails_freeBacktrace bt)
      | some _ => .steady (.require _ _ rfl) fun _ =>
          .ite (.steady (steady_reallocFailure _ _ _ _) fun _ => .fail fails_false)
            (.steady (.whenever (steady_updateStats _)) fun _ =>
              .bind (tends_deleteResource _ _ _) fun _ =>
                .create (fails_freeBacktrace bt) fun _ => .bind (steady_resource _) fun _ =>
                  .bind (.require _ _ rfl) fun _ => .made (fun _ _ => ⟨rfl, hbt⟩) fun _ =>
                    .finish (tends_steady (.bind (steady_resource _) fun _ =>
                      .bind (steady_lift (steady_memcpy _ _ _)) fun _ => .ite (.pure _)
                        (.bind (steady_unlessFails (steady_lift (steady_memset _ _ _))) fun _ =>
                          .ite (.pure _) (.bind (.whenever (.bind (steady_hit rfl _) fun _ =>
                            steady_updateStats _)) fun _ => .bind (steady_resource _) fun _ =>
                              .bind (steady_traceCall _ _ _) fun _ =>
                                .bind (.whenever steady_reportUsage) fun _ => .pure true)))))

theorem mutReallocKnown_attributes (hbt : bt.isSome = flags.backtrace) (addr size ra : Word)
    (obj : Nat) : Attributes flags (mutReallocKnown flags .realloc addr size ra obj bt) :=
  .steady (steady_resource obj) fun _ => .steady (.whenever (steady_ffm _ _ _ _)) fun _ =>
    .steady (steady_unlessFails (steady_lift (steady_writeArg _ _))) fun _ =>
      .ite (.fail (fails_freeBacktrace bt))
        (.steady (steady_unlessFails (steady_lift (steady_writeArg _ _))) fun _ =>
          .ite (.fail (fails_freeBacktrace bt)) (.act
            (.ite (.fail (fails_freeBacktrace bt))
              (.ite (mutReallocRealloc_attributes hbt obj size)
                (mutReallocReallocNoFree_attributes hbt obj size)))
            (fails_freeBacktrace bt)))

theorem mutDoRealloc_attributes : Attributes flags (mutDoRealloc flags .realloc) :=
  .steady (steady_lift (steady_readArg 0)) fun
    | none => .fail fails_false
    | some _ => .steady (steady_lift (steady_readArg 1)) fun
      | none => .fail fails_false
      | some size => .steady (steady_lift steady_functionReturnAddr) fun
        | none => .fail fails_false
        | some _ => .produceBacktrace fails_false fun bt hbt => .ite
            (.steady (steady_unlessFails (steady_lift (steady_writeArg _ _))) fun _ =>
              .ite (.fail (fails_freeBacktrace bt)) (.act
                (.ite (.fail (fails_freeBacktrace bt)) (mutReallocMalloc_attributes hbt size))
                (fails_freeBacktrace bt)))
            (.steady (.bind .read fun _ => .pure _) fun
              | none => mutReallocUnknown_attributes hbt _ _ _
              | some _ => mutReallocKnown_attributes hbt _ _ _ _)

theorem mutFinishConsumer_attributes (ra : Word) :
    Attributes flags (mutFinishConsumer flags ra a) :=
  .ite .acted (.finish (tends_steady (steady_lift (steady_skipTo ra))))

theorem mutConsumeLive_attributes (addr ra : Word) (obj : Nat) (bt : Option Nat) :
    Attributes flags (mutConsumeLive flags addr ra a obj bt) :=
  .steady (steady_resource obj) fun _ => .steady (.whenever (steady_updateStats _)) fun _ =>
    .steady (steady_unlessFails (steady_zoneCheck _ _ _ _)) fun _ =>
      .ite (.fail (fails_freeBacktrace bt))
        (.steady (steady_unlessFails (steady_lift (steady_memset _ _ _))) fun _ =>
          .ite (.fail (fails_freeBacktrace bt))
            (.bind (tends_deleteResource _ _ _) fun _ =>
              .steady (.whenever (steady_backtraceClose _)) fun _ =>
                .steady (.whenever steady_reportUsage) fun _ => mutFinishConsumer_attributes ra))

theorem mutDoConsumer_attributes : Attributes flags (mutDoConsumer flags a) :=
  .steady (.whenever (steady_hit rfl _)) fun _ => .steady (steady_lift (steady_readArg 0)) fun
    | none => .fail fails_false
    | some _ => .steady (steady_lift steady_functionReturnAddr) fun
      | none => .fail fails_false
      | some ra => .produceBacktrace fails_false fun bt _ => .ite
          (.steady (steady_traceConsumer _ _) fun _ =>
            .steady (.whenever (steady_backtraceClose _)) fun _ => .acted)
          (.steady (.bind .read fun _ => .pure _) fun
            | none => .steady (steady_traceConsumer _ _) fun _ =>
                .steady (steady_fum _ _ _) fun _ =>
                  .steady (.whenever (steady_backtraceClose _)) fun _ =>
                    mutFinishConsumer_attributes ra
            | some _ => .steady (steady_resource _) fun _ =>
                .steady (steady_traceConsumer _ _) fun _ => .ite
                  (.steady (steady_ffm _ _ _ _) fun _ =>
                    .steady (.whenever (steady_backtraceClose _)) fun _ =>
                      mutFinishConsumer_attributes ra)
                  (mutConsumeLive_attributes _ ra _ bt))

/-- The handler of an intercepted call leaves an attributed list if it
succeeds, whatever the allocator returned. -/
theorem mutHandle_attributes (htype : (m.actions a).type = a.type) (hp : m.Stopped)
    (h : Attributed flags m.resources.elems) :
    wp (mutHandle flags a) (fun ok m' => ok = true → Attributed flags m'.resources.elems)
      Orderly m := by
  simp only [mutHandle, wp_bind, wp_read, htype]
  cases a with
  | malloc => exact mutDoMalloc_attributes m hp h
  | calloc => exact mutDoCalloc_attributes m hp h
  | realloc => exact mutDoRealloc_attributes m hp h
  | free => exact mutDoConsumer_attributes m hp h
  | cfree => exact mutDoConsumer_attributes m hp h
  | usage =>
      have husage : Attributes flags (mutDoUsage flags .usage) :=
        .steady steady_reportUsage fun _ =>
          .steady (steady_lift steady_functionReturnAddr) fun returnAddr => by
            cases returnAddr with
            | none => exact .fail fails_false
            | some _ => exact .acted
      exact husage m hp h

/-- Every list that the handlers leave is attributed. -/
theorem run_attributed (hopen : Opened flags m₀) (hrun : Run (Step flags) m₀ vs m) :
    Attributed flags m.resources.elems := by
  have hstart : Typed m₀ ∧ Attributed flags m₀.resources.elems := by
    refine ⟨hopen.ready.types, ?_⟩
    rw [hopen.elems]
    exact fun _ hr => absurd hr List.not_mem_nil
  refine (hrun.invariant (I := fun m => Typed m ∧ Attributed flags m.resources.elems)
    hstart ?_).2
  intro m v m' hm hs
  obtain ⟨htyped, hlist⟩ := hm
  have htype : (v.tracker.actions v.routine).type = v.routine.type :=
    (hs.between.type v.routine).trans (htyped v.routine (hs.between.root ▸ hs.listed))
  rw [← hs.between.resources] at hlist
  exact ⟨hs.typed htyped,
    wp_done (mutHandle_attributes htype hs.between.stopped hlist) hs.handled rfl⟩

/-! ## Whether a resource is new -/

/-- The resource that is made or found for `addr` is taken for new exactly when
none was listed there. -/
def Tells (m : Mut) (addr : Word) : Prop :=
  ∀ obj m', mutResourcesCreateResource addr m = .done (some obj) m' →
    ∃ r, get Resource.ptr obj m'.resources.elems = some r ∧
      (mutResourceIsNew r = true ↔ m.find addr = none)

/-- The tracker `m'` after the function of `a` returned the address of a listed
resource to `m`: that is reported, and nothing is changed. -/
structure Refused (m : Mut) (again : String) (a : Routine) (addr : Word) (ok : Bool)
    (m' : Mut) : Prop where
  failed : ok = false
  reported : ∃ producer, m'.process.log.messages =
    ⟨.error, again, [.string (m.actions a).name, .string producer, .execAddr addr]⟩ ::
      m.process.log.messages
  resources : m'.resources = m.resources
  stats : m'.stats = m.stats

/-- A producer is told whether there is a new resource at `addr`, and `malloc`
and `calloc` refuse one that was listed. -/
structure Distinguishes (flags : Control) (m : Mut) (addr : Word) : Prop where
  tells : Tells m addr
  refuses : (m.find addr).isSome → ∀ bt : Option Nat, bt.isSome = flags.backtrace →
    (∀ size, wp (mutMallocSuccess flags size addr bt) (Refused m "MMM" .malloc addr)
      (fun _ => False) m) ∧
    ∀ nElems elemSize, wp (mutCallocSuccess flags nElems elemSize addr bt)
      (Refused m "CMM" .calloc addr) (fun _ => False) m

section

variable {addr : Word}

theorem find_elems : m.find addr = (get Resource.addr addr m.resources.elems).map Resource.entry :=
  get_entries addr

/-- Some resource is designated by the address of one in the list. -/
theorem exists_get_ptr (hr : r ∈ l) : ∃ s ∈ l, get Resource.ptr r.ptr l = some s := by
  cases hget : get Resource.ptr r.ptr l with
  | none => exact absurd rfl (get_eq_none.1 hget r hr)
  | some s => exact ⟨s, mem_of_get hget, rfl⟩

/-- A listed resource is returned as it is. -/
theorem createResource_listed (hget : get Resource.addr addr m.resources.elems = some r) :
    mutResourcesCreateResource addr m = .done (some r.ptr) m := by
  have hwp : wp (mutResourcesCreateResource addr)
      (fun o m' => o = some r.ptr ∧ m' = m) (fun _ => False) m := by
    rw [mutResourcesCreateResource, wp_bind, wp_read, hget]
    exact ⟨rfl, rfl⟩
  obtain ⟨o, m', hdone, rfl, rfl⟩ := wp_returns hwp fun _ he => he
  exact hdone

/-- A resource is told to be new when there was none, and always without
backtraces. -/
theorem tells_iff (h : Attributed flags m.resources.elems) :
    Tells m addr ↔ m.find addr = none ∨ flags.backtrace = true := by
  have hfind : m.find addr =
      (get Resource.addr addr m.resources.elems).map Resource.entry := find_elems
  cases hget : get Resource.addr addr m.resources.elems with
  | none =>
      have hnone : m.find addr = none := by rw [hfind, hget]; rfl
      refine iff_of_true (fun obj m' hm' => ?_) (.inl hnone)
      have hmade : wp (mutResourcesCreateResource addr)
          (fun o m' => ∀ obj, o = some obj →
            get Resource.ptr obj m'.resources.elems = some (.blank obj addr))
          (fun _ => True) m := by
        rw [mutResourcesCreateResource, wp_bind, wp_read, hget, Mut.malloc, wp_bind, wp_bind,
          wp_read]
        cases m.mem.full.head?.join with
        | some errno =>
            simp only [wp_bind, wp_update, wp_pure]
            exact wp_mono (wp_trivial _ _) (fun _ _ _ => by simp) fun _ _ => trivial
        | none =>
            simp only [wp_bind, wp_update, wp_pure, wp_updateResources]
            intro obj hobj
            cases hobj
            rw [get_cons, if_pos rfl]
            rfl
      exact ⟨_, wp_done hmade hm' obj rfl, iff_of_true rfl hnone⟩
  | some r =>
      have hsome : m.find addr ≠ none := by rw [hfind, hget]; simp
      obtain ⟨s, hs, hptr⟩ := exists_get_ptr (mem_of_get hget)
      have hnew : mutResourceIsNew s = !flags.backtrace := by
        rw [← (h s hs).backtrace, mutResourceIsNew, Option.not_isSome]
      rw [or_iff_right hsome]
      constructor
      · intro htells
        obtain ⟨s', hs', hiff⟩ := htells _ _ (createResource_listed hget)
        obtain rfl : s = s' := Option.some.inj (hptr.symm.trans hs')
        cases hon : flags.backtrace with
        | true => rfl
        | false => exact absurd (hiff.1 (by rw [hnew, hon]; rfl)) hsome
      · intro hon obj m' hm'
        rw [createResource_listed hget] at hm'
        cases hm'
        refine ⟨s, hptr, iff_of_false ?_ hsome⟩
        rw [hnew, hon]
        simp

/-- With backtraces a producer refuses a listed resource, after it collected the
statistics. -/
theorem producerSuccess_refused (h : Attributed flags m.resources.elems)
    (hidle : m.process.log.Idle) (hon : flags.backtrace = true)
    (hlisted : (m.find addr).isSome) (again : String) (a : Routine) (traced : List Arg)
    (size : Word) (bt : Option Nat) :
    wp (mutProducerSuccess flags again a traced size addr bt)
      (Refused (m.counted flags (fun s => s.produced size)) again a addr) (fun _ => False) m := by
  have hfind : m.find addr =
      (get Resource.addr addr m.resources.elems).map Resource.entry := find_elems
  cases hget : get Resource.addr addr m.resources.elems with
  | none =>
      rw [hfind, hget] at hlisted
      cases hlisted
  | some r =>
      obtain ⟨s, hs, hptr⟩ := exists_get_ptr (mem_of_get hget)
      have hold : mutResourceIsNew s = false := by
        have hbacktrace := (h s hs).backtrace.trans hon
        rw [mutResourceIsNew, ← Option.not_isSome, hbacktrace]
        rfl
      obtain ⟨producer, hproducer⟩ := Option.isSome_iff_exists.1 (h s hs).action
      rw [mutProducerSuccess, wp_bind, mutCollectProducerStats, wp_counted]
      obtain ⟨m₁, hm₁⟩ : ∃ m₁, m₁ = m.counted flags (fun s => s.produced size) := ⟨_, rfl⟩
      have hlist : m₁.resources = m.resources := by rw [hm₁]; rfl
      have hidle₁ : m₁.process.log.Idle := by rw [hm₁]; exact hidle
      rw [← hm₁]
      have hcreate : wp (mutResourcesCreateResource addr)
          (fun o m' => o = some r.ptr ∧ m' = m₁) (fun _ => False) m₁ := by
        rw [mutResourcesCreateResource, wp_bind, wp_read, hlist, hget]
        exact ⟨rfl, rfl⟩
      refine wp_seq hcreate (fun _ he => he) ?_
      rintro _ _ ⟨rfl, rfl⟩
      rw [← hlist] at hptr
      simp only [wp_bind, Mut.resource, wp_read, hptr, wp_pure, hold, Bool.not_false, if_true,
        wp_liftLogMut, mutLogError, wp_mutLogBegin hidle₁, mutLogString, wp_mutLogArg,
        mutResourceProducerName, hproducer, Mut.actionName, mutLogExecAddr, wp_mutLogEnd]
      exact ⟨rfl, ⟨_, rfl⟩, rfl, rfl⟩

/-- To produce an object changes the statistics. -/
theorem produced_ne (s : Stats) (size : Word) : s.produced size ≠ s := fun h => by
  have hcount : s.now.count + 1 = s.now.count := congrArg (fun s => s.now.count) h
  omega

end

/-- In every list that the handlers leave, an address is told apart, and refused
when it is listed, exactly when it is not listed, or there are backtraces and no
statistics. -/
theorem distinguishes_iff {m₁ : Mut} (hopen : Opened flags m₀) (hrun : Run (Step flags) m₀ vs m)
    (hlist : m₁.resources = m.resources) (hidle : m₁.process.log.Idle) (addr : Word) :
    Distinguishes flags m₁ addr ↔
      m.find addr = none ∨ (flags.backtrace = true ∧ flags.stats = false) := by
  have hattributed : Attributed flags m₁.resources.elems := hlist ▸ run_attributed hopen hrun
  have hfind : m₁.find addr = m.find addr := by
    rw [find_elems, find_elems, hlist]
  have hcall : ∀ bt : Option Nat, bt.isSome = flags.backtrace →
      (flags.backtrace || bt.isNone) = true := by
    intro bt hbt
    rw [← hbt]
    cases bt <;> rfl
  constructor
  · intro h
    by_cases hnone : m.find addr = none
    · exact .inl hnone
    · have hlisted : (m₁.find addr).isSome := by
        rw [hfind]
        exact Option.isSome_iff_ne_none.2 hnone
      have hon : flags.backtrace = true :=
        ((tells_iff hattributed).1 h.tells).resolve_left (hfind ▸ hnone)
      refine .inr ⟨hon, ?_⟩
      cases hstats : flags.stats with
      | false => rfl
      | true =>
          have hkept := (h.refuses hlisted (some 0) hon.symm).1 0
          have hcounted := producerSuccess_refused hattributed hidle hon hlisted "MMM" .malloc
            [.uint 0] 0 (some 0)
          rw [mutMallocSuccess, wp_bind, wp_mutAssert, if_pos (hcall (some 0) hon.symm)] at hkept
          obtain ⟨ok, m', -, hm'⟩ := wp_returns (wp_and hkept hcounted) fun _ he => he.1
          have hsame := hm'.1.stats.symm.trans hm'.2.stats
          rw [Mut.counted, hstats] at hsame
          exact absurd hsame.symm (produced_ne _ _)
  · intro h
    by_cases hnone : m.find addr = none
    · refine ⟨(tells_iff hattributed).2 (.inl (hfind.trans hnone)), fun hlisted => ?_⟩
      rw [hfind, hnone] at hlisted
      cases hlisted
    · obtain ⟨hon, hstats⟩ := h.resolve_left hnone
      refine ⟨(tells_iff hattributed).2 (.inr hon), fun hlisted bt hbt => ?_⟩
      have hsame : ∀ f, m₁.counted flags f = m₁ := fun f => by
        rw [Mut.counted, hstats]
        rfl
      have hrefused := fun again a traced size =>
        producerSuccess_refused hattributed hidle hon hlisted again a traced size bt
      simp only [hsame] at hrefused
      refine ⟨fun size => ?_, fun nElems elemSize => hrefused _ _ _ _⟩
      rw [mutMallocSuccess, wp_bind, wp_mutAssert, if_pos (hcall bt hbt)]
      exact hrefused _ _ _ _

/-- A tracker that takes backtraces. -/
def Control.tracing : Control := { Control.plain with backtrace := true }

/-- With backtraces and no statistics a block in the list is told apart from a new one. -/
theorem distinguishes_iff_threeBlocks :
    ∃ vs m, Run (Step .tracing) (.fresh .tracing) vs m ∧
      vs.map Visit.event = threeBlocks.map Coming.event ∧
      m.find 0x3000 = some ⟨0x3000, 16, some .malloc, none⟩ ∧ m.find 0x5000 = none ∧
      Distinguishes .tracing m 0x3000 ∧ Distinguishes .tracing m 0x5000 := by
  have hserves : (Mut.fresh .tracing).serves .tracing (Mut.obtainsNew .tracing)
      (fun _ => true) threeBlocks = true := by decide +kernel
  obtain ⟨vs, m, hrun, hfresh, hevents, -⟩ := serves_fresh hserves
  have hopen : Opened .tracing (.fresh .tracing) := small_opened ..
  have hidle := (run_ready hrun hopen.ready hfresh).idle
  have hbook := run_book hrun hopen.ready hfresh
  rw [hevents] at hbook
  have hfound : m.book.find 0x3000 = some ⟨0x3000, 16, some .malloc, none⟩ := by
    rw [hbook]
    decide +kernel
  have hnone : m.book.find 0x5000 = none := by
    rw [hbook]
    decide +kernel
  exact ⟨vs, m, hrun, hevents, hfound, hnone,
    (distinguishes_iff hopen hrun rfl hidle 0x3000).2 (.inr ⟨rfl, rfl⟩),
    (distinguishes_iff hopen hrun rfl hidle 0x5000).2 (.inl hnone)⟩

/-- After `malloc` returned the object at 0x2000, the resource found there is
taken for new. -/
theorem listed_taken_for_new : ∃ m : Mut,
    Run (Step .plain) (mallocCall .plain) [⟨.malloc, mallocCall .plain⟩] m ∧
      (m.find 0x2000).isSome ∧ ¬ Tells m 0x2000 := by
  obtain ⟨m, hrun, -, hbook⟩ := small_run .plain (.calling 8 0)
    [(Target.calling 8 0).answers 0x2000] (a := .malloc) nofun rfl (by decide) rfl
  have hlisted : m.find 0x2000 = some ⟨0x2000, 8, some .malloc, none⟩ := by
    show m.book.find 0x2000 = _
    rw [hbook]
    rfl
  refine ⟨m, hrun, by rw [hlisted]; rfl, fun htells => ?_⟩
  rcases (tells_iff (run_attributed (small_opened ..) hrun)).1 htells with hnone | hon
  · rw [hlisted] at hnone
    cases hnone
  · cases hon

end MutTracker.Source
