import MutTracker.Verified.Asked
import MutTracker.Verified.Handed
import MutTracker.Verified.Zones

/-!
# The address that the target's allocator gets back

In check mode an object lies one zone above the address of its block.  When memory is
freed too, `free`, `cfree` and `realloc` are let run on the argument of the call, and that
is the address of the object: nothing takes the zone off again.  Only an object that a
`realloc` of another placed lies at the address of its block, since `mut_realloc_realloc`
marks no zones.

## Main results

* `mutHandle_takes` — what a function that takes an object is let run on.
* `run_sourced` — every object in the list was placed where its call says.
* `executes_iff` — when the allocator gets the address that it returned.
* `givenBack_iff` — it gets that address back for an object that a `realloc` placed, and for
  hardly any other.
-/

namespace MutTracker.Source

open MutTracker.Logic MutTracker.Logic.Prog MutTracker.Logic.Keyed

variable {flags : Control} {p : Process} {m m' m₀ m₁ mh : Mut} {a : Routine} {α : Type}
  {t u : Target} {x : MutM Bool}

/-! ## What leaves the target alone -/

/-- The target is looked at; the list may change. -/
structure Mut.Aside (m m' : Mut) : Prop where
  process : m.process.Kept m'.process

instance : Carries Mut.Stopped Mut.Aside where
  refl m := ⟨refl_of _ m.process⟩
  trans _ _ _ h h' := ⟨trans_of _ h.process h'.process⟩
  carry _ _ h hs := h.process.status.trans hs

/-- The operation of the tracker, on a stopped process, keeps the target. -/
abbrev Spares (x : MutM α) : Prop := Within Mut.Stopped (fun _ => True) Mut.Aside x

theorem spares_of_keeps {x : MutM α} (h : Keeps x) : Spares x := fun m hp =>
  wp_mono (h m hp) (fun _ _ hk => ⟨hk.process⟩) fun _ he => he

theorem spares_update {f : Mut → Mut} (hf : ∀ m, (f m).process = m.process) :
    Spares (update f : MutM Unit) :=
  .update fun m => by
    refine ⟨?_⟩
    rw [hf m]
    exact refl_of _ m.process

theorem spares_updateResources (f : Resources → Resources) : Spares (Mut.updateResources f) :=
  spares_update fun _ => rfl

theorem spares_assign (obj : Nat) (f : Resource → Resource) : Spares (Mut.assign obj f) :=
  .bind (spares_of_keeps (kept_resource obj)) fun _ => spares_update fun _ => rfl

theorem spares_backtraceClose (bt : Option Nat) : Spares (mutBacktraceClose bt) :=
  spares_of_keeps (kept_backtraceClose bt)

theorem spares_backtraceShare (bt : Option Nat) : Spares (mutBacktraceShare bt) :=
  .bind (spares_of_keeps (kept_backtrace bt)) fun _ =>
    .bind (spares_of_keeps (kept_setBacktrace _ _)) fun _ => .pure _

theorem spares_reallyDelete (obj : Nat) (c : Routine) (bt : Option Nat) :
    Spares (mutResourcesReallyDeleteResource obj c bt) := by
  refine .bind (spares_of_keeps (kept_resource obj)) fun o => .bind .read fun m =>
    .bind (.require _ _ trivial) fun _ => .bind (.require _ _ trivial) fun _ => ?_
  cases Keyed.get Resource.addr o.addr m.resources.elems with
  | none => exact .stop _ trivial
  | some r =>
      exact .bind (spares_updateResources _) fun _ =>
        .bind (.whenever (spares_backtraceClose _)) fun _ => spares_updateResources _

theorem spares_markAsFree (obj : Nat) (c : Routine) (bt : Option Nat) :
    Spares (mutResourcesMarkAsFree obj c bt) :=
  .bind (spares_of_keeps (kept_resource obj)) fun _ => .bind .read fun _ =>
    .bind (.require _ _ trivial) fun _ => .bind (.require _ _ trivial) fun _ =>
      .bind (spares_assign _ _) fun _ =>
        .bind (.whenever (.bind (spares_backtraceShare _) fun _ => spares_assign _ _)) fun _ =>
          spares_updateResources _

theorem spares_deleteResource (obj : Nat) (c : Routine) (bt : Option Nat) :
    Spares (mutResourcesDeleteResource obj c bt) :=
  .bind .read fun _ => .ite (spares_reallyDelete _ _ _) (spares_markAsFree _ _ _)

theorem kept_forEachResource {all : Bool} {body : Resource → MutM Unit}
    (hbody : ∀ r, Keeps (body r)) (elems : List Resource) :
    Keeps (forEachResource all body elems) := by
  induction elems with
  | nil => exact .pure ()
  | cons r elems ih => exact .bind (.whenever (hbody r)) fun _ => ih

theorem kept_reportUsage : Keeps (mutReportUsage flags) :=
  .bind (kept_log _) fun _ => .bind (.bind .read fun _ => .pure _) fun _ =>
    .bind (kept_log _) fun _ => .bind (kept_forEachResource (fun _ =>
      .bind (kept_actionName _) fun _ => .bind (kept_log _) fun _ => .bind (kept_log _) fun _ =>
        .bind (kept_log _) fun _ => .whenever (kept_logBacktrace _)) _) fun _ => kept_log _

theorem kept_readWord (addr : Word) : KeepsProcess (mutProcessReadWord addr) :=
  .bind (kept_assertStopped _) fun _ => .bind (.require _ _ trivial) fun _ => kept_peek _ _ _

theorem kept_wum (addr zoneAddr zone : Word) (a : Routine) (obj : Nat) (bt : Option Nat) :
    Keeps (mutLogWum flags addr zoneAddr zone a obj bt) :=
  .bind (.require _ _ trivial) fun _ => .bind (kept_resource _) fun _ =>
    .bind (kept_log _) fun _ => .bind .read fun _ => .bind (kept_log _) fun _ =>
      .bind (kept_log _) fun _ => .bind (kept_log _) fun _ => .bind (kept_log _) fun _ =>
        .bind (kept_log _) fun _ => .bind (.whenever (kept_logBacktrace _)) fun _ =>
          .bind (kept_actionName _) fun _ => .bind (kept_log _) fun _ =>
            .bind (.whenever (kept_logBacktrace _)) fun _ => kept_log _

theorem kept_zoneCheck (addr : Word) (obj : Nat) (a : Routine) (bt : Option Nat) :
    Keeps (mutZoneCheck flags addr obj a bt) := by
  refine .bind (kept_resource obj) fun r => .bind (kept_lift (kept_readWord _)) fun pre => ?_
  cases pre with
  | none => exact .pure _
  | some pre =>
      refine .ite (.bind (kept_wum _ _ _ _ _ _) fun _ => .pure _)
        (.bind (kept_lift (kept_readWord _)) fun post => ?_)
      cases post with
      | none => exact .pure _
      | some post => exact .ite (.bind (kept_wum _ _ _ _ _ _) fun _ => .pure _) (.pure _)

/-! ## Zeroing an object -/

/-- The target has been made into `t`, where the operation succeeded. -/
def Makes (t : Target) (ok : Bool) (q : Process) : Prop :=
  ok = true → q.kernel.target = t

theorem mutProcessMemsetWords_makes (pattern : Word) (nwords : Nat) (addr : Word) :
    wp (mutProcessMemsetWords pattern nwords addr)
      (Makes (p.kernel.target.setWords pattern nwords addr)) Orderly p := by
  induction nwords generalizing addr p with
  | zero => exact fun _ => rfl
  | succ nwords ih =>
      rw [mutProcessMemsetWords, wp_bind]
      refine wp_mono (mutTraceRequest_effect ..) ?_ fun _ he => he
      intro ok q hq
      have hkernel := hq.kernel
      cases ok with
      | false => exact fun hok => absurd hok Bool.false_ne_true
      | true =>
          refine wp_mono (ih (addr + 4)) ?_ fun _ he => he
          intro ok q' hq' hok
          rw [hq' hok, hkernel]
          rfl

theorem mutProcessMemset_makes (hp : p.Stopped) (addr c n : Word) :
    wp (mutProcessMemset addr c n) (Makes (p.kernel.target.memset addr c n))
      (fun _ => True) p := by
  unfold mutProcessMemset Target.memset
  rw [wp_bind, wp_mutAssertStatus, if_pos hp, wp_bind, wp_mutAssert]
  split
  · rw [wp_bind]
    refine wp_mono (mutProcessMemsetWords_makes _ _ addr) ?_ fun _ _ => trivial
    intro ok q hq
    cases ok with
    | false => exact fun hok => absurd hok Bool.false_ne_true
    | true =>
        have htarget := hq rfl
        by_cases hbytes : n.toNat % 4 = 0
        · simp only [Bool.not_true, Bool.false_eq_true, if_false, if_pos hbytes]
          exact fun _ => htarget
        · simp only [Bool.not_true, Bool.false_eq_true, if_false, if_neg hbytes, wp_bind]
          refine wp_mono (mutTracePeek_effect ..) ?_ fun _ _ => trivial
          intro r q₁ hq₁
          cases r with
          | none => exact fun hok => absurd hok Bool.false_ne_true
          | some orig =>
              refine wp_mono (mutTraceRequest_effect ..) ?_ fun _ _ => trivial
              intro ok q₂ hq₂ hok
              have hkernel := hq₂.kernel
              rw [hkernel, if_pos hok, hq₁.found orig rfl, ← htarget, hq₁.kernel]
              rfl
  · trivial

/-- The target of a handler is made into another by zeroing an object. -/
theorem Hands.wipe {f : Bool → MutM Bool} {e : Entry}
    (hf : Hands m u (t.wiped flags e) (f true)) (hfail : Fails (f false)) :
    Hands m u t (unlessFails flags.zero (liftM (mutProcessMemset e.addr 0 e.size)) >>= f) := by
  unfold Target.wiped at hf
  cases hzero : flags.zero with
  | false =>
      rw [hzero] at hf
      exact hf
  | true =>
      rw [hzero, if_pos rfl] at hf
      intro m₁ h
      show wp (liftM (mutProcessMemset e.addr 0 e.size) >>= f) _ _ m₁
      rw [wp_bind, wp_liftProcess]
      have hsteady : SteadyProcess false (mutProcessMemset e.addr 0 e.size) := steady_memset _ _ _
      refine wp_mono (wp_and (hsteady m₁.process h.stopped)
        (mutProcessMemset_makes h.stopped e.addr 0 e.size)) ?_ fun _ _ => trivial
      rintro ok q ⟨hsteady, hmakes⟩
      have hresumed : q.resumed = m.process.resumed := hsteady.resumed.trans h.resumed
      cases ok with
      | false =>
          refine wp_mono (hfail _) ?_ fun _ _ => trivial
          rintro ok m' ⟨-, μ, rfl⟩
          exact .inl hresumed
      | true =>
          refine hf _ ⟨hsteady.status.trans h.stopped, hresumed, h.resources, ?_⟩
          rw [← h.target]
          exact hmakes rfl

/-! ## The consumers -/

/-- The tracker in a handler that started at `m`, with its target made into `t`, whatever
became of the list. -/
structure Poised (m : Mut) (t : Target) (m₁ : Mut) : Prop where
  stopped : m₁.Stopped
  resumed : m₁.process.resumed = m.process.resumed
  target : m₁.target = t

/-- From there the program lets the target run on it, or not at all. -/
def Lets (m : Mut) (t : Target) (x : MutM Bool) : Prop :=
  ∀ m₁, Poised m t m₁ → wp x (fun _ m' => RunsOn m t m') (fun _ => True) m₁

theorem Lets.bind {z : MutM α} {g : α → MutM Bool} (hz : Spares z)
    (hg : ∀ r, Lets m t (g r)) : Lets m t (z >>= g) := fun _ h =>
  hz.seq h.stopped fun r _ hk => hg r _
    ⟨hk.process.status.trans h.stopped, hk.process.resumed.trans h.resumed,
      hk.process.target.trans h.target⟩

theorem Lets.hands (h : Lets m t x) : Hands m t t x := fun m₁ hready =>
  h m₁ ⟨hready.stopped, hready.resumed, hready.target⟩

theorem mutFinishConsumer_lets (ra : Word) : Lets m t (mutFinishConsumer flags ra a) := by
  intro m₁ h
  unfold mutFinishConsumer
  split
  · refine wp_mono (mutDoAction_runsOn h.stopped ra a) ?_ fun _ _ => trivial
    intro ok m' hruns
    unfold RunsOn at hruns ⊢
    rw [← h.resumed, ← h.target]
    exact hruns
  · rw [wp_liftProcess]
    have hsteady : SteadyProcess false (mutProcessSkipTo ra) := steady_skipTo ra
    refine wp_mono (hsteady m₁.process h.stopped) ?_ fun _ _ => trivial
    exact fun _ _ hq => .inl (hq.resumed.trans h.resumed)

/-- The resource is followed as it was in the list. -/
theorem Hands.resource {obj : Nat} {o : Resource} {g : Resource → MutM Bool}
    (hget : Keyed.get Resource.ptr obj m.resources.elems = some o) (hg : Hands m u t (g o)) :
    Hands m u t (Mut.resource obj >>= g) := fun m₁ h => by
  have hresource : wp (Mut.resource obj) (fun r m₂ => r = o ∧ m₂ = m₁) (fun _ => True) m₁ := by
    unfold Mut.resource
    rw [wp_bind, wp_read, h.resources, hget]
    exact ⟨rfl, rfl⟩
  refine wp_seq hresource (fun _ he => he) ?_
  rintro _ _ ⟨rfl, rfl⟩
  exact hg _ h

theorem mutConsumeLive_hands {obj : Nat} {o : Resource}
    (hget : Keyed.get Resource.ptr obj m.resources.elems = some o) (ra : Word)
    (bt : Option Nat) :
    Hands m (m.target.wiped flags o.entry) m.target
      (mutConsumeLive flags o.addr ra a obj bt) := by
  have hfree : Fails (freeBacktrace flags bt) := fails_freeBacktrace bt
  refine .resource hget (.bind (.whenever (kept_update fun _ => ⟨rfl, rfl⟩)) fun _ => ?_)
  have hcheck : Keeps (unlessFails flags.check (mutZoneCheck flags o.addr obj a bt)) :=
    .ite (kept_zoneCheck _ _ _ _) (.pure _)
  refine .bind hcheck fun ok => ?_
  cases ok with
  | false => exact .fail hfree
  | true =>
      refine .wipe (e := o.entry) (Lets.hands ?_) hfree
      exact .bind (spares_deleteResource _ _ _) fun _ =>
        .bind (.whenever (spares_backtraceClose _)) fun _ =>
          .bind (.whenever (spares_of_keeps kept_reportUsage)) fun _ => mutFinishConsumer_lets ra

/-- A consumer is let run on the target with the object zeroed, if it was live. -/
theorem handed_live {e : Entry} (ha : a = .free ∨ a = .cfree) (hnonzero : m.target.arg 0 ≠ 0)
    (hfind : m.find (m.target.arg 0) = some e) (hlive : e.consumer = none) :
    m.handed flags a = m.target.wiped flags e := by
  rcases ha with rfl | rfl
  all_goals
    unfold Mut.handed
    rw [hfind]
    exact if_pos ⟨hnonzero, hlive⟩

theorem handed_plain (ha : a = .free ∨ a = .cfree)
    (hplain : ∀ e, m.target.arg 0 ≠ 0 → m.find (m.target.arg 0) = some e → e.consumer ≠ none) :
    m.handed flags a = m.target := by
  cases hfind : m.find (m.target.arg 0) with
  | none =>
      rcases ha with rfl | rfl
      all_goals
        unfold Mut.handed
        rw [hfind]
  | some e =>
      rcases ha with rfl | rfl
      all_goals
        unfold Mut.handed
        rw [hfind]
        exact if_neg fun hboth => hplain e hboth.1 hfind hboth.2

theorem mutDoConsumer_hands (hptrs : UniqueKeys Resource.ptr m.resources.elems)
    (ha : a = .free ∨ a = .cfree) :
    Hands m (m.handed flags a) m.target (mutDoConsumer flags a) := by
  refine .bind (.whenever (kept_hit _)) fun _ => .readArg fails_false ?_
  refine .bind (kept_lift kept_functionReturnAddr) fun ra => ?_
  cases ra with
  | none => exact .fail fails_false
  | some ra =>
      refine .bind kept_produceBacktrace fun bt => ?_
      cases bt with
      | none => exact .fail fails_false
      | some bt =>
          refine .ite (fun hzero => ?_) fun hnonzero => ?_
          · rw [handed_plain ha fun _ hnonzero _ => absurd hzero hnonzero]
            exact .bind (kept_traceConsumer _ _) fun _ =>
              .bind (.whenever (kept_backtraceClose _)) fun _ => .acted
          · have hfind : m.find (m.target.arg 0) =
                (Keyed.get Resource.addr (m.target.arg 0) m.resources.elems).map Resource.entry :=
              get_entries _
            intro m₁ h
            rw [wp_bind, wp_lookup, h.resources]
            cases hget : Keyed.get Resource.addr (m.target.arg 0) m.resources.elems with
            | none =>
                rw [hget] at hfind
                rw [handed_plain ha fun e _ he => by rw [hfind] at he; cases he]
                exact Hands.bind (kept_traceConsumer _ _) (fun _ => .bind (kept_fum _ _ _) fun _ =>
                  .bind (.whenever (kept_backtraceClose _)) fun _ =>
                    (mutFinishConsumer_lets ra).hands) m₁ h
            | some o =>
                rw [hget] at hfind
                have haddr : o.addr = m.target.arg 0 := key_of_get hget
                have hptr : Keyed.get Resource.ptr o.ptr m.resources.elems = some o :=
                  hptrs.get_of_mem (mem_of_get hget)
                refine Hands.resource hptr (.bind (kept_traceConsumer _ _) fun _ =>
                  .ite (fun hdeleted => ?_) fun hlive => ?_) m₁ h
                · rw [handed_plain ha fun e _ he hnone => by
                    rw [hfind] at he
                    cases he
                    have haction : o.consumer.action = none := hnone
                    rw [mutResourcesResourceDeleted, haction] at hdeleted
                    cases hdeleted]
                  exact .bind (kept_ffm _ _ _ _) fun _ =>
                    .bind (.whenever (kept_backtraceClose _)) fun _ =>
                      (mutFinishConsumer_lets ra).hands
                · have hnone : o.entry.consumer = none := by
                      show o.consumer.action = none
                      simpa [mutResourcesResourceDeleted] using hlive
                  rw [handed_live ha hnonzero hfind hnone, ← haddr]
                  exact mutConsumeLive_hands hptr ra bt

/-- A function that takes an object is let run on what it is handed, or not at all. -/
theorem mutHandle_takes (hp : m.Stopped) (htype : (m.actions a).type = a.type)
    (hptrs : UniqueKeys Resource.ptr m.resources.elems) (htakes : a.takes = true) :
    wp (mutHandle flags a) (fun _ m' => RunsOn m (m.handed flags a) m') (fun _ => True) m := by
  have hready : Readied m m.target m := ⟨hp, rfl, rfl, rfl⟩
  cases a with
  | realloc => exact mutHandle_hands hp htype rfl
  | free =>
      simp only [mutHandle, wp_bind, wp_read, htype]
      exact mutDoConsumer_hands hptrs (.inl rfl) m hready
  | cfree =>
      simp only [mutHandle, wp_bind, wp_read, htype]
      exact mutDoConsumer_hands hptrs (.inr rfl) m hready
  | malloc | calloc | usage => cases htakes

/-! ## The call that an object comes from -/

/-- The call of a producer put an object in the list, when memory is freed too: that is so
when its function returned an address, but for a `realloc` of an unknown one. -/
def Visit.Makes (v : Visit) : Prop :=
  v.routine.produces = true ∧ v.tracker.result ≠ 0 ∧
    (v.routine = .realloc → v.tracker.target.arg 0 = 0 ∨
      (v.tracker.find (v.tracker.target.arg 0)).isSome = true)

instance (v : Visit) : Decidable v.Makes :=
  inferInstanceAs (Decidable (_ ∧ _ ∧ (_ → _)))

/-- Where the object that the call put in the list lies. -/
abbrev Visit.recorded (flags : Control) (v : Visit) : Word := v.tracker.recorded flags v.routine

/-- The call that put an object at an address last, with one more call. -/
def Visit.places (flags : Control) (M : Word → Option Visit) (v : Visit) : Word → Option Visit :=
  if v.Makes then Function.update M (v.recorded flags) (some v) else M

/-- The call of a run that put an object at an address last. -/
def placedBy (flags : Control) (vs : List Visit) : Word → Option Visit :=
  vs.foldl (Visit.places flags) fun _ => none

/-- Every object in the list comes from the call that put one at its address last. -/
def Sourced (flags : Control) (es : List Entry) (M : Word → Option Visit) : Prop :=
  ∀ e ∈ es, ∃ v, M e.addr = some v ∧ e.addr = v.recorded flags ∧ e.producer = some v.routine

/-- What a call leaves in the list was there before it, or is the object it made. -/
structure Origin (flags : Control) (v : Visit) (es es' : List Entry) : Prop where
  old : ∀ e ∈ es', e ∈ es ∨ (v.Makes ∧ e.addr = v.recorded flags ∧ e.producer = some v.routine)
  new : v.Makes → ∃ e ∈ es', e.addr = v.recorded flags ∧ e.producer = some v.routine

theorem Origin.same {v : Visit} (hmakes : ¬ v.Makes) : Origin flags v es es :=
  ⟨fun _ he => .inl he, fun h => absurd h hmakes⟩

theorem Origin.cons {v : Visit} {e : Entry} (hmakes : v.Makes) (haddr : e.addr = v.recorded flags)
    (hproducer : e.producer = some v.routine) : Origin flags v es (e :: es) where
  old := by
    intro e' he'
    rcases List.mem_cons.1 he' with rfl | he'
    · exact .inr ⟨hmakes, haddr, hproducer⟩
    · exact .inl he'
  new _ := ⟨e, List.mem_cons_self, haddr, hproducer⟩

/-- An object that is consumed leaves the list. -/
theorem Origin.consume {v : Visit} (hmakes : ¬ v.Makes) (hfree : flags.free = true)
    (c : Routine) (addr : Word) : Origin flags v es (consumeEntry flags c addr es) where
  old := by
    intro e he
    unfold consumeEntry at he
    rw [hfree, if_pos rfl] at he
    exact .inl (List.mem_of_mem_eraseP he)
  new h := absurd h hmakes

/-- An object that was resized is another at the address it was moved to. -/
theorem Origin.move {v : Visit} {e : Entry} {size : Word} (hmem : e ∈ es) (hmakes : v.Makes)
    (hroutine : v.routine = .realloc) :
    Origin flags v es
      (adjust Entry.addr e.addr (fun _ => ⟨v.recorded flags, size, some .realloc, none⟩) es) where
  old := by
    intro e' he'
    obtain ⟨e₀, he₀, rfl⟩ := List.mem_map.1 he'
    by_cases haddr : e₀.addr = e.addr
    · rw [if_pos haddr]
      exact .inr ⟨hmakes, rfl, by rw [hroutine]⟩
    · rw [if_neg haddr]
      exact .inl he₀
  new _ := ⟨_, List.mem_map.2 ⟨e, hmem, if_pos rfl⟩, rfl, by rw [hroutine]⟩

/-- A call keeps every object sourced, when no two lie at one address after it. -/
theorem Sourced.places {v : Visit} {M : Word → Option Visit} {es' : List Entry}
    (h : Sourced flags es M) (horigin : Origin flags v es es')
    (hkeys : UniqueKeys Entry.addr es') : Sourced flags es' (Visit.places flags M v) := by
  intro e he
  by_cases hmakes : v.Makes
  · rw [Visit.places, if_pos hmakes]
    by_cases haddr : e.addr = v.recorded flags
    · obtain ⟨e', he', haddr', hproducer'⟩ := horigin.new hmakes
      have hsame : e = e' := by
        have hget := hkeys.get_of_mem he
        rw [haddr, ← haddr', hkeys.get_of_mem he'] at hget
        exact (Option.some.inj hget).symm
      refine ⟨v, ?_, haddr, by rw [hsame, hproducer']⟩
      rw [haddr, Function.update_self]
    · rcases horigin.old e he with hold | hnew
      · obtain ⟨w, hw, hrest⟩ := h e hold
        exact ⟨w, by rw [Function.update_of_ne haddr, hw], hrest⟩
      · exact absurd hnew.2.1 haddr
  · rw [Visit.places, if_neg hmakes]
    rcases horigin.old e he with hold | hnew
    · exact h e hold
    · exact absurd hnew.1 hmakes

theorem origin_produce {size arg : Word} {warning : String} (ha : a = .malloc ∨ a = .calloc) :
    Origin flags ⟨a, m⟩ m.book.entries
      (m.book.produce flags a warning arg size m.result).entries := by
  have hother : a ≠ .realloc := by
    rcases ha with rfl | rfl <;> simp
  have hproduces : a.produces = true := by
    rcases ha with rfl | rfl <;> rfl
  unfold Book.produce
  by_cases hzero : m.result = 0
  · rw [if_pos hzero]
    show Origin flags _ _ (m.book.hit flags a 1).entries
    rw [Book.hit_entries]
    exact .same fun hmakes => hmakes.2.1 hzero
  · rw [if_neg hzero]
    show Origin flags _ _ (_ :: (m.book.hit flags a 1).entries)
    rw [Book.hit_entries]
    refine .cons ⟨hproduces, hzero, fun h => absurd h hother⟩ ?_ rfl
    exact (if_neg fun h => hother h.1).symm

theorem origin_consume (hfree : flags.free = true) (ha : a = .free ∨ a = .cfree) (addr : Word) :
    Origin flags ⟨a, m⟩ m.book.entries (m.book.consume flags a addr).entries := by
  have hmakes : ¬ Visit.Makes ⟨a, m⟩ := by
    intro hmakes
    have hproduces : a.produces = true := hmakes.1
    rcases ha with rfl | rfl <;> cases hproduces
  have hsame : Origin flags ⟨a, m⟩ m.book.entries (m.book.hit flags a 1).entries := by
    rw [Book.hit_entries]
    exact .same hmakes
  unfold Book.consume
  simp only [Book.find_hit]
  split
  · exact hsame
  · cases m.book.find addr with
    | none => exact hsame
    | some e =>
        simp only
        split
        · exact hsame
        · show Origin flags _ _ (consumeEntry flags a e.addr (m.book.hit flags a 1).entries)
          rw [Book.hit_entries]
          exact .consume hmakes hfree a e.addr

theorem origin_reallocate (hfree : flags.free = true)
    (hmade : m.target.arg 0 = 0 ∨ (m.find (m.target.arg 0)).isSome = true → m.result ≠ 0) :
    Origin flags ⟨.realloc, m⟩ m.book.entries
      (m.book.reallocate flags (m.target.arg 0) (m.target.arg 1) m.result).entries := by
  unfold Book.reallocate
  by_cases hzero : m.target.arg 0 = 0
  · rw [if_pos hzero]
    show Origin flags _ _ (_ :: (m.book.hit flags .realloc 1).entries)
    rw [Book.hit_entries]
    refine .cons ⟨rfl, hmade (.inl hzero), fun _ => .inl hzero⟩ ?_ rfl
    exact (if_neg fun h => h.2.1 hzero).symm
  · rw [if_neg hzero]
    cases hfind : m.book.find (m.target.arg 0) with
    | none =>
        simp only [hfree, if_true]
        show Origin flags _ _ (m.book.hit flags .realloc 1).entries
        rw [Book.hit_entries]
        refine .same fun hmakes => ?_
        rcases hmakes.2.2 rfl with h | h
        · exact hzero h
        · rw [Mut.find, hfind] at h
          exact Bool.noConfusion h
    | some e =>
        have hknown : (m.find (m.target.arg 0)).isSome = true := by
          rw [Mut.find, hfind]
          rfl
        have hrecorded : Visit.recorded flags ⟨.realloc, m⟩ = m.result :=
          if_pos ⟨rfl, hzero, hknown⟩
        simp only [hfree, if_true]
        show Origin flags _ _ (adjust Entry.addr e.addr _ (m.book.hit flags .realloc 1).entries)
        rw [Book.hit_entries, ← hrecorded]
        exact .move (mem_of_get hfind) ⟨rfl, hmade (.inr hknown), fun _ => .inr hknown⟩ rfl

/-- What a call that is handled leaves in the list, when memory is freed too. -/
theorem Served.origin (hserved : Served flags m a t m') (hfree : flags.free = true) :
    Origin flags ⟨a, m⟩ m.book.entries m'.book.entries := by
  rw [hserved.midway.book]
  cases a with
  | malloc => exact origin_produce (.inl rfl)
  | calloc => exact origin_produce (.inr rfl)
  | realloc =>
      refine origin_reallocate hfree fun hlooked => ?_
      obtain ⟨t', hret, -⟩ := hserved.returned rfl
      intro hzero
      refine hserved.met ⟨rfl, by rw [hret]; rfl, hzero, fun _ hnonzero => ?_⟩
      exact hlooked.resolve_left hnonzero
  | free => exact origin_consume hfree (.inl rfl) _
  | cfree => exact origin_consume hfree (.inr rfl) _
  | usage =>
      refine .same fun hmakes => ?_
      exact Bool.noConfusion hmakes.1

/-- Every object in the list comes from the call that put one at its address last. -/
theorem run_sourced (hopen : Opened flags m₀) (hfree : flags.free = true)
    (hrun : Run (Step flags) m₀ vs m) (hfresh : AllFresh flags vs) :
    Sourced flags m.book.entries (placedBy flags vs) := by
  refine (run_related (R := fun m M => Sourced flags m.book.entries M) hrun hopen.ready hfresh
    ?_ ?_).2
  · intro e he
    rw [show m₀.book.entries = [] from congrArg (List.map _) hopen.elems] at he
    exact absurd he List.not_mem_nil
  · intro m v m' M hready hs hfresh h
    obtain ⟨t, hserved⟩ := hs.served hready hfresh
    have horigin := hserved.origin hfree
    have hbook : v.tracker.book.entries = m.book.entries := by
      show v.tracker.resources.entries = m.resources.entries
      rw [hs.between.resources]
    rw [hbook] at horigin
    exact h.places horigin (uniqueKeys_entries (hs.ready hready hfresh).books.shelved.addrs)

/-! ## What the allocator gets -/

/-- The argument of the call when the object that it gives has been zeroed. -/
def Mut.spared (flags : Control) (m : Mut) (a : Routine) (e : Entry) : Word :=
  if a = .realloc then m.target.arg 0 else (m.target.wiped flags e).arg 0

/-- The function is let run on that argument. -/
theorem handed_given {e : Entry} (hgives : m.Gives a e) (hfree : flags.free = true) :
    (m.handed flags a).arg 0 = m.spared flags a e := by
  have htakes := hgives.takes
  cases a with
  | realloc =>
      have hkeep : ¬ (flags.free = false ∧ m.target.arg 0 ≠ 0) := by
        rw [hfree]
        exact fun h => Bool.noConfusion h.1
      rw [Mut.spared, if_pos rfl, Mut.handed]
      simp only [if_neg hkeep]
      split
      · exact arg_zero_setArg_one
      · rfl
  | free =>
      rw [handed_live (.inl rfl) hgives.nonzero hgives.found hgives.live]
      rfl
  | cfree =>
      rw [handed_live (.inr rfl) hgives.nonzero hgives.found hgives.live]
      rfl
  | malloc | calloc | usage => exact Bool.noConfusion htakes

instance : Decidable (m.Resizes a) :=
  decidable_of_iff
    (a = .realloc ∧ m.target.arg 0 ≠ 0 ∧ (m.find (m.target.arg 0)).isSome = true)
    ⟨fun h => ⟨h.1, h.2.1, h.2.2⟩, fun h => ⟨h.routine, h.nonzero, h.known⟩⟩

/-- However its handler returns, a function that takes an object was let run on what it is
handed, or not at all. -/
theorem handled_runsOn {ok : Bool} (hready : Ready flags mh) (ha : a ∈ mh.root)
    (htakes : a.takes = true) (hdone : mutHandle flags a mh = .done ok m') :
    RunsOn mh (mh.handed flags a) m' := by
  have hruns : wp (mutHandle flags a) (fun _ m' => RunsOn mh (mh.handed flags a) m')
      (fun _ => True) mh :=
    mutHandle_takes hready.stopped (hready.types a ha) hready.books.shelved.ptrs htakes
  have hran := wp_done hruns hdone
  exact hran

/-- The argument that the function of a call that gives an object gets, when it is let run. -/
theorem handed_arg {e : Entry} {ok : Bool} {k : Kernel} (hready : Ready flags mh)
    (hfree : flags.free = true) (ha : a ∈ mh.root) (hgives : mh.Gives a e)
    (hdone : mutHandle flags a mh = .done ok m')
    (hk : m'.process.resumed = k :: mh.process.resumed) :
    k.target.arg 0 = mh.spared flags a e := by
  rcases handled_runsOn hready ha hgives.takes hdone with hsame | ⟨k', hk', pc, htarget⟩
  · rw [hk] at hsame
    exact absurd hsame (List.cons_ne_self _ _)
  · rw [hk] at hk'
    rw [(List.cons.inj hk').1, htarget, ← handed_given hgives hfree]
    rfl

/-- What the allocator returned for an object, at the call that placed it: where a `realloc`
of another object placed it, its address, and otherwise the address one zone below. -/
theorem run_placed {e : Entry} (hopen : Opened flags m₀) (hcheck : flags.check = true)
    (hfree : flags.free = true) (hrun : Run (Step flags) m₀ vs m) (hfresh : AllFresh flags vs)
    (hmem : e ∈ m.book.entries) :
    ∃ v, placedBy flags vs e.addr = some v ∧ e.producer = some v.routine ∧
      v.tracker.result =
        if v.tracker.Resizes v.routine then e.addr else e.addr - mutZoneSize := by
  obtain ⟨v, hv, haddr, hproducer⟩ := run_sourced hopen hfree hrun hfresh e hmem
  refine ⟨v, hv, hproducer, ?_⟩
  by_cases hresizes : v.tracker.Resizes v.routine
  · rw [if_pos hresizes, haddr, Visit.recorded, Mut.recorded,
      if_pos ⟨hresizes.routine, hresizes.nonzero, hresizes.known⟩]
  · rw [if_neg hresizes, haddr, Visit.recorded, Mut.recorded,
      if_neg fun h => hresizes ⟨h.1, h.2.1, h.2.2⟩, objectAt, if_pos hcheck]
    exact (BitVec.add_sub_cancel _ _).symm

/-- An object that is given at a call is in the list after the run before it. -/
theorem given_listed {e : Entry} (hbetween : Between m mh) (hgives : mh.Gives a e) :
    e ∈ m.book.entries := by
  have hbook : mh.book.entries = m.book.entries := by
    show mh.resources.entries = m.resources.entries
    rw [hbetween.resources]
  rw [← hbook]
  exact mem_of_get hgives.found

/-- In check mode, when memory is freed too: the allocator gets for an object the address
that it returned for it when a `realloc` of an object had placed it and the zeroing of the
object leaves the argument as it is.  Otherwise it does so only if that zeroing makes the
argument the address one zone below. -/
theorem executes_iff {e : Entry} (hopen : Opened flags m₀) (hcheck : flags.check = true)
    (hfree : flags.free = true) (hrun : Run (Step flags) m₀ vs m) (hfresh : AllFresh flags vs)
    (hbetween : Between m mh) (ha : a ∈ mh.root) (hgives : mh.Gives a e) :
    ∃ v, placedBy flags vs e.addr = some v ∧ v.routine ∈ e.producer ∧
      ∀ ok m' k, mutHandle flags a mh = .done ok m' →
        m'.process.resumed = k :: mh.process.resumed →
        (k.target.arg 0 = v.tracker.result ↔
          if v.tracker.Resizes v.routine then mh.spared flags a e = e.addr
          else mh.spared flags a e = e.addr - mutZoneSize) := by
  have hready := hbetween.ready (run_ready hrun hopen.ready hfresh)
  obtain ⟨v, hv, hproducer, hresult⟩ :=
    run_placed hopen hcheck hfree hrun hfresh (given_listed hbetween hgives)
  refine ⟨v, hv, hproducer, fun ok m' k hdone hk => ?_⟩
  rw [handed_arg hready hfree ha hgives hdone hk, hresult]
  split <;> rfl

/-! ## A free of a small object -/

def Control.guarding : Control := { Control.checking with free := true }

theorem guarded_returning : (Mut.small .guarding (.freeing mutZoneValue mutZoneValue)
    [(Target.freeing mutZoneValue mutZoneValue).answers 0]).returning.isSome := by decide +kernel

theorem freeing_arg : (Target.freeing mutZoneValue mutZoneValue).arg 0 = 0x2004 := rfl

theorem freeing_intact : (Target.freeing mutZoneValue mutZoneValue).Intact 0x2004 8 := ⟨rfl, rfl⟩

/-- The object of a block of 16 at 0x2000 is given to `free`. -/
theorem guarded_freeing :
    ∃ m mh m' : Mut, ∃ k : Kernel,
      Run (Step .guarding) (mallocCall .guarding) [⟨.malloc, mallocCall .guarding⟩] m ∧
        AllFresh .guarding [⟨.malloc, mallocCall .guarding⟩] ∧ Between m mh ∧
        .free ∈ mh.root ∧ mh.Gives .free smallObject ∧
        mutHandle .guarding .free mh = .done true m' ∧
        m'.process.resumed = k :: mh.process.resumed := by
  obtain ⟨t', m, hs, hfresh, hserved⟩ := small_served .guarding (.calling 8 0)
    [(Target.calling 8 0).answers 0x2000] (a := .malloc) (by simp) rfl (by decide) rfl
  have hentries : m.book.entries = [smallObject] := congrArg Book.entries hserved.midway.book
  obtain ⟨t, ht⟩ : ∃ t : Target, t = .freeing mutZoneValue mutZoneValue := ⟨_, rfl⟩
  obtain ⟨mh, hmh⟩ : ∃ mh : Mut, mh = m.reaches t [t.answers 0] := ⟨_, rfl⟩
  have harg : mh.target.arg 0 = 0x2004 := by
    rw [hmh, ht]
    exact freeing_arg
  have hbetween : Between m mh := hmh ▸ reaches_between hserved.midway.status _ _
  have hready : Ready .guarding mh :=
    hbetween.ready (hs.ready (small_opened ..).ready (hfresh _ List.mem_cons_self))
  obtain ⟨hsmooth, hroot⟩ := small_again (c := .free) hserved t [t.answers 0] fun _ => by
    rw [ht]
    exact guarded_returning
  rw [← hmh] at hsmooth hroot
  have hlisted : .free ∈ mh.root := by
    rw [hroot]
    simp [Mut.small]
  have hfound : mh.find (mh.target.arg 0) = some smallObject := by
    rw [harg, hmh]
    show get Entry.addr 0x2004 m.book.entries = some smallObject
    rw [hentries]
    rfl
  have hgives : mh.Gives .free smallObject := ⟨rfl, by rw [harg]; decide, hfound, rfl⟩
  have hwhole : ¬ Damaged .guarding mh .free := by
    intro hdamaged
    obtain ⟨-, e, he, -, hintact⟩ := hdamaged.object
    rw [← Option.some.inj (hfound.symm.trans he), hmh, ht] at hintact
    exact hintact freeing_intact
  have haligned : Aligned mh .free := by
    refine ⟨fun _ e he => ?_, fun hproduces => Bool.noConfusion hproduces⟩
    rw [← Option.some.inj (hfound.symm.trans he)]
    rfl
  obtain ⟨t₂, m', hdone, hserved'⟩ := mutHandle_returns hready hlisted
    (fun hproduces => Bool.noConfusion hproduces) hsmooth
    (fun hunmet => Routine.noConfusion hunmet.routine) hwhole
    (hgives.not_stuck fun hunmoved => Routine.noConfusion hunmoved.routine) haligned
  obtain ⟨-, -, k, hk, -⟩ := hserved'.midway.ran
  exact ⟨m, mh, m', k, .next .start hs, hfresh, hbetween, hlisted, hgives, hdone, hk⟩

/-- The allocator does not get the address 0x2000 back that it returned. -/
theorem executes_iff_free :
    ∃ v : Visit, ∃ k : Kernel, v.routine = .malloc ∧ k.target.arg 0 ≠ v.tracker.result := by
  obtain ⟨m, mh, m', k, hrun, hfresh, hbetween, hlisted, hgives, hdone, hk⟩ := guarded_freeing
  obtain ⟨v, -, hroutine, hiff⟩ :=
    executes_iff (small_opened ..) rfl rfl hrun hfresh hbetween hlisted hgives
  have hmalloc : v.routine = .malloc := (Option.some.inj hroutine).symm
  have hresizes : ¬ v.tracker.Resizes v.routine := by
    intro h
    exact Routine.noConfusion (hmalloc.symm.trans h.routine)
  refine ⟨v, k, hmalloc, fun hsame => ?_⟩
  have hspared := (hiff true m' k hdone hk).1 hsame
  rw [if_neg hresizes] at hspared
  have haddr : mh.target.arg 0 = smallObject.addr := (key_of_get hgives.found).symm
  exact absurd (haddr.symm.trans hspared) (by decide)

/-! ## The address that is given back -/

/-- The function of the call is let run on the address that the allocator returned at `w`. -/
def GivenBack (w : Visit) (mh m' : Mut) : Prop :=
  ∃ k, m'.process.resumed = k :: mh.process.resumed ∧ k.target.arg 0 = w.tracker.result

/-- The call that placed an object is one of the run. -/
theorem placedBy_mem {w : Visit} {addr : Word} (h : placedBy flags vs addr = some w) : w ∈ vs := by
  have hfold : ∀ (ws : List Visit) (M : Word → Option Visit),
      ws.foldl (Visit.places flags) M addr = some w → w ∈ ws ∨ M addr = some w := by
    intro ws
    induction ws with
    | nil => exact fun M h => .inr h
    | cons v ws ih =>
        intro M h
        rcases ih _ h with hmem | hplaces
        · exact .inl (List.mem_cons_of_mem v hmem)
        · unfold Visit.places at hplaces
          split at hplaces
          · by_cases haddr : addr = v.recorded flags
            · rw [haddr, Function.update_self] at hplaces
              exact .inl (Option.some.inj hplaces ▸ List.mem_cons_self)
            · rw [Function.update_of_ne haddr] at hplaces
              exact .inr hplaces
          · exact .inr hplaces
  exact (hfold vs _ h).resolve_right fun hnone => absurd hnone.symm (Option.some_ne_none w)

/-- When nothing is zeroed before the function runs, it gets the object as it is. -/
theorem spared_eq {e : Entry} (hgives : mh.Gives a e) (h : flags.zero = false ∨ a = .realloc) :
    mh.spared flags a e = e.addr := by
  have haddr : mh.target.arg 0 = e.addr := (key_of_get hgives.found).symm
  unfold Mut.spared Target.wiped
  rcases h with hzero | ha
  · rw [hzero, if_neg Bool.false_ne_true, haddr, ite_self]
  · rw [if_pos ha, haddr]

/-- The function of a call that gives an object is let run when the handler goes well. -/
theorem handled_ran {e : Entry} (hready : Ready flags mh) (hfree : flags.free = true)
    (ha : a ∈ mh.root) (hnew : Fresh flags mh a) (hgives : mh.Gives a e)
    (hdone : mutHandle flags a mh = .done true m') :
    ∃ k, m'.process.resumed = k :: mh.process.resumed := by
  obtain ⟨t, hserved⟩ := mutHandle_served hready ha hnew hdone
  have hruns : mh.runs flags a = true := by
    have htakes := hgives.takes
    cases a with
    | realloc => rfl
    | free | cfree => rw [Mut.runs, hfree, Bool.true_or]
    | malloc | calloc | usage => exact Bool.noConfusion htakes
  have hran := hserved.midway.ran
  rw [if_pos hruns] at hran
  obtain ⟨-, -, k, hk, -⟩ := hran
  exact ⟨k, hk⟩

/-- In check mode, when memory is freed too, the allocator gets back the address that it
returned for an object only where a `realloc` of another object placed it, which marks no zones.
The rest is about an object that is zeroed over the argument of the call. -/
theorem givenBack_iff {e : Entry} (hopen : Opened flags m₀) (hcheck : flags.check = true)
    (hfree : flags.free = true) (hrun : Run (Step flags) m₀ vs m) (hfresh : AllFresh flags vs)
    (hbetween : Between m mh) (ha : a ∈ mh.root) (hnew : Fresh flags mh a)
    (hgives : mh.Gives a e) :
    ∃ w ∈ vs, placedBy flags vs e.addr = some w ∧ e.producer = some w.routine ∧
      ∀ ok m', mutHandle flags a mh = .done ok m' →
        ok = true ∨ m'.process.resumed ≠ mh.process.resumed →
        (GivenBack w mh m' ↔
          if w.tracker.Resizes w.routine then mh.spared flags a e = e.addr
          else mh.spared flags a e = e.addr - mutZoneSize) ∧
        (flags.zero = false ∨ a = .realloc →
          (GivenBack w mh m' ↔ w.tracker.Resizes w.routine)) := by
  have hready := hbetween.ready (run_ready hrun hopen.ready hfresh)
  obtain ⟨w, hw, hproducer, hresult⟩ :=
    run_placed hopen hcheck hfree hrun hfresh (given_listed hbetween hgives)
  refine ⟨w, placedBy_mem hw, hw, hproducer, fun ok m' hdone hruns => ?_⟩
  have hran : ∃ k, m'.process.resumed = k :: mh.process.resumed := by
    rcases hruns with rfl | hmoved
    · exact handled_ran hready hfree ha hnew hgives hdone
    · rcases handled_runsOn hready ha hgives.takes hdone with hsame | ⟨k, hk, -⟩
      · exact absurd hsame hmoved
      · exact ⟨k, hk⟩
  obtain ⟨k, hk⟩ := hran
  have harg := handed_arg hready hfree ha hgives hdone hk
  have hiff : GivenBack w mh m' ↔ mh.spared flags a e = w.tracker.result := by
    constructor
    · rintro ⟨k', hk', hgot⟩
      rw [← hgot, ← harg, (List.cons.inj (hk.symm.trans hk')).1]
    · exact fun h => ⟨k, hk, harg.trans h⟩
  rw [hiff, hresult]
  refine ⟨by split <;> rfl, fun hkept => ?_⟩
  rw [spared_eq hgives hkept]
  by_cases hresizes : w.tracker.Resizes w.routine
  · exact iff_of_true (if_pos hresizes).symm hresizes
  · rw [if_neg hresizes]
    refine iff_of_false (fun hsame => ?_) hresizes
    unfold mutZoneSize at hsame
    bv_omega

/-- A block of 16 at 0x2000 is obtained, and its object moved to a block at 0x3000. -/
def movedBlock : List Coming := [.malloc 8 0x2000, .realloc 0x2004 8 0x3000]

/-- The object that was moved is resized again. -/
def movedAgain : Coming := .realloc 0x3000 8 0x4000

theorem movedAgain_arg : movedAgain.target.arg 0 = 0x3000 := by decide

/-- When the object is resized again, the allocator gets the address 0x3000 back. -/
theorem givenBack_iff_moved :
    ∃ vs m m' w, Run (Step .guarding) (.fresh .guarding) vs m ∧
      vs.map Visit.event = movedBlock.map Coming.event ∧ w ∈ vs ∧ w.routine = .realloc ∧
      mutHandle .guarding .realloc (movedAgain.reached m) = .done true m' ∧
      GivenBack w (movedAgain.reached m) m' := by
  have hserves : (Mut.fresh .guarding).serves .guarding
      (fun a mh => mh.obtainsNew .guarding a && decide (a = .realloc → mh.Resizes a))
      (fun m => decide (movedAgain.meets m = true ∧
        (movedAgain.reached m).find 0x3000 = some ⟨0x3000, 8, some .realloc, none⟩ ∧
        (movedAgain.reached m).obtainsNew .guarding .realloc = true ∧
        (mutHandle .guarding .realloc (movedAgain.reached m)).seen
          (fun _ => true) = some (true, true)))
      movedBlock = true := by decide +kernel
  obtain ⟨vs, m, hrun, hall, hevents, -, hlast⟩ := serves_run hserves
  obtain ⟨hmeets, hfound, hnew, hseen⟩ := of_decide_eq_true hlast
  have hfresh : AllFresh .guarding vs := fun v hv =>
    fresh_of_obtainsNew (Bool.and_eq_true_iff.1 (hall v hv)).1
  obtain ⟨hbetween, hlisted, -⟩ := @Coming.meets_smooth .guarding _ _ hmeets
  obtain ⟨m', hdone, -⟩ := Outcome.of_seen hseen
  have harg : (movedAgain.reached m).target.arg 0 = 0x3000 := movedAgain_arg
  have hgives : (movedAgain.reached m).Gives .realloc ⟨0x3000, 8, some .realloc, none⟩ :=
    ⟨rfl, by rw [harg]; decide, by rw [harg]; exact hfound, rfl⟩
  obtain ⟨w, hw, -, hproducer, hiff⟩ := givenBack_iff (small_opened ..) rfl rfl hrun hfresh
    hbetween hlisted (fresh_of_obtainsNew hnew) hgives
  have hroutine : w.routine = .realloc := (Option.some.inj hproducer).symm
  have hresizes : w.tracker.Resizes w.routine :=
    of_decide_eq_true (Bool.and_eq_true_iff.1 (hall w hw)).2 hroutine
  exact ⟨vs, m, m', w, hrun, hevents, hw, hroutine, hdone,
    ((hiff true m' hdone (.inl rfl)).2 (.inl rfl)).2 hresizes⟩

/-- The object of the block of 16 at 0x2000 is at 0x2004, and that is what the allocator is
given back. -/
theorem free_shifted :
    ∃ m mh m' : Mut, ∃ k : Kernel,
      Run (Step .guarding) (mallocCall .guarding) [⟨.malloc, mallocCall .guarding⟩] m ∧
        AllFresh .guarding [⟨.malloc, mallocCall .guarding⟩] ∧ Between m mh ∧
        .free ∈ mh.root ∧ mh.Gives .free smallObject ∧
        (mallocCall .guarding).result = 0x2000 ∧
        mutHandle .guarding .free mh = .done true m' ∧
        m'.process.resumed = k :: mh.process.resumed ∧ k.target.arg 0 = 0x2004 := by
  obtain ⟨m, mh, m', k, hrun, hfresh, hbetween, hlisted, hgives, hdone, hk⟩ := guarded_freeing
  have hready : Ready .guarding mh :=
    hbetween.ready (run_ready hrun (small_opened ..).ready hfresh)
  refine ⟨m, mh, m', k, hrun, hfresh, hbetween, hlisted, hgives, rfl, hdone, hk, ?_⟩
  rw [handed_arg hready rfl hlisted hgives hdone hk, spared_eq hgives (.inl rfl)]
  rfl

end MutTracker.Source
