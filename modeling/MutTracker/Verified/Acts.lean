import MutTracker.Verified.Wait

/-!
# What every handler does, whatever the list

A handler lets the target run at most once, in `mut_do_action`.  `Acts` is
what is left of a handler when nothing is assumed of the list, the log or the
allocator it starts with, but that the process is stopped: the text is put
back, the hits are counted, and the process has exited or is left running
only for what happened while the function ran.

A handler is followed in phases.  `Onward` relates the tracker in a phase of
the handler to the tracker at which it took over, and `Leads` says of the rest
of a handler that from the phase on it ends as `Acts` says.

## Main results

* `mutHandle_acts` — what every handler does.
-/

namespace MutTracker.Source

open MutTracker.Logic MutTracker.Logic.Prog

variable {flags : Control} {p : Process} {m m₁ : Mut} {a : Routine}

/-! ## Before and after a handler -/

/-- How often the handler of `a` counts the call it handles.  A `realloc` of
an address never allocated, when memory is not freed, is counted twice. -/
def Mut.counts (flags : Control) (m : Mut) (a : Routine) : Nat :=
  match a with
  | .usage => 0
  | .realloc =>
      if flags.free = false ∧ m.target.arg 0 ≠ 0 ∧ m.find (m.target.arg 0) = none then 2
      else 1
  | .malloc | .calloc | .free | .cfree => 1

/-- The call is a `realloc` of an object in the list. -/
structure Mut.Resizes (m : Mut) (a : Routine) : Prop where
  routine : a = .realloc
  nonzero : m.target.arg 0 ≠ 0
  known : (m.find (m.target.arg 0)).isSome

/-- What the handler of `a` does that starts at `m`. -/
structure Acts (flags : Control) (m : Mut) (a : Routine) (ok : Bool) (m' : Mut) : Prop where
  text : ok = true → m'.process.kernel.text = m.process.kernel.text
  stopped : ok = true → m'.Stopped
  waits : m'.process.kernel.waits <:+ m.process.kernel.waits
  frame : Frame m m'
  ended : m'.process.status = .exited → m.runs flags a = true ∧ m.process.Ends
  resumed : ∃ ks, m'.process.resumed = ks ++ m.process.resumed ∧
    (m'.process.status = .running ↔ ∃ k ∈ ks, k.strays = true)
  hits : ok = true → flags.stats = true →
    m'.hits = Function.update m.hits a (m.hits a + m.counts flags a)
  answers : ok = true → m.Resizes a → m'.target.eax = m.result

/-! ## Phases -/

/-- A phase of a handler: whether the function has run, how often the call was
counted, whether the function's result and the list are still as they were. -/
structure Phase where
  ran : Bool
  hits : Nat
  eax : Bool
  list : Bool

def Phase.first : Phase := { ran := false, hits := 0, eax := true, list := true }

/-- What an operation of the phase leaves alone. -/
abbrev Phase.leaves (ph : Phase) : Leaves := { eax := ph.eax, hits := true, list := ph.list }

/-- The tracker `m₁` in a phase of the handler that started at `m`. -/
structure Onward (flags : Control) (m : Mut) (a : Routine) (ph : Phase) (m₁ : Mut) : Prop where
  stopped : m₁.Stopped
  text : m₁.process.kernel.text = m.process.kernel.text
  waits : m₁.process.kernel.waits <:+ m.process.kernel.waits
  frame : Frame m m₁
  resumed : ∃ ks, m₁.process.resumed = ks ++ m.process.resumed ∧
    ¬ ∃ k ∈ ks, k.strays = true
  before : ph.ran = false → m₁.process.kernel.waits = m.process.kernel.waits
  hits : flags.stats = true → m₁.hits = Function.update m.hits a (m.hits a + ph.hits)
  answers : ph.ran = true → ph.eax = true → m₁.target.eax = m.result
  list : ph.list = true → m₁.resources = m.resources

theorem Onward.first (hp : m.Stopped) : Onward flags m a .first m where
  stopped := hp
  text := rfl
  waits := List.suffix_rfl
  frame := ⟨rfl, rfl, fun _ => rfl⟩
  resumed := ⟨[], rfl, by simp⟩
  before _ := rfl
  hits _ := (Function.update_eq_self a m.hits).symm
  answers := nofun
  list _ := rfl

/-- What is done between two times that the target runs keeps the phase. -/
theorem Onward.steady {ph : Phase} {m₂ : Mut} (h : Onward flags m a ph m₁)
    (hs : m₁.Steady ph.leaves m₂) : Onward flags m a ph m₂ where
  stopped := hs.process.status.trans h.stopped
  text := hs.process.text.trans h.text
  waits := hs.process.waits ▸ h.waits
  frame := h.frame.trans hs.frame
  resumed := hs.process.resumed ▸ h.resumed
  before hran := hs.process.waits.trans (h.before hran)
  hits hstats := (hs.hits rfl).trans (h.hits hstats)
  answers hran heax := (hs.process.eax heax).trans (h.answers hran heax)
  list hlist := (hs.list hlist).trans (h.list hlist)

/-- The call is counted. -/
theorem Onward.hit {ph : Phase} (h : Onward flags m a ph m₁) :
    wp (whenever flags.stats (Mut.hit a))
      (fun _ m₂ => m₂.process = m₁.process ∧
        Onward flags m a { ph with hits := ph.hits + 1 } m₂) Orderly m₁ := by
  rw [wp_whenever]
  split
  · refine ⟨rfl, h.stopped, h.text, h.waits, h.frame.hit a, h.resumed, h.before,
      fun hstats => ?_, h.answers, h.list⟩
    funext c
    have hbefore := congrFun (h.hits hstats) c
    by_cases hc : c = a
    · subst hc
      simp only [Mut.hits, Function.update_self] at hbefore ⊢
      rw [hbefore, Nat.add_assoc]
    · simpa only [Mut.hits, Function.update_of_ne hc] using hbefore
  · rename_i hstats
    exact ⟨rfl, h.stopped, h.text, h.waits, h.frame, h.resumed, h.before,
      fun h => absurd h hstats, h.answers, h.list⟩

/-- A handler that gives up. -/
theorem Onward.gaveUp {ph : Phase} (h : Onward flags m a ph m₁) : Acts flags m a false m₁ where
  text := nofun
  stopped := nofun
  waits := h.waits
  frame := h.frame
  ended hexited := by rw [h.stopped] at hexited; cases hexited
  resumed := by
    obtain ⟨ks, hks, hnone⟩ := h.resumed
    refine ⟨ks, hks, fun hrunning => ?_, fun hsome => absurd hsome hnone⟩
    rw [h.stopped] at hrunning
    cases hrunning
  hits := nofun
  answers := nofun

/-- A handler that returns from its last phase. -/
theorem Onward.finished {ph : Phase} (h : Onward flags m a ph m₁)
    (hhits : ph.hits = m.counts flags a)
    (hanswers : m.Resizes a → ph.ran = true ∧ ph.eax = true) (ok : Bool) :
    Acts flags m a ok m₁ where
  text _ := h.text
  stopped _ := h.stopped
  waits := h.waits
  frame := h.frame
  ended := h.gaveUp.ended
  resumed := h.gaveUp.resumed
  hits _ hstats := hhits ▸ h.hits hstats
  answers _ hresizes :=
    h.answers (hanswers hresizes).1 (hanswers hresizes).2

/-- The tracker's own storage does not matter. -/
theorem Acts.stored {ok : Bool} (h : Acts flags m a ok m₁) (μ : Mem) :
    Acts flags m a ok { m₁ with mem := μ } :=
  ⟨h.text, h.stopped, h.waits, ⟨h.frame.exec, h.frame.root, h.frame.actions⟩, h.ended,
    h.resumed, h.hits, h.answers⟩

/-! ## The rest of a handler -/

/-- The program returns zero, and changes nothing but the tracker's storage. -/
def Fails (x : MutM Bool) : Prop :=
  ∀ m, wp x (fun ok m' => ok = false ∧ ∃ μ, m' = { m with mem := μ }) Orderly m

theorem fails_false : Fails (pure false) := fun m => ⟨rfl, m.mem, rfl⟩

theorem fails_freeBacktrace (bt : Option Nat) : Fails (freeBacktrace flags bt) := fun m => by
  unfold freeBacktrace
  rw [wp_bind, wp_whenever]
  split
  · cases bt with
    | none => rfl
    | some ptr =>
        simp only [mutBacktraceClose, Mut.backtrace, wp_bind, wp_read]
        cases m.mem.backtraces ptr with
        | none => rfl
        | some b =>
            simp only [wp_pure, wp_mutAssert]
            split
            · exact ⟨trivial, _, rfl⟩
            · rfl
  · exact ⟨rfl, m.mem, rfl⟩

/-- From the phase `ph` of the handler of `a` that started at `m`, the program
`x` ends as `Acts` says. -/
def Leads (flags : Control) (m : Mut) (a : Routine) (ph : Phase) (x : MutM Bool) : Prop :=
  ∀ m₁, Onward flags m a ph m₁ → wp x (Acts flags m a) Orderly m₁

namespace Leads

variable {α : Type} {ph : Phase} {x y : MutM Bool} {c : Prop} [Decidable c] {ra : Word}

theorem bind {z : MutM α} {f : α → MutM Bool} (hz : SteadyMut ph.leaves z)
    (hf : ∀ r, Leads flags m a ph (f r)) : Leads flags m a ph (z >>= f) := fun _ h =>
  hz.seq h.stopped fun r _ hs => hf r _ (h.steady hs)

theorem ite (hx : Leads flags m a ph x) (hy : Leads flags m a ph y) :
    Leads flags m a ph (if c then x else y) := by
  split
  · exact hx
  · exact hy

theorem fail (hx : Fails x) : Leads flags m a ph x := fun m₁ h => by
  refine wp_mono (hx m₁) ?_ fun _ he => he
  rintro _ _ ⟨rfl, μ, rfl⟩
  exact h.gaveUp.stored μ

/-- Forget what the phase says of the list and of the result. -/
theorem forget (eax list : Bool)
    (hx : Leads flags m a { ph with eax := ph.eax && eax, list := ph.list && list } x) :
    Leads flags m a ph x := fun m₁ h =>
  hx m₁
    { stopped := h.stopped
      text := h.text
      waits := h.waits
      frame := h.frame
      resumed := h.resumed
      before := h.before
      hits := h.hits
      answers := fun hran heax => h.answers hran (Bool.and_eq_true_iff.1 heax).1
      list := fun hlist => h.list (Bool.and_eq_true_iff.1 hlist).1 }

theorem finish {z : MutM Bool} (hz : SteadyMut ph.leaves z)
    (hhits : ph.hits = m.counts flags a)
    (hanswers : m.Resizes a → ph.ran = true ∧ ph.eax = true) : Leads flags m a ph z :=
  fun m₁ h => wp_mono (hz m₁ h.stopped) (fun ok _ hs => (h.steady hs).finished hhits hanswers ok)
    fun _ he => he

/-- The call is counted. -/
theorem hit {f : Unit → MutM Bool}
    (hf : Leads flags m a { ph with hits := ph.hits + 1 } (f ())) :
    Leads flags m a ph (whenever flags.stats (Mut.hit a) >>= f) := fun _ h =>
  wp_seq h.hit (fun _ he => he) fun _ m₂ h₂ => hf m₂ h₂.2

/-- The function runs, and the handler goes on or gives up. -/
theorem act {f : Bool → MutM Bool} (hran : ph.ran = false) (hruns : m.runs flags a = true)
    (hf : Leads flags m a { ph with ran := true, eax := true } (f true))
    (hfail : Fails (f false)) : Leads flags m a ph (mutDoAction ra a >>= f) := fun m₁ h => by
  refine wp_seq (mutDoAction_effect h.stopped ra a) (fun _ he => he) ?_
  rintro ok _ ⟨q, rfl, hd⟩
  have hwaits : m₁.process.kernel.waits = m.process.kernel.waits := h.before hran
  obtain ⟨ks₁, hks₁, hnone⟩ := h.resumed
  obtain ⟨ks, hks, hstrays⟩ := hd.resumed
  have hresumed : q.resumed = (ks ++ ks₁) ++ m.process.resumed := by
    rw [hks, hks₁, List.append_assoc]
  have hiff : (∃ k ∈ ks ++ ks₁, k.strays = true) ↔ ∃ k ∈ ks, k.strays = true := by
    simp only [List.mem_append, or_and_right, exists_or, hnone, or_false]
  have hframe : Frame m { m₁ with process := q } :=
    ⟨h.frame.exec, h.frame.root, h.frame.actions⟩
  cases ok with
  | true =>
      have hstopped := hd.stopped rfl
      refine hf _ ⟨hstopped, (hd.text rfl).trans h.text, hwaits ▸ hd.waits, hframe,
        ⟨ks ++ ks₁, hresumed, fun hsome => ?_⟩, nofun, h.hits, fun _ _ => ?_, h.list⟩
      · have hrunning : q.status = .running := hstrays.2 (hiff.1 hsome)
        rw [hstopped] at hrunning
        cases hrunning
      · rw [Mut.result, ← hwaits]
        exact hd.result rfl
  | false =>
      refine wp_mono (hfail _) ?_ fun _ he => he
      rintro _ _ ⟨rfl, μ, rfl⟩
      refine ⟨nofun, nofun, hwaits ▸ hd.waits, ⟨hframe.exec, hframe.root, hframe.actions⟩,
        fun hexited => ⟨hruns, ?_⟩, ⟨ks ++ ks₁, hresumed, hstrays.trans hiff.symm⟩, nofun,
        nofun⟩
      have hended := hd.ended hexited
      rwa [Process.Ends, hwaits] at hended

/-- The handler ends by letting the function run. -/
theorem acted (hran : ph.ran = false) (hruns : m.runs flags a = true)
    (hhits : ph.hits = m.counts flags a) (hanswers : ¬ m.Resizes a) :
    Leads flags m a ph (mutDoAction ra a) := fun m₁ h => by
  have hpure : Leads flags m a ph (mutDoAction ra a >>= pure) :=
    .act hran hruns (.finish (.pure true) hhits fun hr => absurd hr hanswers) fails_false
  exact (wp_bind (mutDoAction ra a) pure).1 (hpure m₁ h)

/-- The list is looked up while it is as it was. -/
theorem lookup {f : Option Nat → MutM Bool} {addr : Word} (hlist : ph.list = true)
    (hnone : m.find addr = none → Leads flags m a ph (f none))
    (hsome : ∀ obj, (m.find addr).isSome → Leads flags m a ph (f (some obj))) :
    Leads flags m a ph (mutResourcesLookup addr >>= f) := fun m₁ h => by
  have hfind : m.find addr = (Keyed.get Resource.addr addr m.resources.elems).map
      Resource.entry := get_entries addr
  rw [wp_bind, wp_lookup, h.list hlist]
  cases hget : Keyed.get Resource.addr addr m.resources.elems with
  | none => exact hnone (by rw [hfind, hget]; rfl) m₁ h
  | some o => exact hsome o.ptr (by rw [hfind, hget]; rfl) m₁ h

end Leads

/-- Reading an argument brings back the target's. -/
theorem mutProcessReadArg_effect (hp : p.Stopped) (n : Word) :
    wp (mutProcessReadArg n)
      (fun r q => p.Steady true q ∧ ∀ v, r = some v → v = p.kernel.target.arg n) Orderly p := by
  suffices hfound : wp (mutProcessReadArg n)
      (fun r _ => ∀ v, r = some v → v = p.kernel.target.arg n) Orderly p from
    wp_mono (wp_and (steady_readArg n p hp) hfound) (fun _ _ h => h) fun _ he => he.1
  rw [mutProcessReadArg, wp_bind, wp_mutAssertStatus, if_pos hp, wp_bind]
  refine wp_mono (mutTracePeek_effect ..) ?_ fun _ he => he
  rintro r q hq
  cases r with
  | none => simp
  | some esp =>
      refine wp_mono (mutTracePeek_effect ..) ?_ fun _ he => he
      rintro r q' hq' v hv
      rw [hq'.found v hv, hq.found esp rfl, hq.kernel]
      rfl

/-- The first argument is read before anything has changed it. -/
theorem Leads.readArg {ph : Phase} {f : Option Word → MutM Bool}
    (hsame : m₁.process = m.process) (h : Onward flags m a ph m₁)
    (hnone : Fails (f none)) (hsome : Leads flags m a ph (f (some (m.target.arg 0)))) :
    wp (liftM (mutProcessReadArg 0) >>= f : MutM Bool) (Acts flags m a) Orderly m₁ := by
  rw [wp_bind, wp_liftProcess]
  refine wp_mono (mutProcessReadArg_effect h.stopped 0) ?_ fun _ he => he
  rintro r q ⟨hq, hv⟩
  have hs : m₁.Steady ph.leaves { m₁ with process := q } :=
    .of_process ⟨hq.status, hq.text, hq.waits, hq.resumed, fun _ => hq.eax rfl⟩
  cases r with
  | none => exact Leads.fail hnone _ (h.steady hs)
  | some v =>
      obtain rfl : v = m.target.arg 0 := by rw [hv v rfl, hsame]
      exact hsome _ (h.steady hs)

/-! ## malloc and calloc -/

/-- The phase from which a producer other than `realloc` goes on after marking
zones. -/
theorem Leads.zones {ph : Phase} {addr size : Word} {f : Option Word → MutM Bool}
    (hf : ∀ r, Leads flags m a { ph with eax := false } (f r)) :
    Leads flags m a ph (installZonesIfChecking flags addr size >>= f) :=
  .forget false true (by
    rw [Bool.and_false, Bool.and_true]
    exact .bind (steady_installZones rfl _ _) hf)

/-- From here on the list is changed. -/
theorem Leads.changes {ph : Phase} {x : MutM Bool}
    (hx : Leads flags m a { ph with list := false } x) : Leads flags m a ph x :=
  .forget true false (by
    rw [Bool.and_false, Bool.and_true]
    exact hx)

theorem not_resizes (ha : a ≠ .realloc) : ¬ m.Resizes a := fun h => ha h.routine

theorem mutProduce_acts {adjust : MutM Bool} {size : Word} {failure : Option Nat → MutM Unit}
    {success : Word → Option Nat → MutM Bool} (bt : Option Nat) (hruns : m.runs flags a = true)
    (ha : a ≠ .realloc) (hcounts : 1 = m.counts flags a)
    (hadjust : ∀ {k}, SteadyMut k adjust) (hfailure : ∀ {k}, SteadyMut k (failure bt))
    (hsuccess : ∀ {k} addr, k.list = false → SteadyMut k (success addr bt)) :
    Leads flags m a .first (mutProduce flags a adjust size failure success bt) :=
  have hresizes {P : Prop} : m.Resizes a → P := fun hr => absurd hr (not_resizes ha)
  .bind (steady_lift steady_functionReturnAddr) fun
    | none => .fail (fails_freeBacktrace bt)
    | some _ => .bind (steady_unlessFails hadjust) fun
      | false => .fail (fails_freeBacktrace bt)
      | true => .act rfl hruns (.bind (steady_lift steady_readResult) fun
          | none => .fail (fails_freeBacktrace bt)
          | some _ => .hit (.ite
              (.bind hfailure fun _ => .finish (.pure true) hcounts hresizes)
              (.zones fun
                | none => .fail (fails_freeBacktrace bt)
                | some addr => .changes (.finish (hsuccess addr rfl) hcounts hresizes))))
          (fails_freeBacktrace bt)

theorem mutDoMalloc_acts : Leads flags m .malloc .first (mutDoMalloc flags .malloc) :=
  .bind (steady_lift (steady_readArg 0)) fun
    | none => .fail fails_false
    | some _ => .bind steady_produceBacktrace fun
      | none => .fail fails_false
      | some bt => mutProduce_acts bt rfl nofun rfl (steady_lift (steady_writeArg _ _))
          (steady_failure _ _ _ _ _) fun _ hk =>
            .bind (.require _ _ rfl) fun _ => steady_success hk _ _ _ _ _ _

theorem mutDoCalloc_acts : Leads flags m .calloc .first (mutDoCalloc flags .calloc) :=
  .bind (steady_lift (steady_readArg 0)) fun
    | none => .fail fails_false
    | some _ => .bind (steady_lift (steady_readArg 1)) fun
      | none => .fail fails_false
      | some _ => .bind steady_produceBacktrace fun
        | none => .fail fails_false
        | some bt => mutProduce_acts bt rfl nofun rfl
            (.bind (steady_lift (steady_writeArg _ _)) fun _ =>
              .ite (.pure false) (steady_lift (steady_writeArg _ _)))
            (steady_failure _ _ _ _ _) fun _ hk => steady_success hk _ _ _ _ _ _

/-! ## realloc -/

/-- A `realloc` of no object in the list is not one that may leave its result. -/
theorem not_resizes_null (hzero : m.target.arg 0 = 0) : ¬ m.Resizes a := fun h => h.nonzero hzero

theorem not_resizes_unknown (hnone : m.find (m.target.arg 0) = none) : ¬ m.Resizes a :=
  fun h => by
    have hknown := h.known
    rw [hnone] at hknown
    cases hknown

theorem mutReallocMalloc_acts (hzero : m.target.arg 0 = 0) {ph : Phase} (hhits : ph.hits = 0)
    (size : Word) (bt : Option Nat) :
    Leads flags m .realloc ph (mutReallocMalloc flags size bt) := by
  have hcounts : ph.hits + 1 = m.counts flags .realloc := by
    rw [hhits, Mut.counts, if_neg fun h => h.2.1 hzero]
  have hresizes {P : Prop} : m.Resizes .realloc → P := fun hr =>
    absurd hr (not_resizes_null hzero)
  exact .bind (.require _ _ rfl) fun _ => .bind (steady_lift steady_readResult) fun
    | none => .fail (fails_freeBacktrace bt)
    | some _ => .hit (.ite
        (.bind (steady_reallocFailure _ _ _ _) fun _ => .fail fails_false)
        (.zones fun
          | none => .fail (fails_freeBacktrace bt)
          | some _ => .changes (.bind (steady_createResource rfl _) fun
            | none => .fail (fails_freeBacktrace bt)
            | some _ => .finish (.bind (steady_resource _) fun _ =>
                .bind (.require _ _ rfl) fun _ =>
                .bind (.whenever (steady_updateStats _)) fun _ =>
                  .bind (steady_assign rfl _ _) fun _ => .bind (steady_traceCall _ _ _) fun _ =>
                    .bind (.whenever steady_reportUsage) fun _ => .pure true)
                hcounts hresizes)))

/-- The call is counted together with the object that it made. -/
theorem Leads.hitCollect {ph : Phase} {y : MutM Unit} {f : Unit → MutM Bool}
    (hy : SteadyMut ph.leaves y)
    (hf : ∀ r, Leads flags m a { ph with hits := ph.hits + 1 } (f r)) :
    Leads flags m a ph (whenever flags.stats (do Mut.hit a; y) >>= f) := fun m₁ h => by
  have hseq : Leads flags m a ph (whenever flags.stats (Mut.hit a) >>= fun _ =>
      whenever flags.stats y >>= f) := .hit (.bind (.whenever hy) hf)
  rw [wp_bind, wp_whenever_seq]
  have h' := hseq m₁ h
  simp only [wp_bind] at h'
  exact h'

theorem mutReallocMallocNoFree_acts (hfree : flags.free = false)
    (hnonzero : m.target.arg 0 ≠ 0) (hnone : m.find (m.target.arg 0) = none) {ph : Phase}
    (hhits : ph.hits = 1) (size : Word) (bt : Option Nat) :
    Leads flags m .realloc ph (mutReallocMallocNoFree flags size bt) := by
  have hcounts : ph.hits + 1 = m.counts flags .realloc := by
    rw [hhits, Mut.counts, if_pos ⟨hfree, hnonzero, hnone⟩]
  exact .bind (.require _ _ rfl) fun _ => .bind (steady_lift steady_readResult) fun
    | none => .fail (fails_freeBacktrace bt)
    | some _ => .ite (.bind (steady_reallocFailure _ _ _ _) fun _ => .fail fails_false)
        (.zones fun
          | none => .fail (fails_freeBacktrace bt)
          | some _ => .changes (.bind (steady_createResource rfl _) fun
            | none => .fail (fails_freeBacktrace bt)
            | some _ => .bind (steady_resource _) fun _ => .bind (.require _ _ rfl) fun _ =>
                .bind (steady_assign rfl _ _) fun _ => .bind (steady_resource _) fun _ =>
                  .hitCollect (steady_updateStats _) fun _ =>
                    .finish (.bind (steady_traceCall _ _ _) fun _ => .pure true) hcounts
                      fun hr => absurd hr (not_resizes_unknown hnone)))

theorem mutReallocUnknown_acts (hnonzero : m.target.arg 0 ≠ 0)
    (hnone : m.find (m.target.arg 0) = none) (addr size ra : Word) (bt : Option Nat) :
    Leads flags m .realloc .first (mutReallocUnknown flags .realloc addr size ra bt) :=
  .hit (.bind (steady_fum _ _ _) fun _ => by
    split
    · rename_i hfree
      have hcounts : 1 = m.counts flags .realloc := by
        rw [Mut.counts, if_neg fun h => by rw [hfree] at h; cases h.1]
      exact .bind (steady_traceConsumer _ _) fun _ =>
        .bind (.whenever (steady_backtraceClose _)) fun _ =>
          .acted rfl rfl hcounts (not_resizes_unknown hnone)
    · rename_i hfree
      exact .bind (steady_lift (steady_writeArg _ _)) fun _ =>
        .ite (.fail (fails_freeBacktrace bt))
          (.bind (steady_unlessFails (steady_lift (steady_writeArg _ _))) fun _ =>
            .ite (.fail (fails_freeBacktrace bt)) (.act rfl rfl
              (mutReallocMallocNoFree_acts (Bool.eq_false_iff.2 hfree) hnonzero hnone rfl
                size bt)
              (fails_freeBacktrace bt))))

/-- A `realloc` of an object in the list is counted once. -/
theorem counts_known (hknown : (m.find (m.target.arg 0)).isSome) :
    1 = m.counts flags .realloc := by
  rw [Mut.counts, if_neg fun h => by rw [h.2.2] at hknown; cases hknown]

theorem mutReallocRealloc_acts (hknown : (m.find (m.target.arg 0)).isSome) {ph : Phase}
    (hhits : ph.hits = 0) (hran : ph.ran = true) (heax : ph.eax = true)
    (obj : Nat) (size : Word) (bt : Option Nat) :
    Leads flags m .realloc ph (mutReallocRealloc flags obj size bt) := by
  have hcounts : ph.hits + 1 = m.counts flags .realloc := by rw [hhits, ← counts_known hknown]
  exact .bind (.require _ _ rfl) fun _ => .bind (.require _ _ rfl) fun _ =>
    .bind (steady_lift steady_readResult) fun
      | none => .fail fails_false
      | some _ => .hit (.bind (steady_resource _) fun _ =>
          .ite (.bind (steady_reallocFailure _ _ _ _) fun _ => .fail fails_false)
            (.bind (.whenever (steady_updateStats _)) fun _ => .changes
              (.bind (steady_reallocMove rfl _ _ _) fun _ => .ite (.fail fails_false)
                (.finish (.bind (.whenever (steady_updateStats _)) fun _ =>
                  .bind (steady_assign rfl _ _) fun _ =>
                    .bind (.whenever (steady_reallocBacktraces rfl _ _)) fun _ =>
                      .bind (steady_traceCall _ _ _) fun _ =>
                        .bind (.whenever steady_reportUsage) fun _ => .pure true)
                  hcounts fun _ => ⟨hran, heax⟩))))

theorem mutReallocReallocNoFree_acts (hknown : (m.find (m.target.arg 0)).isSome) {ph : Phase}
    (hhits : ph.hits = 0) (hran : ph.ran = true) (heax : ph.eax = true)
    (obj : Nat) (size : Word) (bt : Option Nat) :
    Leads flags m .realloc ph (mutReallocReallocNoFree flags obj size bt) := by
  have hcounts : ph.hits + 1 = m.counts flags .realloc := by rw [hhits, ← counts_known hknown]
  exact .bind (steady_resource _) fun _ => .bind (.require _ _ rfl) fun _ =>
    .bind (steady_lift steady_readResult) fun
      | none => .fail (fails_freeBacktrace bt)
      | some _ => .bind (.require _ _ rfl) fun _ =>
          .ite (.bind (steady_reallocFailure _ _ _ _) fun _ => .fail fails_false)
            (.bind (.whenever (steady_updateStats _)) fun _ => .changes
              (.bind (steady_deleteResource rfl _ _ _) fun _ =>
                .bind (steady_createResource rfl _) fun
                  | none => .fail (fails_freeBacktrace bt)
                  | some _ => .bind (steady_resource _) fun _ => .bind (.require _ _ rfl) fun _ =>
                      .bind (steady_assign rfl _ _) fun _ => .bind (steady_resource _) fun _ =>
                        .bind (steady_lift (steady_memcpy _ _ _)) fun _ =>
                          .ite (.fail fails_false)
                            (.bind (steady_unlessFails (steady_lift (steady_memset _ _ _)))
                              fun _ => .ite (.fail fails_false)
                                (.hitCollect (steady_updateStats _) fun _ =>
                                  .finish (.bind (steady_resource _) fun _ =>
                                    .bind (steady_traceCall _ _ _) fun _ =>
                                      .bind (.whenever steady_reportUsage) fun _ => .pure true)
                                    hcounts fun _ => ⟨hran, heax⟩))))

theorem mutReallocKnown_acts (hknown : (m.find (m.target.arg 0)).isSome) (addr size ra : Word)
    (obj : Nat) (bt : Option Nat) :
    Leads flags m .realloc .first (mutReallocKnown flags .realloc addr size ra obj bt) :=
  .bind (steady_resource obj) fun _ => .bind (.whenever (steady_ffm _ _ _ _)) fun _ =>
    .bind (steady_unlessFails (steady_lift (steady_writeArg _ _))) fun _ =>
      .ite (.fail (fails_freeBacktrace bt))
        (.bind (steady_unlessFails (steady_lift (steady_writeArg _ _))) fun _ =>
          .ite (.fail (fails_freeBacktrace bt)) (.act rfl rfl
            (.ite (.fail (fails_freeBacktrace bt))
              (.ite (mutReallocRealloc_acts hknown rfl rfl rfl obj size bt)
                (mutReallocReallocNoFree_acts hknown rfl rfl rfl obj size bt)))
            (fails_freeBacktrace bt)))

theorem mutDoRealloc_acts (hp : m.Stopped) :
    wp (mutDoRealloc flags .realloc) (Acts flags m .realloc) Orderly m := by
  refine Leads.readArg rfl (.first hp) fails_false (.bind (steady_lift (steady_readArg 1)) fun
    | none => .fail fails_false
    | some size => .bind (steady_lift steady_functionReturnAddr) fun
      | none => .fail fails_false
      | some ra => .bind steady_produceBacktrace fun
        | none => .fail fails_false
        | some bt => ?_)
  show Leads flags m .realloc .first (if m.target.arg 0 = 0 then _ else _)
  split
  · rename_i hzero
    exact .bind (steady_unlessFails (steady_lift (steady_writeArg _ _))) fun _ =>
      .ite (.fail (fails_freeBacktrace bt)) (.act rfl rfl
        (mutReallocMalloc_acts hzero rfl size bt) (fails_freeBacktrace bt))
  · rename_i hnonzero
    exact .lookup rfl (fun hnone => mutReallocUnknown_acts hnonzero hnone _ _ _ _)
      fun obj hknown => mutReallocKnown_acts hknown _ _ _ _ _

/-! ## free and cfree -/

theorem mutFinishConsumer_acts {ph : Phase} (hran : ph.ran = false)
    (hruns : flags.free = true → m.runs flags a = true) (hcounts : ph.hits = m.counts flags a)
    (hresizes : ¬ m.Resizes a) (ra : Word) :
    Leads flags m a ph (mutFinishConsumer flags ra a) := by
  unfold mutFinishConsumer
  split
  · rename_i hfree
    exact .acted hran (hruns hfree) hcounts hresizes
  · exact .finish (steady_lift (steady_skipTo ra)) hcounts fun hr => absurd hr hresizes

theorem mutConsumeLive_acts {ph : Phase} (hran : ph.ran = false)
    (hruns : flags.free = true → m.runs flags a = true) (hcounts : ph.hits = m.counts flags a)
    (hresizes : ¬ m.Resizes a) (addr ra : Word) (obj : Nat) (bt : Option Nat) :
    Leads flags m a ph (mutConsumeLive flags addr ra a obj bt) :=
  .bind (steady_resource obj) fun _ => .bind (.whenever (steady_updateStats _)) fun _ =>
    .bind (steady_unlessFails (steady_zoneCheck _ _ _ _)) fun _ =>
      .ite (.fail (fails_freeBacktrace bt))
        (.bind (steady_unlessFails (steady_lift (steady_memset _ _ _))) fun _ =>
          .ite (.fail (fails_freeBacktrace bt)) (.changes
            (.bind (steady_deleteResource rfl _ _ _) fun _ =>
              .bind (.whenever (steady_backtraceClose _)) fun _ =>
                .bind (.whenever steady_reportUsage) fun _ =>
                  mutFinishConsumer_acts (by exact hran) hruns (by exact hcounts) hresizes
                    ra)))

theorem mutDoConsumer_acts (hp : m.Stopped) (ha : a = .free ∨ a = .cfree) :
    wp (mutDoConsumer flags a) (Acts flags m a) Orderly m := by
  have hruns : m.runs flags a = (flags.free || m.target.arg 0 == 0) := by
    rcases ha with rfl | rfl <;> rfl
  have hfree : flags.free = true → m.runs flags a = true := fun h => by rw [hruns, h]; rfl
  have hcounts : 1 = m.counts flags a := by rcases ha with rfl | rfl <;> rfl
  have hresizes : ¬ m.Resizes a := not_resizes (by rcases ha with rfl | rfl <;> nofun)
  unfold mutDoConsumer
  refine wp_seq (Onward.first hp).hit (fun _ he => he) ?_
  rintro _ m₁ ⟨hprocess, h₁⟩
  refine Leads.readArg hprocess h₁ fails_false (.bind (steady_lift steady_functionReturnAddr) fun
    | none => .fail fails_false
    | some ra => .bind steady_produceBacktrace fun
      | none => .fail fails_false
      | some bt => ?_)
  show Leads flags m a _ (if m.target.arg 0 = 0 then _ else _)
  split
  · rename_i hzero
    have hzeroed : m.runs flags a = true := by
      rw [hruns, hzero]
      exact Bool.or_true _
    exact .bind (steady_traceConsumer _ _) fun _ =>
      .bind (.whenever (steady_backtraceClose _)) fun _ => .acted rfl hzeroed hcounts hresizes
  · exact .lookup rfl
      (fun _ => .bind (steady_traceConsumer _ _) fun _ => .bind (steady_fum _ _ _) fun _ =>
        .bind (.whenever (steady_backtraceClose _)) fun _ =>
          mutFinishConsumer_acts rfl hfree hcounts hresizes ra)
      fun obj _ => .bind (steady_resource obj) fun _ =>
        .bind (steady_traceConsumer _ _) fun _ => .ite
          (.bind (steady_ffm _ _ _ _) fun _ =>
            .bind (.whenever (steady_backtraceClose _)) fun _ =>
              mutFinishConsumer_acts rfl hfree hcounts hresizes ra)
          (mutConsumeLive_acts rfl hfree hcounts hresizes _ ra obj bt)

/-! ## Any handler -/

theorem mutDoUsage_acts : Leads flags m .usage .first (mutDoUsage flags .usage) :=
  .bind steady_reportUsage fun _ => .bind (steady_lift steady_functionReturnAddr) fun
    | none => .fail fails_false
    | some _ => .acted rfl rfl rfl (not_resizes nofun)

/-- The handler of an intercepted call, from any state in which the process is
stopped. -/
theorem mutHandle_acts (hp : m.Stopped) (htype : (m.actions a).type = a.type) :
    wp (mutHandle flags a) (Acts flags m a) Orderly m := by
  simp only [mutHandle, wp_bind, wp_read, htype]
  cases a with
  | malloc => exact mutDoMalloc_acts m (.first hp)
  | calloc => exact mutDoCalloc_acts m (.first hp)
  | realloc => exact mutDoRealloc_acts hp
  | free => exact mutDoConsumer_acts hp (.inl rfl)
  | cfree => exact mutDoConsumer_acts hp (.inr rfl)
  | usage => exact mutDoUsage_acts m (.first hp)

end MutTracker.Source
