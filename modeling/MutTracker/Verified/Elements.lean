import MutTracker.Logic.Runs
import MutTracker.Verified.Runs

/-!
# The resource list by itself

Whatever its callers do with it, as long as they delete and move only active
resources: the list has one resource for an address, and the two counts are the
numbers of its active and consumed resources.  Nothing is asked of the backtraces
here, and a resource need not have a producer.

## Main results

* `listCall_listed` — every call keeps the list in order.
* `deleteResource_done` — deleting takes away or marks the resource given.
* `iterate_reads` — iterating reads the resources that were counted.
* `resources_exact` — the list after any sequence of calls.
-/

namespace MutTracker.Source

open MutTracker.Logic MutTracker.Logic.Prog MutTracker.Logic.Keyed

variable {m m' : Mut} {rs : Resources} {next : Nat} {o : Resource} {l l₁ l₂ : List Resource}

/-! ## The list in order -/

/-- No two resources have one address or one pointer, the pointers were handed out before
`next`, and the counts are right. -/
structure Listed (rs : Resources) (next : Nat) : Prop where
  addrs : UniqueKeys Resource.addr rs.elems
  ptrs : UniqueKeys Resource.ptr rs.elems
  below : ∀ r ∈ rs.elems, r.ptr < next
  active : rs.nActiveElems = rs.elems.countP (·.consumer.action.isNone)
  consumed : rs.nConsumedElems = rs.elems.countP (·.consumer.action.isSome)

theorem listed_open (reallyFree : Bool) (next : Nat) : Listed (mutResourcesOpen reallyFree) next :=
  ⟨List.Pairwise.nil, List.Pairwise.nil, nofun, rfl, rfl⟩

theorem Listed.mono {next' : Nat} (h : Listed rs next) (hle : next ≤ next') : Listed rs next' :=
  ⟨h.addrs, h.ptrs, fun r hr => Nat.lt_of_lt_of_le (h.below r hr) hle, h.active, h.consumed⟩

/-- A resource and the others. -/
structure Amid (rs : Resources) (next : Nat) (o : Resource) (l₁ l₂ : List Resource) : Prop where
  place : At rs.elems o l₁ l₂
  addr : ∀ r ∈ l₁ ++ l₂, r.addr ≠ o.addr
  addrs : UniqueKeys Resource.addr (l₁ ++ l₂)
  ptrs : UniqueKeys Resource.ptr (l₁ ++ l₂)
  belowOthers : ∀ r ∈ l₁ ++ l₂, r.ptr < next
  below : o.ptr < next
  active : rs.nActiveElems = (l₁ ++ l₂).countP (·.consumer.action.isNone) +
    if o.consumer.action.isNone then 1 else 0
  consumed : rs.nConsumedElems = (l₁ ++ l₂).countP (·.consumer.action.isSome) +
    if o.consumer.action.isSome then 1 else 0

/-- The keys of a list with `o` in the middle. -/
theorem uniqueKeys_middle {κ : Type} {key : Resource → κ} :
    UniqueKeys key (l₁ ++ o :: l₂) ↔
      (∀ r ∈ l₁ ++ l₂, key r ≠ key o) ∧ UniqueKeys key (l₁ ++ l₂) := by
  rw [← uniqueKeys_cons]
  exact (List.perm_middle.map key).nodup_iff

theorem Listed.amid (h : Listed rs next) (ho : o ∈ rs.elems) :
    ∃ l₁ l₂, Amid rs next o l₁ l₂ := by
  obtain ⟨l₁, l₂, heq⟩ := List.append_of_mem ho
  have haddrs := h.addrs
  have hptrs := h.ptrs
  have hbelow := h.below
  have hactive := h.active
  have hconsumed := h.consumed
  rw [heq] at haddrs hptrs hbelow
  rw [heq, List.perm_middle.countP_eq, List.countP_cons] at hactive hconsumed
  obtain ⟨haddr, haddrs⟩ := uniqueKeys_middle.1 haddrs
  obtain ⟨hptr, hptrs⟩ := uniqueKeys_middle.1 hptrs
  refine ⟨l₁, l₂, ⟨⟨heq, hptr⟩, haddr, haddrs, hptrs, ?_, ?_, hactive, hconsumed⟩⟩
  · intro r hr
    exact hbelow r (List.perm_middle.mem_iff.2 (List.mem_cons_of_mem o hr))
  · exact hbelow o (List.mem_append_right l₁ List.mem_cons_self)

/-- Another resource in the place of `o`, with its pointer. -/
theorem Amid.put (h : Amid rs next o l₁ l₂) {rs' : Resources} {r : Resource}
    (hptr : r.ptr = o.ptr) (haddr : ∀ s ∈ l₁ ++ l₂, s.addr ≠ r.addr)
    (helems : rs'.elems = l₁ ++ r :: l₂)
    (hactive : rs'.nActiveElems = (l₁ ++ l₂).countP (·.consumer.action.isNone) +
      if r.consumer.action.isNone then 1 else 0)
    (hconsumed : rs'.nConsumedElems = (l₁ ++ l₂).countP (·.consumer.action.isSome) +
      if r.consumer.action.isSome then 1 else 0) : Listed rs' next where
  addrs := by
    rw [helems]
    exact uniqueKeys_middle.2 ⟨haddr, h.addrs⟩
  ptrs := by
    rw [helems]
    refine uniqueKeys_middle.2 ⟨?_, h.ptrs⟩
    rw [hptr]
    exact h.place.ptr
  below := by
    rw [helems]
    intro s hs
    rcases List.mem_cons.1 (List.perm_middle.mem_iff.1 hs) with rfl | hs
    · rw [hptr]
      exact h.below
    · exact h.belowOthers s hs
  active := by rw [hactive, helems, List.perm_middle.countP_eq, List.countP_cons]
  consumed := by rw [hconsumed, helems, List.perm_middle.countP_eq, List.countP_cons]

/-- The others without `o`. -/
theorem Amid.drop (h : Amid rs next o l₁ l₂) {rs' : Resources} (helems : rs'.elems = l₁ ++ l₂)
    (hactive : rs'.nActiveElems = (l₁ ++ l₂).countP (·.consumer.action.isNone))
    (hconsumed : rs'.nConsumedElems = (l₁ ++ l₂).countP (·.consumer.action.isSome)) :
    Listed rs' next := by
  refine ⟨?_, ?_, ?_, ?_, ?_⟩
  · rw [helems]
    exact h.addrs
  · rw [helems]
    exact h.ptrs
  · rw [helems]
    exact h.belowOthers
  · rw [helems]
    exact hactive
  · rw [helems]
    exact hconsumed

/-- The counts of an active resource. -/
theorem Amid.live (h : Amid rs next o l₁ l₂) (hlive : o.consumer.action = none) :
    rs.nActiveElems = (l₁ ++ l₂).countP (·.consumer.action.isNone) + 1 ∧
      rs.nConsumedElems = (l₁ ++ l₂).countP (·.consumer.action.isSome) := by
  have hactive := h.active
  have hconsumed := h.consumed
  rw [hlive] at hactive hconsumed
  exact ⟨hactive, hconsumed⟩

theorem Amid.get_addr (h : Amid rs next o l₁ l₂) :
    Keyed.get Resource.addr o.addr rs.elems = some o := by
  rw [h.place.list, get_append_of_none fun s hs => h.addr s (List.mem_append_left _ hs), get_cons,
    if_pos rfl]

theorem Amid.remove_addr (h : Amid rs next o l₁ l₂) :
    remove Resource.addr o.addr rs.elems = l₁ ++ l₂ := by
  rw [h.place.list]
  exact remove_split fun s hs => h.addr s (List.mem_append_left _ hs)

/-! ## Deleting -/

/-- The backtrace pointer is null or that of a backtrace with a reference. -/
def Live (m : Mut) (bt : Option Nat) : Prop :=
  ∀ k, bt = some k → ∃ b, m.mem.backtraces k = some b ∧ b.refCount ≠ 0

/-- The storage after the reference counts were changed. -/
def Mut.Recounted (m m' : Mut) : Prop := ∃ f, m' = { m with mem := { m.mem with backtraces := f } }

/-- Closing or sharing a backtrace changes its count, or follows a pointer that is not
live. -/
theorem backtraceClose_effect (bt : Option Nat) :
    wp (whenever bt.isSome (mutBacktraceClose bt)) (fun _ m' => m.Recounted m')
      (fun _ => ¬ Live m bt) m := by
  cases bt with
  | none => exact ⟨m.mem.backtraces, rfl⟩
  | some k =>
      cases hb : m.mem.backtraces k with
      | none =>
          simp only [Option.isSome_some, wp_whenever, if_true, mutBacktraceClose, Mut.backtrace,
            wp_bind, wp_read, hb, wp_stop]
          intro hlive
          obtain ⟨b, hb', _⟩ := hlive k rfl
          rw [hb] at hb'
          cases hb'
      | some b =>
          simp only [Option.isSome_some, wp_whenever, if_true, mutBacktraceClose, Mut.backtrace,
            wp_bind, wp_read, hb, wp_pure, wp_mutAssert, wp_setBacktrace]
          by_cases hzero : b.refCount = 0
          · rw [hzero]
            intro hlive
            obtain ⟨b', hb', hne⟩ := hlive k rfl
            rw [hb] at hb'
            cases hb'
            exact hne hzero
          · have hne : (b.refCount != 0) = true := by simpa using hzero
            rw [if_pos hne]
            exact ⟨_, rfl⟩

theorem backtraceShare_effect {k : Nat} :
    wp (mutBacktraceShare (some k)) (fun r m' => r = some k ∧ m.Recounted m')
      (fun _ => ¬ Live m (some k)) m := by
  cases hb : m.mem.backtraces k with
  | none =>
      simp only [mutBacktraceShare, Mut.backtrace, wp_bind, wp_read, hb, wp_stop]
      intro hlive
      obtain ⟨b, hb', _⟩ := hlive k rfl
      rw [hb] at hb'
      cases hb'
  | some b =>
      simp only [mutBacktraceShare, Mut.backtrace, wp_bind, wp_read, hb, wp_pure, wp_setBacktrace]
      exact ⟨trivial, _, rfl⟩

/-- The resource with its consumer. -/
def Resource.consumedBy (r : Resource) (consumer : Routine) (bt : Option Nat) : Resource :=
  { r with
    consumer :=
      { action := some consumer
        backtrace := if bt.isSome then bt else r.consumer.backtrace } }

/-- The list without `o`, or with `o` marked. -/
def deleted (reallyFree : Bool) (o : Resource) (consumer : Routine) (bt : Option Nat)
    (elems : List Resource) : List Resource :=
  if reallyFree then elems.filter (·.ptr != o.ptr)
  else elems.map fun r => if r.ptr = o.ptr then r.consumedBy consumer bt else r

/-- The backtrace that deleting follows. -/
def followed (reallyFree : Bool) (o : Resource) (bt : Option Nat) : Option Nat :=
  if reallyFree then o.producer.backtrace else bt

/-- What is done to `o` alone. -/
theorem map_at (h : At l o l₁ l₂) (f : Resource → Resource) :
    (l.map fun r => if r.ptr = o.ptr then f r else r) = l₁ ++ f o :: l₂ := by
  have hothers : ∀ l' : List Resource, (∀ r ∈ l', r ∈ l₁ ++ l₂) →
      (l'.map fun r => if r.ptr = o.ptr then f r else r) = l' := by
    intro l' hl'
    calc (l'.map fun r => if r.ptr = o.ptr then f r else r)
        = l'.map id := List.map_congr_left fun r hr => if_neg (h.ptr r (hl' r hr))
      _ = l' := List.map_id l'
  rw [h.list, List.map_append, List.map_cons, if_pos rfl,
    hothers l₁ fun r hr => List.mem_append_left _ hr,
    hothers l₂ fun r hr => List.mem_append_right _ hr]

theorem filter_at (h : At l o l₁ l₂) : l.filter (·.ptr != o.ptr) = l₁ ++ l₂ := by
  have hothers : ∀ l' : List Resource, (∀ r ∈ l', r ∈ l₁ ++ l₂) →
      l'.filter (·.ptr != o.ptr) = l' := by
    intro l' hl'
    apply List.filter_eq_self.2
    intro r hr
    simpa using h.ptr r (hl' r hr)
  rw [h.list, List.filter_append, List.filter_cons,
    hothers l₁ fun r hr => List.mem_append_left _ hr,
    hothers l₂ fun r hr => List.mem_append_right _ hr]
  simp

/-- An active resource is unlinked. -/
theorem reallyDelete_listed (h : Listed m.resources m.mem.next) (ho : o ∈ m.resources.elems)
    (hlive : o.consumer.action = none) (consumer : Routine) (bt : Option Nat) :
    wp (mutResourcesReallyDeleteResource o.ptr consumer bt)
      (fun _ m' => Listed m'.resources m'.mem.next ∧
        m'.resources.reallyFree = m.resources.reallyFree ∧
        m'.resources.elems = m.resources.elems.filter (·.ptr != o.ptr))
      (fun _ => ¬ Live m o.producer.backtrace) m := by
  obtain ⟨l₁, l₂, hamid⟩ := h.amid ho
  obtain ⟨hactive, hconsumed⟩ := hamid.live hlive
  have hpos : decide (m.resources.nActiveElems > 0) = true := by simp [hactive]
  simp only [mutResourcesReallyDeleteResource, wp_bind, wp_read, wp_resource hamid.place,
    wp_mutAssert, hlive, Option.isNone_none, if_true, hpos, hamid.get_addr, hamid.remove_addr,
    wp_updateResources]
  refine wp_mono (backtraceClose_effect _) ?_ fun _ hhalt => hhalt
  rintro _ _ ⟨f, rfl⟩
  rw [filter_at hamid.place]
  refine ⟨hamid.drop rfl ?_ hconsumed, rfl, rfl⟩
  show m.resources.nActiveElems - 1 = _
  omega

/-- An active resource is marked. -/
theorem markAsFree_listed (h : Listed m.resources m.mem.next) (ho : o ∈ m.resources.elems)
    (hlive : o.consumer.action = none) (consumer : Routine) (bt : Option Nat) :
    wp (mutResourcesMarkAsFree o.ptr consumer bt)
      (fun _ m' => Listed m'.resources m'.mem.next ∧
        m'.resources.reallyFree = m.resources.reallyFree ∧
        m'.resources.elems =
          m.resources.elems.map fun r => if r.ptr = o.ptr then r.consumedBy consumer bt else r)
      (fun _ => ¬ Live m bt) m := by
  obtain ⟨l₁, l₂, hamid⟩ := h.amid ho
  obtain ⟨hactive, hconsumed⟩ := hamid.live hlive
  have hpos : decide (m.resources.nActiveElems > 0) = true := by simp [hactive]
  have hmarked : At (l₁ ++ { o with consumer := { o.consumer with action := some consumer } } :: l₂)
      { o with consumer := { o.consumer with action := some consumer } } l₁ l₂ :=
    ⟨rfl, hamid.place.ptr⟩
  have hlisted : ∀ rs' : Resources, rs'.elems = l₁ ++ o.consumedBy consumer bt :: l₂ →
      rs'.nActiveElems = m.resources.nActiveElems - 1 →
      rs'.nConsumedElems = m.resources.nConsumedElems + 1 → Listed rs' m.mem.next := by
    intro rs' helems hactive' hconsumed'
    refine hamid.put (r := o.consumedBy consumer bt) rfl hamid.addr helems ?_ ?_
    · rw [hactive', hactive]
      rfl
    · rw [hconsumed', hconsumed]
      rfl
  simp only [mutResourcesMarkAsFree, wp_bind, wp_read, wp_resource hamid.place, wp_mutAssert,
    hlive, Option.isNone_none, if_true, hpos, wp_assign hamid.place, wp_whenever]
  rw [map_at hamid.place]
  cases bt with
  | none => exact ⟨hlisted _ rfl rfl rfl, rfl, rfl⟩
  | some k =>
      simp only [Option.isSome_some, if_true]
      refine wp_mono backtraceShare_effect ?_ fun _ hhalt => hhalt
      rintro _ _ ⟨rfl, f, rfl⟩
      refine (wp_assign (o := { o with consumer := { o.consumer with action := some consumer } })
        hmarked _).2 ?_
      exact ⟨hlisted _ rfl rfl rfl, rfl, rfl⟩

/-- Deleting an active resource takes away or marks that resource, and no other, and
halts only at a backtrace that is not live. -/
theorem deleteResource_listed (h : Listed m.resources m.mem.next) (ho : o ∈ m.resources.elems)
    (hlive : o.consumer.action = none) (consumer : Routine) (bt : Option Nat) :
    wp (mutResourcesDeleteResource o.ptr consumer bt)
      (fun _ m' => Listed m'.resources m'.mem.next ∧
        m'.resources.reallyFree = m.resources.reallyFree ∧
        m'.resources.elems =
          deleted m.resources.reallyFree o consumer bt m.resources.elems)
      (fun _ => ¬ Live m (followed m.resources.reallyFree o bt)) m := by
  simp only [mutResourcesDeleteResource, wp_bind, wp_read, wp_ite]
  unfold deleted followed
  cases hmode : m.resources.reallyFree with
  | true =>
      have hdelete := reallyDelete_listed h ho hlive consumer bt
      rw [hmode] at hdelete
      exact hdelete
  | false =>
      have hmark := markAsFree_listed h ho hlive consumer bt
      rw [hmode] at hmark
      exact hmark

/-! ## Creating, producing and moving -/

/-- A new resource goes to the front, with a fresh pointer. -/
theorem listed_cons {addr : Word} (h : Listed rs next)
    (hfresh : Keyed.get Resource.addr addr rs.elems = none) :
    Listed (rs.cons (.blank next addr)) (next + 1) where
  addrs := uniqueKeys_cons.2 ⟨get_eq_none.1 hfresh, h.addrs⟩
  ptrs := uniqueKeys_cons.2 ⟨fun r hr => Nat.ne_of_lt (h.below r hr), h.ptrs⟩
  below := by
    intro r hr
    rcases List.mem_cons.1 hr with rfl | hr
    · exact Nat.lt_succ_self next
    · exact Nat.lt_succ_of_lt (h.below r hr)
  active := by
    show rs.nActiveElems + 1 = _
    rw [h.active]
    exact (List.countP_cons_of_pos (l := rs.elems) rfl).symm
  consumed := by
    show rs.nConsumedElems = _
    rw [h.consumed]
    exact (List.countP_cons_of_neg (l := rs.elems) Bool.false_ne_true).symm

/-- Creating finds the resource of the address, makes one, or is out of memory. -/
theorem createCall_listed (h : Listed m.resources m.mem.next) (addr : Word) :
    wp (mutResourcesCreateResource addr)
      (fun _ m' => Listed m'.resources m'.mem.next ∧
        m'.resources.reallyFree = m.resources.reallyFree)
      (fun _ => True) m := by
  simp only [mutResourcesCreateResource, wp_bind, wp_read]
  cases hget : Keyed.get Resource.addr addr m.resources.elems with
  | some r => exact ⟨h, rfl⟩
  | none =>
      show wp (Mut.malloc >>= _) _ _ _
      rw [wp_bind]
      refine wp_mono (mutMalloc_spec m) ?_ fun _ hhalt => hhalt
      rintro r _ ⟨μ, rfl, hlater, -, ⟨rfl, hnext⟩ | ⟨⟨errno, rfl⟩, -⟩⟩
      · simp only [wp_bind, wp_updateResources, wp_pure]
        rw [hnext]
        exact ⟨listed_cons h hget, trivial⟩
      · simp only [wp_bind, wp_liftLogMut, wp_pure]
        exact wp_intro (fun _ _ _ => ⟨h.mono hlater.next, trivial⟩) fun _ _ => trivial

/-- Naming a producer leaves the list in order. -/
theorem makeProducer_listed (h : Listed m.resources m.mem.next) (ho : o ∈ m.resources.elems)
    (producer : Routine) (objSize : Word) (bt : Option Nat) :
    wp (mutResourceMakeProducer o.ptr producer objSize bt)
      (fun _ m' => Listed m'.resources m'.mem.next ∧
        m'.resources.reallyFree = m.resources.reallyFree)
      (fun _ => False) m := by
  obtain ⟨l₁, l₂, hamid⟩ := h.amid ho
  unfold mutResourceMakeProducer
  rw [wp_assign hamid.place]
  refine ⟨hamid.put ?_ ?_ rfl hamid.active hamid.consumed, rfl⟩
  · rfl
  · exact hamid.addr

/-- Moving a resource to an address that has none leaves the list in order. -/
theorem readdress_listed (h : Listed m.resources m.mem.next) (ho : o ∈ m.resources.elems)
    {addr : Word} (hfree : ∀ r ∈ m.resources.elems, r.addr ≠ addr) :
    wp (Mut.assign o.ptr fun r => { r with addr := addr })
      (fun _ m' => Listed m'.resources m'.mem.next ∧
        m'.resources.reallyFree = m.resources.reallyFree)
      (fun _ => False) m := by
  obtain ⟨l₁, l₂, hamid⟩ := h.amid ho
  rw [wp_assign hamid.place]
  refine ⟨hamid.put ?_ ?_ rfl hamid.active hamid.consumed, rfl⟩
  · rfl
  · intro r hr
    apply hfree r
    rw [hamid.place.list]
    exact List.perm_middle.mem_iff.2 (List.mem_cons_of_mem o hr)

/-! ## Iterating -/

/-- What `while ((r = mut_resources_iter_read(&iter)) != 0)` reads. -/
inductive Reads : ResourcesIter → List Resource → Prop
  | null {iter : ResourcesIter} (h : mutResourcesIterRead iter = none) : Reads iter []
  | next {iter iter' : ResourcesIter} {r : Resource} {rs : List Resource}
      (h : mutResourcesIterRead iter = some (r, iter')) (hrest : Reads iter' rs) :
      Reads iter (r :: rs)

/-- An iterator that goes on as another reads the same. -/
theorem Reads.of_read {iter iter' : ResourcesIter} {l : List Resource} (h : Reads iter' l)
    (hread : mutResourcesIterRead iter = mutResourcesIterRead iter') : Reads iter l := by
  cases h with
  | null hnull => exact .null (hread.trans hnull)
  | next hnext hrest => exact .next (hread.trans hnext) hrest

/-- All resources, or the active ones. -/
def qualifying (all : Bool) (elems : List Resource) : List Resource :=
  elems.filter fun r => all || r.consumer.action.isNone

/-- The iterator reads the resources that qualify, in the order of the list. -/
theorem iterate_reads (all : Bool) (elems : List Resource) :
    Reads { elem := elems, all } (qualifying all elems) := by
  induction elems with
  | nil => exact .null rfl
  | cons r elems ih =>
      unfold qualifying
      rw [List.filter_cons]
      by_cases hskip : (!all && r.consumer.action.isSome) = true
      · have hout : (all || r.consumer.action.isNone) = false := by
          cases all with
          | true => exact absurd hskip nofun
          | false => simpa using hskip
        have hread : mutResourcesIterRead { elem := r :: elems, all } =
            mutResourcesIterRead { elem := elems, all } := by
          show (if _ then _ else _) = _
          rw [if_pos hskip]
          rfl
        rw [if_neg (by rw [hout]; exact Bool.false_ne_true)]
        exact ih.of_read hread
      · have hin : (all || r.consumer.action.isNone) = true := by
          cases all with
          | true => rfl
          | false =>
              cases hc : r.consumer.action with
              | none => rfl
              | some c =>
                  rw [hc] at hskip
                  exact absurd rfl hskip
        rw [if_pos hin]
        refine .next ?_ ih
        show (if _ then _ else _) = _
        rw [if_neg hskip]

/-- An iteration goes over as many resources as the two counts say. -/
theorem qualifying_length (h : Listed rs next) (all : Bool) :
    (qualifying all rs.elems).length =
      rs.nActiveElems + (if all then rs.nConsumedElems else 0) := by
  unfold qualifying
  rw [h.active, h.consumed, ← List.countP_eq_length_filter]
  cases all with
  | false => rfl
  | true =>
      simp only [Bool.true_or, List.countP_true, if_true]
      have hsum := List.length_eq_countP_add_countP (fun r : Resource => r.consumer.action.isNone)
        (l := rs.elems)
      rw [hsum]
      congr 1
      apply List.countP_congr
      intro r _
      cases r.consumer.action <;> simp

/-! ## Sequences of calls -/

/-- What the callers do to the list; the last is the assignment to `obj->addr` in
`mut_realloc_realloc`. -/
inductive ListCall where
  | create (addr : Word)
  | makeProducer (obj : Nat) (producer : Routine) (objSize : Word) (bt : Option Nat)
  | delete (obj : Nat) (consumer : Routine) (bt : Option Nat)
  | readdress (obj : Nat) (addr : Word)
  deriving DecidableEq, Repr

def ListCall.run : ListCall → MutM Unit
  | .create addr => do
      let _ ← mutResourcesCreateResource addr
  | .makeProducer obj producer objSize bt => mutResourceMakeProducer obj producer objSize bt
  | .delete obj consumer bt => mutResourcesDeleteResource obj consumer bt
  | .readdress obj addr => Mut.assign obj fun r => { r with addr := addr }

/-- The pointer is that of a resource in the list. -/
def Resources.Has (rs : Resources) (obj : Nat) : Prop := ∃ r ∈ rs.elems, r.ptr = obj

/-- The pointer is that of an active resource in the list. -/
def Resources.HasActive (rs : Resources) (obj : Nat) : Prop :=
  ∃ r ∈ rs.elems, r.ptr = obj ∧ r.consumer.action = none

/-- Only active resources are deleted and moved, and moved only to where there is none. -/
def ListCall.Allowed (rs : Resources) : ListCall → Prop
  | .create _ => True
  | .makeProducer obj _ _ _ => rs.Has obj
  | .delete obj _ _ => rs.HasActive obj
  | .readdress obj addr => rs.HasActive obj ∧ ∀ r ∈ rs.elems, r.addr ≠ addr

/-- A call that returns. -/
def ListStep (m : Mut) (c : ListCall) (m' : Mut) : Prop :=
  c.Allowed m.resources ∧ c.run m = .done () m'

/-- Every call leaves the list in order and the mode as it was. -/
theorem listCall_listed (h : Listed m.resources m.mem.next) (c : ListCall)
    (hc : c.Allowed m.resources) :
    wp c.run (fun _ m' => Listed m'.resources m'.mem.next ∧
      m'.resources.reallyFree = m.resources.reallyFree) (fun _ => True) m := by
  cases c with
  | create addr =>
      unfold ListCall.run
      rw [wp_bind]
      exact wp_mono (createCall_listed h addr) (fun _ _ hm => hm) fun _ _ => trivial
  | makeProducer obj producer objSize bt =>
      obtain ⟨r, hr, rfl⟩ := hc
      exact wp_mono (makeProducer_listed h hr producer objSize bt) (fun _ _ hm => hm)
        fun _ _ => trivial
  | delete obj consumer bt =>
      obtain ⟨r, hr, rfl, hlive⟩ := hc
      exact wp_mono (deleteResource_listed h hr hlive consumer bt)
        (fun _ _ hm => ⟨hm.1, hm.2.1⟩) fun _ _ => trivial
  | readdress obj addr =>
      obtain ⟨⟨r, hr, rfl, -⟩, hfree⟩ := hc
      exact wp_mono (readdress_listed h hr hfree) (fun _ _ hm => hm) fun _ _ => trivial

/-- Every sequence of calls leaves the list in order and the mode as it was. -/
theorem run_listed {reallyFree : Bool} {m₀ : Mut} {calls : List ListCall}
    (hopen : m₀.resources = mutResourcesOpen reallyFree) (hrun : Run ListStep m₀ calls m) :
    Listed m.resources m.mem.next ∧ m.resources.reallyFree = reallyFree := by
  apply hrun.invariant
  · rw [hopen]
    exact ⟨listed_open reallyFree _, rfl⟩
  · rintro t c t' ⟨hlisted, hmode⟩ ⟨hc, hdone⟩
    obtain ⟨hlisted', hmode'⟩ := wp_done (listCall_listed hlisted c hc) hdone
    exact ⟨hlisted', hmode'.trans hmode⟩

/-- Deleting an active resource returns, with that resource away or marked. -/
theorem deleteResource_done (h : Listed m.resources m.mem.next) (ho : o ∈ m.resources.elems)
    (hlive : o.consumer.action = none) (consumer : Routine) {bt : Option Nat}
    (hbt : Live m (followed m.resources.reallyFree o bt)) :
    ∃ m', mutResourcesDeleteResource o.ptr consumer bt m = .done () m' ∧
      m'.resources.elems = deleted m.resources.reallyFree o consumer bt m.resources.elems := by
  obtain ⟨_, m', hdone, -, -, helems⟩ :=
    wp_returns (deleteResource_listed h ho hlive consumer bt) fun _ hhalt => hhalt hbt
  exact ⟨m', hdone, helems⟩

/-- The lookup answers with the resource at the address, and null if there is none. -/
theorem lookup_exact (h : Listed rs next) (a : Word) (obj : Nat) :
    (Keyed.get Resource.addr a rs.elems).map Resource.ptr = some obj ↔
      ∃ r ∈ rs.elems, r.addr = a ∧ r.ptr = obj := by
  rw [Option.map_eq_some_iff]
  constructor
  · rintro ⟨r, hget, hptr⟩
    exact ⟨r, mem_of_get hget, key_of_get hget, hptr⟩
  · rintro ⟨r, hr, haddr, hptr⟩
    exact ⟨r, h.addrs.get_eq_some.2 ⟨hr, haddr⟩, hptr⟩

/-- After any sequence of calls on a list that was opened in either mode: the addresses
are pairwise distinct, the lookup finds the one resource of an address, the counts are
those of the resources without and with a consumer, deleting an active resource takes
away or marks that one, and iterating reads each resource that qualifies once, as many
as `mut_resources_iter_open` said. -/
theorem resources_exact {reallyFree : Bool} {m₀ : Mut} {calls : List ListCall}
    (hopen : m₀.resources = mutResourcesOpen reallyFree) (hrun : Run ListStep m₀ calls m) :
    ((m.resources.elems.map Resource.addr).Nodup ∧ (m.resources.elems.map Resource.ptr).Nodup) ∧
    (∀ a, ∃ found, mutResourcesLookup a m = .done found m ∧
      ∀ obj, found = some obj ↔ ∃ r ∈ m.resources.elems, r.addr = a ∧ r.ptr = obj) ∧
    (m.resources.nActiveElems = m.resources.elems.countP (·.consumer.action.isNone) ∧
      m.resources.nConsumedElems = m.resources.elems.countP (·.consumer.action.isSome)) ∧
    (∀ o ∈ m.resources.elems, o.consumer.action = none → ∀ consumer bt,
      Live m (followed reallyFree o bt) →
      ∃ m', mutResourcesDeleteResource o.ptr consumer bt m = .done () m' ∧
        m'.resources.elems = deleted reallyFree o consumer bt m.resources.elems) ∧
    ∀ all, ∃ n iter, mutResourcesIterOpen all m = .done (n, iter) m ∧
      Reads iter (qualifying all m.resources.elems) ∧
      (qualifying all m.resources.elems).length = n := by
  obtain ⟨h, rfl⟩ := run_listed hopen hrun
  refine ⟨⟨h.addrs, h.ptrs⟩, ?_, ⟨h.active, h.consumed⟩, ?_, ?_⟩
  · intro a
    exact ⟨_, rfl, lookup_exact h a⟩
  · intro o ho hlive consumer bt hbt
    exact deleteResource_done h ho hlive consumer hbt
  · intro all
    exact ⟨_, _, rfl, iterate_reads all _, qualifying_length h all⟩

/-! ## A computed run -/

instance (rs : Resources) (obj : Nat) : Decidable (rs.Has obj) :=
  inferInstanceAs (Decidable (∃ r ∈ rs.elems, r.ptr = obj))

instance (rs : Resources) (obj : Nat) : Decidable (rs.HasActive obj) :=
  inferInstanceAs (Decidable (∃ r ∈ rs.elems, r.ptr = obj ∧ r.consumer.action = none))

instance (rs : Resources) (c : ListCall) : Decidable (c.Allowed rs) :=
  match c with
  | .create _ => inferInstanceAs (Decidable True)
  | .makeProducer obj _ _ _ => inferInstanceAs (Decidable (rs.Has obj))
  | .delete obj _ _ => inferInstanceAs (Decidable (rs.HasActive obj))
  | .readdress obj addr =>
      inferInstanceAs (Decidable (rs.HasActive obj ∧ ∀ r ∈ rs.elems, r.addr ≠ addr))

/-- The tracker after a call on its list that is allowed and returns. -/
def Mut.listing (m : Mut) (c : ListCall) : Option Mut :=
  if c.Allowed m.resources then
    match c.run m with
    | .done _ m' => some m'
    | .halt _ => none
  else none

theorem listing_step {c : ListCall} (h : m.listing c = some m') : ListStep m c m' := by
  unfold Mut.listing at h
  by_cases hc : c.Allowed m.resources
  · rw [if_pos hc] at h
    cases hrun : c.run m with
    | done r t =>
        rw [hrun] at h
        cases h
        exact ⟨hc, hrun⟩
    | halt e =>
        rw [hrun] at h
        cases h
  · rw [if_neg hc] at h
    cases h

/-- Two resources are made, the first one is moved and the second one freed, and a third one
is made where the first one was. -/
def movedCalls : List ListCall :=
  [.create 0x1000, .makeProducer 0 .malloc 8 none, .create 0x2000, .readdress 0 0x3000,
    .delete 1 .free none, .create 0x1000]

/-- A tracker that holds nothing. -/
def Mut.holdingNone (flags : Control) : Mut := .small flags (.calling 0 0) []

/-- The calls lead to a list with these addresses and counts, of which `resources_exact`
holds. -/
def MovesTo (flags : Control) (addrs : List Word) (nActive nConsumed : Nat) : Prop :=
  ∃ m, Run ListStep (.holdingNone flags) movedCalls m ∧
    (m.resources.elems.map Resource.addr, m.resources.nActiveElems,
      m.resources.nConsumedElems) = (addrs, nActive, nConsumed) ∧
    (m.resources.elems.map Resource.addr).Nodup ∧
    m.resources.nActiveElems = m.resources.elems.countP (·.consumer.action.isNone) ∧
    (∃ found, mutResourcesLookup 0x3000 m = .done found m ∧
      ∀ obj, found = some obj ↔ ∃ r ∈ m.resources.elems, r.addr = 0x3000 ∧ r.ptr = obj) ∧
    ∀ all, ∃ n iter, mutResourcesIterOpen all m = .done (n, iter) m ∧
      Reads iter (qualifying all m.resources.elems) ∧
      (qualifying all m.resources.elems).length = n

/-- The resource that is freed stays in the list in the one mode, and goes in the other. -/
theorem resources_exact_moved :
    MovesTo .plain [0x1000, 0x2000, 0x3000] 2 1 ∧
      MovesTo { Control.plain with free := true } [0x1000, 0x3000] 2 0 := by
  have hmoves : ∀ flags addrs nActive nConsumed,
      (movedCalls.foldlM Mut.listing (.holdingNone flags)).map (fun m =>
        (m.resources.elems.map Resource.addr, m.resources.nActiveElems,
          m.resources.nConsumedElems)) = some (addrs, nActive, nConsumed) →
      MovesTo flags addrs nActive nConsumed := by
    intro flags addrs nActive nConsumed hlook
    obtain ⟨m, hcalls, hseen⟩ := Option.map_eq_some_iff.1 hlook
    have hrun : Run ListStep (.holdingNone flags) movedCalls m :=
      .of_foldlM (fun _ _ _ => listing_step) hcalls
    have hopen : (Mut.holdingNone flags).resources = mutResourcesOpen flags.free := rfl
    obtain ⟨⟨hnodup, -⟩, hlookup, ⟨hcount, -⟩, -, hreads⟩ := resources_exact hopen hrun
    exact ⟨m, hrun, hseen, hnodup, hcount, hlookup 0x3000, hreads⟩
  exact ⟨hmoves _ _ _ _ (by decide +kernel), hmoves _ _ _ _ (by decide +kernel)⟩

end MutTracker.Source
