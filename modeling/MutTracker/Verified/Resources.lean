import MutTracker.Source.Resources
import MutTracker.Verified.Backtrace

/-!
# The resource list and its invariant

`Books flags rs μ held` is the invariant of the resource list `rs` and the
tracker's storage `μ`, while the handlers hold the backtraces `held`: no two
resources have one address or one pointer, the counts are the numbers of
active and consumed resources, every resource has its producer and the
backtraces that go with it, and every backtrace is counted right.

`Entry` is what a resource says about the traced program.  The operations are
specified by what they do to the list of entries, through the keyed-list
operations at an address.

## Main results

* `Books.around`, `Books.put` — a resource is taken out of the books and put
  back.
* `mutResourcesDeleteResource_spec`, `mutResourcesCreateResource_spec`.
-/

namespace MutTracker.Source

open MutTracker.Logic MutTracker.Logic.Prog MutTracker.Logic.Keyed

/-- What a resource says about the traced program. -/
structure Entry where
  addr : Word
  size : Word
  producer : Option Routine
  consumer : Option Routine
  deriving DecidableEq, Repr

def Resource.entry (r : Resource) : Entry :=
  { addr := r.addr, size := r.size, producer := r.producer.action,
    consumer := r.consumer.action }

def Resources.entries (rs : Resources) : List Entry := rs.elems.map Resource.entry

/-- The backtraces a resource refers to. -/
def Resource.refs (r : Resource) : List Nat :=
  r.producer.backtrace.toList ++ r.consumer.backtrace.toList

def refsOf (elems : List Resource) : List Nat := elems.flatMap Resource.refs

/-- A resource that is not being made: it has its producer, and the backtraces
that go with its parties. -/
structure Resource.Ok (flags : Control) (r : Resource) : Prop where
  produced : r.producer.action.isSome
  freeing : flags.free = true → r.consumer.action = none
  producerBacktrace : r.producer.backtrace.isSome = flags.backtrace
  consumerBacktrace :
    r.consumer.backtrace.isSome = (flags.backtrace && r.consumer.action.isSome)

/-- A list of resources in order: no two have one address or one pointer, and
the pointers were handed out before `next`. -/
structure Shelved (flags : Control) (next : Nat) (l : List Resource) : Prop where
  addrs : UniqueKeys Resource.addr l
  ptrs : UniqueKeys Resource.ptr l
  ok : ∀ r ∈ l, r.Ok flags
  below : ∀ r ∈ l, r.ptr < next

structure Books (flags : Control) (rs : Resources) (μ : Mem) (held : List Nat) : Prop where
  shelved : Shelved flags μ.next rs.elems
  active : rs.nActiveElems = rs.elems.countP (·.consumer.action.isNone)
  consumed : rs.nConsumedElems = rs.elems.countP (·.consumer.action.isSome)
  mode : rs.reallyFree = flags.free
  sound : Sound μ (held ++ refsOf rs.elems)

variable {flags : Control} {rs rs' : Resources} {μ μ' : Mem} {held held' : List Nat}
  {o : Resource} {m : Mut} {E : Halt → Prop}

/-! ## Entries and resources -/

theorem uniqueKeys_entries (h : UniqueKeys Resource.addr rs.elems) :
    UniqueKeys Entry.addr rs.entries := by
  unfold UniqueKeys Resources.entries at *
  rw [List.map_map]
  exact h

theorem get_entries (a : Word) :
    get Entry.addr a rs.entries = (get Resource.addr a rs.elems).map Resource.entry := by
  unfold Resources.entries
  induction rs.elems with
  | nil => rfl
  | cons r elems ih =>
      rw [List.map_cons, get_cons, get_cons, ih]
      split
      · rename_i h
        rw [if_pos (show r.addr = a from h)]
        rfl
      · rename_i h
        rw [if_neg (show ¬ r.addr = a from h)]

@[simp] theorem wp_updateResources {Q : Unit → Mut → Prop} (f : Resources → Resources) :
    wp (Mut.updateResources f) Q E m ↔ Q () { m with resources := f m.resources } := Iff.rfl

@[simp] theorem wp_lookup {Q : Option Nat → Mut → Prop} (addr : Word) :
    wp (mutResourcesLookup addr) Q E m ↔
      Q ((get Resource.addr addr m.resources.elems).map (·.ptr)) m := Iff.rfl

/-! ## The list around a resource -/

section Around

variable {l l₁ l₂ : List Resource} {r s : Resource} {next next' : Nat}

theorem refsOf_append : refsOf (l₁ ++ l₂) = refsOf l₁ ++ refsOf l₂ := by simp [refsOf]

theorem refsOf_cons : refsOf (r :: l) = r.refs ++ refsOf l := by simp [refsOf]

theorem Shelved.perm {l' : List Resource} (h : Shelved flags next l) (hperm : l.Perm l') :
    Shelved flags next l' where
  addrs := (hperm.map Resource.addr).nodup_iff.1 h.addrs
  ptrs := (hperm.map Resource.ptr).nodup_iff.1 h.ptrs
  ok r hr := h.ok r (hperm.mem_iff.2 hr)
  below r hr := h.below r (hperm.mem_iff.2 hr)

theorem Shelved.mono (h : Shelved flags next l) (hle : next ≤ next') :
    Shelved flags next' l :=
  ⟨h.addrs, h.ptrs, h.ok, fun r hr => Nat.lt_of_lt_of_le (h.below r hr) hle⟩

theorem shelved_cons :
    Shelved flags next (r :: l) ↔
      ((∀ s ∈ l, s.addr ≠ r.addr) ∧ (∀ s ∈ l, s.ptr ≠ r.ptr) ∧ r.Ok flags ∧ r.ptr < next) ∧
        Shelved flags next l := by
  constructor
  · rintro ⟨haddrs, hptrs, hok, hbelow⟩
    obtain ⟨haddr, haddrs⟩ := uniqueKeys_cons.1 haddrs
    obtain ⟨hptr, hptrs⟩ := uniqueKeys_cons.1 hptrs
    obtain ⟨hr, hok⟩ := List.forall_mem_cons.1 hok
    obtain ⟨hlt, hbelow⟩ := List.forall_mem_cons.1 hbelow
    exact ⟨⟨haddr, hptr, hr, hlt⟩, haddrs, hptrs, hok, hbelow⟩
  · rintro ⟨⟨haddr, hptr, hr, hlt⟩, haddrs, hptrs, hok, hbelow⟩
    exact ⟨uniqueKeys_cons.2 ⟨haddr, haddrs⟩, uniqueKeys_cons.2 ⟨hptr, hptrs⟩,
      List.forall_mem_cons.2 ⟨hr, hok⟩, List.forall_mem_cons.2 ⟨hlt, hbelow⟩⟩

/-- What the books say of `o` and of the resources around it. -/
structure Around (flags : Control) (rs : Resources) (μ : Mem) (held : List Nat)
    (o : Resource) (l₁ l₂ : List Resource) : Prop where
  list : rs.elems = l₁ ++ o :: l₂
  addr : ∀ r ∈ l₁ ++ l₂, r.addr ≠ o.addr
  ptr : ∀ r ∈ l₁ ++ l₂, r.ptr ≠ o.ptr
  ok : o.Ok flags
  below : o.ptr < μ.next
  others : Shelved flags μ.next (l₁ ++ l₂)
  active : rs.nActiveElems = (l₁ ++ l₂).countP (·.consumer.action.isNone) +
    if o.consumer.action.isNone then 1 else 0
  consumed : rs.nConsumedElems = (l₁ ++ l₂).countP (·.consumer.action.isSome) +
    if o.consumer.action.isSome then 1 else 0
  mode : rs.reallyFree = flags.free
  sound : Sound μ (o.refs ++ (held ++ refsOf (l₁ ++ l₂)))

theorem Books.split (h : Books flags rs μ held) (heq : rs.elems = l₁ ++ o :: l₂) :
    Around flags rs μ held o l₁ l₂ := by
  obtain ⟨⟨haddr, hptr, hok, hbelow⟩, hothers⟩ :=
    shelved_cons.1 (h.shelved.perm (heq ▸ List.perm_middle))
  refine ⟨heq, haddr, hptr, hok, hbelow, hothers, ?_, ?_, h.mode, h.sound.perm ?_⟩
  · rw [h.active, heq, List.perm_middle.countP_eq, List.countP_cons]
  · rw [h.consumed, heq, List.perm_middle.countP_eq, List.countP_cons]
  · simp only [heq, refsOf_append, refsOf_cons, List.perm_iff_count, List.count_append]
    omega

theorem Books.around (h : Books flags rs μ held) (ho : o ∈ rs.elems) :
    ∃ l₁ l₂, Around flags rs μ held o l₁ l₂ := by
  obtain ⟨l₁, l₂, heq⟩ := List.append_of_mem ho
  exact ⟨l₁, l₂, h.split heq⟩

/-- A resource put in among others keeps the books. -/
theorem Books.put (hothers : Shelved flags μ.next (l₁ ++ l₂))
    (haddr : ∀ s ∈ l₁ ++ l₂, s.addr ≠ r.addr) (hptr : ∀ s ∈ l₁ ++ l₂, s.ptr ≠ r.ptr)
    (hok : r.Ok flags) (hbelow : r.ptr < μ.next) (hlist : rs.elems = l₁ ++ r :: l₂)
    (hactive : rs.nActiveElems = (l₁ ++ l₂).countP (·.consumer.action.isNone) +
      if r.consumer.action.isNone then 1 else 0)
    (hconsumed : rs.nConsumedElems = (l₁ ++ l₂).countP (·.consumer.action.isSome) +
      if r.consumer.action.isSome then 1 else 0)
    (hmode : rs.reallyFree = flags.free)
    (hsound : Sound μ (r.refs ++ (held ++ refsOf (l₁ ++ l₂)))) : Books flags rs μ held where
  shelved := hlist ▸
    (shelved_cons.2 ⟨⟨haddr, hptr, hok, hbelow⟩, hothers⟩).perm List.perm_middle.symm
  active := by rw [hactive, hlist, List.perm_middle.countP_eq, List.countP_cons]
  consumed := by rw [hconsumed, hlist, List.perm_middle.countP_eq, List.countP_cons]
  mode := hmode
  sound := by
    refine hsound.perm ?_
    simp only [hlist, refsOf_append, refsOf_cons, List.perm_iff_count, List.count_append]
    omega

namespace Around

variable (h : Around flags rs μ held o l₁ l₂)
include h

theorem mem : o ∈ rs.elems := by rw [h.list]; simp

theorem get_addr : Keyed.get Resource.addr o.addr rs.elems = some o := by
  rw [h.list, get_append_of_none fun s hs => h.addr s (List.mem_append_left _ hs), get_cons,
    if_pos rfl]

theorem remove_addr : remove Resource.addr o.addr rs.elems = l₁ ++ l₂ := by
  rw [h.list]
  exact remove_split fun s hs => h.addr s (List.mem_append_left _ hs)

private theorem entry_addr {l : List Resource} (hl : ∀ s ∈ l, s ∈ l₁ ++ l₂) :
    ∀ e ∈ l.map Resource.entry, e.addr ≠ o.entry.addr := by
  intro e he
  obtain ⟨s, hs, rfl⟩ := List.mem_map.1 he
  exact h.addr s (hl s hs)

theorem adjust_entry (f : Entry → Entry) :
    adjust Entry.addr o.addr f rs.entries =
      l₁.map Resource.entry ++ f o.entry :: l₂.map Resource.entry := by
  rw [Resources.entries, h.list, List.map_append, List.map_cons]
  exact adjust_split f (h.entry_addr fun _ hs => List.mem_append_left _ hs)
    (h.entry_addr fun _ hs => List.mem_append_right _ hs)

theorem remove_entry :
    remove Entry.addr o.addr rs.entries = l₁.map Resource.entry ++ l₂.map Resource.entry := by
  rw [Resources.entries, h.list, List.map_append, List.map_cons]
  exact remove_split (h.entry_addr fun _ hs => List.mem_append_left _ hs)

end Around

end Around

/-! ## Following and assigning -/

/-- The pointer of `o` designates it between `l₁` and `l₂`. -/
structure At (elems : List Resource) (o : Resource) (l₁ l₂ : List Resource) : Prop where
  list : elems = l₁ ++ o :: l₂
  ptr : ∀ r ∈ l₁ ++ l₂, r.ptr ≠ o.ptr

variable {l₁ l₂ : List Resource}

theorem wp_resource {Q : Resource → Mut → Prop} (h : At m.resources.elems o l₁ l₂) :
    wp (Mut.resource o.ptr) Q E m ↔ Q o m := by
  have hget : Keyed.get Resource.ptr o.ptr m.resources.elems = some o := by
    rw [h.list, get_append_of_none fun s hs => h.ptr s (List.mem_append_left _ hs), get_cons,
      if_pos rfl]
  simp [Mut.resource, hget]

theorem wp_assign {Q : Unit → Mut → Prop} (h : At m.resources.elems o l₁ l₂)
    (f : Resource → Resource) :
    wp (Mut.assign o.ptr f) Q E m ↔
      Q () { m with resources := { m.resources with elems := l₁ ++ f o :: l₂ } } := by
  have hadjust : adjust Resource.ptr o.ptr f m.resources.elems = l₁ ++ f o :: l₂ := by
    rw [h.list]
    exact adjust_split f (fun s hs => h.ptr s (List.mem_append_left _ hs))
      fun s hs => h.ptr s (List.mem_append_right _ hs)
  simp [Mut.assign, wp_resource h, hadjust]

/-! ## Deleting -/

/-- An entry with its consumer. -/
def Entry.consumedBy (c : Routine) (e : Entry) : Entry := { e with consumer := some c }

/-- The handler's own backtrace is there when backtraces are on. -/
abbrev Control.Keeps (flags : Control) (bt : Option Nat) : Prop := bt.isSome = flags.backtrace

/-- A consumed resource cannot be deleted. -/
theorem mutResourcesDeleteResource_consumed {Q : Unit → Mut → Prop} {bt : Option Nat}
    (h : Around flags m.resources m.mem held o l₁ l₂) (hc : o.consumer.action.isSome)
    (c : Routine) :
    wp (mutResourcesDeleteResource o.ptr c bt) Q E m ↔ E (.assertion .noConsumer) := by
  have hnone : o.consumer.action.isNone = false := by simpa using hc
  have hat : At m.resources.elems o l₁ l₂ := ⟨h.list, h.ptr⟩
  simp only [mutResourcesDeleteResource, wp_bind, wp_read, wp_ite,
    mutResourcesReallyDeleteResource, mutResourcesMarkAsFree, wp_resource hat, wp_mutAssert, hnone,
    Bool.false_eq_true, if_false, ite_self]

/-- A live resource is marked with its consumer, who shares the backtrace. -/
theorem mutResourcesMarkAsFree_spec {bt : Option Nat}
    (h : Around flags m.resources m.mem (bt.toList ++ held) o l₁ l₂)
    (hlive : o.consumer.action = none) (hfree : flags.free = false) (hbt : flags.Keeps bt)
    (c : Routine) :
    wp (mutResourcesMarkAsFree o.ptr c bt)
      (fun _ m' => ∃ rs μ, m' = { m with resources := rs, mem := μ } ∧ m.mem.Later μ ∧
        Books flags rs μ (bt.toList ++ held) ∧
        rs.entries = adjust Entry.addr o.addr (Entry.consumedBy c) m.resources.entries) E m := by
  have hat : At m.resources.elems o l₁ l₂ := ⟨h.list, h.ptr⟩
  have hactive := h.active
  have hconsumed := h.consumed
  simp only [hlive, Option.isNone_none, if_true, Option.isSome_none, Bool.false_eq_true,
    if_false, Nat.add_zero] at hactive hconsumed
  have hnobt : o.consumer.backtrace = none := by
    have := h.ok.consumerBacktrace
    simpa [hlive] using this
  -- What the books are kept with, once the consumer is assigned.
  have hput : ∀ {μ : Mem}, m.mem.Later μ →
      Sound μ (bt.toList ++ (o.refs ++ (bt.toList ++ held ++ refsOf (l₁ ++ l₂)))) →
      Books flags
        { m.resources with
          elems := l₁ ++ { o with consumer := ⟨some c, bt⟩ } :: l₂
          nActiveElems := m.resources.nActiveElems - 1
          nConsumedElems := m.resources.nConsumedElems + 1 } μ (bt.toList ++ held) := by
    intro μ hlater hsound
    refine Books.put (r := { o with consumer := ⟨some c, bt⟩ }) (h.others.mono hlater.next)
      h.addr h.ptr ?_ (Nat.lt_of_lt_of_le h.below hlater.next) rfl (by simp [hactive])
      (by simp [hconsumed]) h.mode (hsound.perm ?_)
    · exact
        { produced := h.ok.produced
          freeing := by simp [hfree]
          producerBacktrace := h.ok.producerBacktrace
          consumerBacktrace := by simpa using hbt }
    · simp only [Resource.refs, hnobt, List.perm_iff_count, List.count_append,
        Option.toList_none, List.count_nil]
      omega
  have hentries : ∀ {rs : Resources},
      rs.elems = l₁ ++ { o with consumer := ⟨some c, bt⟩ } :: l₂ →
      rs.entries = adjust Entry.addr o.addr (Entry.consumedBy c) m.resources.entries := by
    intro rs hlist
    rw [h.adjust_entry, Resources.entries, hlist, List.map_append, List.map_cons]
    rfl
  have hpos : decide (m.resources.nActiveElems > 0) = true := by simp [hactive]
  have hmarked : At (l₁ ++ { o with consumer := ⟨some c, none⟩ } :: l₂)
      { o with consumer := ⟨some c, none⟩ } l₁ l₂ := ⟨rfl, h.ptr⟩
  simp only [mutResourcesMarkAsFree, wp_bind, wp_read, wp_resource hat, wp_mutAssert, hlive,
    Option.isNone_none, if_true, hpos, wp_assign hat, wp_whenever, hnobt]
  cases bt with
  | none =>
      simp only [Option.isSome_none, Bool.false_eq_true, if_false, wp_updateResources]
      exact ⟨_, _, rfl, .refl _, hput (.refl _) (h.sound.perm (by simp)), hentries rfl⟩
  | some k =>
      simp only [Option.isSome_some, if_true]
      refine wp_mono (mutBacktraceShare_spec h.sound (by simp)) ?_ fun _ he => he
      rintro _ _ ⟨rfl, μ, rfl, hlater, hsound⟩
      refine (wp_assign (o := { o with consumer := ⟨some c, none⟩ }) hmarked _).2 ?_
      exact ⟨_, μ, rfl, hlater, hput hlater hsound, hentries rfl⟩

/-- A resource is unlinked and its producer's backtrace is closed. -/
theorem mutResourcesReallyDeleteResource_spec {bt : Option Nat}
    (h : Around flags m.resources m.mem held o l₁ l₂) (hlive : o.consumer.action = none)
    (c : Routine) :
    wp (mutResourcesReallyDeleteResource o.ptr c bt)
      (fun _ m' => ∃ rs μ, m' = { m with resources := rs, mem := μ } ∧ m.mem.Later μ ∧
        Books flags rs μ held ∧
        rs.entries = remove Entry.addr o.addr m.resources.entries) E m := by
  have hat : At m.resources.elems o l₁ l₂ := ⟨h.list, h.ptr⟩
  have hactive := h.active
  have hconsumed := h.consumed
  simp only [hlive, Option.isNone_none, if_true, Option.isSome_none, Bool.false_eq_true,
    if_false, Nat.add_zero] at hactive hconsumed
  have hnobt : o.consumer.backtrace = none := by
    have := h.ok.consumerBacktrace
    simpa [hlive] using this
  have hrefs : o.refs = o.producer.backtrace.toList := by simp [Resource.refs, hnobt]
  have hkeep : ∀ {μ : Mem}, m.mem.Later μ → Sound μ (held ++ refsOf (l₁ ++ l₂)) →
      Books flags
        { m.resources with elems := l₁ ++ l₂, nActiveElems := m.resources.nActiveElems - 1 }
        μ held := fun {μ} hlater hsound =>
    { shelved := h.others.mono hlater.next
      active := by simp [hactive]
      consumed := by simp [hconsumed]
      mode := h.mode
      sound := hsound }
  have hentries : (l₁ ++ l₂).map Resource.entry =
      remove Entry.addr o.addr m.resources.entries := by
    rw [h.remove_entry, List.map_append]
  have hpos : decide (m.resources.nActiveElems > 0) = true := by simp [hactive]
  simp only [mutResourcesReallyDeleteResource, wp_bind, wp_read, wp_resource hat, wp_mutAssert,
    hlive, Option.isNone_none, if_true, hpos, h.get_addr, h.remove_addr, wp_updateResources,
    wp_whenever]
  have hsound := h.sound
  rw [hrefs] at hsound
  cases hbt : o.producer.backtrace with
  | none =>
      rw [hbt] at hsound
      exact ⟨_, _, rfl, .refl _, hkeep (.refl _) hsound, hentries⟩
  | some k =>
      rw [hbt] at hsound
      simp only [Option.isSome_some, if_true]
      refine wp_mono (mutBacktraceClose_spec hsound) ?_ fun _ he => he
      rintro _ _ ⟨μ, rfl, hlater, hsound'⟩
      exact ⟨_, μ, rfl, hlater, hkeep hlater hsound', hentries⟩

/-- What a `[c]free` or `realloc` of the object at `a` does to the entries. -/
def consumeEntry (flags : Control) (c : Routine) (a : Word) (es : List Entry) : List Entry :=
  if flags.free then remove Entry.addr a es else adjust Entry.addr a (Entry.consumedBy c) es

theorem mutResourcesDeleteResource_spec {bt : Option Nat}
    (h : Around flags m.resources m.mem (bt.toList ++ held) o l₁ l₂)
    (hlive : o.consumer.action = none) (hbt : flags.Keeps bt) (c : Routine) :
    wp (mutResourcesDeleteResource o.ptr c bt)
      (fun _ m' => ∃ rs μ, m' = { m with resources := rs, mem := μ } ∧ m.mem.Later μ ∧
        Books flags rs μ (bt.toList ++ held) ∧
        rs.entries = consumeEntry flags c o.addr m.resources.entries) E m := by
  simp only [mutResourcesDeleteResource, wp_bind, wp_read, wp_ite, h.mode, consumeEntry]
  cases hfree : flags.free with
  | false => exact mutResourcesMarkAsFree_spec h hlive hfree hbt c
  | true => exact mutResourcesReallyDeleteResource_spec h hlive c

/-! ## Creating -/

/-- The resource `mut_resources_create_resource` links in. -/
def Resource.blank (ptr : Nat) (addr : Word) : Resource :=
  { ptr, addr, size := 0, producer := ⟨none, none⟩, consumer := ⟨none, none⟩ }

/-- The list with a new resource in front. -/
def Resources.cons (rs : Resources) (r : Resource) : Resources :=
  { rs with elems := r :: rs.elems, nActiveElems := rs.nActiveElems + 1 }

/-- The storage after a pointer was handed out. -/
structure Mem.Grown (μ μ' : Mem) : Prop where
  next : μ'.next = μ.next + 1
  backtraces : μ'.backtraces = μ.backtraces
  full : μ'.full <:+ μ.full

/-- At an address without a resource one is made, or memory is full. -/
theorem mutResourcesCreateResource_spec {p : Process} {rs : List Report} {t : Target}
    {x : Memory} {refs : List Nat} {addr : Word} (hsound : Sound m.mem refs)
    (hcalm : Calm p rs t x m.process)
    (hfresh : Keyed.get Resource.addr addr m.resources.elems = none) :
    wp (mutResourcesCreateResource addr)
      (fun r m' =>
        (∃ μ, r = some m.mem.next ∧ m.mem.Grown μ ∧
          m' = { m with resources := m.resources.cons (.blank m.mem.next addr), mem := μ }) ∨
        r = none ∧ Kept m refs m' ∧ m.mem.Failed m'.mem ∧ m'.process.status = .stopped) E m := by
  simp only [mutResourcesCreateResource, wp_bind, wp_read, hfresh]
  refine wp_mono (mutMalloc_spec m) ?_ fun _ he => he
  rintro r _ ⟨μ, rfl, hlater, hsame, ⟨rfl, hnext⟩ | ⟨⟨errno, rfl⟩, hfull⟩⟩
  · exact .inl ⟨μ, rfl, ⟨hnext, hsame, hlater.full⟩, rfl⟩
  · simp only [wp_bind, wp_liftLogMut, wp_mutLogMemFull hcalm.idle, wp_pure]
    refine .inr ⟨trivial, ⟨rfl, hlater, hsame ▸ hsound.counts, fun j hj => ?_⟩, hfull,
      hcalm.status⟩
    simpa only [hsame] using hsound.fresh j (Nat.le_trans hlater.next hj)

theorem Mem.Grown.later (h : μ.Grown μ') : μ.Later μ' :=
  ⟨h.next ▸ Nat.le_succ _, h.full⟩

/-- The resource a producer made: its pointer is new, its address its own. -/
def Resource.made (ptr : Nat) (addr size : Word) (a : Routine) (bt : Option Nat) : Resource :=
  { ptr, addr, size, producer := ⟨some a, bt⟩, consumer := ⟨none, none⟩ }

/-- A resource made by a producer, who gives its backtrace up to it. -/
theorem Books.made {bt : Option Nat} {addr : Word} (h : Books flags rs μ (bt.toList ++ held))
    (hgrown : μ.Grown μ') (hfresh : Keyed.get Resource.addr addr rs.elems = none)
    (hbt : flags.Keeps bt) (size : Word) (a : Routine) :
    Books flags (rs.cons (.made μ.next addr size a bt)) μ' held := by
  have hput := @Books.put flags (rs.cons (.made μ.next addr size a bt)) μ' held [] rs.elems
    (.made μ.next addr size a bt)
  refine hput (h.shelved.mono hgrown.later.next) (get_eq_none.1 hfresh) (fun s hs => ?_)
    ?_ ?_ rfl ?_ ?_ h.mode ?_
  · exact Nat.ne_of_lt (h.shelved.below s hs)
  · exact
      { produced := rfl
        freeing := fun _ => rfl
        producerBacktrace := hbt
        consumerBacktrace := by simp [Resource.made] }
  · exact hgrown.next ▸ Nat.lt_succ_self _
  · simp [Resources.cons, Resource.made, h.active]
  · simp [Resources.cons, Resource.made, h.consumed]
  · refine ⟨hgrown.backtraces ▸ h.sound.counts.perm ?_, fun j hj => ?_⟩
    · simp [Resource.refs, Resource.made]
    · rw [hgrown.backtraces]
      exact h.sound.fresh j (Nat.le_trans hgrown.later.next hj)

end MutTracker.Source
