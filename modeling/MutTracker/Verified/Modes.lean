import Mathlib.Data.List.Perm.Basic
import MutTracker.Verified.Warnings

/-!
# The two modes on correct programs

A script is a list of calls on symbolic blocks: a block is made, made again
with another size, or given up.  A run of the tracker plays it in a `World` of its
own, which says where the blocks are and what the target's allocator holds.
What a script comes to is an `Account` over symbols, and in it there is no mode
and no address.  Each run keeps to the account (`Follows`), whether memory is
really freed or not, so any two runs of one script agree.

## Main definitions

* `Op`, `World`, `Plays` — scripts, and what playing a call of one takes.
* `Account`, `Follows` — the account of a script, and a run that keeps to it.

## Main results

* `Follows.played` — a call of a script is handled, and the run keeps to the account.
* `modes_agree` — two runs of one script agree, and in what.
-/

namespace MutTracker.Source

open MutTracker.Logic MutTracker.Logic.Prog MutTracker.Logic.Keyed

/-! ## Scripts -/

/-- The calls that make a block. -/
inductive Making where
  | malloc (size : Word)
  | calloc (nElems elemSize : Word)
  | realloc (size : Word)
  deriving DecidableEq, Repr

namespace Making

def routine : Making → Routine
  | .malloc _ => .malloc
  | .calloc _ _ => .calloc
  | .realloc _ => .realloc

def size : Making → Word
  | .malloc size => size
  | .calloc nElems elemSize => nElems * elemSize
  | .realloc size => size

def call : Making → Call
  | .malloc size => .malloc size
  | .calloc nElems elemSize => .calloc nElems elemSize
  | .realloc size => .realloc 0 size

end Making

/-- The calls that give a block up. -/
inductive Release where
  | free
  | cfree
  deriving DecidableEq, Repr

namespace Release

def routine : Release → Routine
  | .free => .free
  | .cfree => .cfree

def call (addr : Word) : Release → Call
  | .free => .free addr
  | .cfree => .cfree addr

end Release

/-- A call of a script, on symbolic blocks. -/
inductive Op (β : Type) where
  | new (x : β) (making : Making)
  | resize (x : β) (size : Word)
  | release (x : β) (c : Release)
  | releaseNull (c : Release)

/-- Where the symbolic blocks are that the target holds, and what its allocator
holds. -/
structure World (β : Type) where
  held : β → Option Word
  allocated : Word → Prop

/-- Nothing is held. -/
def World.empty {β : Type} : World β := { held := fun _ => none, allocated := fun _ => False }

section

variable {β : Type} [DecidableEq β]

/-- The call that the target makes: none when a new block has the symbol of
one still held, or when the block is not held. -/
def Op.call (w : World β) : Op β → Option Call
  | .new x making => if (w.held x).isSome then none else some making.call
  | .resize x size => (w.held x).map fun p => .realloc p size
  | .release x c => (w.held x).map fun p => c.call p
  | .releaseNull c => some (c.call 0)

/-- What the target's allocator may return: the address of no block it holds,
but when memory is freed that of the block it is given. -/
def Op.Granted (freeing : Bool) (w : World β) (result : Word) : Op β → Prop
  | .new _ _ => result ≠ 0 ∧ mutExecAddrAligned result = true ∧ ¬ w.allocated result
  | .resize x _ =>
      result ≠ 0 ∧ mutExecAddrAligned result = true ∧
        (¬ w.allocated result ∨ (freeing = true ∧ w.held x = some result))
  | .release _ _ | .releaseNull _ => True

/-- The world after the call.  What is given up stays allocated when memory is
not freed. -/
def World.after (freeing : Bool) (w : World β) (result : Word) : Op β → World β
  | .new x _ =>
      { held := Function.update w.held x (some result)
        allocated := fun p => p = result ∨ w.allocated p }
  | .resize x _ =>
      { held := Function.update w.held x (some result)
        allocated := fun p =>
          p = result ∨ (w.allocated p ∧ ¬ (freeing = true ∧ w.held x = some p)) }
  | .release x _ =>
      { held := Function.update w.held x none
        allocated := fun p => w.allocated p ∧ ¬ (freeing = true ∧ w.held x = some p) }
  | .releaseNull _ => w

instance {freeing : Bool} {w : World β} [DecidablePred w.allocated] {result : Word} (op : Op β) :
    Decidable (op.Granted freeing w result) :=
  match op with
  | .new _ _ =>
      inferInstanceAs (Decidable (result ≠ 0 ∧ mutExecAddrAligned result = true ∧
        ¬ w.allocated result))
  | .resize x _ =>
      inferInstanceAs (Decidable (result ≠ 0 ∧ mutExecAddrAligned result = true ∧
        (¬ w.allocated result ∨ (freeing = true ∧ w.held x = some result))))
  | .release _ _ => .isTrue trivial
  | .releaseNull _ => .isTrue trivial

instance {freeing : Bool} {w : World β} [DecidablePred w.allocated] {result : Word} (op : Op β) :
    DecidablePred (w.after freeing result op).allocated :=
  match op with
  | .new _ _ => fun p => inferInstanceAs (Decidable (p = result ∨ w.allocated p))
  | .resize x _ => fun p =>
      inferInstanceAs (Decidable
        (p = result ∨ (w.allocated p ∧ ¬ (freeing = true ∧ w.held x = some p))))
  | .release x _ => fun p =>
      inferInstanceAs (Decidable (w.allocated p ∧ ¬ (freeing = true ∧ w.held x = some p)))
  | .releaseNull _ => inferInstanceAs (DecidablePred w.allocated)

instance : DecidablePred (World.empty : World β).allocated := fun _ => .isFalse id

/-- The target comes to the call of the script, and neither the kernel, nor the
tracker's storage, nor the target's allocator gives trouble. -/
structure Plays (flags : Control) (m : Mut) (w : World β) (op : Op β) (v : Visit) : Prop where
  between : Between m v.tracker
  listed : v.routine ∈ v.tracker.root
  smooth : Smooth flags v.tracker v.routine
  call : op.call w = some v.event.call
  granted : op.Granted flags.free w v.event.result

/-- The handler of a call of the script returns. -/
def ScriptStep (flags : Control) (s : Mut × World β) (op : Op β) (s' : Mut × World β) : Prop :=
  ∃ v ok, Plays flags s.1 s.2 op v ∧ mutHandle flags v.routine v.tracker = .done ok s'.1 ∧
    s'.2 = s.2.after flags.free v.event.result op

/-! ## The account of a script -/

/-- A block that is held, by its symbol. -/
structure Block (β : Type) where
  sym : β
  size : Word
  producer : Routine

structure Account (β : Type) where
  blocks : List (Block β)
  stats : Stats
  hits : Routine → Nat

def Account.empty : Account β := { blocks := [], stats := .zero, hits := fun _ => 0 }

/-- One more hit of a routine. -/
def bump (hits : Routine → Nat) (a : Routine) : Routine → Nat :=
  Function.update hits a (hits a + 1)

def Account.step (A : Account β) : Op β → Account β
  | .new x making =>
      { blocks := ⟨x, making.size, making.routine⟩ :: A.blocks
        stats := A.stats.produced making.size
        hits := bump A.hits making.routine }
  | .resize x size =>
      match get Block.sym x A.blocks with
      | none => A
      | some blk =>
          { blocks := adjust Block.sym x (fun _ => ⟨x, size, .realloc⟩) A.blocks
            stats := (A.stats.consumed blk.size).produced size
            hits := bump A.hits .realloc }
  | .release x c =>
      match get Block.sym x A.blocks with
      | none => A
      | some blk =>
          { blocks := remove Block.sym x A.blocks
            stats := A.stats.consumed blk.size
            hits := bump A.hits c.routine }
  | .releaseNull c => { A with hits := bump A.hits c.routine }

/-- The entry of a block that is held. -/
def Block.entry (w : World β) (blk : Block β) : Entry :=
  ⟨(w.held blk.sym).getD 0, blk.size, some blk.producer, none⟩

/-- The books `b` of a run in the world `w` keep to the account `A`, with the
complaints `rs` from before. -/
structure Follows (rs : List Report) (b : Book) (w : World β) (A : Account β) : Prop where
  syms : UniqueKeys Block.sym A.blocks
  held : ∀ x, (w.held x).isSome = (get Block.sym x A.blocks).isSome
  active : (b.entries.filter Entry.active).Perm (A.blocks.map (Block.entry w))
  allocated : ∀ e ∈ b.entries, w.allocated e.addr
  valid : ∀ x p, w.held x = some p → p ≠ 0 ∧ mutExecAddrAligned p = true
  made : Made b.entries
  stats : b.stats = A.stats
  hits : b.hits = A.hits
  clean : b.reports.filter Report.misuse = rs

end

variable {β : Type} [DecidableEq β] {flags : Control} {m m' m₀ : Mut} {w : World β} {op : Op β}
  {A : Account β} {b b' : Book} {rs : List Report} {e : Entry} {x : β} {v : Visit} {p : Word}
  {blk : Block β} {blocks : List (Block β)}

/-! ## Blocks and entries -/

/-- Another block stays where it is. -/
theorem entry_update (r : Option Word) (q : Word → Prop) (hne : blk.sym ≠ x) :
    blk.entry ⟨Function.update w.held x r, q⟩ = blk.entry w := by
  show (⟨(Function.update w.held x r blk.sym).getD 0, _, _, _⟩ : Entry) = _
  rw [Function.update_of_ne hne]
  rfl

theorem map_entry_update (blocks : List (Block β)) (r : Option Word) (q : Word → Prop)
    (hne : ∀ blk ∈ blocks, blk.sym ≠ x) :
    blocks.map (Block.entry ⟨Function.update w.held x r, q⟩) = blocks.map (Block.entry w) :=
  List.map_congr_left fun blk hblk => entry_update r q (hne blk hblk)

namespace Follows

/-- The entry of a block that is held, and all the others. -/
structure Around (b : Book) (w : World β) (A : Account β) (x : β) (blk : Block β) (p : Word)
    (es₁ es₂ : List Entry) (blocks₁ blocks₂ : List (Block β)) : Prop where
  sym : blk.sym = x
  entry : blk.entry w = ⟨p, blk.size, some blk.producer, none⟩
  entries : b.entries = es₁ ++ blk.entry w :: es₂
  before : ∀ e ∈ es₁, e.addr ≠ p
  after : ∀ e ∈ es₂, e.addr ≠ p
  blocks : A.blocks = blocks₁ ++ blk :: blocks₂
  symsBefore : ∀ blk ∈ blocks₁, blk.sym ≠ x
  symsAfter : ∀ blk ∈ blocks₂, blk.sym ≠ x
  others : ((es₁ ++ es₂).filter Entry.active).Perm ((blocks₁ ++ blocks₂).map (Block.entry w))

theorem filter_middle {es₁ es₂ : List Entry} (hactive : e.active = true) :
    ((es₁ ++ e :: es₂).filter Entry.active).Perm (e :: (es₁ ++ es₂).filter Entry.active) := by
  rw [List.filter_append, List.filter_append, List.filter_cons_of_pos hactive]
  exact List.perm_middle

theorem filter_middle_inactive {es₁ es₂ : List Entry} (hinactive : e.active = false) :
    (es₁ ++ e :: es₂).filter Entry.active = (es₁ ++ es₂).filter Entry.active := by
  rw [List.filter_append, List.filter_append,
    List.filter_cons_of_neg (by rw [hinactive]; simp)]

theorem around (h : Follows rs b w A) (hkeys : UniqueKeys Entry.addr b.entries)
    (hx : w.held x = some p) :
    ∃ blk es₁ es₂ blocks₁ blocks₂, get Block.sym x A.blocks = some blk ∧
      Around b w A x blk p es₁ es₂ blocks₁ blocks₂ := by
  obtain ⟨blk, hblk⟩ := Option.isSome_iff_exists.1 ((h.held x).symm.trans (by rw [hx]; rfl))
  obtain rfl := key_of_get hblk
  have hmem := mem_of_get hblk
  have hentry : blk.entry w = ⟨p, blk.size, some blk.producer, none⟩ := by
    rw [Block.entry, hx]
    rfl
  have he : blk.entry w ∈ b.entries :=
    (List.mem_filter.1 (h.active.mem_iff.2 (List.mem_map_of_mem hmem))).1
  obtain ⟨es₁, es₂, hentries, h₁, h₂⟩ := hkeys.split he
  obtain ⟨blocks₁, blocks₂, hblocks, hl, hr⟩ := h.syms.split hmem
  rw [hentry] at h₁ h₂
  refine ⟨blk, es₁, es₂, blocks₁, blocks₂, hblk, rfl, hentry, hentries, h₁, h₂, hblocks, hl, hr,
    ?_⟩
  have hactive : (blk.entry w).active = true := by rw [hentry]; rfl
  have hperm := h.active
  rw [hentries, hblocks, List.map_append, List.map_cons] at hperm
  have hcons := (filter_middle hactive).symm.trans (hperm.trans List.perm_middle)
  rw [List.map_append]
  exact hcons.cons_inv

omit [DecidableEq β] in
theorem Around.otherSyms {es₁ es₂ : List Entry} {blocks₁ blocks₂ : List (Block β)}
    (h : Around b w A x blk p es₁ es₂ blocks₁ blocks₂) :
    ∀ blk ∈ blocks₁ ++ blocks₂, blk.sym ≠ x := fun blk hblk =>
  (List.mem_append.1 hblk).elim (h.symsBefore blk) (h.symsAfter blk)

omit [DecidableEq β] in
/-- A block that is held is live in the list. -/
theorem Around.find {es₁ es₂ : List Entry} {blocks₁ blocks₂ : List (Block β)}
    (h : Around b w A x blk p es₁ es₂ blocks₁ blocks₂) :
    b.find p = some ⟨p, blk.size, some blk.producer, none⟩ := by
  rw [Book.find, h.entries, get_append_of_none h.before, get_cons, h.entry, if_pos rfl]

/-- What is not allocated is not in the list. -/
theorem unlisted (h : Follows rs b w A) (hp : ¬ w.allocated p) : b.find p = none :=
  get_eq_none.2 fun e he heq => hp (heq ▸ h.allocated e he)

/-! ## A block comes and goes -/

/-- A symbol that is not held is the symbol of no block. -/
theorem unheld (h : Follows rs b w A) (hx : w.held x = none) : ∀ blk ∈ A.blocks, blk.sym ≠ x := by
  have hnone : (get Block.sym x A.blocks).isSome = false := by rw [← h.held, hx]; rfl
  exact get_eq_none.1 (by simpa using hnone)

/-- A new block is entered. -/
theorem entered (h : Follows rs b w A) (hx : w.held x = none) {r size : Word} {a : Routine}
    (ha : a.produces = true) (hr : r ≠ 0 ∧ mutExecAddrAligned r = true)
    (hentries : b'.entries = ⟨r, size, some a, none⟩ :: b.entries)
    (hstats : b'.stats = b.stats.produced size) (hhits : b'.hits = bump b.hits a)
    (hclean : b'.reports.filter Report.misuse = b.reports.filter Report.misuse) :
    Follows rs b' ⟨Function.update w.held x (some r), fun p => p = r ∨ w.allocated p⟩
      ⟨⟨x, size, a⟩ :: A.blocks, A.stats.produced size, bump A.hits a⟩ where
  syms := uniqueKeys_cons.2 ⟨h.unheld hx, h.syms⟩
  held y := by
    show (Function.update w.held x (some r) y).isSome = _
    rw [get_cons, Function.update_apply]
    by_cases hy : y = x
    · rw [if_pos hy, if_pos hy.symm]
      rfl
    · rw [if_neg hy, if_neg fun heq => hy heq.symm, h.held]
  active := by
    rw [hentries, List.filter_cons_of_pos rfl, List.map_cons, map_entry_update _ _ _ (h.unheld hx),
      Block.entry]
    have hself : Function.update w.held x (some r) x = some r := Function.update_self ..
    simp only [hself, Option.getD_some]
    exact h.active.cons _
  allocated e he := by
    rw [hentries] at he
    rcases List.mem_cons.1 he with rfl | he
    · exact .inl rfl
    · exact .inr (h.allocated e he)
  valid y p hp := by
    have hp : Function.update w.held x (some r) y = some p := hp
    rw [Function.update_apply] at hp
    split at hp
    · rw [← Option.some.inj hp]
      exact hr
    · exact h.valid y p hp
  made e he := by
    rw [hentries] at he
    rcases List.mem_cons.1 he with rfl | he
    · exact ⟨a, rfl, ha⟩
    · exact h.made e he
  stats := by rw [hstats, h.stats]
  hits := by rw [hhits, h.hits]
  clean := hclean.trans h.clean

/-- What is left of the list when the object at `p` is consumed. -/
structure Left (freeing : Bool) (b : Book) (p : Word) (es es' : List Entry) : Prop where
  active : es'.filter Entry.active = es.filter Entry.active
  listed : ∀ e ∈ es', ∃ e₀ ∈ b.entries, e.addr = e₀.addr ∧ e.producer = e₀.producer
  gone : freeing = true → ∀ e ∈ es', e.addr ≠ p

omit [DecidableEq β] in
/-- When memory is freed the object is unlinked. -/
theorem Around.consume_freeing {es₁ es₂ : List Entry} {blocks₁ blocks₂ : List (Block β)}
    (h : Around b w A x blk p es₁ es₂ blocks₁ blocks₂) (hfree : flags.free = true)
    (c : Routine) : consumeEntry flags c p b.entries = es₁ ++ es₂ := by
  have haddr : (blk.entry w).addr = p := by rw [h.entry]
  rw [consumeEntry, if_pos hfree, h.entries, ← haddr]
  exact remove_split (haddr.symm ▸ h.before)

omit [DecidableEq β] in
theorem Around.consume {es₁ es₂ : List Entry} {blocks₁ blocks₂ : List (Block β)}
    (h : Around b w A x blk p es₁ es₂ blocks₁ blocks₂) (flags : Control) (c : Routine) :
    Left flags.free b p (es₁ ++ es₂) (consumeEntry flags c p b.entries) := by
  have haddr : (blk.entry w).addr = p := by rw [h.entry]
  have h₁ : ∀ e ∈ es₁, e.addr ≠ (blk.entry w).addr := haddr.symm ▸ h.before
  have h₂ : ∀ e ∈ es₂, e.addr ≠ (blk.entry w).addr := haddr.symm ▸ h.after
  have hothers : ∀ e ∈ es₁ ++ es₂, e ∈ b.entries ∧ e.addr ≠ p := fun e he => by
    rw [h.entries]
    rcases List.mem_append.1 he with he | he
    · exact ⟨List.mem_append_left _ he, h.before e he⟩
    · exact ⟨List.mem_append_right _ (List.mem_cons_of_mem _ he), h.after e he⟩
  cases hfree : flags.free with
  | true =>
      rw [h.consume_freeing hfree]
      exact ⟨rfl, fun e he => ⟨e, (hothers e he).1, rfl, rfl⟩, fun _ e he => (hothers e he).2⟩
  | false =>
      rw [consumeEntry, hfree, if_neg (by simp), h.entries, ← haddr,
        adjust_split (Entry.consumedBy c) h₁ h₂, haddr]
      refine ⟨filter_middle_inactive rfl, fun e he => ?_, by simp⟩
      rcases List.mem_append.1 he with he | he
      · exact ⟨e, (hothers e (List.mem_append_left _ he)).1, rfl, rfl⟩
      rcases List.mem_cons.1 he with rfl | he
      · exact ⟨blk.entry w, h.entries ▸ List.mem_append_right _ List.mem_cons_self, rfl, rfl⟩
      · exact ⟨e, (hothers e (List.mem_append_right _ he)).1, rfl, rfl⟩

/-- Consumed, the block is no more in what is allocated when memory is freed. -/
theorem Left.allocated {freeing : Bool} {es es' : List Entry} (hleft : Left freeing b p es es')
    (h : Follows rs b w A) (hx : w.held x = some p) (he : e ∈ es') :
    w.allocated e.addr ∧ ¬ (freeing = true ∧ w.held x = some e.addr) := by
  obtain ⟨e₀, he₀, haddr, -⟩ := hleft.listed e he
  refine ⟨haddr ▸ h.allocated e₀ he₀, fun hfreed => hleft.gone hfreed.1 e he ?_⟩
  exact (Option.some.inj (hx.symm.trans hfreed.2)).symm

theorem Left.made {freeing : Bool} {es es' : List Entry} (hleft : Left freeing b p es es')
    (h : Made b.entries) : Made es' := fun e he => by
  obtain ⟨e₀, he₀, -, hproducer⟩ := hleft.listed e he
  rw [hproducer]
  exact h e₀ he₀

/-- A block is given up. -/
theorem released (h : Follows rs b w A) (freeing : Bool) {es₁ es₂ : List Entry}
    {blocks₁ blocks₂ : List (Block β)} (hx : w.held x = some p) {c : Routine}
    (haround : Around b w A x blk p es₁ es₂ blocks₁ blocks₂)
    (hleft : Left freeing b p (es₁ ++ es₂) b'.entries)
    (hstats : b'.stats = b.stats.consumed blk.size) (hhits : b'.hits = bump b.hits c)
    (hclean : b'.reports.filter Report.misuse = b.reports.filter Report.misuse) :
    Follows rs b' ⟨Function.update w.held x none,
        fun p => w.allocated p ∧ ¬ (freeing = true ∧ w.held x = some p)⟩
      ⟨remove Block.sym x A.blocks, A.stats.consumed blk.size, bump A.hits c⟩ where
  syms := uniqueKeys_remove h.syms
  held y := by
    show (Function.update w.held x none y).isSome = _
    rw [get_remove h.syms, Function.update_apply]
    by_cases hy : y = x
    · rw [if_pos hy, if_pos hy]
      rfl
    · rw [if_neg hy, if_neg hy, h.held]
  active := by
    have hsym := haround.sym
    subst hsym
    rw [hleft.active, haround.blocks, remove_split haround.symsBefore]
    have hothers := haround.others
    rwa [← map_entry_update _ none _ haround.otherSyms] at hothers
  allocated e he := hleft.allocated h hx he
  valid y p hp := by
    have hp : Function.update w.held x none y = some p := hp
    rw [Function.update_apply] at hp
    split at hp
    · cases hp
    · exact h.valid y p hp
  made := hleft.made h.made
  stats := by rw [hstats, h.stats]
  hits := by rw [hhits, h.hits]
  clean := hclean.trans h.clean

/-- A block is made again. -/
theorem resized (h : Follows rs b w A) {freeing : Bool} {es₁ es₂ es' : List Entry}
    {blocks₁ blocks₂ : List (Block β)} (hx : w.held x = some p) {r size : Word}
    (hr : r ≠ 0 ∧ mutExecAddrAligned r = true)
    (haround : Around b w A x blk p es₁ es₂ blocks₁ blocks₂)
    (hleft : Left freeing b p (es₁ ++ es₂) es')
    (hentries : b'.entries.Perm (⟨r, size, some .realloc, none⟩ :: es'))
    (hstats : b'.stats = (b.stats.consumed blk.size).produced size)
    (hhits : b'.hits = bump b.hits .realloc)
    (hclean : b'.reports.filter Report.misuse = b.reports.filter Report.misuse) :
    Follows rs b' ⟨Function.update w.held x (some r),
        fun p => p = r ∨ (w.allocated p ∧ ¬ (freeing = true ∧ w.held x = some p))⟩
      ⟨adjust Block.sym x (fun _ => ⟨x, size, .realloc⟩) A.blocks,
        (A.stats.consumed blk.size).produced size, bump A.hits .realloc⟩ where
  syms := by
    have hget : get Block.sym x A.blocks = some blk := by
      rw [haround.blocks, get_append_of_none haround.symsBefore, get_cons, if_pos haround.sym]
    exact uniqueKeys_rekey h.syms hget (.inl rfl)
  held y := by
    have hget : get Block.sym x A.blocks = some blk := by
      rw [haround.blocks, get_append_of_none haround.symsBefore, get_cons, if_pos haround.sym]
    show (Function.update w.held x (some r) y).isSome = _
    rw [get_rekey h.syms hget (.inl rfl), Function.update_apply]
    by_cases hy : y = x
    · rw [if_pos hy, if_pos hy]
      rfl
    · rw [if_neg hy, if_neg hy, if_neg hy, h.held]
  active := by
    have hsym := haround.sym
    have hothers := haround.others
    rw [← map_entry_update _ (some r) (fun p => p = r ∨ (w.allocated p ∧
      ¬ (freeing = true ∧ w.held x = some p))) haround.otherSyms] at hothers
    subst hsym
    rw [haround.blocks, adjust_split _ haround.symsBefore haround.symsAfter]
    refine (hentries.filter _).trans ?_
    rw [List.filter_cons_of_pos rfl, hleft.active]
    refine List.Perm.trans (.cons _ hothers) ?_
    rw [List.map_append, List.map_append, List.map_cons]
    refine List.Perm.trans (.of_eq ?_) List.perm_middle.symm
    have hself : Function.update w.held blk.sym (some r) blk.sym = some r :=
      Function.update_self ..
    simp only [Block.entry, hself, Option.getD_some]
  allocated e he := by
    rcases List.mem_cons.1 (hentries.mem_iff.1 he) with rfl | he
    · exact .inl rfl
    · exact .inr (hleft.allocated h hx he)
  valid y p hp := by
    have hp : Function.update w.held x (some r) y = some p := hp
    rw [Function.update_apply] at hp
    split at hp
    · rw [← Option.some.inj hp]
      exact hr
    · exact h.valid y p hp
  made e he := by
    rcases List.mem_cons.1 (hentries.mem_iff.1 he) with rfl | he
    · exact ⟨.realloc, rfl, rfl⟩
    · exact hleft.made h.made e he
  stats := by rw [hstats, h.stats]
  hits := by rw [hhits, h.hits]
  clean := hclean.trans h.clean

/-! ## A call of a script -/

theorem step_release (flags : Control) (b : Book) (c : Release) (p result : Word) :
    b.step flags ⟨c.call p, result⟩ = b.consume flags c.routine p := by
  cases c <;> rfl

theorem hit_hits (hstats : flags.stats = true) (b : Book) (a : Routine) :
    (b.hit flags a 1).hits = bump b.hits a := by
  rw [Book.hit, if_pos hstats]
  rfl

/-- A block is made by a call that is counted once. -/
theorem entered_made (h : Follows rs b w A) (hcheck : flags.check = false)
    (hstats : flags.stats = true) (hx : w.held x = none) {result : Word} (size : Word)
    {a : Routine} (ha : a.produces = true)
    (hresult : result ≠ 0 ∧ mutExecAddrAligned result = true) :
    Follows rs ((b.hit flags a 1).made flags a (objectAt flags result) size)
      ⟨Function.update w.held x (some result), fun p => p = result ∨ w.allocated p⟩
      ⟨⟨x, size, a⟩ :: A.blocks, A.stats.produced size, bump A.hits a⟩ := by
  rw [objectAt_unchecked hcheck]
  refine h.entered hx ha hresult ?_ ?_ (hit_hits hstats b a) ?_
  · rw [Book.made, Book.counted_entries, Book.entered, Book.hit_entries]
  · rw [Book.made, Book.counted_stats hstats, Book.entered, Book.hit_stats]
  · rw [Book.reports_made, Book.hit_reports]

/-- The books keep to the account over a call of the script. -/
theorem step (h : Follows rs b w A) (hkeys : UniqueKeys Entry.addr b.entries)
    (hcheck : flags.check = false) (hstats : flags.stats = true) {call : Call} {result : Word}
    (hcall : op.call w = some call) (hgranted : op.Granted flags.free w result) :
    Follows rs (b.step flags ⟨call, result⟩) (w.after flags.free result op) (A.step op) := by
  cases op with
  | new x making =>
      obtain ⟨hne, hal, hnew⟩ := hgranted
      simp only [Op.call, Option.ite_none_left_eq_some, Option.some.injEq] at hcall
      obtain ⟨hx, rfl⟩ := hcall
      have hx : w.held x = none := by simpa using hx
      cases making with
      | malloc size =>
          show Follows rs (b.produce flags .malloc "MR0" size size result) _ _
          rw [Book.produce, if_neg hne]
          exact h.entered_made hcheck hstats hx size rfl ⟨hne, hal⟩
      | calloc nElems elemSize =>
          show Follows rs
            (b.produce flags .calloc "CR0" nElems (nElems * elemSize) result) _ _
          rw [Book.produce, if_neg hne]
          exact h.entered_made hcheck hstats hx (nElems * elemSize) rfl ⟨hne, hal⟩
      | realloc size =>
          show Follows rs (b.reallocate flags 0 size result) _ _
          rw [Book.reallocate, if_pos rfl]
          exact h.entered_made hcheck hstats hx size rfl ⟨hne, hal⟩
  | resize x size =>
      obtain ⟨hne, hal, -⟩ := hgranted
      obtain ⟨p, hx, rfl⟩ := Option.map_eq_some_iff.1 hcall
      obtain ⟨blk, es₁, es₂, blocks₁, blocks₂, hget, haround⟩ := h.around hkeys hx
      have hfind := haround.find
      have haccount : A.step (.resize x size) =
          ⟨adjust Block.sym x (fun _ => ⟨x, size, .realloc⟩) A.blocks,
            (A.stats.consumed blk.size).produced size, bump A.hits .realloc⟩ := by
        simp only [Account.step, hget]
      have hentry : (blk.entry w).addr = p := by rw [haround.entry]
      rw [haccount]
      show Follows rs (b.reallocate flags p size result) _ _
      rw [Book.reallocate_known flags b (h.valid x p hx).1 hfind]
      cases hfree : flags.free with
      | true =>
          refine h.resized hx ⟨hne, hal⟩ haround
            (hfree ▸ haround.consume flags .realloc) ?_ ?_ (hit_hits hstats b .realloc) ?_
          · have hmoved := adjust_split (fun _ => ⟨result, size, some .realloc, none⟩)
              (hentry.symm ▸ haround.before) (hentry.symm ▸ haround.after)
            rw [hentry, ← haround.entries] at hmoved
            rw [if_pos rfl, Book.moved, Book.counted_entries, Book.counted_entries,
              Book.hit_entries, haround.consume_freeing hfree]
            exact .trans (.of_eq hmoved) List.perm_middle
          · rw [if_pos rfl, Book.moved, Book.counted_stats hstats, Book.counted_stats hstats,
              Book.hit_stats]
          · rw [if_pos rfl, Book.moved, Book.counted_reports, Book.counted_reports,
              Book.hit_reports]
      | false =>
          refine h.resized hx ⟨hne, hal⟩ haround
            (hfree ▸ haround.consume flags .realloc) ?_ ?_ (hit_hits hstats b .realloc) ?_
          · rw [if_neg (by simp), Book.made, Book.counted_entries, Book.entered, Book.consumed,
              Book.counted_entries, Book.left, Book.hit_entries]
          · rw [if_neg (by simp), Book.made, Book.counted_stats hstats, Book.entered,
              Book.consumed, Book.counted_stats hstats, Book.left, Book.hit_stats]
          · rw [if_neg (by simp), Book.reports_made, Book.consumed, Book.counted_reports,
              Book.left, Book.hit_reports]
  | release x c =>
      obtain ⟨p, hx, rfl⟩ := Option.map_eq_some_iff.1 hcall
      obtain ⟨blk, es₁, es₂, blocks₁, blocks₂, hget, haround⟩ := h.around hkeys hx
      have haccount : A.step (.release x c) =
          ⟨remove Block.sym x A.blocks, A.stats.consumed blk.size, bump A.hits c.routine⟩ := by
        simp only [Account.step, hget]
      have hstep : b.step flags ⟨c.call p, result⟩ =
          (b.hit flags c.routine 1).consumed flags c.routine
            ⟨p, blk.size, some blk.producer, none⟩ := by
        rw [step_release, Book.consume, if_neg (h.valid x p hx).1, Book.find_hit, haround.find]
        rfl
      rw [haccount, hstep]
      refine h.released flags.free hx haround ?_ ?_ (hit_hits hstats b c.routine) ?_
      · rw [Book.consumed, Book.counted_entries, Book.left, Book.hit_entries]
        exact haround.consume flags c.routine
      · rw [Book.consumed, Book.counted_stats hstats, Book.left, Book.hit_stats]
      · rw [Book.consumed, Book.counted_reports, Book.left, Book.hit_reports]
  | releaseNull c =>
      have hcall : call = c.call 0 := (Option.some.inj hcall).symm
      have hstep : b.step flags ⟨call, result⟩ = b.hit flags c.routine 1 := by
        rw [hcall, step_release, Book.consume, if_pos rfl]
      rw [hstep]
      exact
        { syms := h.syms
          held := h.held
          active := by rw [Book.hit_entries]; exact h.active
          allocated := by rw [Book.hit_entries]; exact h.allocated
          valid := h.valid
          made := by rw [Book.hit_entries]; exact h.made
          stats := by rw [Book.hit_stats]; exact h.stats
          hits := by rw [hit_hits hstats, h.hits]; rfl
          clean := by rw [Book.hit_reports]; exact h.clean }

end Follows

/-! ## Handling a call of a script -/

/-- The handler goes well when what is made is new and what is given up is live. -/
theorem mutHandle_valid {a : Routine} (hready : Ready flags m) (hlisted : a ∈ m.root)
    (hsmooth : Smooth flags m a) (hcheck : flags.check = false)
    (hresult : a.produces → m.result ≠ 0 ∧ mutExecAddrAligned m.result = true ∧
      (m.find m.result = none ∨
        (a = .realloc ∧ flags.free = true ∧ m.result = m.target.arg 0)))
    (hobject : a.takes → m.target.arg 0 ≠ 0 → ∃ e, m.find (m.target.arg 0) = some e ∧
      e.consumer = none ∧ mutExecAddrAligned e.addr = true) :
    ∃ t m', mutHandle flags a m = .done true m' ∧ Served flags m a t m' := by
  have hrecorded : m.recorded flags a = m.result := by
    rw [Mut.recorded, objectAt_unchecked hcheck, ite_self]
  refine mutHandle_returns hready hlisted (fun hproduces _ => ?_) hsmooth (fun hunmet => ?_)
    (fun hdamaged => ?_) (not_stuck fun ha hkeep hnonzero e he => ?_) ⟨fun htakes e he => ?_, ?_⟩
  · rw [hrecorded]
    obtain ⟨hne, -, hnone | ⟨ha, -, hsame⟩⟩ := hresult hproduces
    · exact .inl hnone
    · obtain ⟨e, he, -⟩ := hobject (by rw [ha]; rfl) (hsame ▸ hne)
      exact .inr ⟨ha, by rw [he]; rfl, hsame⟩
  · exact (hresult (by rw [hunmet.routine]; rfl)).1 hunmet.zero
  · exact absurd hdamaged.checking (by rw [hcheck]; nofun)
  · obtain ⟨e', he', hlive, -⟩ := hobject (by rw [ha]; rfl) hnonzero
    rw [he'] at he
    refine ⟨Option.some.inj he ▸ hlive, fun hsame => ?_⟩
    rcases (hresult (by rw [ha]; rfl)).2.2 with hnone | ⟨-, hfree, -⟩
    · rw [hsame, he'] at hnone
      cases hnone
    · rw [hkeep] at hfree
      cases hfree
  · by_cases hzero : m.target.arg 0 = 0
    · rw [find_addr he, hzero]
      rfl
    · obtain ⟨e', he', -, hal⟩ := hobject htakes hzero
      exact Option.some.inj (he'.symm.trans he) ▸ hal
  · exact fun hproduces => (hresult hproduces).2.1

theorem Follows.handled {a : Routine} {mh : Mut} (h : Follows rs mh.book w A)
    (hready : Ready flags mh) (hlisted : a ∈ mh.root) (hsmooth : Smooth flags mh a)
    (hcheck : flags.check = false) (hcall : op.call w = some (mh.call a))
    (hgranted : op.Granted flags.free w mh.result) :
    ∃ t m', mutHandle flags a mh = .done true m' ∧ Served flags mh a t m' := by
  have hkeys : UniqueKeys Entry.addr mh.book.entries :=
    uniqueKeys_entries hready.books.shelved.addrs
  have hlive : ∀ x p, w.held x = some p → ∃ e, mh.find p = some e ∧ e.consumer = none ∧
      mutExecAddrAligned e.addr = true := fun x p hx => by
    obtain ⟨blk, es₁, es₂, blocks₁, blocks₂, -, haround⟩ := h.around hkeys hx
    exact ⟨_, haround.find, rfl, (h.valid x p hx).2⟩
  cases op with
  | new x making =>
      obtain ⟨hne, hal, hnew⟩ := hgranted
      simp only [Op.call, Option.ite_none_left_eq_some, Option.some.injEq] at hcall
      obtain ⟨-, hcall⟩ := hcall
      refine mutHandle_valid hready hlisted hsmooth hcheck
        (fun _ => ⟨hne, hal, .inl (h.unlisted hnew)⟩) fun htakes hnonzero => ?_
      cases making with
      | malloc size | calloc nElems elemSize =>
          cases a with
          | malloc | calloc | usage => cases htakes
          | realloc | free | cfree => cases hcall
      | realloc size =>
          cases a with
          | realloc => exact absurd (Call.realloc.inj hcall).1.symm hnonzero
          | malloc | calloc | free | cfree | usage => cases hcall
  | resize x size =>
      obtain ⟨hne, hal, hnew⟩ := hgranted
      obtain ⟨p, hx, hcall⟩ := Option.map_eq_some_iff.1 hcall
      cases a with
      | malloc | calloc | free | cfree | usage => cases hcall
      | realloc =>
          have hp : p = mh.target.arg 0 := (Call.realloc.inj hcall).1
          refine mutHandle_valid hready hlisted hsmooth hcheck (fun _ => ⟨hne, hal, ?_⟩)
            fun _ _ => hp ▸ hlive x p hx
          rcases hnew with hnew | ⟨hfree, hsame⟩
          · exact .inl (h.unlisted hnew)
          · exact .inr ⟨rfl, hfree, hp ▸ Option.some.inj (hsame.symm.trans hx)⟩
  | release x c =>
      obtain ⟨p, hx, hcall⟩ := Option.map_eq_some_iff.1 hcall
      have ha : a.produces = false ∧ p = mh.target.arg 0 := by
        cases c <;> cases a <;> cases hcall <;> exact ⟨rfl, rfl⟩
      exact mutHandle_valid hready hlisted hsmooth hcheck
        (fun hproduces => absurd (ha.1.symm.trans hproduces) nofun)
        fun _ _ => ha.2 ▸ hlive x p hx
  | releaseNull c =>
      have hcall : c.call 0 = mh.call a := Option.some.inj hcall
      have ha : a.produces = false ∧ mh.target.arg 0 = 0 := by
        cases c with
        | free =>
            cases a with
            | free => exact ⟨rfl, (Call.free.inj hcall).symm⟩
            | malloc | calloc | realloc | cfree | usage => cases hcall
        | cfree =>
            cases a with
            | cfree => exact ⟨rfl, (Call.cfree.inj hcall).symm⟩
            | malloc | calloc | realloc | free | usage => cases hcall
      exact mutHandle_valid hready hlisted hsmooth hcheck
        (fun hproduces => absurd (ha.1.symm.trans hproduces) nofun)
        fun _ hnonzero => absurd ha.2 hnonzero

/-- A call of a script is handled, and the books keep to the account. -/
theorem Follows.played (h : Follows rs m.book w A) (hready : Ready flags m)
    (hcheck : flags.check = false) (hstats : flags.stats = true)
    (hplays : Plays flags m w op v) :
    ∃ m', mutHandle flags v.routine v.tracker = .done true m' ∧ Ready flags m' ∧
      Follows rs m'.book (w.after flags.free v.event.result op) (A.step op) := by
  have hentry := hplays.between.ready hready
  rw [← hplays.between.book hready.idle] at h
  have hkeys : UniqueKeys Entry.addr v.tracker.book.entries :=
    uniqueKeys_entries hentry.books.shelved.addrs
  obtain ⟨t, m', hdone, hserved⟩ := h.handled hentry hplays.listed hplays.smooth hcheck
    hplays.call hplays.granted
  refine ⟨m', hdone, hserved.midway.ready hentry, ?_⟩
  rw [hserved.midway.book]
  exact h.step hkeys hcheck hstats hplays.call hplays.granted

/-! ## Runs of a script -/

/-- A run of a script, from a tracker just opened, keeps to the account of the
script. -/
theorem script_follows {ops : List (Op β)} (hcheck : flags.check = false)
    (hstats : flags.stats = true) (hopen : Opened flags m₀)
    (hrun : Run (ScriptStep flags) (m₀, .empty) ops (m, w)) :
    Ready flags m ∧ Follows (m₀.process.log.reports.filter Report.misuse) m.book w
      (ops.foldl Account.step .empty) := by
  have hentries : m₀.book.entries = [] := by
    rw [Mut.book, Resources.entries, hopen.elems]
    rfl
  have hfirst : Follows (m₀.process.log.reports.filter Report.misuse) m₀.book
      (World.empty : World β) .empty :=
    { syms := List.nodup_nil
      held := fun _ => rfl
      active := by rw [hentries]; exact .nil
      allocated := fun e he => by rw [hentries] at he; cases he
      valid := fun _ _ hp => by cases hp
      made := fun e he => by rw [hentries] at he; cases he
      stats := hopen.stats
      hits := funext hopen.hits
      clean := rfl }
  refine hrun.related (R := fun s A => Ready flags s.1 ∧ Follows _ s.1.book s.2 A)
    ⟨hopen.ready, hfirst⟩ ?_
  rintro ⟨m, w⟩ op ⟨m', w'⟩ A ⟨hready, h⟩ ⟨v, ok, hplays, hhandled, rfl⟩
  obtain ⟨m'', hdone, hready', h'⟩ := h.played hready hcheck hstats hplays
  rw [hdone] at hhandled
  cases hhandled
  exact ⟨hready', h'⟩

/-- A report without its addresses. -/
def Report.unaddressed (r : Report) : Report :=
  { r with args := r.args.filter fun arg => match arg with | .execAddr _ => false | _ => true }

/-- The report of a block that is never given up, without its address. -/
def Block.leak (blk : Block β) : Report :=
  ⟨"MLK", [.string blk.producer.word, .ulong blk.size]⟩

/-- The reports of the leaks are those of the blocks still held, but for their
addresses and their order. -/
theorem Follows.leaks (h : Follows rs b w A) :
    ((leaks b.entries).map Report.unaddressed).Perm (A.blocks.map Block.leak) := by
  have hperm := (h.active.map Entry.leak).map Report.unaddressed
  rw [List.map_map (l := A.blocks), List.map_map (l := A.blocks)] at hperm
  exact hperm

/-- What two runs of a script with the account `A` agree in.  The active entries
of each are the blocks of `A`, where the world of that run has them; the
statistics and the hits of both are those of `A`; and the leaks reported of
both are its blocks, but for addresses and order. -/
structure Agree (flags₁ flags₂ : Control) (A : Account β) (s₁ s₂ : Mut × World β) : Prop where
  syms : UniqueKeys Block.sym A.blocks
  blocks₁ : (s₁.1.resources.entries.filter Entry.active).Perm (A.blocks.map (Block.entry s₁.2))
  blocks₂ : (s₂.1.resources.entries.filter Entry.active).Perm (A.blocks.map (Block.entry s₂.2))
  held : ∀ blk ∈ A.blocks, (s₁.2.held blk.sym).isSome ∧ (s₂.2.held blk.sym).isSome
  stats : s₁.1.stats = A.stats ∧ s₂.1.stats = A.stats
  hits : s₁.1.hits = A.hits ∧ s₂.1.hits = A.hits
  leaks : ∃ m₁ m₂ rs₁ rs₂,
    mutLogLeaks flags₁ s₁.1 = .done () m₁ ∧ mutLogLeaks flags₂ s₂.1 = .done () m₂ ∧
    m₁.process.log.reports = rs₁ ++ s₁.1.process.log.reports ∧
    m₂.process.log.reports = rs₂ ++ s₂.1.process.log.reports ∧
    (rs₁.map Report.unaddressed).Perm (A.blocks.map Block.leak) ∧
    (rs₂.map Report.unaddressed).Perm (A.blocks.map Block.leak)

/-- A run of a script complains of nothing, and goes on whatever comes next in
the script. -/
structure Proper (flags : Control) (m₀ : Mut) (s : Mut × World β) : Prop where
  clean : s.1.process.log.reports.filter Report.misuse =
    m₀.process.log.reports.filter Report.misuse
  next : ∀ op v, Plays flags s.1 s.2 op v →
    ∃ m', mutHandle flags v.routine v.tracker = .done true m'

theorem Follows.proper (h : Follows rs m.book w A) (hready : Ready flags m)
    (hcheck : flags.check = false) (hstats : flags.stats = true)
    (hclean : rs = m₀.process.log.reports.filter Report.misuse) : Proper flags m₀ (m, w) where
  clean := hclean ▸ h.clean
  next op v hplays := by
    obtain ⟨m', hdone, -⟩ := h.played hready hcheck hstats hplays
    exact ⟨m', hdone⟩

/-- A block of the account is held. -/
theorem Follows.blocks_held (h : Follows rs b w A) (hmem : blk ∈ A.blocks) :
    (w.held blk.sym).isSome := by
  rw [h.held, h.syms.get_of_mem hmem]
  rfl

/-- Two runs of one script that collect statistics and check no zones agree,
whether memory is really freed in them or not. -/
theorem modes_agree {flags₁ flags₂ : Control} {m₁₀ m₂₀ m₁ m₂ : Mut} {w₁ w₂ : World β}
    {ops : List (Op β)} (hstats₁ : flags₁.stats = true) (hstats₂ : flags₂.stats = true)
    (hcheck₁ : flags₁.check = false) (hcheck₂ : flags₂.check = false)
    (hopen₁ : Opened flags₁ m₁₀) (hopen₂ : Opened flags₂ m₂₀)
    (hrun₁ : Run (ScriptStep flags₁) (m₁₀, .empty) ops (m₁, w₁))
    (hrun₂ : Run (ScriptStep flags₂) (m₂₀, .empty) ops (m₂, w₂)) :
    Agree flags₁ flags₂ (ops.foldl Account.step .empty) (m₁, w₁) (m₂, w₂) ∧
      Proper flags₁ m₁₀ (m₁, w₁) ∧ Proper flags₂ m₂₀ (m₂, w₂) := by
  obtain ⟨hready₁, h₁⟩ := script_follows hcheck₁ hstats₁ hopen₁ hrun₁
  obtain ⟨hready₂, h₂⟩ := script_follows hcheck₂ hstats₂ hopen₂ hrun₂
  obtain ⟨m₁', hdone₁, hreports₁⟩ := mutLogLeaks_returns hready₁ h₁.made
  obtain ⟨m₂', hdone₂, hreports₂⟩ := mutLogLeaks_returns hready₂ h₂.made
  have hleaks : ∀ {rs : List Report} {b : Book} {w : World β},
      Follows rs b w (ops.foldl Account.step .empty) →
      ((MutTracker.Source.leaks b.entries).reverse.map Report.unaddressed).Perm
        ((ops.foldl Account.step .empty).blocks.map Block.leak) := by
    intro rs b w h
    rw [List.map_reverse]
    exact (List.reverse_perm _).trans h.leaks
  refine ⟨?_, h₁.proper hready₁ hcheck₁ hstats₁ rfl, h₂.proper hready₂ hcheck₂ hstats₂ rfl⟩
  exact
    { syms := h₁.syms
      blocks₁ := h₁.active
      blocks₂ := h₂.active
      held := fun blk hmem => ⟨h₁.blocks_held hmem, h₂.blocks_held hmem⟩
      stats := ⟨h₁.stats, h₂.stats⟩
      hits := ⟨h₁.hits, h₂.hits⟩
      leaks := ⟨m₁', m₂', _, _, hdone₁, hdone₂, hreports₁, hreports₂, hleaks h₁, hleaks h₂⟩ }

/-- From `m` in the world `w` the target comes to the calls of a script one after the other,
each of them is handled, and `last` is true of the tracker after them. -/
def Mut.performs (flags : Control) (last : Mut → Bool) :
    List (Op β × Coming) → (w : World β) → [DecidablePred w.allocated] → Mut → Bool
  | [], _, _, m => last m
  | (op, c) :: script, w, _, m =>
      c.meets m &&
        (decide (op.call w = some c.event.call ∧ op.Granted flags.free w c.event.result) &&
          decide ((mutHandle flags c.routine (c.reached m)).seen
            (Mut.performs flags last script (w.after flags.free c.event.result op)) =
              some (true, true)))

/-- What is performed is a run of the script. -/
theorem performs_run {last : Mut → Bool} {script : List (Op β × Coming)}
    [DecidablePred w.allocated] (h : m.performs flags last script w = true) :
    ∃ m' w', Run (ScriptStep flags) (m, w) (script.map Prod.fst) (m', w') ∧ last m' = true := by
  induction script generalizing m w with
  | nil => exact ⟨m, w, .start, h⟩
  | cons opc script ih =>
      obtain ⟨op, c⟩ := opc
      obtain ⟨hmeets, hrest⟩ := Bool.and_eq_true_iff.1 h
      obtain ⟨hplayed, hhandled⟩ := Bool.and_eq_true_iff.1 hrest
      obtain ⟨hcall, hgranted⟩ := of_decide_eq_true hplayed
      obtain ⟨m₁, hhandle, hperforms⟩ := Outcome.of_seen (of_decide_eq_true hhandled)
      obtain ⟨m', w', hrun, hlast⟩ := ih hperforms
      obtain ⟨hbetween, hlisted, hsmooth⟩ := Coming.meets_smooth hmeets
      rw [← c.reached_event m] at hcall hgranted hrun
      have hstep : ScriptStep flags (m, w) op
          (m₁, w.after flags.free ((c.reached m).event c.routine).result op) :=
        ⟨⟨c.routine, c.reached m⟩, true, ⟨hbetween, hlisted, hsmooth, hcall, hgranted⟩, hhandle,
          rfl⟩
      exact ⟨m', w', (Run.next .start hstep).trans hrun, hlast⟩

/-- Two blocks, of which the first one is resized to `resized` and the second one freed. -/
def resizingScript (resized : Word) : List (Op ℕ × Coming) :=
  [(.new 0 (.malloc 8), .malloc 8 0x2000), (.new 1 (.calloc 2 4), .calloc 2 4 0x3000),
    (.resize 0 16, .realloc 0x2000 16 resized), (.release 1 .free, .free 0x3000),
    (.releaseNull .free, .free 0)]

/-- One script in both modes: the block that is resized moves when memory is not freed, and
stays where it is when memory is freed. -/
theorem modes_agree_resizing :
    ∃ m₁ m₂ w₁ w₂,
      Run (ScriptStep .counting) (.fresh .counting, .empty)
        ((resizingScript 0x4000).map Prod.fst) (m₁, w₁) ∧
      Run (ScriptStep { Control.counting with free := true })
        (.fresh { Control.counting with free := true }, .empty)
        ((resizingScript 0x2000).map Prod.fst) (m₂, w₂) ∧
      m₁.resources.entries.length = 3 ∧ m₂.resources.entries.length = 1 ∧
      m₁.stats = m₂.stats ∧ m₁.hits .free = 2 ∧ m₂.hits .free = 2 := by
  have hkeeping : (Mut.fresh .counting).performs .counting
      (fun m => m.resources.entries.length == 3) (resizingScript 0x4000) .empty = true := by
    decide +kernel
  have hfreeing : (Mut.fresh { Control.counting with free := true }).performs
      { Control.counting with free := true } (fun m => m.resources.entries.length == 1)
      (resizingScript 0x2000) .empty = true := by decide +kernel
  obtain ⟨m₁, w₁, hrun₁, hlast₁⟩ := performs_run hkeeping
  obtain ⟨m₂, w₂, hrun₂, hlast₂⟩ := performs_run hfreeing
  obtain ⟨hagree, -, -⟩ :=
    modes_agree rfl rfl rfl rfl (small_opened ..) (small_opened ..) hrun₁ hrun₂
  have hhits : (((resizingScript 0x4000).map Prod.fst).foldl Account.step
      Account.empty).hits .free = 2 := rfl
  exact ⟨m₁, m₂, w₁, w₂, hrun₁, hrun₂, eq_of_beq hlast₁, eq_of_beq hlast₂,
    hagree.stats.1.trans hagree.stats.2.symm, (congrFun hagree.hits.1 .free).trans hhits,
    (congrFun hagree.hits.2 .free).trans hhits⟩

end MutTracker.Source
