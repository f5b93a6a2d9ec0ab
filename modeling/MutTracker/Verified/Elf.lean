import MutTracker.Logic.Within
import MutTracker.Source.Elf

/-!
# What reading the executable leaves alone

The reader goes through the file with a handful of library calls, each of
which changes little: a place in the file, a block, a table.  A call that
changes neither blocks nor tables is `Aside`; what every call but those of the
scan for sections leaves is `Fixed`: the file, its header and the sections
selected.

## Main results

* `wp_liftSymtab` — a program on the symbol table is judged there.
* `aside_*` — the library calls and the messages.
* `fixed_*` — what comes after the scan for sections.
* `execRecordsOpen_effect` — records are read into a new block.
-/

namespace MutTracker.Source

open MutTracker.Logic MutTracker.Logic.Prog MutTracker.Logic.CString

variable {α β : Type} {r r' : ExecReader} {E : ExecHalt → Prop}

@[simp] theorem wp_liftSymtab {Q : α → ExecReader → Prop} (x : SymtabM α) :
    wp (liftM x : ElfM α) Q E r ↔
      wp x (fun a s => Q a { r with symtab := s }) (fun e => E (.halt e)) r.symtab :=
  wp_embed ExecReader.symtab (fun s r => { r with symtab := s }) ExecHalt.halt x

@[simp] theorem wp_liftLogElf {Q : Unit → ExecReader → Prop} (x : LogM Unit) :
    wp (liftM x : ElfM Unit) Q E r ↔
      wp x (fun a l => Q a { r with symtab := { r.symtab with log := l } })
        (fun e => E (.halt e)) r.symtab.log :=
  (wp_liftSymtab (liftM x)).trans
    (wp_focus Symtab.log (fun l s => { s with log := l }) x)

/-- The reader of a file when everything it asks for is granted. -/
def ExecReader.plain (file : List Byte) : ExecReader :=
  { file, fileName := "a.out", pos := 0, isOpen := false, io := [], errno := 0, stale := [],
    blocks := [], symtab := { head := [], log := mutLogOpen, full := [], leftover := none },
    symtabClosed := false, names := [], tables := fun _ => ⟨none, 0⟩, hasFullSymbols := false,
    header := Ehdr.ofBytes [], slots := fun _ => [], free := 0, sections := fun _ => none }

/-! ## What stays -/

/-- The file, its header and the sections selected are the same. -/
structure Fixed (r r' : ExecReader) : Prop where
  file : r'.file = r.file
  header : r'.header = r.header
  slots : r'.slots = r.slots
  free : r'.free = r.free
  sections : r'.sections = r.sections
  full : r'.hasFullSymbols = r.hasFullSymbols

/-- The file, its sections, the blocks, the tables and the names are the same. -/
structure Aside (r r' : ExecReader) : Prop extends Fixed r r' where
  blocks : r'.blocks = r.blocks
  tables : r'.tables = r.tables
  names : r'.names = r.names

theorem Fixed.refl (r : ExecReader) : Fixed r r := ⟨rfl, rfl, rfl, rfl, rfl, rfl⟩

theorem Fixed.trans {r'' : ExecReader} (h : Fixed r r') (h' : Fixed r' r'') : Fixed r r'' :=
  ⟨h'.file.trans h.file, h'.header.trans h.header, h'.slots.trans h.slots,
    h'.free.trans h.free, h'.sections.trans h.sections, h'.full.trans h.full⟩

theorem Aside.refl (r : ExecReader) : Aside r r := ⟨Fixed.refl r, rfl, rfl, rfl⟩

theorem Aside.trans {r'' : ExecReader} (h : Aside r r') (h' : Aside r' r'') : Aside r r'' :=
  ⟨h.toFixed.trans h'.toFixed, h'.blocks.trans h.blocks, h'.tables.trans h.tables,
    h'.names.trans h.names⟩

instance : Carries (fun _ : ExecReader => True) Fixed where
  refl := Fixed.refl
  trans _ _ _ := Fixed.trans
  carry _ _ _ _ := trivial

instance : Carries (fun _ : ExecReader => True) Aside where
  refl := Aside.refl
  trans _ _ _ := Aside.trans
  carry _ _ _ _ := trivial

/-- Every run that returns relates its first state to its last. -/
abbrev Upholds (R : ExecReader → ExecReader → Prop) (x : ElfM α) : Prop :=
  Within (fun _ => True) (fun _ => True) R x

theorem Upholds.fixed {x : ElfM α} (h : Upholds Aside x) : Upholds Fixed x := fun r _ =>
  wp_mono (h r trivial) (fun _ _ h' => h'.toFixed) fun _ _ => trivial

theorem aside_lift (x : SymtabM α) : Upholds Aside (liftM x : ElfM α) := fun _ _ =>
  (wp_liftSymtab x).2 (wp_intro (fun _ _ _ => ⟨⟨rfl, rfl, rfl, rfl, rfl, rfl⟩, rfl, rfl, rfl⟩)
    fun _ _ => trivial)

/-! ## Library calls -/

theorem aside_execFatal (fatal : String) (errno : Nat) (args : List Arg) :
    Upholds Aside (execFatal fatal errno args) :=
  (aside_lift _).bind fun _ => (aside_lift _).bind fun _ => aside_lift _

theorem aside_execIo : Upholds Aside execIo :=
  Within.read.bind fun _ =>
    (Within.update fun _ => ⟨⟨rfl, rfl, rfl, rfl, rfl, rfl⟩, rfl, rfl, rfl⟩).bind
    fun _ => Within.pure _

theorem aside_execFseek (offset : Word) : Upholds Aside (execFseek offset) := by
  refine aside_execIo.bind fun answer => ?_
  cases answer with
  | some errno => exact Within.pure _
  | none =>
      refine Within.ite ?_ ?_
      · exact (Within.update fun _ => ⟨⟨rfl, rfl, rfl, rfl, rfl, rfl⟩, rfl, rfl, rfl⟩).bind
          fun _ => Within.pure _
      · exact (Within.update fun _ => ⟨⟨rfl, rfl, rfl, rfl, rfl, rfl⟩, rfl, rfl, rfl⟩).bind
          fun _ => Within.pure _

theorem aside_execFread (size : Nat) : Upholds Aside (execFread size) := by
  refine aside_execIo.bind fun answer => ?_
  cases answer with
  | some errno => exact Within.pure _
  | none =>
      refine Within.read.bind fun s => ?_
      refine (Within.update fun _ => ⟨⟨rfl, rfl, rfl, rfl, rfl, rfl⟩, rfl, rfl, rfl⟩).bind
        fun _ => ?_
      exact Within.ite (Within.pure _) (Within.pure _)

theorem aside_execFclose : Upholds Aside execFclose :=
  (Within.update fun _ => ⟨⟨rfl, rfl, rfl, rfl, rfl, rfl⟩, rfl, rfl, rfl⟩).bind fun _ =>
    aside_execIo.bind fun _ => Within.pure _

theorem aside_execFreadHeader (size : Word) (old : List Byte) :
    Upholds Aside (execFreadHeader size old) := by
  refine (Within.require _ _ trivial).bind fun _ => (aside_execFread _).bind fun b => ?_
  cases b with
  | none => exact Within.pure _
  | some b => exact Within.pure _

theorem aside_execFreadLocal (size : Word) : Upholds Aside (execFreadLocal size) := by
  refine Within.read.bind fun s => ?_
  refine (Within.update fun _ => ⟨⟨rfl, rfl, rfl, rfl, rfl, rfl⟩, rfl, rfl, rfl⟩).bind
    fun _ => ?_
  refine (aside_execFreadHeader _ _).bind fun b => ?_
  cases b with
  | none => exact Within.pure _
  | some b => exact Within.pure _

/-! ## Blocks and tables -/

theorem fixed_mutMemMalloc : Upholds Fixed mutMemMalloc := by
  refine (aside_lift _).fixed.bind fun answer => ?_
  cases answer with
  | some errno =>
      exact (Within.update fun _ => ⟨rfl, rfl, rfl, rfl, rfl, rfl⟩).bind fun _ => Within.pure _
  | none =>
      refine Within.read.bind fun s => ?_
      exact (Within.update fun _ => ⟨rfl, rfl, rfl, rfl, rfl, rfl⟩).bind fun _ => Within.pure _

theorem fixed_mutMemFree (p : Option Nat) : Upholds Fixed (mutMemFree p) := by
  cases p with
  | none => exact Within.pure _
  | some p =>
      refine Within.read.bind fun s => (Within.require _ _ trivial).bind fun _ => ?_
      exact Within.update fun _ => ⟨rfl, rfl, rfl, rfl, rfl, rfl⟩

theorem fixed_execFreadBlock (p : Nat) (size : Word) : Upholds Fixed (execFreadBlock p size) := by
  refine (aside_execFread _).fixed.bind fun b => ?_
  cases b with
  | none => exact Within.pure _
  | some b =>
      exact (Within.update fun _ => ⟨rfl, rfl, rfl, rfl, rfl, rfl⟩).bind fun _ => Within.pure _

theorem aside_execBlock (p : Nat) : Upholds Aside (execBlock p) := by
  refine Within.read.bind fun s => ?_
  cases s.blocks[p]?.join with
  | none => exact Within.stop _ trivial
  | some b => exact Within.pure _

theorem aside_execTable (t : Table) : Upholds Aside (execTable t) := by
  refine Within.read.bind fun s => ?_
  cases s.bytes t with
  | none => exact Within.stop _ trivial
  | some b => exact Within.pure _

theorem aside_execString (t : Table) (offset : Nat) : Upholds Aside (execString t offset) :=
  (aside_execTable t).bind fun _ => (Within.require _ _ trivial).bind fun _ => Within.pure _

theorem fixed_setBytes (t : Table) (b : List Byte) (r : ExecReader) :
    Fixed r (r.setBytes t b) := by
  unfold ExecReader.setBytes
  cases (r.tables t).data with
  | none => exact Fixed.refl r
  | some p => exact ⟨rfl, rfl, rfl, rfl, rfl, rfl⟩

theorem fixed_execPoke (t : Table) (offset : Nat) (c : Byte) :
    Upholds Fixed (execPoke t offset c) :=
  (aside_execTable t).fixed.bind fun _ => Within.update fun r => fixed_setBytes t _ r

theorem aside_mutExecStrtabLookup (t : Table) (str : Word) :
    Upholds Aside (mutExecStrtabLookup t str) :=
  Within.read.bind fun _ => (Within.require _ _ trivial).bind fun _ => Within.pure _

theorem fixed_mutExecStrtabClose (t : Table) : Upholds Fixed (mutExecStrtabClose t) :=
  Within.read.bind fun _ => fixed_mutMemFree _

/-- A message, what is freed after it, and the answer. -/
private theorem fixed_refuse {a : α} (fatal : String) (errno : Nat) (args : List Arg)
    (p : Option Nat) : Upholds Fixed (do execFatal fatal errno args; mutMemFree p; return a) :=
  (aside_execFatal fatal errno args).fixed.bind fun _ =>
    (fixed_mutMemFree p).bind fun _ => Within.pure _

theorem fixed_execStringsOpen (t : Table) (h : Shdr) (fullArgs : List Arg)
    (ioArgs : Nat → List Arg) : Upholds Fixed (execStringsOpen t h fullArgs ioArgs) := by
  refine (Within.update fun _ => ⟨rfl, rfl, rfl, rfl, rfl, rfl⟩).bind fun _ => ?_
  refine fixed_mutMemMalloc.bind fun block => ?_
  cases block with
  | none =>
      refine (Within.update fun _ => ⟨rfl, rfl, rfl, rfl, rfl, rfl⟩).bind fun _ => ?_
      refine Within.read.bind fun s => ?_
      exact (aside_execFatal _ _ _).fixed.bind fun _ => Within.pure _
  | some p =>
      refine (Within.update fun _ => ⟨rfl, rfl, rfl, rfl, rfl, rfl⟩).bind fun _ => ?_
      refine (aside_execFseek _).fixed.bind fun sought => ?_
      refine Within.ite (Within.read.bind fun s => fixed_refuse _ _ _ _) ?_
      refine (fixed_execFreadBlock _ _).bind fun filled => ?_
      exact Within.ite (Within.read.bind fun s => fixed_refuse _ _ _ _) (Within.pure _)

theorem fixed_mutExecStrtabOpen (symtab : Shdr) (t : Table) :
    Upholds Fixed (mutExecStrtabOpen symtab t) := by
  refine Within.read.bind fun s => Within.ite ?_ (Within.ite ?_ ?_)
  · exact (aside_execFatal _ _ _).fixed.bind fun _ => Within.pure _
  · exact (aside_execFatal _ _ _).fixed.bind fun _ => Within.pure _
  refine (aside_execFseek _).fixed.bind fun sought => Within.ite ?_ ?_
  · exact Within.read.bind fun _ => (aside_execFatal _ _ _).fixed.bind fun _ => Within.pure _
  refine (aside_execFread _).fixed.bind fun b => ?_
  cases b with
  | none =>
      exact Within.read.bind fun _ => (aside_execFatal _ _ _).fixed.bind fun _ => Within.pure _
  | some b =>
      refine Within.ite ?_ (fixed_execStringsOpen _ _ _ _)
      exact (aside_execFatal _ _ _).fixed.bind fun _ => Within.pure _

theorem fixed_mutExecStabstrOpen (stabs : Shdr) : Upholds Fixed (mutExecStabstrOpen stabs) := by
  refine Within.read.bind fun s => Within.ite ?_ ?_
  · exact (aside_execFatal _ _ _).fixed.bind fun _ => Within.pure _
  refine (aside_execFseek _).fixed.bind fun sought => Within.ite ?_ ?_
  · exact (aside_execFatal _ _ _).fixed.bind fun _ => Within.pure _
  refine (aside_execFreadLocal _).fixed.bind fun h => ?_
  cases h with
  | none =>
      exact Within.read.bind fun _ => (aside_execFatal _ _ _).fixed.bind fun _ => Within.pure _
  | some h =>
      refine Within.ite ?_ (fixed_execStringsOpen _ _ _ _)
      exact (aside_execFatal _ _ _).fixed.bind fun _ => Within.pure _

theorem fixed_execRecordsOpen (ofBytes : List Byte → α) (size : Nat) (bad : String) (h : Shdr) :
    Upholds Fixed (execRecordsOpen ofBytes size bad h) := by
  refine Within.read.bind fun s => Within.ite ?_ ?_
  · exact (aside_execFatal _ _ _).fixed.bind fun _ => Within.pure _
  refine fixed_mutMemMalloc.bind fun block => ?_
  cases block with
  | none => exact Within.read.bind fun _ => (aside_lift _).fixed.bind fun _ => Within.pure _
  | some p =>
      refine (aside_execFseek _).fixed.bind fun sought => Within.ite (fixed_refuse _ _ _ _) ?_
      refine (fixed_execFreadBlock _ _).bind fun filled => Within.ite ?_ ?_
      · exact Within.read.bind fun s => fixed_refuse _ _ _ _
      · exact (aside_execBlock _).fixed.bind fun _ => Within.pure _

/-! ## Records in a block of their own -/

/-- A block that is in use has been allocated. -/
theorem lt_length_of_live {blocks : List (Option (List Byte))} {p : Nat} {b : List Byte}
    (h : blocks[p]?.join = some b) : p < blocks.length := by
  by_cases hp : p < blocks.length
  · exact hp
  · rw [List.getElem?_eq_none (Nat.le_of_not_lt hp)] at h
    cases h

/-- The tables and the names are the same, and the blocks are those given. -/
structure Blocks (blocks : List (Option (List Byte))) (r r' : ExecReader) : Prop where
  blocks : r'.blocks = blocks
  tables : r'.tables = r.tables
  names : r'.names = r.names

theorem Aside.toBlocks (h : Aside r r') : Blocks r.blocks r r' := ⟨h.blocks, h.tables, h.names⟩

theorem Blocks.trans {r'' : ExecReader} {bs bs' : List (Option (List Byte))}
    (h : Blocks bs r r') (h' : Blocks bs' r' r'') : Blocks bs' r r'' :=
  ⟨h'.blocks, h'.tables.trans h.tables, h'.names.trans h.names⟩

theorem mutMemMalloc_effect (r : ExecReader) :
    wp mutMemMalloc (fun o r' => ∀ p, o = some p →
        p = r.blocks.length ∧ Blocks (r.blocks ++ [some []]) r r') (fun _ => True) r := by
  unfold mutMemMalloc
  rw [wp_bind, wp_liftSymtab]
  refine wp_intro ?_ fun _ _ => trivial
  intro answer s _
  cases answer with
  | some errno =>
      intro p hp
      cases hp
  | none =>
      intro p hp
      cases hp
      exact ⟨rfl, rfl, rfl, rfl⟩

theorem execFreadBlock_effect (r : ExecReader) (p : Nat) (size : Word) :
    wp (execFreadBlock p size)
      (fun ok r' => ok = true → ∃ b, Blocks (r.blocks.set p (some b)) r r')
      (fun _ => True) r := by
  unfold execFreadBlock
  rw [wp_bind]
  refine wp_mono (aside_execFread _ r trivial) ?_ fun _ _ => trivial
  intro got r₁ h₁
  cases got with
  | none =>
      intro hok
      cases hok
  | some b =>
      intro _
      refine ⟨b, ?_, h₁.tables, h₁.names⟩
      show r₁.blocks.set p (some b) = _
      rw [h₁.blocks]

/-- What is read in is in a new block. -/
theorem execRecordsOpen_effect (ofBytes : List Byte → α) (size : Nat) (bad : String) (h : Shdr)
    (r : ExecReader) :
    wp (execRecordsOpen ofBytes size bad h)
      (fun o r' => ∀ p l, o = some (p, l) →
        p = r.blocks.length ∧ ∃ b, Blocks (r.blocks ++ [some b]) r r')
      (fun _ => True) r := by
  have hrefused : ∀ (r' : ExecReader) (p : Nat) (l : List α),
      (none : Option (Nat × List α)) = some (p, l) →
        p = r.blocks.length ∧ ∃ b, Blocks (r.blocks ++ [some b]) r r' :=
    fun _ _ _ hp => nomatch hp
  unfold execRecordsOpen
  rw [wp_bind, wp_read, wp_ite]
  split
  · exact wp_any fun _ s => hrefused s
  rw [wp_bind]
  refine wp_mono (mutMemMalloc_effect r) ?_ fun _ _ => trivial
  intro block r₁ hmalloc
  cases block with
  | none => exact wp_any fun _ _ => wp_any fun _ s => hrefused s
  | some q =>
      obtain ⟨rfl, h₁⟩ := hmalloc q rfl
      show wp (execFseek h.shOffset >>= _) _ _ r₁
      rw [wp_bind]
      refine wp_mono (aside_execFseek _ r₁ trivial) ?_ fun _ _ => trivial
      intro sought r₂ h₂
      cases sought with
      | false => exact wp_any fun _ _ => wp_any fun _ s => hrefused s
      | true =>
          show wp (execFreadBlock _ h.shSize >>= _) _ _ r₂
          rw [wp_bind]
          refine wp_mono (execFreadBlock_effect r₂ _ _) ?_ fun _ _ => trivial
          intro filled r₃ hfilled
          cases filled with
          | false => exact wp_any fun _ _ => wp_any fun _ _ => wp_any fun _ s => hrefused s
          | true =>
              obtain ⟨b, h₃⟩ := hfilled rfl
              show wp (execBlock _ >>= _) _ _ r₃
              rw [wp_bind]
              refine wp_mono (aside_execBlock _ r₃ trivial) ?_ fun _ _ => trivial
              intro content r₄ h₄ p l hp
              cases hp
              refine ⟨rfl, b, ?_⟩
              have hblocks : r₂.blocks.set r.blocks.length (some b) = r.blocks ++ [some b] := by
                rw [h₂.blocks, h₁.blocks, List.set_append_right _ _ (Nat.le_refl _),
                  Nat.sub_self, List.set_cons_zero]
              rw [hblocks] at h₃
              have h₄' := (h₁.trans h₂.toBlocks).trans (h₃.trans h₄.toBlocks)
              rw [h₃.blocks] at h₄'
              exact h₄'

/-! ## Symbols and debugging entries -/

theorem fixed_mutExecSymtabClose : Upholds Fixed mutExecSymtabClose :=
  Within.read.bind fun _ => (Within.require _ _ trivial).bind fun _ =>
    Within.update fun _ => ⟨rfl, rfl, rfl, rfl, rfl, rfl⟩

theorem fixed_execAddFun (t : Table) (n : Nat) (a : Word) : Upholds Fixed (execAddFun t n a) := by
  refine (aside_execTable t).fixed.bind fun b => (aside_lift _).fixed.bind fun added => ?_
  refine (Within.whenever ?_).bind fun _ => Within.pure _
  exact Within.update fun _ => ⟨rfl, rfl, rfl, rfl, rfl, rfl⟩

theorem fixed_execCutSuffix (t : Table) (n : Nat) (suffix : Option (List Byte)) :
    Upholds Fixed (execCutSuffix t n suffix) := by
  cases suffix with
  | none => exact Within.pure _
  | some s =>
      refine (aside_execString t n).fixed.bind fun name => ?_
      cases find s name with
      | none => exact Within.pure _
      | some start => exact fixed_execPoke _ _ _

theorem fixed_mutExecExtractSymbolsFrom (t : Table) (suffix : Option (List Byte))
    (plt : Option Shdr) (f : Word) (symbols : List Sym) :
    Upholds Fixed (mutExecExtractSymbolsFrom t suffix plt f symbols) := by
  induction symbols generalizing f with
  | nil => exact Within.pure _
  | cons s symbols ih =>
      refine Within.ite ?_ (ih f)
      refine (aside_mutExecStrtabLookup t _).fixed.bind fun n => ?_
      refine (fixed_execCutSuffix t n suffix).bind fun _ => Within.ite ?_ (ih (f + 1))
      exact (fixed_execAddFun t n _).bind fun added => Within.ite (Within.pure _) (ih (f + 1))

theorem fixed_mutExecExtractSymbols (h : Shdr) (t : Table) (suffix : Option (List Byte))
    (plt : Option Shdr) : Upholds Fixed (mutExecExtractSymbols h t suffix plt) := by
  refine Within.read.bind fun s => (Within.require _ _ trivial).bind fun _ => ?_
  refine (fixed_execRecordsOpen _ _ _ _).bind fun opened => ?_
  cases opened with
  | none => exact Within.pure _
  | some opened =>
      refine (fixed_mutExecExtractSymbolsFrom _ _ _ _ _).bind fun extracted => ?_
      refine Within.ite ((fixed_mutMemFree _).bind fun _ => Within.pure _) ?_
      exact fixed_mutExecSymtabClose.bind fun _ => (fixed_mutMemFree _).bind fun _ =>
        Within.pure _

theorem fixed_mutExecExtractStabs : Upholds Fixed mutExecExtractStabs := by
  refine Within.read.bind fun s => ?_
  cases s.selected .stabs with
  | none => exact Within.stop _ trivial
  | some stabs =>
      refine Within.ite ?_ (fixed_execRecordsOpen _ _ _ _)
      exact (aside_execFatal _ _ _).fixed.bind fun _ => Within.pure _

theorem fixed_execStabSource (s : Stab) (c : StabCursor) : Upholds Fixed (execStabSource s c) := by
  refine Within.read.bind fun r => Within.ite ?_ (Within.pure _)
  refine (aside_execString _ _).fixed.bind fun x => (Within.require _ _ trivial).bind fun _ => ?_
  refine (aside_execTable _).fixed.bind fun b => ?_
  exact Within.ite (Within.pure _) (Within.ite (Within.pure _) (Within.pure _))

theorem fixed_mutExecExtractDebugInfoFrom (c : StabCursor) (stabs : List Stab) :
    Upholds Fixed (mutExecExtractDebugInfoFrom c stabs) := by
  induction stabs generalizing c with
  | nil => exact Within.pure _
  | cons s stabs ih =>
      refine Within.ite (Within.ite ?_ (ih c)) (Within.ite (ih _) (Within.ite ?_ (ih c)))
      · refine (aside_execTable _).fixed.bind fun b => (aside_lift _).fixed.bind fun added => ?_
        exact Within.ite (Within.pure _) (ih c)
      · exact (fixed_execStabSource s c).bind fun c' => ih c'

theorem fixed_mutExecExtractDebugInfo : Upholds Fixed mutExecExtractDebugInfo := by
  refine fixed_mutExecExtractStabs.bind fun opened => ?_
  cases opened with
  | none => exact Within.pure _
  | some opened =>
      exact (fixed_mutExecExtractDebugInfoFrom _ _).bind fun _ => (fixed_mutMemFree _).bind
        fun _ => Within.pure _

end MutTracker.Source
