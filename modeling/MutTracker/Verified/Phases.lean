import MutTracker.Logic.Holding
import MutTracker.Verified.Protocol

/-!
# What reading the executable holds

A phase says what has been acquired: the file, the blocks of the string tables, the block
of records, the nodes of the symbol table.  Every block in use has one owner, a table's
pointer or the function that reads the records.  Each function of the reader goes from one
phase to another, by its result, and halts for nothing but a malformed file or the log.

## Main results

* `keeps_*` — what leaves the phase as it is.
* `goes_malloc`, `free_owned`, `own_table` — a block is acquired, freed and passed on.
* `goes_stringsOpen`, `goes_recordsOpen` — a block is acquired, or none is.
* `goes_extractSymbolsFrom` — the loop over the symbols.
-/

namespace MutTracker.Source.Release

open MutTracker.Logic MutTracker.Logic.Prog MutTracker.Logic.CString

variable {α β : Type} {r r' : ExecReader} {t : Table} {p : Nat} {E : ExecHalt → Prop}

/-! ## Phases -/

/-- The block is in use. -/
def InUse (r : ExecReader) (p : Nat) : Prop := (r.blocks[p]?.join).isSome = true

/-- What a string table's pointer is: anything, null, or a block it owns. -/
inductive Held where
  | loose
  | null
  | block
  deriving DecidableEq, Repr

/-- What has become of the nodes of the symbol table. -/
inductive Nodes where
  | opened
  | shut
  | loose
  deriving DecidableEq, Repr

def Nodes.Hold (r : ExecReader) : Nodes → Prop
  | .opened => r.symtabClosed = false
  | .shut => r.symtabClosed = true ∨ r.symtab.head = []
  | .loose => True

/-- Who owns a block. -/
inductive Owner where
  | record
  | table (t : Table)
  deriving DecidableEq, Repr

structure Phase where
  isOpen : Bool
  tables : Table → Held
  record : Option Nat
  nodes : Nodes
  hasStabs : Bool

variable {ph : Phase}

namespace Phase

/-- The block that an owner holds. -/
def holds (ph : Phase) (r : ExecReader) : Owner → Option Nat
  | .record => ph.record
  | .table t => if ph.tables t = .block then (r.tables t).data else none

/-- The reader is in the phase. -/
structure At (ph : Phase) (r : ExecReader) : Prop where
  isOpen : r.isOpen = ph.isOpen
  null : ∀ t, ph.tables t = .null → (r.tables t).data = none
  block : ∀ t, ph.tables t = .block → (r.tables t).data.isSome = true
  owned : Holding (InUse r) (ph.holds r)
  nodes : ph.nodes.Hold r
  stabs : ph.hasStabs = true → (r.sections .stabs).isSome = true

/-- With a table's pointer become something else. -/
def withTable (ph : Phase) (t : Table) (h : Held) : Phase :=
  { ph with tables := Function.update ph.tables t h }

@[simp] theorem withTable_self (h : Held) : (ph.withTable t h).tables t = h :=
  Function.update_self ..

theorem withTable_other {t' : Table} (h : Held) (ht : t' ≠ t) :
    (ph.withTable t h).tables t' = ph.tables t' := Function.update_of_ne ht ..

end Phase

/-- The file is malformed. -/
def Malformed (e : ExecHalt) : Prop :=
  e = .inTable ∨ e = .overrun ∨ e = .unterminated ∨ e = .beforeTable

/-- Halts that say nothing of what is held. -/
def Benign (e : ExecHalt) : Prop := Malformed e ∨ e.ofLog = true

/-- From one phase a result leads to another. -/
abbrev OpenGoes (ph : Phase) (g : α → Phase) (x : ElfM α) : Prop := Goes Phase.At Benign ph g x

/-- The program leaves the phase as it is. -/
abbrev Keeps (x : ElfM α) : Prop := ∀ ph, OpenGoes ph (fun _ => ph) x

/-- Nothing that a phase speaks of has changed. -/
structure Same (r r' : ExecReader) : Prop where
  isOpen : r'.isOpen = r.isOpen
  tables : ∀ t, (r'.tables t).data = (r.tables t).data
  inUse : ∀ p, InUse r' p ↔ InUse r p
  head : r'.symtab.head = r.symtab.head
  closed : r'.symtabClosed = r.symtabClosed
  stabs : (r.sections .stabs).isSome = true → (r'.sections .stabs).isSome = true

theorem Phase.At.same (h : ph.At r) (hsame : Same r r') : ph.At r' where
  isOpen := hsame.isOpen.trans h.isOpen
  null t ht := (hsame.tables t).trans (h.null t ht)
  block t ht := by
    rw [hsame.tables]
    exact h.block t ht
  owned := by
    apply h.owned.congr hsame.inUse
    intro o
    cases o with
    | record => rfl
    | table t => simp only [Phase.holds, hsame.tables]
  nodes := by
    have hnodes := h.nodes
    unfold Nodes.Hold at hnodes ⊢
    rw [hsame.closed, hsame.head]
    exact hnodes
  stabs hs := hsame.stabs (h.stabs hs)

theorem keeps_update {u : ExecReader → ExecReader} (hu : ∀ r, Same r (u r)) :
    Keeps (update u : ElfM Unit) := fun _ => .update fun r hr => hr.same (hu r)

theorem keeps_pure (a : α) : Keeps (pure a : ElfM α) := fun _ => .pure fun _ hr => hr

theorem keeps_then_goes {u : ExecReader → ExecReader} {x : ElfM α} {g : α → Phase}
    (hu : ∀ r, Same r (u r)) (hx : OpenGoes ph g x) :
    OpenGoes ph g (update u >>= fun _ => x) :=
  (keeps_update hu ph).bind fun _ => hx

theorem keeps_then {u : ExecReader → ExecReader} {x : ElfM α} (hu : ∀ r, Same r (u r))
    (hx : Keeps x) : Keeps (update u >>= fun _ => x) := fun ph => keeps_then_goes hu (hx ph)

theorem keeps_read : Keeps (read : ElfM ExecReader) := fun _ => .read

theorem Keeps.bind {x : ElfM α} {f : α → ElfM β} (hx : Keeps x) (hf : ∀ a, Keeps (f a)) :
    Keeps (x >>= f) := fun ph => (hx ph).bind fun a => hf a ph

theorem Keeps.ite {c : Prop} [Decidable c] {x y : ElfM α} (hx : Keeps x) (hy : Keeps y) :
    Keeps (if c then x else y) := fun ph => .ite (hx ph) (hy ph)

/-! ## The log and the library -/

/-- A program on the log halts for nothing but the log's assertions. -/
def LogOnly (y : LogM α) : Prop := ∀ l, wp y (fun _ _ => True) (fun e => e.ofLog = true) l

theorem logOnly_begin (severity : Severity) (name : String) :
    LogOnly (mutLogBegin severity name) := by
  intro l
  simp only [mutLogBegin, wp_bind, wp_read, wp_mutAssert, wp_update]
  cases l.fatalError <;> cases l.logging <;> cases l.internalError <;>
    simp [Halt.ofLog]

theorem LogOnly.bind {y : LogM α} {f : α → LogM β} (hy : LogOnly y) (hf : ∀ a, LogOnly (f a)) :
    LogOnly (y >>= f) := fun l => wp_seq (hy l) (fun _ he => he) fun a l' _ => hf a l'

theorem logOnly_fatal (fatal : String) (errno : Nat) : LogOnly (mutLogFatal fatal errno) :=
  (logOnly_begin _ _).bind fun _ _ => trivial

theorem logOnly_memFull (errno : Nat) : LogOnly (mutLogMemFull errno) :=
  (logOnly_begin _ _).bind fun _ _ => trivial

theorem logOnly_arg (a : Arg) : LogOnly (mutLogArg a) := by
  intro l
  simp only [mutLogArg, wp_bind, wp_read, wp_mutAssert, wp_update]
  cases l.logging <;> simp [Halt.ofLog]

theorem logOnly_args (args : List Arg) : LogOnly (mutLogArgs args) := by
  induction args with
  | nil => exact fun _ => trivial
  | cons a args ih => exact (logOnly_arg a).bind fun _ => ih

theorem logOnly_end : LogOnly mutLogEnd := by
  intro l
  simp only [mutLogEnd, wp_bind, wp_read, wp_mutAssert, wp_update]
  cases l.logging <;> simp [Halt.ofLog]

theorem keeps_log {y : LogM Unit} (hy : LogOnly y) : Keeps (liftM y : ElfM Unit) := by
  intro ph r hr
  rw [wp_liftLogElf]
  apply wp_mono (hy r.symtab.log)
  · intro _ l _
    exact hr.same ⟨rfl, fun _ => rfl, fun _ => Iff.rfl, rfl, rfl, fun hs => hs⟩
  · intro e he
    exact Or.inr he

theorem keeps_execFatal (fatal : String) (errno : Nat) (args : List Arg) :
    Keeps (execFatal fatal errno args) :=
  (keeps_log (logOnly_fatal fatal errno)).bind fun _ =>
    (keeps_log (logOnly_args args)).bind fun _ => keeps_log logOnly_end

theorem keeps_execIo : Keeps execIo := by
  refine keeps_read.bind fun r => Keeps.bind ?_ fun _ => keeps_pure _
  exact keeps_update fun r => ⟨rfl, fun _ => rfl, fun _ => Iff.rfl, rfl, rfl, fun hs => hs⟩

theorem keeps_execFseek (offset : Word) : Keeps (execFseek offset) := by
  refine keeps_execIo.bind fun answer => ?_
  cases answer with
  | some errno => exact keeps_pure _
  | none =>
      apply Keeps.ite
      · exact keeps_then (fun _ =>
          ⟨rfl, fun _ => rfl, fun _ => Iff.rfl, rfl, rfl, fun hs => hs⟩) (keeps_pure _)
      · exact keeps_then (fun _ =>
          ⟨rfl, fun _ => rfl, fun _ => Iff.rfl, rfl, rfl, fun hs => hs⟩) (keeps_pure _)

theorem keeps_execFread (size : Nat) : Keeps (execFread size) := by
  refine keeps_execIo.bind fun answer => ?_
  cases answer with
  | some errno => exact keeps_pure _
  | none =>
      refine keeps_read.bind fun s => ?_
      refine keeps_then (fun _ =>
        ⟨rfl, fun _ => rfl, fun _ => Iff.rfl, rfl, rfl, fun hs => hs⟩) ?_
      exact (keeps_pure _).ite (keeps_pure _)

theorem keeps_require {c : Bool} {e : ExecHalt} (he : Malformed e) :
    Keeps (require c e : ElfM Unit) := fun _ => .require (Or.inl he)

theorem keeps_execFreadHeader (size : Word) (old : List Byte) :
    Keeps (execFreadHeader size old) := by
  refine (keeps_require (by simp [Malformed])).bind fun _ => ?_
  refine (keeps_execFread _).bind fun b => ?_
  cases b with
  | none => exact keeps_pure _
  | some b => exact keeps_pure _

theorem keeps_execFreadLocal (size : Word) : Keeps (execFreadLocal size) := by
  refine keeps_read.bind fun s => ?_
  refine keeps_then (fun _ =>
    ⟨rfl, fun _ => rfl, fun _ => Iff.rfl, rfl, rfl, fun hs => hs⟩) ?_
  refine (keeps_execFreadHeader _ _).bind fun b => ?_
  cases b with
  | none => exact keeps_pure _
  | some b => exact keeps_pure _

theorem goes_fopen (hopen : ph.isOpen = false) :
    OpenGoes ph (fun ok => { ph with isOpen := ok }) execFopen := by
  apply (keeps_execIo ph).bind
  intro answer
  cases answer with
  | some errno =>
      refine .pure fun r hr => ?_
      exact ⟨hr.isOpen.trans hopen, hr.null, hr.block, hr.owned, hr.nodes, hr.stabs⟩
  | none =>
      refine Goes.bind (.update fun r hr => ?_) fun _ => .pure fun _ hr => hr
      exact ⟨rfl, hr.null, hr.block, hr.owned, hr.nodes, hr.stabs⟩

theorem goes_fclose : OpenGoes ph (fun _ => { ph with isOpen := false }) execFclose := by
  refine Goes.bind (.update fun r hr => ?_) fun _ =>
    (keeps_execIo { ph with isOpen := false }).bind fun _ => .pure fun _ hr => hr
  exact ⟨rfl, hr.null, hr.block, hr.owned, hr.nodes, hr.stabs⟩

/-! ## Blocks -/

theorem inUse_append (r : ExecReader) (b : List Byte) (q : Nat) :
    InUse { r with blocks := r.blocks ++ [some b] } q ↔ InUse r q ∨ q = r.blocks.length := by
  unfold InUse
  by_cases hq : q < r.blocks.length
  · rw [List.getElem?_append_left hq]
    simp [Nat.ne_of_lt hq]
  · have hnone : r.blocks[q]? = none := List.getElem?_eq_none (by omega)
    rw [List.getElem?_append_right (by omega), hnone]
    by_cases heq : q = r.blocks.length
    · simp [heq]
    · have hpast : [some b][q - r.blocks.length]? = none :=
        List.getElem?_eq_none (by simp only [List.length_singleton]; omega)
      simp [hpast, heq]

theorem inUse_set_none (r : ExecReader) (q : Nat) :
    InUse { r with blocks := r.blocks.set p none } q ↔ InUse r q ∧ q ≠ p := by
  unfold InUse
  by_cases hq : q = p
  · rw [hq, List.getElem?_set]
    simp
    split <;> simp
  · rw [List.getElem?_set_ne (Ne.symm hq)]
    simp [hq]

theorem inUse_set_some (r : ExecReader) (hp : InUse r p) (b : List Byte) (q : Nat) :
    InUse { r with blocks := r.blocks.set p (some b) } q ↔ InUse r q := by
  unfold InUse at hp ⊢
  by_cases hq : q = p
  · have hlt : p < r.blocks.length := by
      by_contra hno
      rw [List.getElem?_eq_none (by omega)] at hp
      exact absurd hp (by simp)
    rw [hq, List.getElem?_set_self hlt, hp]
    simp
  · rw [List.getElem?_set_ne (Ne.symm hq)]

theorem goes_malloc (hnone : ph.record = none) :
    OpenGoes ph (fun a => { ph with record := a }) mutMemMalloc := by
  have hph : { ph with record := none } = ph := by
    rw [← hnone]
  have hone : ∀ r : ExecReader, ph.At r →
      { ph with record := some r.blocks.length }.At
        { r with blocks := r.blocks ++ [some []] } := by
    intro r hr
    have hnew : ¬ InUse r r.blocks.length := by
      unfold InUse
      rw [List.getElem?_eq_none (Nat.le_refl _)]
      simp
    have hfree : ph.holds r .record = none := hnone
    refine ⟨hr.isOpen, hr.null, hr.block, ?_, hr.nodes, hr.stabs⟩
    apply (hr.owned.acquire hnew hfree (inUse_append r [])).congr fun _ => Iff.rfl
    intro o
    cases o with
    | record =>
        rw [Function.update_self]
        rfl
    | table t =>
        rw [Function.update_of_ne (by simp)]
        rfl
  intro r hr
  unfold mutMemMalloc Symtab.malloc
  simp only [wp_bind, wp_liftSymtab, wp_read, wp_update, wp_pure]
  cases r.symtab.full.head?.join with
  | some errno =>
      show Phase.At { ph with record := none } _
      rw [hph]
      exact hr.same ⟨rfl, fun _ => rfl, fun _ => Iff.rfl, rfl, rfl, fun hs => hs⟩
  | none =>
      exact hone _ (hr.same ⟨rfl, fun _ => rfl, fun _ => Iff.rfl, rfl, rfl, fun hs => hs⟩)

/-- A block that is owned is freed. -/
theorem free_owned {o : Owner} {ph' : Phase} (hr : ph.At r) (hp : ph.holds r o = some p)
    (hisOpen : ph'.isOpen = ph.isOpen) (hnull : ∀ t, ph'.tables t = .null → ph.tables t = .null)
    (hblock : ∀ t, ph'.tables t = .block → ph.tables t = .block)
    (hnodes : ph'.nodes = ph.nodes) (hstabs : ph'.hasStabs = ph.hasStabs)
    (hholds : ∀ o', ph'.holds r o' = Function.update (ph.holds r) o none o') :
    wp (mutMemFree (some p)) (fun _ r' => ph'.At r') E r := by
  have huse := hr.owned.inUse hp
  have hsome : (r.blocks[p]?.join).isSome = true := huse
  unfold mutMemFree
  simp only [wp_bind, wp_read, wp_require, wp_update]
  rw [if_pos hsome]
  refine ⟨hr.isOpen.trans hisOpen.symm, fun t ht => hr.null t (hnull t ht),
    fun t ht => hr.block t (hblock t ht), ?_, ?_, ?_⟩
  · apply (hr.owned.release hp (inUse_set_none r)).congr fun _ => Iff.rfl
    exact hholds
  · have hn := hr.nodes
    rw [← hnodes] at hn
    exact hn
  · intro hs
    exact hr.stabs (hstabs ▸ hs)

theorem free_record (hr : ({ ph with record := some p } : Phase).At r) :
    wp (mutMemFree (some p)) (fun _ r' => ({ ph with record := none } : Phase).At r') E r := by
  have hheld : ({ ph with record := some p } : Phase).holds r .record = some p := rfl
  refine free_owned hr hheld rfl (fun _ h => h) (fun _ h => h) rfl rfl ?_
  intro o
  cases o with
  | record =>
      rw [Function.update_self]
      rfl
  | table t =>
      rw [Function.update_of_ne (by simp)]
      rfl

theorem goes_freeRecord (p : Nat) :
    OpenGoes { ph with record := some p } (fun _ => { ph with record := none })
      (mutMemFree (some p)) := fun _ hr => free_record hr

/-- The block of a table is freed, and its pointer dangles; a null pointer is left. -/
theorem free_table (hr : ph.At r) (ht : ph.tables t ≠ .loose) :
    wp (mutMemFree (r.tables t).data) (fun _ r' => (ph.withTable t .loose).At r') E r := by
  have hother : ∀ t', (ph.withTable t .loose).tables t' = .null ∨
      (ph.withTable t .loose).tables t' = .block → t' ≠ t := by
    intro t' h heq
    rw [heq, Phase.withTable_self] at h
    exact absurd h (by simp)
  have hnull : ∀ t', (ph.withTable t .loose).tables t' = .null → ph.tables t' = .null := by
    intro t' h
    rw [← ph.withTable_other .loose (hother t' (Or.inl h))]
    exact h
  have hblock : ∀ t', (ph.withTable t .loose).tables t' = .block → ph.tables t' = .block := by
    intro t' h
    rw [← ph.withTable_other .loose (hother t' (Or.inr h))]
    exact h
  have hholds : ∀ o, (ph.withTable t .loose).holds r o =
      Function.update (ph.holds r) (.table t) none o := by
    intro o
    cases o with
    | record =>
        rw [Function.update_of_ne (by simp)]
        rfl
    | table t' =>
        by_cases heq : t' = t
        · rw [heq, Function.update_self]
          simp [Phase.holds]
        · rw [Function.update_of_ne (by simp [heq])]
          simp only [Phase.holds, ph.withTable_other .loose heq]
  cases hdata : (r.tables t).data with
  | none =>
      refine ⟨hr.isOpen, fun t' h => hr.null t' (hnull t' h), fun t' h => hr.block t' (hblock t' h),
        ?_, hr.nodes, hr.stabs⟩
      apply hr.owned.congr fun _ => Iff.rfl
      intro o
      rw [hholds]
      by_cases heq : o = .table t
      · rw [heq, Function.update_self]
        simp [Phase.holds, hdata]
      · rw [Function.update_of_ne heq]
  | some p =>
      have hheld : ph.holds r (.table t) = some p := by
        cases hkind : ph.tables t with
        | loose => exact absurd hkind ht
        | null =>
            rw [hr.null t hkind] at hdata
            exact absurd hdata (by simp)
        | block => simp [Phase.holds, hkind, hdata]
      exact free_owned hr hheld rfl hnull hblock rfl rfl hholds

/-- A table's pointer is set to the block just read into, which is its own from then on. -/
theorem own_table (hr : ({ ph with record := some p } : Phase).At r) (ht : ph.tables t ≠ .block) :
    ({ ph.withTable t .block with record := none } : Phase).At
      (r.setTable t { r.tables t with data := some p }) := by
  have hdata : ∀ t', t' ≠ t →
      ((r.setTable t { r.tables t with data := some p }).tables t') = r.tables t' := by
    intro t' h
    simp [ExecReader.setTable, h]
  have hself : ((r.setTable t { r.tables t with data := some p }).tables t).data = some p := by
    simp [ExecReader.setTable]
  refine ⟨hr.isOpen, ?_, ?_, ?_, hr.nodes, hr.stabs⟩
  · intro t' h
    by_cases heq : t' = t
    · rw [heq] at h
      exact absurd (h.symm.trans (ph.withTable_self .block)) (by simp)
    · rw [hdata t' heq]
      exact hr.null t' ((ph.withTable_other .block heq).symm.trans h)
  · intro t' h
    by_cases heq : t' = t
    · rw [heq, hself]
      rfl
    · rw [hdata t' heq]
      exact hr.block t' ((ph.withTable_other .block heq).symm.trans h)
  · have hnone : ({ ph with record := some p } : Phase).holds r (.table t) = none := by
      simp [Phase.holds, ht]
    apply (hr.owned.pass (o := .record) hnone).congr fun _ => Iff.rfl
    intro o
    cases o with
    | record =>
        rw [Function.update_of_ne (by simp), Function.update_self]
        rfl
    | table t' =>
        by_cases heq : t' = t
        · rw [heq, Function.update_self]
          simp [Phase.holds, hself]
        · rw [Function.update_of_ne (by simp [heq]), Function.update_of_ne (by simp)]
          simp only [Phase.holds, hdata t' heq]
          rw [show ({ ph.withTable t .block with record := none } : Phase).tables t' =
            ph.tables t' from ph.withTable_other .block heq]

/-- More or less may be known of a pointer that owns nothing. -/
theorem Phase.At.retype {k : Held} (hr : ph.At r) (ht : ph.tables t ≠ .block) (hk : k ≠ .block)
    (hnull : k = .null → (r.tables t).data = none) : (ph.withTable t k).At r := by
  refine ⟨hr.isOpen, ?_, ?_, ?_, hr.nodes, hr.stabs⟩
  · intro t' h
    by_cases heq : t' = t
    · rw [heq] at h ⊢
      exact hnull ((ph.withTable_self k).symm.trans h)
    · exact hr.null t' ((ph.withTable_other k heq).symm.trans h)
  · intro t' h
    by_cases heq : t' = t
    · rw [heq] at h
      exact absurd ((ph.withTable_self k).symm.trans h) hk
    · exact hr.block t' ((ph.withTable_other k heq).symm.trans h)
  · apply hr.owned.congr fun _ => Iff.rfl
    intro o
    cases o with
    | record => rfl
    | table t' =>
        by_cases heq : t' = t
        · rw [heq]
          simp [Phase.holds, ht, hk]
        · simp only [Phase.holds, ph.withTable_other k heq]

/-- A table whose pointer is of no account is changed. -/
theorem Phase.At.setTable (hr : ph.At r) (ht : ph.tables t = .loose) (s : Strings) :
    ph.At (r.setTable t s) := by
  have hdata : ∀ t', ph.tables t' ≠ .loose → (r.setTable t s).tables t' = r.tables t' := by
    intro t' h
    have hne : t' ≠ t := by
      intro heq
      rw [heq] at h
      exact h ht
    simp [ExecReader.setTable, hne]
  refine ⟨hr.isOpen, ?_, ?_, ?_, hr.nodes, hr.stabs⟩
  · intro t' h
    rw [hdata t' (by simp [h])]
    exact hr.null t' h
  · intro t' h
    rw [hdata t' (by simp [h])]
    exact hr.block t' h
  · apply hr.owned.congr fun _ => Iff.rfl
    intro o
    cases o with
    | record => rfl
    | table t' =>
        by_cases h : ph.tables t' = .block
        · simp only [Phase.holds, hdata t' (by simp [h])]
        · simp only [Phase.holds, if_neg h]

/-- A block in use is read into. -/
theorem freadBlock_keeps (hr : ph.At r) (hp : InUse r p) (size : Word) :
    wp (execFreadBlock p size) (fun _ r' => ph.At r') Benign r := by
  unfold execFreadBlock
  refine wp_seq (wp_and (keeps_execFread size.toNat ph r hr)
    (aside_execFread size.toNat r trivial)) (fun _ he => he.1) ?_
  intro b r₁ h
  obtain ⟨hr₁, haside⟩ := h
  cases b with
  | none => exact hr₁
  | some b =>
      have huse : InUse r₁ p := by
        unfold InUse
        rw [haside.blocks]
        exact hp
      exact hr₁.same ⟨rfl, fun _ => rfl, inUse_set_some r₁ huse b, rfl, rfl, fun hs => hs⟩

/-- The pointer of a table is its block's, or nothing is known of it. -/
def Held.ofOk : Bool → Held
  | true => .block
  | false => .loose

/-- A fatal message, after which the block of the table is freed. -/
theorem refuse_table (hr : (ph.withTable t .block).At r) (fatal : String) (errno : Nat)
    (args : List Arg) :
    wp (do
        execFatal fatal errno args
        mutMemFree (r.tables t).data
        return false)
      (fun ok r' => ok = false ∧ (ph.withTable t .loose).At r') Benign r := by
  refine wp_seq (wp_and (keeps_execFatal fatal errno args _ r hr)
    (aside_execFatal fatal errno args r trivial)) (fun _ he => he.1) ?_
  intro _ r₁ h
  obtain ⟨hr₁, haside⟩ := h
  rw [← haside.tables]
  refine wp_seq (free_table hr₁ (by simp)) (fun _ he => he) ?_
  intro _ r₂ hr₂
  refine ⟨rfl, ?_⟩
  have hsame : (ph.withTable t .block).withTable t .loose = ph.withTable t .loose := by
    simp [Phase.withTable]
  rw [← hsame]
  exact hr₂

/-- Opening a string table: its block is acquired, or none is. -/
theorem goes_stringsOpen (ht : ph.tables t ≠ .block) (hnone : ph.record = none) (h : Shdr)
    (fullArgs : List Arg) (ioArgs : Nat → List Arg) :
    OpenGoes ph (fun ok => ph.withTable t (Held.ofOk ok))
      (execStringsOpen t h fullArgs ioArgs) := by
  let ph₁ : Phase := ph.withTable t .loose
  have hph₁ : ph₁.record = none := hnone
  intro r hr
  have hloose : ph₁.At r := hr.retype ht (by simp) (by simp)
  unfold execStringsOpen
  rw [wp_bind, wp_update]
  have hsized := hloose.setTable (ph.withTable_self .loose) { r.tables t with size := h.shSize }
  refine wp_seq (goes_malloc hph₁ _ hsized) (fun _ he => he) ?_
  intro block r₁ hr₁
  cases block with
  | none =>
      simp only [wp_bind, wp_update, wp_read]
      have hr₁ : ph₁.At r₁ := by
        have heq : { ph₁ with record := none } = ph₁ := by
          rw [← hph₁]
        rw [← heq]
        exact hr₁
      have hnulled := hr₁.setTable (ph.withTable_self .loose) { r₁.tables t with data := none }
      exact wp_mono (keeps_execFatal _ _ _ ph₁ _ hnulled) (fun _ _ h => h) fun _ he => he
  | some p =>
      rw [wp_bind, wp_update]
      have hown := own_table (t := t) hr₁ (by simp [ph₁])
      have hph₂ : ({ ph₁.withTable t .block with record := none } : Phase) =
          ph.withTable t .block := by
        have heq : ph₁.withTable t .block = ph.withTable t .block := by
          simp [ph₁, Phase.withTable]
        rw [heq]
        have hrec : (ph.withTable t .block).record = none := hnone
        rw [← hrec]
      rw [hph₂] at hown
      have hp : (((r₁.setTable t { r₁.tables t with data := some p }).tables t).data) =
          some p := by
        simp [ExecReader.setTable]
      refine wp_seq (wp_and (keeps_execFseek h.shOffset _ _ hown)
        (aside_execFseek h.shOffset _ trivial)) (fun _ he => he.1) ?_
      intro sought r₂ hboth
      obtain ⟨hr₂, haside⟩ := hboth
      have hp₂ : (r₂.tables t).data = some p := by
        rw [haside.tables]
        exact hp
      have huse : InUse r₂ p := by
        apply hr₂.owned.inUse (o := .table t)
        simp [Phase.holds, hp₂]
      cases sought with
      | false =>
          simp only [Bool.not_false, if_true]
          rw [wp_bind, wp_read]
          refine wp_mono (refuse_table hr₂ _ _ _) ?_ fun _ he => he
          intro ok r₃ hok
          rw [hok.1]
          exact hok.2
      | true =>
          simp only [Bool.not_true, Bool.false_eq_true, if_false]
          refine wp_seq (freadBlock_keeps hr₂ huse h.shSize) (fun _ he => he) ?_
          intro filled r₃ hr₃
          cases filled with
          | false =>
              simp only [Bool.not_false, if_true]
              rw [wp_bind, wp_read]
              refine wp_mono (refuse_table hr₃ _ _ _) ?_ fun _ he => he
              intro ok r₄ hok
              rw [hok.1]
              exact hok.2
          | true => exact hr₃

/-- A fatal message, and the answer no. -/
theorem goes_refuse (ht : ph.tables t ≠ .block) (fatal : String) (errno : Nat)
    (args : List Arg) :
    OpenGoes ph (fun ok => ph.withTable t (Held.ofOk ok)) (do
      execFatal fatal errno args
      return false) :=
  .bind (keeps_execFatal _ _ _ ph) fun _ => .pure fun _ hr => hr.retype ht (by simp [Held.ofOk])
    (by simp [Held.ofOk])

theorem goes_strtabOpen (ht : ph.tables t ≠ .block) (hnone : ph.record = none) (symtab : Shdr) :
    OpenGoes ph (fun ok => ph.withTable t (Held.ofOk ok)) (mutExecStrtabOpen symtab t) := by
  refine .bind .read fun r => .ite (goes_refuse ht _ _ _) (.ite (goes_refuse ht _ _ _) ?_)
  refine .check (k := fun _ => ph) (keeps_execFseek _ ph) ?_ ?_
  · exact .bind .read fun _ => goes_refuse ht _ _ _
  apply (keeps_execFread _ ph).bind
  intro b
  cases b with
  | none => exact .bind .read fun _ => goes_refuse ht _ _ _
  | some b => exact .ite (goes_refuse ht _ _ _) (goes_stringsOpen ht hnone _ _ _)

theorem goes_stabstrOpen (ht : ph.tables .stabstr ≠ .block) (hnone : ph.record = none)
    (stabs : Shdr) :
    OpenGoes ph (fun ok => ph.withTable .stabstr (Held.ofOk ok)) (mutExecStabstrOpen stabs) := by
  refine .bind .read fun r => .ite (goes_refuse ht _ _ _) ?_
  refine .check (k := fun _ => ph) (keeps_execFseek _ ph) (goes_refuse ht _ _ _) ?_
  apply (keeps_execFreadLocal _ ph).bind
  intro h
  cases h with
  | none => exact .bind .read fun _ => goes_refuse ht _ _ _
  | some h => exact .ite (goes_refuse ht _ _ _) (goes_stringsOpen ht hnone _ _ _)

theorem goes_shstrtabOpen (ht : ph.tables .shstrtab ≠ .block) (hnone : ph.record = none) :
    OpenGoes ph (fun ok => ph.withTable .shstrtab (Held.ofOk ok)) mutExecShstrtabOpen := by
  apply Goes.read.bind
  intro r
  refine .check (k := fun _ => ph) (keeps_execFseek _ ph) ?_ ?_
  · exact .bind .read fun _ => goes_refuse ht _ _ _
  apply (keeps_execFreadLocal _ ph).bind
  intro h
  cases h with
  | none => exact .bind .read fun _ => goes_refuse ht _ _ _
  | some h => exact .ite (goes_refuse ht _ _ _) (goes_stringsOpen ht hnone _ _ _)

/-! ## Reading a table -/

theorem bytes_isSome (hr : ph.At r) (ht : ph.tables t = .block) :
    (r.bytes t).isSome = true := by
  obtain ⟨p, hp⟩ := Option.isSome_iff_exists.1 (hr.block t ht)
  have huse : InUse r p := by
    apply hr.owned.inUse (o := .table t)
    simp [Phase.holds, ht, hp]
  unfold ExecReader.bytes
  rw [hp]
  exact huse

theorem goes_execTable (ht : ph.tables t = .block) : OpenGoes ph (fun _ => ph) (execTable t) := by
  intro r hr
  obtain ⟨b, hb⟩ := Option.isSome_iff_exists.1 (bytes_isSome hr ht)
  unfold execTable
  rw [wp_bind, wp_read, hb]
  exact hr

theorem goes_execString (ht : ph.tables t = .block) (offset : Nat) :
    OpenGoes ph (fun _ => ph) (execString t offset) :=
  .bind (goes_execTable ht) fun _ =>
    .bind (keeps_require (by simp [Malformed]) ph) fun _ => keeps_pure _ ph

theorem goes_execStrcmp (ht : ph.tables t = .block) (offset : Nat) (s : String) :
    OpenGoes ph (fun _ => ph) (execStrcmp t offset s) :=
  .bind (goes_execString ht offset) fun _ => keeps_pure _ ph

theorem goes_execPoke (ht : ph.tables t = .block) (offset : Nat) (c : Byte) :
    OpenGoes ph (fun _ => ph) (execPoke t offset c) := by
  refine .bind (goes_execTable ht) fun b => .update fun r hr => ?_
  obtain ⟨p, hp⟩ := Option.isSome_iff_exists.1 (hr.block t ht)
  have huse : InUse r p := by
    apply hr.owned.inUse (o := .table t)
    simp [Phase.holds, ht, hp]
  unfold ExecReader.setBytes
  rw [hp]
  exact hr.same ⟨rfl, fun _ => rfl, inUse_set_some r huse _, rfl, rfl, fun hs => hs⟩

theorem keeps_strtabLookup (t : Table) (str : Word) : Keeps (mutExecStrtabLookup t str) :=
  keeps_read.bind fun _ => (keeps_require (by simp [Malformed])).bind fun _ => keeps_pure _

theorem goes_execCutSuffix (ht : ph.tables t = .block) (n : Nat)
    (suffix : Option (List Byte)) : OpenGoes ph (fun _ => ph) (execCutSuffix t n suffix) := by
  cases suffix with
  | none => exact keeps_pure _ ph
  | some undesirableSuffix =>
      apply (goes_execString ht n).bind
      intro name
      split
      · exact keeps_pure _ ph
      · exact goes_execPoke ht _ _

/-! ## The scan for sections -/

theorem keeps_execSelect (w : Wanted) : Keeps (execSelect w) := by
  apply keeps_update
  intro r
  refine ⟨rfl, fun _ => rfl, fun _ => Iff.rfl, rfl, rfl, fun hs => ?_⟩
  show (if Wanted.stabs = w then some r.free else r.sections .stabs).isSome = true
  split
  · rfl
  · exact hs

theorem goes_switchSection (ht : ph.tables .shstrtab = .block) (h : Shdr) :
    OpenGoes ph (fun _ => ph) (mutExecSwitchSection h) := by
  have hnamed (w : Wanted) (s : String) (c : Prop) [Decidable c] :
      OpenGoes ph (fun _ => ph) (do
        if c then
          let sectionName ← mutExecShstrtabLookup h.shName
          if ← execStrcmp .shstrtab sectionName s then
            execSelect w) := by
    refine .ite ?_ (keeps_pure _ ph)
    refine .bind (keeps_strtabLookup _ _ ph) fun n => ?_
    refine .bind (goes_execStrcmp ht _ _) fun same => ?_
    exact .ite (keeps_execSelect w ph) (keeps_pure _ ph)
  have hpicked (w : Wanted) (c : Prop) [Decidable c] :
      OpenGoes ph (fun _ => ph) (if c then execSelect w else pure ()) :=
    .ite (keeps_execSelect w ph) (keeps_pure _ ph)
  apply Goes.read.bind
  intro r
  refine .ite (hnamed _ _ _) (.ite (hnamed _ _ _) (.ite ?_ (keeps_pure _ ph)))
  refine .bind (keeps_strtabLookup _ _ ph) fun n => ?_
  refine .bind (goes_execStrcmp ht _ _) fun stabs => ?_
  refine .ite (hpicked _ _) ?_
  refine .bind (goes_execStrcmp ht _ _) fun plt => ?_
  exact .ite (hpicked _ _) (keeps_pure _ ph)

theorem goes_locateSection (ht : ph.tables .shstrtab = .block) :
    OpenGoes ph (fun _ => ph) mutExecLocateSection := by
  refine .bind .read fun r => .bind (keeps_require (by simp [Malformed]) ph) fun _ => ?_
  apply (keeps_execFreadHeader _ _ ph).bind
  intro b
  cases b with
  | none =>
      exact .bind .read fun _ => .bind (keeps_execFatal _ _ _ ph) fun _ => keeps_pure _ ph
  | some b =>
      refine keeps_then_goes (fun _ =>
        ⟨rfl, fun _ => rfl, fun _ => Iff.rfl, rfl, rfl, fun hs => hs⟩) ?_
      exact .bind (goes_switchSection ht _) fun _ => keeps_pure _ ph

theorem goes_locateSectionsFrom (ht : ph.tables .shstrtab = .block) (left : Nat) :
    OpenGoes ph (fun _ => ph) (mutExecLocateSectionsFrom left) := by
  induction left with
  | zero => exact keeps_pure _ ph
  | succ left ih =>
      apply (goes_locateSection ht).bind
      intro located
      cases located with
      | true => exact ih
      | false => exact keeps_pure _ ph

theorem goes_locateSections (ht : ph.tables .shstrtab = .block) (hs : ph.hasStabs = false) :
    OpenGoes ph (fun _ => ph) mutExecLocateSections := by
  apply Goes.read.bind
  intro r
  have hrefuse (fatal : String) (errno : Nat) (args : List Arg) :
      OpenGoes ph (fun _ => ph) (do
        execFatal fatal errno args
        return false) :=
    .bind (keeps_execFatal _ _ _ ph) fun _ => keeps_pure _ ph
  refine .check (k := fun _ => ph) (keeps_execFseek _ ph) ?_ ?_
  · exact .bind .read fun _ => hrefuse _ _ _
  refine .bind (g := fun _ => ph) (.update fun r hr => ?_) fun _ => ?_
  · exact ⟨hr.isOpen, hr.null, hr.block, hr.owned, hr.nodes, fun h => by rw [hs] at h; cases h⟩
  refine .check (goes_locateSectionsFrom ht _) (keeps_pure _ ph) ?_
  exact .bind .read fun _ => .ite (keeps_pure _ ph) (hrefuse _ _ _)

/-! ## The nodes of the symbol table -/

/-- A program on the symbol table halts for nothing but the log's assertions. -/
def SymtabOnly (x : SymtabM α) : Prop :=
  ∀ s, wp x (fun _ _ => True) (fun e => e.ofLog = true) s

theorem SymtabOnly.bind {x : SymtabM α} {f : α → SymtabM β} (hx : SymtabOnly x)
    (hf : ∀ a, SymtabOnly (f a)) : SymtabOnly (x >>= f) :=
  fun s => wp_seq (hx s) (fun _ he => he) fun a s' _ => hf a s'

theorem SymtabOnly.ite {c : Prop} [Decidable c] {x y : SymtabM α} (hx : SymtabOnly x)
    (hy : SymtabOnly y) : SymtabOnly (if c then x else y) := by
  split
  · exact hx
  · exact hy

theorem symtabOnly_pure (a : α) : SymtabOnly (pure a : SymtabM α) := fun _ => trivial

theorem symtabOnly_log {y : LogM Unit} (hy : LogOnly y) :
    SymtabOnly (liftM y : SymtabM Unit) := fun s =>
  (wp_focus Symtab.log (fun l s => { s with log := l }) y).2 (hy s.log)

/-- A node is allocated, or a fatal message says that it could not be. -/
theorem symtabOnly_allocate {x : SymtabM α} {a : α} (hx : SymtabOnly x) :
    SymtabOnly (Symtab.malloc >>= fun answer =>
      match answer with
      | some errno => do
          mutLogFatal "mem.full" errno
          mutLogEnd
          return a
      | none => x) := by
  refine SymtabOnly.bind (fun _ => trivial) fun answer => ?_
  cases answer with
  | some errno =>
      exact (symtabOnly_log (logOnly_fatal _ _)).bind fun _ =>
        (symtabOnly_log logOnly_end).bind fun _ => symtabOnly_pure _
  | none => exact hx

theorem symtabOnly_funOpen (name : String) (a : Word) :
    SymtabOnly (mutExecSymtabFunOpen name a) :=
  symtabOnly_allocate fun _ => trivial

theorem symtabOnly_addFun (n : String) (a : Word) : SymtabOnly (mutExecSymtabAddFun n a) := by
  have hfrom : ∀ fs, SymtabOnly (mutExecSymtabAddFunFrom n a fs) := by
    intro fs
    induction fs with
    | nil =>
        apply (symtabOnly_funOpen n a).bind
        intro nf
        cases nf with
        | none => exact symtabOnly_pure _
        | some nf => exact symtabOnly_pure _
    | cons f next ih =>
        refine .ite ?_ (.ite (symtabOnly_pure _) ?_)
        · apply (symtabOnly_funOpen n a).bind
          intro nf
          cases nf with
          | none => exact symtabOnly_pure _
          | some nf => exact symtabOnly_pure _
        · apply ih.bind
          intro next'
          cases next' with
          | none => exact symtabOnly_pure _
          | some next' => exact symtabOnly_pure _
  refine SymtabOnly.bind (fun _ => trivial) fun s => ?_
  apply (hfrom s.head).bind
  intro head
  cases head with
  | none => exact symtabOnly_pure _
  | some head => exact fun _ => trivial

theorem symtabOnly_addRange (a l : Word) (fn : Option String) :
    SymtabOnly (mutExecSymtabAddRange a l fn) := by
  have hopen : SymtabOnly (mutExecSymtabFunLineOpen a l) :=
    symtabOnly_allocate fun _ => trivial
  have hfrom : ∀ fls, SymtabOnly (mutExecSymtabAddXxx a l fls) := by
    intro fls
    induction fls with
    | nil =>
        apply hopen.bind
        intro nfl
        cases nfl with
        | none => exact symtabOnly_pure _
        | some nfl => exact symtabOnly_pure _
    | cons fl next ih =>
        refine .ite ?_ ?_
        · apply hopen.bind
          intro nfl
          cases nfl with
          | none => exact symtabOnly_pure _
          | some nfl => exact symtabOnly_pure _
        · apply ih.bind
          intro next'
          cases next' with
          | none => exact symtabOnly_pure _
          | some next' => exact symtabOnly_pure _
  refine SymtabOnly.bind (fun _ => trivial) fun s => ?_
  cases mutExecSymtabRangeOf a s.head with
  | none =>
      exact (symtabOnly_log (logOnly_begin _ _)).bind fun _ =>
        (symtabOnly_log logOnly_end).bind fun _ => symtabOnly_pure _
  | some found =>
      refine SymtabOnly.bind (fun _ => trivial) fun _ => ?_
      apply (hfrom _).bind
      intro funLines
      cases funLines with
      | none => exact symtabOnly_pure _
      | some funLines => exact fun _ => trivial

theorem goes_symtab {x : SymtabM α} (hn : ph.nodes ≠ .shut) (hx : SymtabOnly x) :
    OpenGoes ph (fun _ => ph) (liftM x : ElfM α) := by
  intro r hr
  rw [wp_liftSymtab]
  apply wp_mono (hx r.symtab)
  · intro _ s _
    refine ⟨hr.isOpen, hr.null, hr.block, hr.owned, ?_, hr.stabs⟩
    have hnodes := hr.nodes
    cases hkind : ph.nodes with
    | shut => exact absurd hkind hn
    | loose => trivial
    | opened =>
        rw [hkind] at hnodes
        exact hnodes
  · intro e he
    exact Or.inr he

theorem goes_execAddFun (ht : ph.tables t = .block) (hn : ph.nodes ≠ .shut) (n : Nat)
    (a : Word) : OpenGoes ph (fun _ => ph) (execAddFun t n a) := by
  refine .bind (goes_execTable ht) fun b => ?_
  refine .bind (goes_symtab hn (symtabOnly_addFun _ _)) fun added => ?_
  refine .bind (.whenever (.update fun r hr => ?_)) fun _ => keeps_pure _ ph
  exact hr.same ⟨rfl, fun _ => rfl, fun _ => Iff.rfl, rfl, rfl, fun hs => hs⟩

theorem goes_extractSymbolsFrom (ht : ph.tables t = .block) (hn : ph.nodes ≠ .shut)
    (suffix : Option (List Byte)) (plt : Option Shdr) (f : Word) (symbols : List Sym) :
    OpenGoes ph (fun _ => ph) (mutExecExtractSymbolsFrom t suffix plt f symbols) := by
  induction symbols generalizing f with
  | nil => exact keeps_pure _ ph
  | cons s symbols ih =>
      refine .ite ?_ (ih f)
      refine .bind (keeps_strtabLookup _ _ ph) fun n => ?_
      refine .bind (goes_execCutSuffix ht _ _) fun _ => ?_
      refine .ite ?_ (ih (f + 1))
      exact .check (goes_execAddFun ht hn _ _) (keeps_pure _ ph) (ih (f + 1))

/-- The block of the records that were read, if they were. -/
def recordOf (o : Option (Nat × β)) : Option Nat := o.map (·.1)

theorem goes_recordsOpen (hnone : ph.record = none) (ofBytes : List Byte → α) (size : Nat)
    (bad : String) (h : Shdr) :
    OpenGoes ph (fun o => { ph with record := recordOf o })
      (execRecordsOpen ofBytes size bad h) := by
  have hph : ({ ph with record := none } : Phase) = ph := by
    rw [← hnone]
  have hrefuse (fatal : String) (errno : Nat) (args : List Arg) (p : Nat) :
      OpenGoes { ph with record := some p }
        (fun o : Option (Nat × List α) => { ph with record := recordOf o }) (do
          execFatal fatal errno args
          mutMemFree (some p)
          return none) :=
    .bind (keeps_execFatal _ _ _ _) fun _ => .bind (goes_freeRecord p) fun _ =>
      .pure fun _ hr => hr
  refine .bind .read fun r => .ite ?_ (.bind (goes_malloc hnone) fun block => ?_)
  · refine .bind (keeps_execFatal _ _ _ ph) fun _ => .pure fun r hr => ?_
    show ({ ph with record := none } : Phase).At r
    rw [hph]
    exact hr
  cases block with
  | none =>
      refine .bind .read fun _ => .bind (keeps_log (logOnly_memFull _) _) fun _ => ?_
      exact .pure fun _ hr => hr
  | some p =>
      let ph₁ : Phase := { ph with record := some p }
      have huse : ∀ r, ph₁.At r → InUse r p := fun r hr => hr.owned.inUse (o := .record) rfl
      refine .check (k := fun _ => ph₁) (keeps_execFseek _ _) (hrefuse _ _ _ p) ?_
      refine .check (k := fun _ => ph₁) ?_ (.bind .read fun _ => hrefuse _ _ _ p) ?_
      · intro r hr
        exact freadBlock_keeps hr (huse r hr) _
      · intro r hr
        obtain ⟨b, hb⟩ := Option.isSome_iff_exists.1 (huse r hr)
        unfold execBlock
        rw [wp_bind, wp_bind, wp_read, hb]
        exact hr

end MutTracker.Source.Release
