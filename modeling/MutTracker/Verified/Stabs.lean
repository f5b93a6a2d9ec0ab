import MutTracker.Verified.Log
import MutTracker.Verified.Lookup
import MutTracker.Verified.Names

/-!
# File names from the debugging entries

The entries of a compilation unit name its directory, its source file and then its
functions and lines.  `mut_exec_extract_debug_info` keeps one file name: an entry that
does not name a directory sets it when there is none and clears it when there is one.
So the name is the right one as long as every unit is closed by an entry of its own,
whose string is read with the byte before it.

## Main results

* `extractFrom_done`, `extractFrom_halts` — the loop as calls of `add_range`.
* `stabCalls_lines` — the name that each line is added with.
* `files_exact_iff` — when every function gets the file of its last line.
-/

namespace MutTracker.Source

open MutTracker.Logic MutTracker.Logic.Prog MutTracker.Logic.CString
open MutTracker.Verified.Symtab (Roomy Ordered Covers RangeCall addRanges linesOf inside
  lookup_added)

variable {r : ExecReader} {b : List Byte} {size : Word} {c : StabCursor} {s : Stab}
  {stabs before rest : List Stab} {y : Symtab}

/-! ## Adding a line -/

/-- With memory to spare a line is added. -/
theorem addXxx_done (hroom : Roomy y) (a l : Word) (fls : List SymtabFunLine) :
    ∃ ls y', mutExecSymtabAddXxx a l fls y = .done (some ls) y' ∧ Roomy y' ∧ y'.log = y.log := by
  have hopen : ∃ nfl y', mutExecSymtabFunLineOpen a l y = .done (some nfl) y' ∧ Roomy y' ∧
      y'.log = y.log := by
    have hnone : y.full.head?.join = none := by
      cases hfull : y.full with
      | nil => rfl
      | cons answer rest => simp [hroom answer (by simp [hfull])]
    refine ⟨{ lineAddr := a, lineNumber := l &&& 0xffff }, { y with full := y.full.tail }, ?_,
      fun answer hmem => hroom answer (List.mem_of_mem_tail hmem), rfl⟩
    have hmalloc : Symtab.malloc y = .done none { y with full := y.full.tail } := by
      unfold Symtab.malloc
      rw [read_bind, update_bind, hnone]
      rfl
    unfold mutExecSymtabFunLineOpen
    rw [bind_done hmalloc]
    rfl
  obtain ⟨nfl, y₁, hrun, hroom', hlog⟩ := hopen
  induction fls with
  | nil =>
      refine ⟨[nfl], y₁, ?_, hroom', hlog⟩
      unfold mutExecSymtabAddXxx
      rw [bind_done hrun]
      rfl
  | cons fl next ih =>
      unfold mutExecSymtabAddXxx
      by_cases hlt : a < fl.lineAddr
      · rw [if_pos hlt]
        refine ⟨nfl :: fl :: next, y₁, ?_, hroom', hlog⟩
        rw [bind_done hrun]
        rfl
      · rw [if_neg hlt]
        obtain ⟨ls, y₂, hnext, hroom₂, hlog₂⟩ := ih
        refine ⟨fl :: ls, y₂, ?_, hroom₂, hlog₂⟩
        rw [bind_done hnext]
        rfl

theorem liftLog_done {x : LogM Unit} {u : Unit} {l : Log} (h : x y.log = .done u l) :
    (liftM x : SymtabM Unit) y = .done u { y with log := l } := by
  have hlift : wp (liftM x : SymtabM Unit) (fun v y' => v = u ∧ y' = { y with log := l })
      (fun _ => False) y := by
    refine (wp_focus Symtab.log (fun l s => { s with log := l }) x).2 ?_
    unfold wp
    rw [h]
    exact ⟨rfl, rfl⟩
  obtain ⟨v, y', hrun, rfl, rfl⟩ := wp_returns hlift fun _ => id
  exact hrun

/-- With memory for all, every call of `mut_exec_symtab_add_range` returns 1. -/
theorem addRange_done (hroom : Roomy y) (hidle : y.log.Idle) (a l : Word) (fn : Option String) :
    ∃ y', mutExecSymtabAddRange a l fn y = .done true y' ∧ Roomy y' ∧ y'.log.Idle := by
  unfold mutExecSymtabAddRange
  rw [read_bind]
  cases hrange : mutExecSymtabRangeOf a y.head with
  | none =>
      have hwarned : wp (mutLogWarning "elf.xxx") (fun _ l => wp mutLogEnd
          (fun _ l' => l'.Idle) (fun _ => False) l) (fun _ => False) y.log := by
        rw [mutLogWarning, wp_mutLogBegin hidle, wp_mutLogEnd]
        exact hidle.say
      obtain ⟨_, l₁, hbegin, hrest⟩ := wp_returns hwarned fun _ => id
      obtain ⟨_, l₂, hend, hidle'⟩ := wp_returns hrest fun _ => id
      refine ⟨{ y with log := l₂ }, ?_, hroom, hidle'⟩
      show ((liftM (mutLogWarning "elf.xxx") : SymtabM Unit) >>= _) y = _
      rw [bind_done (liftLog_done hbegin), bind_done (liftLog_done hend)]
      rfl
  | some found =>
      obtain ⟨l₁, f, l₂⟩ := found
      have hroom₁ : Roomy { y with head := l₁ ++ { f with fileName := fn } :: l₂ } := hroom
      obtain ⟨ls, y', hadd, hroom', hlog⟩ := addXxx_done hroom₁ a l f.funLines
      refine ⟨{ y' with head := l₁ ++ { f with fileName := fn, funLines := ls } :: l₂ }, ?_,
        hroom', ?_⟩
      · show (update _ >>= _) y = _
        rw [update_bind, bind_done hadd]
        rfl
      · show y'.log.Idle
        rw [hlog]
        exact hidle

/-! ## The cursor -/

/-- The string at an offset of the table, as a name. -/
def textAt (b : List Byte) (x : Nat) : String := textOf (cstr 0 b x)

/-- The string is taken for a directory: the byte before its end is `/`. -/
def directoryAt (b : List Byte) (x : Nat) : Bool :=
  b.getD (x + (cstr 0 b x).length - 1) 0 == 0x2f

/-- The string of an `SO` entry that is not taken for a directory. -/
def sourceAt (b : List Byte) (size : Word) (s : Stab) : Option Nat :=
  if mutExecStabType s = stabTypeSo ∧ mutExecStabStr s < size ∧
      directoryAt b (mutExecStabStr s).toNat = false then some (mutExecStabStr s).toNat
  else none

/-- A source sets the name when there is none, and clears it when there is one. -/
def toggle (fn : Option Nat) : Option Nat → Option Nat
  | none => fn
  | some x => if fn.isNone then some x else none

/-- The cursor after an entry. -/
def stabStep (b : List Byte) (size : Word) (c : StabCursor) (s : Stab) : StabCursor :=
  { fn := toggle c.fn (sourceAt b size s)
    baseAddr := if mutExecStabType s = stabTypeFun then s.value else c.baseAddr }

/-- The calls of `mut_exec_symtab_add_range`. -/
def stabCalls (b : List Byte) (size : Word) (c : StabCursor) : List Stab → List RangeCall
  | [] => []
  | s :: stabs =>
      (if mutExecStabType s = stabTypeLine ∧ c.baseAddr ≠ 0 then
        [⟨c.baseAddr + s.value, mutExecStabLine s, c.fn.map (textAt b)⟩]
      else []) ++ stabCalls b size (stabStep b size c s) stabs

/-- The string of the entry ends inside the table. -/
def StringEnds (b : List Byte) (size : Word) (s : Stab) : Prop :=
  mutExecStabType s = stabTypeSo → mutExecStabStr s < size →
    Terminated 0 b (mutExecStabStr s).toNat

/-- The entry's string is empty and there is no byte before it. -/
def ReadsBefore (b : List Byte) (size : Word) (s : Stab) : Prop :=
  mutExecStabType s = stabTypeSo ∧ mutExecStabStr s < size ∧ mutExecStabStr s = 0 ∧
    cstr 0 b 0 = []

instance (b : List Byte) (size : Word) (s : Stab) : Decidable (ReadsBefore b size s) :=
  inferInstanceAs (Decidable (_ ∧ _))

section Loop

variable (hb : r.bytes .stabstr = some b) (hsize : (r.tables .stabstr).size = size)

include hb in
theorem execString_done {x : Nat} (hends : Terminated 0 b x) :
    execString .stabstr x r = .done (cstr 0 b x) r := by
  have htable : execTable .stabstr r = .done b r := by
    unfold execTable
    rw [read_bind, hb]
    rfl
  have hreq : (require (Terminated 0 b x) .unterminated : ElfM Unit) r = .done () r := by
    unfold require
    rw [if_pos (decide_eq_true hends)]
    rfl
  unfold execString
  rw [bind_done htable, bind_done hreq]
  rfl

include hb in
theorem execTable_stabstr : execTable .stabstr r = .done b r := by
  unfold execTable
  rw [read_bind, hb]
  rfl

include hb hsize in
/-- An `SO` entry is read, or the byte before the table is. -/
theorem stabSource_run (hso : mutExecStabType s = stabTypeSo) (hends : StringEnds b size s) :
    execStabSource s c r =
      if ReadsBefore b size s then .halt .beforeTable
      else .done { c with fn := toggle c.fn (sourceAt b size s) } r := by
  unfold execStabSource
  rw [read_bind, hsize]
  by_cases hlt : mutExecStabStr s < size
  · rw [if_pos hlt, bind_done (execString_done hb (hends hso hlt))]
    by_cases hbad : ReadsBefore b size s
    · have hzero : decide (0 < (mutExecStabStr s).toNat +
          (cstr 0 b (mutExecStabStr s).toNat).length) = false := by
        rw [hbad.2.2.1]
        show decide (0 < 0 + (cstr 0 b 0).length) = false
        rw [hbad.2.2.2]
        rfl
      rw [if_pos hbad, hzero]
      rfl
    · have hpos : decide (0 < (mutExecStabStr s).toNat +
          (cstr 0 b (mutExecStabStr s).toNat).length) = true := by
        apply decide_eq_true
        by_contra hnot
        apply hbad
        have hstart : (mutExecStabStr s).toNat = 0 := by omega
        have hlen : (cstr 0 b (mutExecStabStr s).toNat).length = 0 := by omega
        rw [hstart] at hlen
        exact ⟨hso, hlt, BitVec.eq_of_toNat_eq hstart, List.eq_nil_of_length_eq_zero hlen⟩
      rw [if_neg hbad, hpos]
      show (execTable .stabstr >>= _) r = _
      rw [bind_done (execTable_stabstr hb)]
      cases hdir : directoryAt b (mutExecStabStr s).toNat with
      | true =>
          have hslash : (b.getD ((mutExecStabStr s).toNat +
              (cstr 0 b (mutExecStabStr s).toNat).length - 1) 0 == 0x2f) = true := hdir
          have hsource : sourceAt b size s = none :=
            if_neg fun h => Bool.noConfusion (hdir.symm.trans h.2.2)
          rw [hslash, if_pos rfl, hsource]
          rfl
      | false =>
          have hslash : (b.getD ((mutExecStabStr s).toNat +
              (cstr 0 b (mutExecStabStr s).toNat).length - 1) 0 == 0x2f) = false := hdir
          have hsource : sourceAt b size s = some (mutExecStabStr s).toNat :=
            if_pos ⟨hso, hlt, hdir⟩
          rw [hslash, if_neg Bool.false_ne_true, hsource]
          unfold toggle
          cases c.fn <;> rfl
  · have hgood : ¬ ReadsBefore b size s := fun h => hlt h.2.1
    rw [if_neg hlt, if_neg hgood]
    unfold sourceAt
    rw [if_neg fun h => hlt h.2.1]
    rfl

theorem liftSymtab_done {α : Type} {x : SymtabM α} {u : α} {y : Symtab}
    (h : x r.symtab = .done u y) : (liftM x : ElfM α) r = .done u { r with symtab := y } := by
  have hlift : wp (liftM x : ElfM α) (fun v r' => v = u ∧ r' = { r with symtab := y })
      (fun _ => False) r := by
    rw [wp_liftSymtab]
    unfold wp
    rw [h]
    exact ⟨rfl, rfl⟩
  obtain ⟨v, r', hrun, rfl, rfl⟩ := wp_returns hlift fun _ => id
  exact hrun

/-- One round of the loop for a line. -/
theorem extractFrom_line (hline : mutExecStabType s = stabTypeLine) (hbase : c.baseAddr ≠ 0)
    (hb : r.bytes .stabstr = some b)
    (hadd : mutExecSymtabAddRange (c.baseAddr + s.value) (mutExecStabLine s)
      (c.fn.map (textAt b)) r.symtab = .done true y) :
    mutExecExtractDebugInfoFrom c (s :: stabs) r =
      mutExecExtractDebugInfoFrom c stabs { r with symtab := y } := by
  conv => lhs; unfold mutExecExtractDebugInfoFrom
  rw [if_pos hline, if_pos hbase]
  show (execTable .stabstr >>= _) r = _
  rw [bind_done (execTable_stabstr hb)]
  show ((liftM (mutExecSymtabAddRange (c.baseAddr + s.value) (mutExecStabLine s)
    (c.fn.map (textAt b))) : ElfM Bool) >>= _) r = _
  rw [bind_done (liftSymtab_done hadd)]
  rfl

/-- One round of the loop for an entry that adds no line and is no `SO`. -/
theorem extractFrom_other (b : List Byte) (size : Word)
    (hline : ¬ (mutExecStabType s = stabTypeLine ∧ c.baseAddr ≠ 0))
    (hso : mutExecStabType s ≠ stabTypeSo) :
    mutExecExtractDebugInfoFrom c (s :: stabs) r =
      mutExecExtractDebugInfoFrom (stabStep b size c s) stabs r := by
  have hsource : sourceAt b size s = none := if_neg fun h => hso h.1
  unfold stabStep
  rw [hsource]
  show _ = mutExecExtractDebugInfoFrom { c with baseAddr := _ } stabs r
  conv => lhs; unfold mutExecExtractDebugInfoFrom
  by_cases htype : mutExecStabType s = stabTypeLine
  · have hnull : ¬ c.baseAddr ≠ 0 := fun h => hline ⟨htype, h⟩
    have hfun : mutExecStabType s ≠ stabTypeFun := by
      rw [htype]
      decide
    rw [if_pos htype, if_neg hnull, if_neg hfun]
  · rw [if_neg htype]
    by_cases hfun : mutExecStabType s = stabTypeFun
    · rw [if_pos hfun, if_pos hfun]
    · rw [if_neg hfun, if_neg hfun, if_neg hso]

include hb hsize in
/-- An `SO` entry moves the cursor, if it does not read before the table. -/
theorem extractFrom_so (hso : mutExecStabType s = stabTypeSo) (hends : StringEnds b size s) :
    mutExecExtractDebugInfoFrom c (s :: stabs) r =
      if ReadsBefore b size s then .halt .beforeTable
      else mutExecExtractDebugInfoFrom (stabStep b size c s) stabs r := by
  have hline : mutExecStabType s ≠ stabTypeLine := by
    rw [hso]
    decide
  have hfun : mutExecStabType s ≠ stabTypeFun := by
    rw [hso]
    decide
  have hstep : stabStep b size c s = { c with fn := toggle c.fn (sourceAt b size s) } := by
    unfold stabStep
    rw [if_neg hfun]
  conv => lhs; unfold mutExecExtractDebugInfoFrom
  rw [if_neg hline, if_neg hfun, if_pos hso, hstep]
  have hrun := stabSource_run hb hsize hso hends (c := c)
  by_cases hbad : ReadsBefore b size s
  · rw [if_pos hbad] at hrun ⊢
    show Prog.bind (execStabSource s c) _ r = _
    unfold Prog.bind
    rw [hrun]
  · rw [if_neg hbad] at hrun ⊢
    exact bind_done hrun

/-- A line with a function before it calls `add_range`, and nothing else does. -/
theorem stabCalls_line (hline : mutExecStabType s = stabTypeLine) (hbase : c.baseAddr ≠ 0) :
    stabCalls b size c (s :: stabs) =
      ⟨c.baseAddr + s.value, mutExecStabLine s, c.fn.map (textAt b)⟩ ::
        stabCalls b size c stabs := by
  have hso : mutExecStabType s ≠ stabTypeSo := by
    rw [hline]
    decide
  have hfun : mutExecStabType s ≠ stabTypeFun := by
    rw [hline]
    decide
  have hsource : sourceAt b size s = none := if_neg fun h => hso h.1
  have hstep : stabStep b size c s = c := by
    unfold stabStep
    rw [hsource, if_neg hfun]
    rfl
  conv => lhs; unfold stabCalls
  rw [if_pos ⟨hline, hbase⟩, hstep]
  rfl

theorem stabCalls_other (hline : ¬ (mutExecStabType s = stabTypeLine ∧ c.baseAddr ≠ 0)) :
    stabCalls b size c (s :: stabs) = stabCalls b size (stabStep b size c s) stabs := by
  conv => lhs; unfold stabCalls
  rw [if_neg hline]
  rfl

include hb hsize in
/-- Without a read before the table the loop makes its calls. -/
theorem extractFrom_done (hroom : Roomy r.symtab) (hidle : r.symtab.log.Idle)
    (hends : ∀ s ∈ stabs, StringEnds b size s) (hsafe : ∀ s ∈ stabs, ¬ ReadsBefore b size s) :
    ∃ y', mutExecExtractDebugInfoFrom c stabs r = .done true { r with symtab := y' } ∧
      addRanges (stabCalls b size c stabs) r.symtab = .done true y' := by
  induction stabs generalizing c r with
  | nil => exact ⟨r.symtab, rfl, rfl⟩
  | cons s stabs ih =>
      have hends' : ∀ s ∈ stabs, StringEnds b size s := fun t ht =>
        hends t (List.mem_cons_of_mem s ht)
      have hsafe' : ∀ s ∈ stabs, ¬ ReadsBefore b size s := fun t ht =>
        hsafe t (List.mem_cons_of_mem s ht)
      by_cases hline : mutExecStabType s = stabTypeLine ∧ c.baseAddr ≠ 0
      · obtain ⟨y₁, hadd, hroom₁, hidle₁⟩ := addRange_done hroom hidle (c.baseAddr + s.value)
          (mutExecStabLine s) (c.fn.map (textAt b))
        obtain ⟨y', hrest, hcalls⟩ := ih (r := { r with symtab := y₁ }) (c := c) hb hsize hroom₁
          hidle₁ hends' hsafe'
        refine ⟨y', ?_, ?_⟩
        · rw [extractFrom_line hline.1 hline.2 hb hadd]
          exact hrest
        · rw [stabCalls_line hline.1 hline.2]
          unfold addRanges
          rw [bind_done hadd]
          exact hcalls
      · rw [stabCalls_other hline]
        obtain ⟨y', hrest, hcalls⟩ :=
          ih (c := stabStep b size c s) hb hsize hroom hidle hends' hsafe'
        refine ⟨y', ?_, hcalls⟩
        by_cases hso : mutExecStabType s = stabTypeSo
        · rw [extractFrom_so hb hsize hso (hends s List.mem_cons_self),
            if_neg (hsafe s List.mem_cons_self)]
          exact hrest
        · rw [extractFrom_other b size hline hso]
          exact hrest

include hb hsize in
/-- With a read before the table the loop stops there. -/
theorem extractFrom_halts (hroom : Roomy r.symtab) (hidle : r.symtab.log.Idle)
    (hends : ∀ s ∈ stabs, StringEnds b size s) (hbad : ∃ s ∈ stabs, ReadsBefore b size s) :
    mutExecExtractDebugInfoFrom c stabs r = .halt .beforeTable := by
  induction stabs generalizing c r with
  | nil =>
      obtain ⟨s, hs, _⟩ := hbad
      exact absurd hs List.not_mem_nil
  | cons s stabs ih =>
      have hends' : ∀ s ∈ stabs, StringEnds b size s := fun t ht =>
        hends t (List.mem_cons_of_mem s ht)
      have hlater : ¬ ReadsBefore b size s → ∃ s ∈ stabs, ReadsBefore b size s := by
        intro hgood
        obtain ⟨t, ht, htbad⟩ := hbad
        rcases List.mem_cons.1 ht with rfl | ht
        · exact absurd htbad hgood
        · exact ⟨t, ht, htbad⟩
      by_cases hso : mutExecStabType s = stabTypeSo
      · rw [extractFrom_so hb hsize hso (hends s List.mem_cons_self)]
        by_cases hfirst : ReadsBefore b size s
        · rw [if_pos hfirst]
        · rw [if_neg hfirst]
          exact ih hb hsize hroom hidle hends' (hlater hfirst)
      · have hlater' := hlater fun h => hso h.1
        by_cases hline : mutExecStabType s = stabTypeLine ∧ c.baseAddr ≠ 0
        · obtain ⟨y₁, hadd, hroom₁, hidle₁⟩ := addRange_done hroom hidle (c.baseAddr + s.value)
            (mutExecStabLine s) (c.fn.map (textAt b))
          rw [extractFrom_line hline.1 hline.2 hb hadd]
          exact ih (r := { r with symtab := y₁ }) hb hsize hroom₁ hidle₁ hends' hlater'
        · rw [extractFrom_other b size hline hso]
          exact ih hb hsize hroom hidle hends' hlater'

end Loop

/-! ## What the cursor has come to -/

/-- The address of the last function, or 0. -/
def baseOf (before : List Stab) : Word :=
  before.foldl (fun base s => if mutExecStabType s = stabTypeFun then s.value else base) 0

/-- The strings so far that were not taken for directories. -/
def sources (b : List Byte) (size : Word) (before : List Stab) : List Nat :=
  before.filterMap (sourceAt b size)

/-- The last of them if there is an odd number. -/
def toggled (b : List Byte) (size : Word) (before : List Stab) : Option Nat :=
  if (sources b size before).length % 2 = 1 then (sources b size before).getLast? else none

theorem toggled_snoc (b : List Byte) (size : Word) (before : List Stab) (s : Stab) :
    toggled b size (before ++ [s]) = toggle (toggled b size before) (sourceAt b size s) := by
  have hsources : sources b size (before ++ [s]) =
      sources b size before ++ (sourceAt b size s).toList := by
    unfold sources
    rw [List.filterMap_append]
    cases hs : sourceAt b size s <;> simp [hs]
  unfold toggled
  rw [hsources]
  cases sourceAt b size s with
  | none =>
      rw [Option.toList_none, List.append_nil]
      rfl
  | some x =>
      rw [Option.toList_some, List.length_append, List.length_singleton, List.getLast?_append,
        List.getLast?_singleton, Option.some_or]
      by_cases hodd : (sources b size before).length % 2 = 1
      · have heven : ¬ ((sources b size before).length + 1) % 2 = 1 := by omega
        rw [if_pos hodd, if_neg heven]
        cases hlast : (sources b size before).getLast? with
        | none =>
            rw [List.getLast?_eq_none_iff] at hlast
            rw [hlast] at hodd
            exact absurd hodd (by decide)
        | some y => rfl
      · have hodd' : ((sources b size before).length + 1) % 2 = 1 := by omega
        rw [if_neg hodd, if_pos hodd']
        rfl

/-- The cursor after the entries `before`. -/
def cursorOf (b : List Byte) (size : Word) (before : List Stab) : StabCursor :=
  { fn := toggled b size before, baseAddr := baseOf before }

theorem stabStep_cursorOf (b : List Byte) (size : Word) (before : List Stab) (s : Stab) :
    stabStep b size (cursorOf b size before) s = cursorOf b size (before ++ [s]) := by
  unfold cursorOf
  rw [toggled_snoc]
  unfold stabStep baseOf
  rw [List.foldl_append]
  rfl

/-! ## The lines -/

/-- An `SLINE` entry of a function, with the entries before it. -/
structure SLine where
  addr : Word
  line : Word
  before : List Stab
  deriving DecidableEq, Repr

/-- The lines among some entries.  A line belongs to the function before it; no function
of an executable starts at 0. -/
def linesFrom (before : List Stab) : List Stab → List SLine
  | [] => []
  | s :: stabs =>
      (if mutExecStabType s = stabTypeLine ∧ baseOf before ≠ 0 then
        [⟨baseOf before + s.value, mutExecStabLine s, before⟩]
      else []) ++ linesFrom (before ++ [s]) stabs

theorem linesFrom_append (before stabs rest : List Stab) :
    linesFrom before (stabs ++ rest) =
      linesFrom before stabs ++ linesFrom (before ++ stabs) rest := by
  induction stabs generalizing before with
  | nil => simp [linesFrom]
  | cons s stabs ih => simp [linesFrom, ih]

/-- The call for a line. -/
def SLine.call (b : List Byte) (size : Word) (e : SLine) : RangeCall :=
  { addr := e.addr, line := e.line, file := (toggled b size e.before).map (textAt b) }

theorem stabCalls_lines (b : List Byte) (size : Word) (before stabs : List Stab) :
    stabCalls b size (cursorOf b size before) stabs =
      (linesFrom before stabs).map (SLine.call b size) := by
  induction stabs generalizing before with
  | nil => rfl
  | cons s stabs ih =>
      unfold stabCalls linesFrom
      rw [List.map_append, stabStep_cursorOf, ih]
      by_cases hline : mutExecStabType s = stabTypeLine ∧ baseOf before ≠ 0
      · have hcursor : mutExecStabType s = stabTypeLine ∧
            (cursorOf b size before).baseAddr ≠ 0 := hline
        rw [if_pos hline, if_pos hcursor]
        rfl
      · have hcursor : ¬ (mutExecStabType s = stabTypeLine ∧
            (cursorOf b size before).baseAddr ≠ 0) := hline
        rw [if_neg hline, if_neg hcursor]
        rfl

/-! ## Compilation units -/

/-- The index of the entry's string, all 32 bits of it. -/
def Stab.stringIndex (s : Stab) : Nat := s.otherAndStringIndex.toNat

/-- The entries of a compilation unit. -/
structure StabUnit where
  dir : Stab
  file : Stab
  body : List Stab
  closing : Option Stab
  deriving DecidableEq, Repr

def StabUnit.entries (u : StabUnit) : List Stab := u.dir :: u.file :: (u.body ++ u.closing.toList)

/-- The `SO` entries of the unit name what they are to name in the table `b`. -/
structure StabUnit.Ok (b : List Byte) (u : StabUnit) : Prop where
  dirType : mutExecStabType u.dir = stabTypeSo
  dirName : (cstr 0 b u.dir.stringIndex).getLast? = some 0x2f
  fileType : mutExecStabType u.file = stabTypeSo
  fileName : cstr 0 b u.file.stringIndex ≠ []
  fileNoSlash : (cstr 0 b u.file.stringIndex).getLast? ≠ some 0x2f
  body : ∀ s ∈ u.body, mutExecStabType s ≠ stabTypeSo
  closing : ∀ s ∈ u.closing, mutExecStabType s = stabTypeSo ∧ cstr 0 b s.stringIndex = []
  ends : ∀ s ∈ u.entries, mutExecStabType s = stabTypeSo → Terminated 0 b s.stringIndex

/-- The index that the source takes is not above the entry's. -/
theorem stabStr_le (s : Stab) : (mutExecStabStr s).toNat ≤ s.stringIndex := by
  unfold mutExecStabStr Stab.stringIndex
  rw [BitVec.toNat_and]
  exact Nat.and_le_left

/-- The strings of a unit end in the table, at the index the source takes as well. -/
theorem StabUnit.Ok.stringEnds {u : StabUnit} (h : u.Ok b) (size : Word) :
    ∀ s ∈ u.entries, StringEnds b size s := by
  intro s hs hso _
  have hend : 0 ∈ b.drop s.stringIndex := h.ends s hs hso
  have hle := stabStr_le s
  have hdrop : b.drop s.stringIndex =
      (b.drop (mutExecStabStr s).toNat).drop (s.stringIndex - (mutExecStabStr s).toNat) := by
    rw [List.drop_drop]
    congr 1
    omega
  rw [hdrop] at hend
  exact List.mem_of_mem_drop hend

/-- The lines of the units, each with the `SO` entry of its unit's source file. -/
def slinesOf (before : List Stab) : List StabUnit → List (SLine × Stab)
  | [] => []
  | u :: units =>
      ((linesFrom before u.entries).map fun e => (e, u.file)) ++
        slinesOf (before ++ u.entries) units

theorem slinesOf_lines (before : List Stab) (units : List StabUnit) :
    (slinesOf before units).map Prod.fst =
      linesFrom before (units.flatMap StabUnit.entries) := by
  induction units generalizing before with
  | nil => rfl
  | cons u units ih =>
      unfold slinesOf
      rw [List.map_append, ih, List.map_map, List.flatMap_cons, linesFrom_append]
      congr 1
      exact List.map_id _

/-- The last line of a function. -/
def lastLine (head : List SymtabFun) (f : SymtabFun) (units : List StabUnit) :
    Option (SLine × Stab) :=
  ((slinesOf [] units).filter fun e => inside head f e.1.addr).getLast?

/-- The source file of the unit of the function's last line, and null without lines. -/
def fileOf (b : List Byte) (head : List SymtabFun) (f : SymtabFun) (units : List StabUnit) :
    Option String :=
  (lastLine head f units).map fun e => textAt b e.2.stringIndex

/-- Up to the function's last line there is an odd number of strings that are not taken for
directories, and the last of them is the file's; without lines the storage of the function
held null. -/
def FileKnown (b : List Byte) (size : Word) (head : List SymtabFun) (f : SymtabFun)
    (units : List StabUnit) : Prop :=
  match lastLine head f units with
  | none => f.fileName = none
  | some (e, file) =>
      (sources b size e.before).length % 2 = 1 ∧
        ∃ x, (sources b size e.before).getLast? = some x ∧ textAt b x = textAt b file.stringIndex

theorem fileKnown_iff (b : List Byte) (size : Word) (head : List SymtabFun) (f : SymtabFun)
    (units : List StabUnit) :
    FileKnown b size head f units ↔
      (((linesOf head f ((linesFrom [] (units.flatMap StabUnit.entries)).map
        (SLine.call b size))).getLast?).map (·.file)).getD f.fileName =
        fileOf b head f units := by
  have hlines : linesOf head f ((linesFrom [] (units.flatMap StabUnit.entries)).map
      (SLine.call b size)) =
      ((slinesOf [] units).filter fun e => inside head f e.1.addr).map
        fun e => e.1.call b size := by
    unfold linesOf
    rw [← slinesOf_lines, List.map_map, List.filter_map]
    rfl
  rw [hlines, List.getLast?_map, Option.map_map]
  unfold FileKnown fileOf lastLine
  cases ((slinesOf [] units).filter fun e => inside head f e.1.addr).getLast? with
  | none => rfl
  | some last =>
      obtain ⟨e, file⟩ := last
      show _ ↔ (toggled b size e.before).map (textAt b) = some (textAt b file.stringIndex)
      unfold toggled
      by_cases hodd : (sources b size e.before).length % 2 = 1
      · rw [if_pos hodd, Option.map_eq_some_iff]
        exact and_iff_right hodd
      · rw [if_neg hodd]
        constructor
        · intro h
          exact absurd h.1 hodd
        · intro h
          exact absurd h nofun

instance (b : List Byte) (size : Word) (head : List SymtabFun) (f : SymtabFun)
    (units : List StabUnit) : Decidable (FileKnown b size head f units) :=
  decidable_of_iff _ (fileKnown_iff b size head f units).symm

/-! ## The debugging entries of a file -/

/-- The entries are read into a block that is in use. -/
theorem extractStabs_block {p : Nat} {r₀ : ExecReader}
    (h : mutExecExtractStabs r₀ = .done (some (p, stabs)) r) :
    ∃ bytes, r.blocks[p]?.join = some bytes := by
  have heffect : wp mutExecExtractStabs
      (fun o r' => ∀ p l, o = some (p, l) → ∃ bytes, r'.blocks[p]?.join = some bytes)
      (fun _ => True) r₀ := by
    unfold mutExecExtractStabs
    rw [wp_bind, wp_read]
    cases r₀.selected .stabs with
    | none => exact trivial
    | some header =>
        show wp (if _ then _ else _) _ _ _
        rw [wp_ite]
        split
        · exact wp_any fun _ _ => nofun
        · refine wp_mono (execRecordsOpen_effect _ _ _ header r₀) ?_ fun _ _ => trivial
          intro o r' ho p l hp
          obtain ⟨rfl, bytes, hblocks⟩ := ho p l hp
          refine ⟨bytes, ?_⟩
          rw [hblocks.blocks, List.getElem?_concat_length]
          rfl
  exact wp_done heffect h p stabs rfl

/-- The entries are those of the units, whose strings end inside the table; the functions
are in order, and memory and the log are there for every call. -/
structure Entries (b : List Byte) (units : List StabUnit) (r : ExecReader) : Prop where
  table : r.bytes .stabstr = some b
  units : ∀ u ∈ units, u.Ok b
  ordered : Ordered r.symtab.head
  roomy : Roomy r.symtab
  idle : r.symtab.log.Idle

theorem Entries.ends {units : List StabUnit} (h : Entries b units r) (size : Word) :
    ∀ s ∈ units.flatMap StabUnit.entries, StringEnds b size s := by
  intro s hs
  obtain ⟨u, hu, hsu⟩ := List.mem_flatMap.1 hs
  exact (h.units u hu).stringEnds size s hsu

/-- The entries of any compilation units: no byte before the table is read and every
lookup in a function gives the source file of its last line, and null without lines, if and
only if no entry with the empty string at index 0 is met and the file of every function is
known. -/
theorem files_exact_iff {units : List StabUnit} {p : Nat} {r₀ : ExecReader}
    (hstabs : mutExecExtractStabs r₀ =
      .done (some (p, units.flatMap StabUnit.entries)) r) (h : Entries b units r) :
    (∃ r', mutExecExtractDebugInfo r₀ = .done true r' ∧
      ∀ f ∈ r.symtab.head, ∀ a, Covers r.symtab.head a f →
        ∃ x, mutExecSymtabLookupAddr a r'.symtab.head = some x ∧
          x.functionAddr = f.funStartAddr ∧
          x.fileName = fileOf b r.symtab.head f units) ↔
      (∀ s ∈ units.flatMap StabUnit.entries,
        ¬ ReadsBefore b (r.tables .stabstr).size s) ∧
      ∀ f ∈ r.symtab.head, FileKnown b (r.tables .stabstr).size r.symtab.head f units := by
  by_cases hsafe : ∀ s ∈ units.flatMap StabUnit.entries,
      ¬ ReadsBefore b (r.tables .stabstr).size s
  · obtain ⟨y, hloop, hcalls⟩ := extractFrom_done (c := { fn := none, baseAddr := 0 }) h.table rfl
      h.roomy h.idle (h.ends _) hsafe
    have hlines := stabCalls_lines b (r.tables .stabstr).size []
      (units.flatMap StabUnit.entries)
    have hstart : cursorOf b (r.tables .stabstr).size [] = { fn := none, baseAddr := 0 } := rfl
    rw [hstart] at hlines
    rw [hlines] at hcalls
    obtain ⟨bytes, hblock⟩ := extractStabs_block hstabs
    have hfreed : mutMemFree (some p) { r with symtab := y } =
        .done () { r with symtab := y, blocks := r.blocks.set p none } := by
      show (read >>= _) _ = _
      rw [read_bind]
      show (require (r.blocks[p]?.join).isSome _ >>= _) _ = _
      rw [hblock]
      rfl
    have hrun : mutExecExtractDebugInfo r₀ =
        .done true { r with symtab := y, blocks := r.blocks.set p none } := by
      unfold mutExecExtractDebugInfo
      rw [bind_done hstabs]
      show (mutExecExtractDebugInfoFrom _ _ >>= _) r = _
      rw [bind_done hloop, bind_done hfreed]
      rfl
    constructor
    · rintro ⟨r', hdone, hfiles⟩
      refine ⟨hsafe, ?_⟩
      intro f hf
      have hown : Covers r.symtab.head f.funStartAddr f :=
        ⟨hf, BitVec.le_refl _, fun _ _ hle => hle⟩
      obtain ⟨x, hx, -, hfile⟩ := hfiles f hf f.funStartAddr hown
      have hsame : Outcome.done true r' = Outcome.done true
          { r with symtab := y, blocks := r.blocks.set p none } := hdone.symm.trans hrun
      injection hsame with _ hr'
      rw [hr', show ({ r with symtab := y, blocks := r.blocks.set p none } :
        ExecReader).symtab.head = y.head from rfl, lookup_added h.ordered hcalls hown] at hx
      rw [fileKnown_iff, ← hfile, ← Option.some.inj hx]
    · rintro ⟨_, hknown⟩
      refine ⟨_, hrun, ?_⟩
      intro f hf a hcover
      exact ⟨_, lookup_added h.ordered hcalls hcover, rfl, (fileKnown_iff ..).1 (hknown f hf)⟩
  · have hbad : ∃ s ∈ units.flatMap StabUnit.entries,
        ReadsBefore b (r.tables .stabstr).size s := by
      by_contra hnone
      exact hsafe fun s hs hbad => hnone ⟨s, hs, hbad⟩
    have hloop := extractFrom_halts (c := { fn := none, baseAddr := 0 }) h.table rfl h.roomy
      h.idle (h.ends _) hbad
    constructor
    · rintro ⟨r', hdone, _⟩
      unfold mutExecExtractDebugInfo at hdone
      rw [bind_done hstabs] at hdone
      have hdone' : Prog.bind (mutExecExtractDebugInfoFrom { fn := none, baseAddr := 0 }
          (units.flatMap StabUnit.entries)) _ r = .done true r' := hdone
      unfold Prog.bind at hdone'
      rw [hloop] at hdone'
      cases hdone'
    · rintro ⟨hsafe', _⟩
      exact absurd hsafe' hsafe

/-! ## Units that are not closed -/

/-- The bytes of a word. -/
def wordBytes (w : Word) : List Byte :=
  [w.extractLsb' 0 8, w.extractLsb' 8 8, w.extractLsb' 16 8, w.extractLsb' 24 8]

def Stab.bytes (s : Stab) : List Byte :=
  wordBytes s.otherAndStringIndex ++ wordBytes s.lineAndType ++ wordBytes s.value

/-- A directory `d/` and two files `a` and `c`. -/
def twoNames : List Byte := [0, 0x64, 0x2f, 0, 0x61, 0, 0x63, 0]

/-- Two units, each with a function of one line, which end with the entry `closing`. -/
def twoUnits (closing : Option Stab) : List StabUnit :=
  [{ dir := ⟨1, stabTypeSo, 0⟩, file := ⟨4, stabTypeSo, 0⟩
     body := [⟨0, stabTypeFun, 0x1000⟩, ⟨0, 0x10000 + stabTypeLine, 0⟩], closing },
   { dir := ⟨1, stabTypeSo, 0⟩, file := ⟨6, stabTypeSo, 0⟩
     body := [⟨0, stabTypeFun, 0x2000⟩, ⟨0, 0x20000 + stabTypeLine, 0⟩], closing }]

/-- An entry with the empty string that is not taken for a directory. -/
def closingStab : Stab := ⟨5, stabTypeSo, 0⟩

/-- The functions of the units. -/
def twoFunctions : Symtab :=
  { head := [⟨"f", 0x1000, none, []⟩, ⟨"g", 0x2000, none, []⟩], log := mutLogOpen, full := []
    leftover := none }

/-- A reader that is to extract the entries of the units. -/
def twoUnitsReader (units : List StabUnit) : ExecReader :=
  { ExecReader.plain ((units.flatMap StabUnit.entries).flatMap Stab.bytes) with
    blocks := [some twoNames]
    tables := fun _ => ⟨some 0, 8⟩
    symtab := twoFunctions
    slots := fun _ =>
      (List.replicate 5 (wordBytes 0)).flatten ++
        wordBytes (.ofNat 32 (12 * (units.flatMap StabUnit.entries).length)) ++
        (List.replicate 3 (wordBytes 0)).flatten ++ wordBytes 12
    sections := fun _ => some 0 }

theorem twoUnits_extracted {units : List StabUnit} (hok : ∀ u ∈ units, u.Ok twoNames)
    (hseen : (mutExecExtractStabs (twoUnitsReader units)).seen
      (fun r => (r.bytes .stabstr, (r.tables .stabstr).size, r.symtab)) =
        some (some (1, units.flatMap StabUnit.entries), some twoNames, 8, twoFunctions)) :
    ∃ r, mutExecExtractStabs (twoUnitsReader units) =
        .done (some (1, units.flatMap StabUnit.entries)) r ∧
      (r.tables .stabstr).size = 8 ∧ r.symtab = twoFunctions ∧ Entries twoNames units r := by
  obtain ⟨r, hrun, hlook⟩ := Outcome.of_seen hseen
  obtain ⟨htable, hrest⟩ := Prod.mk.inj hlook
  obtain ⟨hsize, hsymtab⟩ := Prod.mk.inj hrest
  refine ⟨r, hrun, hsize, hsymtab, htable, hok, ?_, ?_, ?_⟩
  · rw [hsymtab]
    unfold Ordered
    decide
  · rw [hsymtab]
    exact List.forall_mem_nil _
  · rw [hsymtab]
    exact Log.idle_mutLogOpen

theorem twoUnits_ok {closing : Option Stab} (h : closing = none ∨ closing = some closingStab) :
    ∀ u ∈ twoUnits closing, u.Ok twoNames := by
  intro u hu
  rcases List.mem_cons.1 hu with rfl | hu
  · rcases h with rfl | rfl <;> constructor <;> decide
  · rw [List.mem_singleton.1 hu]
    rcases h with rfl | rfl <;> constructor <;> decide

/-- The second unit's file is lost. -/
theorem file_lost :
    ¬ ∀ (b : List Byte) (units : List StabUnit) (p : Nat) (r₀ r : ExecReader),
      mutExecExtractStabs r₀ = .done (some (p, units.flatMap StabUnit.entries)) r →
      Entries b units r → ∃ r', mutExecExtractDebugInfo r₀ = .done true r' ∧
        ∀ f ∈ r.symtab.head, ∀ a, Covers r.symtab.head a f →
          ∃ x, mutExecSymtabLookupAddr a r'.symtab.head = some x ∧
            x.functionAddr = f.funStartAddr ∧
            x.fileName = fileOf b r.symtab.head f units := by
  intro h
  obtain ⟨r, hstabs, -, hsymtab, hentries⟩ :=
    twoUnits_extracted (twoUnits_ok (.inl rfl)) (by decide +kernel)
  obtain ⟨r', hdone, hfiles⟩ := h _ _ _ _ _ hstabs hentries
  rw [hsymtab] at hfiles
  have hcover : Covers twoFunctions.head 0x2000 ⟨"g", 0x2000, none, []⟩ := by
    refine ⟨by decide, by decide, ?_⟩
    decide
  obtain ⟨x, hx, -, hfile⟩ := hfiles ⟨"g", 0x2000, none, []⟩ (by decide) 0x2000 hcover
  have hseen : (mutExecExtractDebugInfo (twoUnitsReader (twoUnits none))).seen
      (fun r => (mutExecSymtabLookupAddr 0x2000 r.symtab.head).map (·.fileName)) =
        some (true, some none) := by decide +kernel
  rw [hdone] at hseen
  have hnone : (mutExecSymtabLookupAddr 0x2000 r'.symtab.head).map (·.fileName) = some none :=
    congrArg Prod.snd (Option.some.inj hseen)
  rw [hx] at hnone
  have hexpected : fileOf twoNames twoFunctions.head ⟨"g", 0x2000, none, []⟩ (twoUnits none) =
      some "c" := by decide +kernel
  rw [hexpected] at hfile
  rw [Option.map_some, hfile] at hnone
  exact absurd (Option.some.inj hnone) nofun

/-- Every lookup in one of the functions gives the file of its unit. -/
def FilesGiven (units : List StabUnit) : Prop :=
  ∃ r r', mutExecExtractStabs (twoUnitsReader units) =
      .done (some (1, units.flatMap StabUnit.entries)) r ∧
    mutExecExtractDebugInfo (twoUnitsReader units) = .done true r' ∧
    ∀ f ∈ r.symtab.head, ∀ a, Covers r.symtab.head a f →
      ∃ x, mutExecSymtabLookupAddr a r'.symtab.head = some x ∧
        x.functionAddr = f.funStartAddr ∧
        x.fileName = fileOf twoNames r.symtab.head f units

/-- The files of two units that are closed are given, and without the closing entries they
are not. -/
theorem files_exact_iff_twoUnits :
    FilesGiven (twoUnits (some closingStab)) ∧ ¬ FilesGiven (twoUnits none) := by
  constructor
  · obtain ⟨r, hstabs, hsize, hsymtab, hentries⟩ :=
      twoUnits_extracted (twoUnits_ok (.inr rfl)) (by decide +kernel)
    have hknown : (∀ s ∈ (twoUnits (some closingStab)).flatMap StabUnit.entries,
        ¬ ReadsBefore twoNames (r.tables .stabstr).size s) ∧
        ∀ f ∈ r.symtab.head, FileKnown twoNames (r.tables .stabstr).size r.symtab.head f
          (twoUnits (some closingStab)) := by
      rw [hsize, hsymtab]
      decide +kernel
    obtain ⟨r', hdone, hfiles⟩ := (files_exact_iff hstabs hentries).2 hknown
    exact ⟨r, r', hstabs, hdone, hfiles⟩
  · obtain ⟨r, hstabs, hsize, hsymtab, hentries⟩ :=
      twoUnits_extracted (twoUnits_ok (.inl rfl)) (by decide +kernel)
    rintro ⟨r₁, r', hstabs₁, hdone, hfiles⟩
    rw [hstabs] at hstabs₁
    cases hstabs₁
    obtain ⟨-, hknown⟩ := (files_exact_iff hstabs hentries).1 ⟨r', hdone, hfiles⟩
    rw [hsize, hsymtab] at hknown
    have hlost : ¬ ∀ f ∈ twoFunctions.head,
        FileKnown twoNames 8 twoFunctions.head f (twoUnits none) := by decide +kernel
    exact hlost hknown

end MutTracker.Source
