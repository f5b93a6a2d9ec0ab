import MutTracker.Verified.Grammar
import MutTracker.Verified.Selection
import MutTracker.Verified.Session
import MutTracker.Verified.Slots

/-!
# The log over a whole session

The grammar is kept from opening the executable to closing it, but for one thing.
When a run ends over a fatal error, closing the process kills the target, and a kill
that `ptrace` refuses is to be logged: another message, after the fatal one.

## Main results

* `goes_execOpen` — reading the executable keeps to the grammar.
* `mutProcessClose_grammatical` — what closing the process needs of the log.
* `grammar_kept_iff` — no assertion of the log fails if and only if no kill is
  refused after a fatal error.
-/

namespace MutTracker.Source

open MutTracker.Logic MutTracker.Logic.Prog LogState

variable {α : Type} {i : LogState} {flags : Control} {usageFunction : Option String}
  {fork : Fork} {name : String} {m m' : Mut}

/-! ## The symbol table -/

abbrev SymtabGoes (i : LogState) (g : α → LogState) (x : SymtabM α) : Prop :=
  Goes (fun i s => i.At s.log) Grammatical i g x

theorem goes_symtabLog {g : α → LogState} {y : LogM α} (hy : LogGoes i g y) :
    SymtabGoes i g (liftM y : SymtabM α) :=
  hy.focus (fun _ _ h => h) fun _ _ _ h => h

theorem goes_symtabMalloc : SymtabGoes i (fun _ => i) Symtab.malloc :=
  .bind .read fun _ => .bind (.update fun _ hs => hs) fun _ => .pure fun _ hs => hs

theorem goes_funOpen (name : String) (a : Word) :
    SymtabGoes .idle bySome (mutExecSymtabFunOpen name a) := by
  apply goes_symtabMalloc.bind
  intro answer
  cases answer with
  | some errno =>
      exact .bind (goes_symtabLog (goes_fatal _ _)) fun _ =>
        .bind (goes_symtabLog goes_fatalEnd) fun _ => .pure fun _ hs => hs
  | none => exact .bind .read fun _ => .pure fun _ hs => hs

theorem goes_addFunFrom (n : String) (a : Word) (fs : List SymtabFun) :
    SymtabGoes .idle bySome (mutExecSymtabAddFunFrom n a fs) := by
  induction fs with
  | nil =>
      apply (goes_funOpen n a).bind
      intro nf
      cases nf with
      | none => exact .pure fun _ hs => hs
      | some nf => exact .pure fun _ hs => hs
  | cons f next ih =>
      refine .ite ?_ (.ite (.pure fun _ hs => hs) ?_)
      · apply (goes_funOpen n a).bind
        intro nf
        cases nf with
        | none => exact .pure fun _ hs => hs
        | some nf => exact .pure fun _ hs => hs
      · apply ih.bind
        intro next'
        cases next' with
        | none => exact .pure fun _ hs => hs
        | some next' => exact .pure fun _ hs => hs

theorem goes_addFun (n : String) (a : Word) :
    SymtabGoes .idle byOk (mutExecSymtabAddFun n a) := by
  apply Goes.read.bind
  intro s
  apply (goes_addFunFrom n a _).bind
  intro head
  cases head with
  | none => exact .pure fun _ hs => hs
  | some head => exact .bind (.update fun _ hs => hs) fun _ => .pure fun _ hs => hs

theorem goes_funLineOpen (a l : Word) :
    SymtabGoes .idle bySome (mutExecSymtabFunLineOpen a l) := by
  apply goes_symtabMalloc.bind
  intro answer
  cases answer with
  | some errno =>
      exact .bind (goes_symtabLog (goes_fatal _ _)) fun _ =>
        .bind (goes_symtabLog goes_fatalEnd) fun _ => .pure fun _ hs => hs
  | none => exact .pure fun _ hs => hs

theorem goes_addXxx (a l : Word) (fls : List SymtabFunLine) :
    SymtabGoes .idle bySome (mutExecSymtabAddXxx a l fls) := by
  induction fls with
  | nil =>
      apply (goes_funLineOpen a l).bind
      intro nfl
      cases nfl with
      | none => exact .pure fun _ hs => hs
      | some nfl => exact .pure fun _ hs => hs
  | cons fl next ih =>
      refine .ite ?_ ?_
      · apply (goes_funLineOpen a l).bind
        intro nfl
        cases nfl with
        | none => exact .pure fun _ hs => hs
        | some nfl => exact .pure fun _ hs => hs
      · apply ih.bind
        intro next'
        cases next' with
        | none => exact .pure fun _ hs => hs
        | some next' => exact .pure fun _ hs => hs

/-- A line of no function is warned about. -/
theorem goes_addRange (a l : Word) (fn : Option String) :
    SymtabGoes .idle byOk (mutExecSymtabAddRange a l fn) := by
  apply Goes.read.bind
  intro s
  cases mutExecSymtabRangeOf a s.head with
  | none =>
      exact .bind (goes_symtabLog (goes_begin _ _)) fun _ =>
        .bind (goes_symtabLog goes_end) fun _ => .pure fun _ hs => hs
  | some found =>
      refine .bind (.update fun _ hs => hs) fun _ => ?_
      apply (goes_addXxx a l _).bind
      intro funLines
      cases funLines with
      | none => exact .pure fun _ hs => hs
      | some funLines => exact .bind (.update fun _ hs => hs) fun _ => .pure fun _ hs => hs

/-! ## The library calls of the reader -/

/-- The assertions of `mut_log.c`, met while reading the executable. -/
def ExecHalt.ofLog : ExecHalt → Bool
  | .halt h => h.ofLog
  | _ => false

abbrev ExecGrammatical (e : ExecHalt) : Prop := e.ofLog = false

abbrev ElfGoes (i : LogState) (g : α → LogState) (x : ElfM α) : Prop :=
  Goes (fun i r => i.At r.symtab.log) ExecGrammatical i g x

theorem goes_liftSymtab {g : α → LogState} {x : SymtabM α} (hx : SymtabGoes i g x) :
    ElfGoes i g (liftM x : ElfM α) :=
  hx.embed (fun _ _ h => h) (fun _ _ _ h => h) fun _ he => he

theorem goes_elfLog {g : α → LogState} {y : LogM α} (hy : LogGoes i g y) :
    ElfGoes i g (liftM y : ElfM α) :=
  goes_liftSymtab (goes_symtabLog hy)

theorem goes_execFatal (fatal : String) (errno : Nat) (args : List Arg) :
    ElfGoes .idle (fun _ => .ended) (execFatal fatal errno args) :=
  .bind (goes_elfLog (goes_fatal _ _)) fun _ => .bind (goes_elfLog (goes_args rfl _))
    fun _ => goes_elfLog goes_fatalEnd

theorem goes_execIo : ElfGoes i (fun _ => i) execIo :=
  .bind .read fun _ => .bind (.update fun _ hr => hr) fun _ => .pure fun _ hr => hr

theorem goes_execFopen : ElfGoes i (fun _ => i) execFopen := by
  apply goes_execIo.bind
  intro answer
  cases answer with
  | some errno => exact .pure fun _ hr => hr
  | none => exact .bind (.update fun _ hr => hr) fun _ => .pure fun _ hr => hr

theorem goes_execFclose : ElfGoes i (fun _ => i) execFclose :=
  .bind (.update fun _ hr => hr) fun _ => .bind goes_execIo fun _ => .pure fun _ hr => hr

theorem goes_execFseek (offset : Word) : ElfGoes i (fun _ => i) (execFseek offset) := by
  apply goes_execIo.bind
  intro answer
  cases answer with
  | some errno => exact .pure fun _ hr => hr
  | none =>
      refine .ite ?_ ?_
      · exact .bind (.update fun _ hr => hr) fun _ => .pure fun _ hr => hr
      · exact .bind (.update fun _ hr => hr) fun _ => .pure fun _ hr => hr

theorem goes_execFread (size : Nat) : ElfGoes i (fun _ => i) (execFread size) := by
  apply goes_execIo.bind
  intro answer
  cases answer with
  | some errno => exact .pure fun _ hr => hr
  | none =>
      refine .bind .read fun r => .bind (.update fun _ hr => hr) fun _ => ?_
      exact .ite (.pure fun _ hr => hr) (.pure fun _ hr => hr)

theorem goes_execFreadHeader (size : Word) (old : List Byte) :
    ElfGoes i (fun _ => i) (execFreadHeader size old) := by
  refine .bind (.require rfl) fun _ => .bind (goes_execFread _) fun b => ?_
  cases b with
  | none => exact .pure fun _ hr => hr
  | some b => exact .pure fun _ hr => hr

theorem goes_execFreadLocal (size : Word) : ElfGoes i (fun _ => i) (execFreadLocal size) := by
  refine .bind .read fun r => .bind (.update fun _ hr => hr) fun _ => ?_
  apply (goes_execFreadHeader _ _).bind
  intro b
  cases b with
  | none => exact .pure fun _ hr => hr
  | some b => exact .pure fun _ hr => hr

theorem goes_mutMemMalloc : ElfGoes i (fun _ => i) mutMemMalloc := by
  apply (goes_liftSymtab goes_symtabMalloc).bind
  intro answer
  cases answer with
  | some errno => exact .bind (.update fun _ hr => hr) fun _ => .pure fun _ hr => hr
  | none =>
      exact .bind .read fun _ => .bind (.update fun _ hr => hr) fun _ => .pure fun _ hr => hr

theorem goes_mutMemFree (p : Option Nat) : ElfGoes i (fun _ => i) (mutMemFree p) := by
  cases p with
  | none => exact .pure fun _ hr => hr
  | some p => exact .bind .read fun _ => .bind (.require rfl) fun _ => .update fun _ hr => hr

theorem goes_execFreadBlock (p : Nat) (size : Word) :
    ElfGoes i (fun _ => i) (execFreadBlock p size) := by
  apply (goes_execFread _).bind
  intro b
  cases b with
  | none => exact .pure fun _ hr => hr
  | some b => exact .bind (.update fun _ hr => hr) fun _ => .pure fun _ hr => hr

theorem goes_execBlock (p : Nat) : ElfGoes i (fun _ => i) (execBlock p) := by
  apply Goes.read.bind
  intro r
  cases r.blocks[p]?.join with
  | none => exact .stop rfl
  | some b => exact .pure fun _ hr => hr

theorem goes_execTable (t : Table) : ElfGoes i (fun _ => i) (execTable t) := by
  apply Goes.read.bind
  intro r
  cases r.bytes t with
  | none => exact .stop rfl
  | some b => exact .pure fun _ hr => hr

theorem goes_execString (t : Table) (offset : Nat) :
    ElfGoes i (fun _ => i) (execString t offset) :=
  .bind (goes_execTable t) fun _ => .bind (.require rfl) fun _ => .pure fun _ hr => hr

theorem goes_execStrcmp (t : Table) (offset : Nat) (s : String) :
    ElfGoes i (fun _ => i) (execStrcmp t offset s) :=
  .bind (goes_execString t offset) fun _ => .pure fun _ hr => hr

theorem goes_execPoke (t : Table) (offset : Nat) (c : Byte) :
    ElfGoes i (fun _ => i) (execPoke t offset c) := by
  refine .bind (goes_execTable t) fun b => .update fun r hr => ?_
  unfold ExecReader.setBytes
  cases (r.tables t).data with
  | none => exact hr
  | some p => exact hr

theorem goes_strtabLookup (t : Table) (str : Word) :
    ElfGoes i (fun _ => i) (mutExecStrtabLookup t str) :=
  .bind .read fun _ => .bind (.require rfl) fun _ => .pure fun _ hr => hr

theorem goes_strtabClose (t : Table) : ElfGoes i (fun _ => i) (mutExecStrtabClose t) :=
  .bind .read fun _ => goes_mutMemFree _

theorem goes_symtabClose : ElfGoes i (fun _ => i) mutExecSymtabClose :=
  .bind .read fun _ => .bind (.require rfl) fun _ => .update fun _ hr => hr

/-! ## Reading the executable -/

/-- A fatal message, and the answer no. -/
theorem goes_refuse (fatal : String) (errno : Nat) (args : List Arg) :
    ElfGoes .idle byOk (do
      execFatal fatal errno args
      return false) :=
  .bind (goes_execFatal _ _ _) fun _ => .pure fun _ hr => hr

/-- A fatal message, what is freed after it, and the answer. -/
theorem goes_release {g : α → LogState} {a : α} (fatal : String) (errno : Nat)
    (args : List Arg) (p : Option Nat) (hg : g a = .ended) :
    ElfGoes .idle g (do
      execFatal fatal errno args
      mutMemFree p
      return a) :=
  .bind (goes_execFatal _ _ _) fun _ => .bind (goes_mutMemFree p) fun _ =>
    .pure fun _ hr => hg ▸ hr

theorem goes_checkId : ElfGoes .idle byOk mutExecCheckId :=
  .bind .read fun _ => .ite (goes_refuse _ _ _) (.pure fun _ hr => hr)

/-- A file of another class is no fatal error. -/
theorem goes_checkClass : ElfGoes .idle byOk mutExecCheckClass := by
  refine .bind .read fun r => .ite ?_ (.pure fun _ hr => hr)
  refine .bind (goes_elfLog (goes_begin _ _)) fun _ => ?_
  refine .bind (goes_elfLog (goes_arg rfl _)) fun _ => ?_
  refine .bind (goes_elfLog (goes_arg rfl _)) fun _ => ?_
  exact .bind (goes_elfLog goes_end) fun _ => .pure fun _ => .inl

theorem goes_checkType : ElfGoes .idle byOk mutExecCheckType :=
  .bind .read fun _ => .ite (goes_refuse _ _ _) (.pure fun _ hr => hr)

theorem goes_stringsOpen (t : Table) (h : Shdr) (fullArgs : List Arg)
    (ioArgs : Nat → List Arg) : ElfGoes .idle byOk (execStringsOpen t h fullArgs ioArgs) := by
  refine .bind (.update fun _ hr => hr) fun _ => .bind goes_mutMemMalloc fun block => ?_
  cases block with
  | none =>
      refine .bind (.update fun _ hr => hr) fun _ => .bind .read fun r => ?_
      exact goes_refuse _ _ _
  | some p =>
      refine .bind (.update fun _ hr => hr) fun _ => ?_
      refine .check (k := fun _ => .idle) (goes_execFseek _) ?_ ?_
      · exact .bind .read fun r => goes_release _ _ _ _ rfl
      refine .check (k := fun _ => .idle) (goes_execFreadBlock _ _) ?_ (.pure fun _ hr => hr)
      exact .bind .read fun r => goes_release _ _ _ _ rfl

theorem goes_strtabOpen (symtab : Shdr) (t : Table) :
    ElfGoes .idle byOk (mutExecStrtabOpen symtab t) := by
  refine .bind .read fun r => .ite (goes_refuse _ _ _) (.ite (goes_refuse _ _ _) ?_)
  refine .check (k := fun _ => .idle) (goes_execFseek _) ?_ ?_
  · exact .bind .read fun _ => goes_refuse _ _ _
  apply (goes_execFread _).bind
  intro b
  cases b with
  | none => exact .bind .read fun _ => goes_refuse _ _ _
  | some b => exact .ite (goes_refuse _ _ _) (goes_stringsOpen _ _ _ _)

theorem goes_stabstrOpen (stabs : Shdr) : ElfGoes .idle byOk (mutExecStabstrOpen stabs) := by
  refine .bind .read fun r => .ite (goes_refuse _ _ _) ?_
  refine .check (k := fun _ => .idle) (goes_execFseek _) (goes_refuse _ _ _) ?_
  apply (goes_execFreadLocal _).bind
  intro h
  cases h with
  | none => exact .bind .read fun _ => goes_refuse _ _ _
  | some h => exact .ite (goes_refuse _ _ _) (goes_stringsOpen _ _ _ _)

theorem goes_shstrtabOpen : ElfGoes .idle byOk mutExecShstrtabOpen := by
  apply Goes.read.bind
  intro r
  refine .check (k := fun _ => .idle) (goes_execFseek _) ?_ ?_
  · exact .bind .read fun _ => goes_refuse _ _ _
  apply (goes_execFreadLocal _).bind
  intro h
  cases h with
  | none => exact .bind .read fun _ => goes_refuse _ _ _
  | some h => exact .ite (goes_refuse _ _ _) (goes_stringsOpen _ _ _ _)

theorem goes_execSelect (w : Wanted) : ElfGoes i (fun _ => i) (execSelect w) :=
  .update fun _ hr => hr

theorem goes_switchSection (h : Shdr) : ElfGoes i (fun _ => i) (mutExecSwitchSection h) := by
  have hnamed (w : Wanted) (s : String) (c : Prop) [Decidable c] : ElfGoes i (fun _ => i) (do
      if c then
        let sectionName ← mutExecShstrtabLookup h.shName
        if ← execStrcmp .shstrtab sectionName s then
          execSelect w) := by
    refine .ite ?_ (.pure fun _ hr => hr)
    refine .bind (goes_strtabLookup _ _) fun n => .bind (goes_execStrcmp _ _ _) fun same => ?_
    exact .ite (goes_execSelect w) (.pure fun _ hr => hr)
  have hpicked (w : Wanted) (c : Prop) [Decidable c] :
      ElfGoes i (fun _ => i) (if c then execSelect w else pure ()) :=
    .ite (goes_execSelect w) (.pure fun _ hr => hr)
  apply Goes.read.bind
  intro r
  refine .ite (hnamed _ _ _) (.ite (hnamed _ _ _) (.ite ?_ (.pure fun _ hr => hr)))
  refine .bind (goes_strtabLookup _ _) fun n => .bind (goes_execStrcmp _ _ _) fun stabs => ?_
  refine .ite (hpicked _ _) ?_
  refine .bind (goes_execStrcmp _ _ _) fun plt => ?_
  exact .ite (hpicked _ _) (.pure fun _ hr => hr)

theorem goes_locateSection : ElfGoes .idle byOk mutExecLocateSection := by
  refine .bind .read fun r => .bind (.require rfl) fun _ => ?_
  apply (goes_execFreadHeader _ _).bind
  intro b
  cases b with
  | none => exact .bind .read fun _ => goes_refuse _ _ _
  | some b =>
      refine .bind (.update fun _ hr => hr) fun _ => ?_
      exact .bind (goes_switchSection _) fun _ => .pure fun _ hr => hr

theorem goes_locateSectionsFrom (left : Nat) :
    ElfGoes .idle byOk (mutExecLocateSectionsFrom left) := by
  induction left with
  | zero => exact .pure fun _ hr => hr
  | succ left ih =>
      apply goes_locateSection.bind
      intro located
      cases located with
      | true => exact ih
      | false => exact .pure fun _ hr => hr

theorem goes_locateSections : ElfGoes .idle byOk mutExecLocateSections := by
  apply Goes.read.bind
  intro r
  refine .check (k := fun _ => .idle) (goes_execFseek _) ?_ ?_
  · exact .bind .read fun _ => goes_refuse _ _ _
  refine .bind (.update fun _ hr => hr) fun _ => ?_
  refine .check (goes_locateSectionsFrom _) (.pure fun _ hr => hr) ?_
  exact .bind .read fun _ => .ite (.pure fun _ hr => hr) (goes_refuse _ _ _)

theorem goes_execAddFun (t : Table) (n : Nat) (a : Word) :
    ElfGoes .idle byOk (execAddFun t n a) := by
  refine .bind (goes_execTable t) fun b => .bind (goes_liftSymtab (goes_addFun _ _)) ?_
  intro added
  exact .bind (.whenever (.update fun _ hr => hr)) fun _ => .pure fun _ hr => hr

theorem goes_execCutSuffix (t : Table) (n : Nat) (suffix : Option (List Byte)) :
    ElfGoes i (fun _ => i) (execCutSuffix t n suffix) := by
  cases suffix with
  | none => exact .pure fun _ hr => hr
  | some undesirableSuffix =>
      apply (goes_execString t n).bind
      intro name
      split
      · exact .pure fun _ hr => hr
      · exact goes_execPoke _ _ _

theorem goes_extractSymbolsFrom (t : Table) (suffix : Option (List Byte)) (plt : Option Shdr)
    (f : Word) (symbols : List Sym) :
    ElfGoes .idle byOk (mutExecExtractSymbolsFrom t suffix plt f symbols) := by
  induction symbols generalizing f with
  | nil => exact .pure fun _ hr => hr
  | cons s symbols ih =>
      refine .ite ?_ (ih f)
      refine .bind (goes_strtabLookup _ _) fun n => .bind (goes_execCutSuffix _ _ _) fun _ => ?_
      refine .ite ?_ (ih (f + 1))
      exact .check (goes_execAddFun _ _ _) (.pure fun _ hr => hr) (ih (f + 1))

theorem goes_recordsOpen (ofBytes : List Byte → α) (size : Nat) (bad : String) (h : Shdr) :
    ElfGoes .idle bySome (execRecordsOpen ofBytes size bad h) := by
  refine .bind .read fun r => .ite ?_ (.bind goes_mutMemMalloc fun block => ?_)
  · exact .bind (goes_execFatal _ _ _) fun _ => .pure fun _ hr => hr
  cases block with
  | none =>
      refine .bind .read fun _ => .bind (goes_elfLog (goes_memFull _)) fun _ => ?_
      exact .pure fun _ hr => hr
  | some p =>
      refine .check (k := fun _ => .idle) (goes_execFseek _) (goes_release _ _ _ _ rfl) ?_
      refine .check (k := fun _ => .idle) (goes_execFreadBlock _ _) ?_ ?_
      · exact .bind .read fun _ => goes_release _ _ _ _ rfl
      · exact .bind (goes_execBlock p) fun b => .pure fun _ hr => hr

theorem goes_extractSymbols (symtab : Shdr) (t : Table) (suffix : Option (List Byte))
    (plt : Option Shdr) : ElfGoes .idle byOk (mutExecExtractSymbols symtab t suffix plt) := by
  refine .bind .read fun r => .bind (.require rfl) fun _ => ?_
  apply (goes_recordsOpen _ _ _ _).bind
  intro opened
  cases opened with
  | none => exact .pure fun _ hr => hr
  | some opened =>
      apply (goes_extractSymbolsFrom _ _ _ _ _).bind
      intro extracted
      cases extracted with
      | true => exact .bind (goes_mutMemFree _) fun _ => .pure fun _ hr => hr
      | false =>
          refine .bind goes_symtabClose fun _ => ?_
          exact .bind (goes_mutMemFree _) fun _ => .pure fun _ hr => hr

theorem goes_extractStabs : ElfGoes .idle bySome mutExecExtractStabs := by
  apply Goes.read.bind
  intro r
  cases r.selected .stabs with
  | none => exact .stop rfl
  | some stabs =>
      refine .ite ?_ (goes_recordsOpen _ _ _ _)
      exact .bind (goes_execFatal _ _ _) fun _ => .pure fun _ hr => hr

theorem goes_stabSource (s : Stab) (c : StabCursor) :
    ElfGoes i (fun _ => i) (execStabSource s c) := by
  refine .bind .read fun r => .ite ?_ (.pure fun _ hr => hr)
  refine .bind (goes_execString _ _) fun l => .bind (.require rfl) fun _ => ?_
  refine .bind (goes_execTable _) fun b => .ite (.pure fun _ hr => hr) ?_
  exact .ite (.pure fun _ hr => hr) (.pure fun _ hr => hr)

theorem goes_extractDebugInfoFrom (c : StabCursor) (stabs : List Stab) :
    ElfGoes .idle byOk (mutExecExtractDebugInfoFrom c stabs) := by
  induction stabs generalizing c with
  | nil => exact .pure fun _ hr => hr
  | cons s stabs ih =>
      refine .ite (.ite ?_ (ih c)) (.ite (ih _) (.ite ?_ (ih c)))
      · refine .bind (goes_execTable _) fun b => ?_
        exact .check (goes_liftSymtab (goes_addRange _ _ _)) (.pure fun _ hr => hr) (ih c)
      · exact .bind (goes_stabSource s c) fun c' => ih c'

theorem goes_extractDebugInfo : ElfGoes .idle byOk mutExecExtractDebugInfo := by
  apply goes_extractStabs.bind
  intro opened
  cases opened with
  | none => exact .pure fun _ hr => hr
  | some opened =>
      apply (goes_extractDebugInfoFrom _ _).bind
      intro extracted
      exact .bind (goes_mutMemFree _) fun _ => .pure fun _ hr => hr

/-- Each label of `mut_exec_open` is entered with the log over. -/
theorem goes_couldNotReadHeader : ElfGoes .ended byOk couldNotReadHeader :=
  .bind goes_execFclose fun _ => .pure fun _ hr => hr

theorem goes_couldNotLocateSections : ElfGoes .ended byOk couldNotLocateSections :=
  .bind (goes_strtabClose _) fun _ => goes_couldNotReadHeader

theorem goes_couldNotOpenStrtab : ElfGoes .ended byOk couldNotOpenStrtab :=
  .bind goes_symtabClose fun _ => goes_couldNotLocateSections

theorem goes_couldNotOpenSymtab : ElfGoes .ended byOk couldNotOpenSymtab :=
  .bind (goes_strtabClose _) fun _ => goes_couldNotOpenStrtab

theorem goes_couldNotOpenDynsym : ElfGoes .ended byOk couldNotOpenDynsym :=
  .bind (goes_strtabClose _) fun _ => goes_couldNotOpenSymtab

theorem goes_couldNotExtractDebugInfo : ElfGoes .ended byOk couldNotExtractDebugInfo :=
  .bind .read fun _ => .bind (.whenever (goes_strtabClose _)) fun _ => goes_couldNotOpenDynsym

/-- A file that cannot be closed is warned about. -/
theorem goes_openDone : ElfGoes .idle byOk mutExecOpenDone := by
  have hend : ElfGoes .idle byOk (do
      mutExecShstrtabClose
      return true) :=
    .bind (goes_strtabClose _) fun _ => .pure fun _ hr => hr
  apply Goes.read.bind
  intro r
  apply goes_execFclose.bind
  intro closed
  cases closed with
  | true => exact hend
  | false =>
      refine .bind (goes_elfLog (goes_begin _ _)) fun _ => ?_
      refine .bind (goes_elfLog (goes_arg rfl _)) fun _ => ?_
      exact .bind (goes_elfLog goes_end) fun _ => hend

theorem goes_openStabs : ElfGoes .idle byOk mutExecOpenStabs := by
  apply Goes.read.bind
  intro r
  cases r.selected .stabs with
  | none => exact .bind (.update fun _ hr => hr) fun _ => goes_openDone
  | some stabs =>
      refine .check (goes_stabstrOpen _) goes_couldNotOpenDynsym ?_
      exact .check goes_extractDebugInfo goes_couldNotExtractDebugInfo goes_openDone

theorem goes_openDynsym (suffix : Option (List Byte)) :
    ElfGoes .idle byOk (mutExecOpenDynsym suffix) := by
  apply Goes.read.bind
  intro r
  cases r.selected .dsymtab with
  | none => exact goes_openStabs
  | some dsymtab =>
      refine .check (goes_strtabOpen _ _) goes_couldNotOpenSymtab ?_
      exact .check (goes_extractSymbols _ _ _ _) goes_couldNotOpenDynsym goes_openStabs

theorem goes_openSymbols (suffix : Option (List Byte)) :
    ElfGoes .idle byOk (mutExecOpenSymbols suffix) := by
  refine .bind (.update fun _ hr => hr) fun _ => .bind .read fun r => ?_
  cases r.selected .symtab with
  | none => exact goes_openDynsym suffix
  | some symtab =>
      refine .check (goes_strtabOpen _ _) goes_couldNotOpenStrtab ?_
      refine .check (goes_extractSymbols _ _ _ _) goes_couldNotOpenSymtab ?_
      exact .bind (.update fun _ hr => hr) fun _ => goes_openDynsym suffix

theorem goes_openHeader : ElfGoes .idle byOk mutExecOpenHeader := by
  apply Goes.read.bind
  intro r
  refine .check (k := fun _ => .idle) goes_execFopen ?_ ?_
  · exact .bind .read fun _ => goes_refuse _ _ _
  apply (goes_execFread _).bind
  intro b
  cases b with
  | none =>
      refine .bind .read fun _ => .bind (goes_execFatal _ _ _) fun _ => ?_
      exact goes_couldNotReadHeader
  | some b =>
      refine .bind (.update fun _ hr => hr) fun _ => ?_
      refine .check goes_checkId goes_couldNotReadHeader ?_
      refine .check goes_checkClass goes_couldNotReadHeader ?_
      refine .check goes_checkType goes_couldNotReadHeader ?_
      exact .check goes_shstrtabOpen goes_couldNotReadHeader (.pure fun _ hr => hr)

/-- Reading the executable keeps to the grammar, and is done with an idle log. -/
theorem goes_execOpen (suffix : Option (List Byte)) :
    ElfGoes .idle byOk (mutExecOpen suffix) := by
  refine .check goes_openHeader (.pure fun _ hr => hr) ?_
  exact .check goes_locateSections goes_couldNotLocateSections (goes_openSymbols suffix)

/-! ## Closing the process -/

/-- Closing the process will be refused the kill after a fatal error. -/
structure KillRefused (m : Mut) : Prop where
  stopped : m.Stopped
  fatal : m.process.log.fatalError = true
  refused : m.process.kernel.refuses = true

/-- What closing the process needs of the log. -/
theorem mutProcessClose_grammatical (hlog : LogState.ended.At m.process.log) :
    wp (liftM mutProcessClose : MutM Unit) (fun _ _ => True) Grammatical m ↔ ¬ KillRefused m := by
  rw [wp_liftProcess]
  simp only [mutProcessClose, wp_bind, wp_read, wp_mutAssert, wp_whenever]
  cases hstatus : m.process.status with
  | running =>
      refine iff_of_true rfl fun hkill => ?_
      have hstopped : m.process.status = .stopped := hkill.stopped
      rw [hstatus] at hstopped
      cases hstopped
  | exited =>
      refine iff_of_true trivial fun hkill => ?_
      have hstopped : m.process.status = .stopped := hkill.stopped
      rw [hstatus] at hstopped
      cases hstopped
  | stopped =>
      simp only [ne_eq, reduceCtorEq, not_false_eq_true, decide_true, if_true, mutTraceKill, ptrace,
        wp_bind, wp_read, wp_update, wp_pure]
      cases hfault : m.process.kernel.faults.head?.join with
      | none =>
          refine iff_of_true trivial fun hkill => ?_
          have hrefused := hkill.refused
          rw [Kernel.refuses, hfault] at hrefused
          cases hrefused
      | some errno =>
          have hrefused : m.process.kernel.refuses = true := by rw [Kernel.refuses, hfault]; rfl
          simp only [wp_bind, wp_liftLog, mutLogInfo, mutLogUint]
          rcases hlog with hidle | hfatal
          · simp only [wp_mutLogBegin hidle]
            refine iff_of_true trivial fun hkill => ?_
            have hfatal := hkill.fatal
            rw [hidle.noFatal] at hfatal
            cases hfatal
          · refine iff_of_false ?_ fun h => h ⟨hstatus, hfatal, hrefused⟩
            simp only [mutLogBegin, wp_bind, wp_read, wp_mutAssert, hfatal]
            exact fun h => Bool.noConfusion h

/-! ## The session -/

theorem goes_processOpen (fork : Fork) (name : String) :
    ProcessGoes .idle byOk (mutProcessOpen fork name) := by
  have hrefuse (fatal : String) : ProcessGoes .idle byOk (do
      mutLogFatal fatal 0
      mutLogEnd
      return false) :=
    .bind (goes_liftLog (goes_fatal _ _)) fun _ =>
      .bind (goes_liftLog goes_fatalEnd) fun _ => .pure fun _ hp => hp
  cases fork with
  | failed errno =>
      exact .bind (goes_liftLog (goes_fatal _ _)) fun _ =>
        .bind (goes_liftLog (goes_arg rfl _)) fun _ =>
          .bind (goes_liftLog goes_fatalEnd) fun _ => .pure fun _ hp => hp
  | parent pid =>
      refine .bind (.update fun _ hp => hp) fun _ => .bind .read fun p => ?_
      cases p.kernel.waits with
      | nil => exact .stop rfl
      | cons report rest =>
          refine .bind (.update fun _ hp => hp) fun _ => ?_
          cases report with
          | failed errno =>
              exact .bind (goes_liftLog (goes_fatal _ _)) fun _ =>
                .bind (goes_liftLog (goes_arg rfl _)) fun _ =>
                  .bind (goes_liftLog (goes_arg rfl _)) fun _ =>
                    .bind (goes_liftLog goes_fatalEnd) fun _ => .pure fun _ hp => hp
          | exited status => exact .bind (.update fun _ hp => hp) fun _ => hrefuse _
          | signaled signal => exact hrefuse _
          | other status target => exact .bind (.update fun _ hp => hp) fun _ => hrefuse _
          | stopped signal target =>
              refine .bind (.update fun _ hp => hp) fun _ => .bind goes_readPc fun pc => ?_
              cases pc with
              | none => exact .pure fun _ hp => hp
              | some pc => exact .bind (.update fun _ hp => hp) fun _ => .pure fun _ hp => hp

/-- `mut_open` up to the actions. -/
def mutOpenManage (flags : Control) (usageFunction : Option String) : MutM Bool := do
  whenever (flags.backtrace && !(← read).exec.hasFullSymbols) do
    mutLogInfo "backtrace.off"
    mutLogEnd
  update ({ · with stats := .zero, root := [] })
  mutManageActions usageFunction

/-- What `mut_open` does when the actions cannot be managed, and when they can. -/
def mutOpenManaged (flags : Control) (ok : Bool) : MutM Bool := do
  if !ok then
    mutProcessClose
    return false
  update ({ · with resources := mutResourcesOpen flags.free })
  return true

theorem mutOpen_eq : mutOpen flags usageFunction =
    mutOpenManage flags usageFunction >>= mutOpenManaged flags := by
  simp only [mutOpen, mutOpenManage, Prog.bind_assoc]
  rfl

theorem goes_openManage : MutGoes .idle byOk (mutOpenManage flags usageFunction) := by
  refine .bind .read fun m => .bind (.whenever ?_) fun _ => ?_
  · exact .bind (goes_log (goes_begin _ _)) fun _ => goes_log goes_end
  · exact .bind (mute_update (fun _ => rfl) _) fun _ => goes_manageActions _

theorem goes_logLeaks : MutGoes .idle (fun _ => .idle) (mutLogLeaks flags) := by
  apply (mute_iterOpen _ _).bind
  intro iter
  apply goes_forEachResource
  intro r
  refine .bind (goes_log (goes_begin _ _)) fun _ => .bind (mute_actionName _ _) fun name => ?_
  refine .bind (goes_logArg _) fun _ => .bind (goes_logArg _) fun _ => ?_
  refine .bind (goes_logArg _) fun _ => .bind (goes_logBacktraceIf _) fun _ => ?_
  exact goes_log goes_end

theorem goes_logStats : MutGoes .idle (fun _ => .idle) mutLogStats :=
  .bind (goes_log (goes_begin _ _)) fun _ => .bind .read fun _ =>
    .bind (goes_logArgs _) fun _ => goes_log goes_end

/-- The tracker `m'` of a session from `m` is the one whose process is closed without
its run having come to its end: the actions could not be managed, or the run failed. -/
inductive Cleans (flags : Control) (usageFunction : Option String) (fork : Fork)
    (name : String) (m : Mut) : Mut → Prop
  | unmanaged {m₁ m' : Mut}
      (hopened : (liftM (mutProcessOpen fork name) : MutM Bool) m = .done true m₁)
      (hmanaged : mutOpenManage flags usageFunction m₁ = .done false m') :
      Cleans flags usageFunction fork name m m'
  | failed {m₁ m₂ m' : Mut}
      (hopened : mutOpenProcess flags usageFunction fork name m = .done true m₁)
      (hran : mutRun (flags.effective m₁.exec) m₁ = .done false m₂)
      (hclosed : mutResourcesClose m₂ = .done () m') :
      Cleans flags usageFunction fork name m m'

/-- Once everything is opened the log is idle. -/
theorem mutOpenProcess_idle {m₁ : Mut} (hidle : m.process.log.Idle)
    (h : mutOpenProcess flags usageFunction fork name m = .done true m₁) :
    m₁.process.log.Idle := by
  obtain ⟨ok, m₂, hopened, hrest⟩ := done_bind h
  have h₂ : (byOk ok).At m₂.process.log :=
    (goes_lift (goes_processOpen fork name)).done hidle hopened
  cases ok with
  | false => cases hrest
  | true =>
      have hrest : mutOpen flags usageFunction m₂ = .done true m₁ := hrest
      rw [mutOpen_eq] at hrest
      obtain ⟨managed, m₃, hmanaged, hlast⟩ := done_bind hrest
      have h₃ : (byOk managed).At m₃.process.log := goes_openManage.done h₂ hmanaged
      cases managed with
      | false =>
          have hlast : (liftM mutProcessClose >>= fun _ => pure false : MutM Bool) m₃ =
            .done true m₁ := hlast
          obtain ⟨_, m₄, _, hfalse⟩ := done_bind hlast
          cases hfalse
      | true =>
          cases hlast
          exact h₃

/-- Opening the process and the tracker, when no kill is refused. -/
theorem mutOpenProcess_grammatical (hidle : m.process.log.Idle)
    (hkill : ∀ m', Cleans flags usageFunction fork name m m' → ¬ KillRefused m') :
    wp (mutOpenProcess flags usageFunction fork name) (fun _ _ => True) Grammatical m := by
  rw [mutOpenProcess, wp_bind]
  refine wp_mono (wp_run (goes_lift (goes_processOpen fork name) m hidle)) ?_ fun _ he => he
  rintro ok m₁ ⟨hopened, h₁⟩
  cases ok with
  | false => trivial
  | true =>
      show wp (mutOpen flags usageFunction) _ _ m₁
      rw [mutOpen_eq, wp_bind]
      refine wp_mono (wp_run (goes_openManage m₁ h₁)) ?_ fun _ he => he
      rintro managed m₂ ⟨hmanaged, h₂⟩
      cases managed with
      | true => trivial
      | false =>
          have hclean : Cleans flags usageFunction fork name m m₂ := .unmanaged hopened hmanaged
          show wp (liftM mutProcessClose >>= fun _ => pure false) _ _ m₂
          rw [wp_bind]
          exact wp_mono ((mutProcessClose_grammatical h₂).2 (hkill m₂ hclean))
            (fun _ _ _ => trivial) fun _ he => he

/-- A run that came to its end is closed with an idle log. -/
theorem mutClose_grammatical (hidle : m.process.log.Idle) :
    wp (mutClose flags) (fun _ _ => True) Grammatical m := by
  rw [mutClose, wp_bind]
  refine wp_mono (goes_logLeaks m hidle) ?_ fun _ he => he
  intro _ m₁ h₁
  rw [wp_bind]
  refine wp_mono (Goes.whenever goes_logStats m₁ h₁) ?_ fun _ he => he
  intro _ m₂ h₂
  rw [wp_bind]
  refine wp_mono (mute_resourcesClose .idle m₂ h₂) ?_ fun _ he => he
  intro _ m₃ h₃
  refine (mutProcessClose_grammatical (.inl h₃)).2 fun hkill => ?_
  have hfatal := hkill.fatal
  rw [Log.Idle.noFatal h₃] at hfatal
  cases hfatal

/-- No assertion of the log fails in a session if and only if no kill is refused after
a fatal error. -/
theorem session_grammatical_iff (hidle : m.process.log.Idle) :
    wp (mutSession flags usageFunction fork name) (fun _ _ => True) Grammatical m ↔
      ∀ m', Cleans flags usageFunction fork name m m' → ¬ KillRefused m' := by
  constructor
  · intro h m' hclean
    unfold mutSession at h
    rw [wp_bind] at h
    cases hclean with
    | unmanaged hopened hmanaged =>
        rename_i m₁
        have h₁ : m₁.process.log.Idle :=
          (goes_lift (goes_processOpen fork name)).done hidle hopened
        have hm' : LogState.ended.At m'.process.log := goes_openManage.done h₁ hmanaged
        rw [mutOpenProcess, wp_bind] at h
        have hopen := wp_done h hopened
        simp only [Bool.not_true, Bool.false_eq_true, if_false, mutOpen_eq, wp_bind] at hopen
        have hclose := wp_done hopen hmanaged
        simp only [mutOpenManaged, Bool.not_false, if_true, wp_bind] at hclose
        refine (mutProcessClose_grammatical hm').1 ?_
        exact wp_mono hclose (fun _ _ _ => trivial) fun _ he => he
    | failed hopened hran hclosed =>
        rename_i m₁ m₂
        have hm₂ : LogState.ended.At m₂.process.log :=
          goes_run.done (mutOpenProcess_idle hidle hopened) hran
        have hm' : LogState.ended.At m'.process.log :=
          (mute_resourcesClose .ended).done hm₂ hclosed
        have hrest := wp_done h hopened
        simp only [Bool.not_true, Bool.false_eq_true, if_false, wp_bind, wp_read] at hrest
        have hclean := wp_done hrest hran
        simp only [Bool.false_eq_true, if_false, mutCloseOnError, wp_bind] at hclean
        have hclose := wp_done hclean hclosed
        refine (mutProcessClose_grammatical hm').1 ?_
        exact wp_mono hclose (fun _ _ _ => trivial) fun _ he => he
  · intro hkill
    unfold mutSession
    rw [wp_bind]
    refine wp_mono (wp_run (mutOpenProcess_grammatical hidle hkill)) ?_ fun _ he => he
    rintro ok m₁ ⟨hopened, _⟩
    cases ok with
    | false => trivial
    | true =>
        simp only [Bool.not_true, Bool.false_eq_true, if_false, wp_bind, wp_read]
        have h₁ : m₁.process.log.Idle := mutOpenProcess_idle hidle hopened
        refine wp_mono (wp_run (goes_run m₁ h₁)) ?_ fun _ he => he
        rintro ran m₂ ⟨hran, h₂⟩
        cases ran with
        | true =>
            simp only [if_true, wp_bind]
            exact wp_mono (mutClose_grammatical h₂) (fun _ _ _ => trivial) fun _ he => he
        | false =>
            simp only [Bool.false_eq_true, if_false, mutCloseOnError, wp_bind]
            refine wp_mono (wp_run (mute_resourcesClose .ended m₂ h₂)) ?_ fun _ he => he
            rintro _ m' ⟨hclosed, hm'⟩
            have hclean := Cleans.failed hopened hran hclosed
            exact wp_mono ((mutProcessClose_grammatical hm').2 (hkill m' hclean))
              (fun _ _ _ => trivial) fun _ he => he

/-! ## From the executable to the end -/

/-- Closing the executable says nothing, whatever the log is. -/
theorem execClose_grammatical (r : ExecReader) :
    wp mutExecClose (fun _ _ => True) ExecGrammatical r := by
  have hfree (t : Table) : Goes (fun (_ : Unit) _ => True) ExecGrammatical () (fun _ => ())
      (mutExecStrtabClose t) := by
    apply Goes.read.bind
    intro r
    cases (r.tables t).data with
    | none => exact .pure fun _ _ => trivial
    | some p =>
        exact .bind .read fun _ => .bind (.require rfl) fun _ => .update fun _ _ => trivial
  have hclose : Goes (fun (_ : Unit) _ => True) ExecGrammatical () (fun _ => ()) mutExecClose :=
    .bind (hfree _) fun _ => .bind (hfree _) fun _ => .bind (hfree _) fun _ =>
      .bind .read fun _ => .bind (.require rfl) fun _ => .update fun _ _ => trivial
  exact hclose r trivial

/-- The tracker once the executable is read: its log goes on. -/
def Mut.reading (m : Mut) (r : ExecReader) : Mut :=
  { m with exec := r.exec, process := { m.process with log := r.symtab.log } }

/-- No assertion of the log fails: not in reading the executable, not in the session
after it, and not in closing the executable. -/
def GrammarKept (undesirableSuffix : Option (List Byte)) (flags : Control)
    (usageFunction : Option String) (fork : Fork) (name : String) (m : Mut) (r : ExecReader) :
    Prop :=
  wp (mutExecOpen undesirableSuffix)
    (fun ok r' => ok = true →
      wp (mutSession flags usageFunction fork name) (fun _ _ => True) Grammatical (m.reading r') ∧
      wp mutExecClose (fun _ _ => True) ExecGrammatical r')
    ExecGrammatical r

/-- The grammar of the log is kept from beginning to end if and only if no process is
closed that is stopped, after a fatal error, with its kill refused. -/
theorem grammar_kept_iff (undesirableSuffix : Option (List Byte)) (flags : Control)
    (usageFunction : Option String) (fork : Fork) (name : String) (m : Mut) (r : ExecReader)
    (hidle : r.symtab.log.Idle) :
    GrammarKept undesirableSuffix flags usageFunction fork name m r ↔
      ∀ r', mutExecOpen undesirableSuffix r = .done true r' →
        ∀ m', Cleans flags usageFunction fork name (m.reading r') m' → ¬ KillRefused m' := by
  have hopen := goes_execOpen undesirableSuffix r hidle
  constructor
  · intro h r' hrun
    have hr' : r'.symtab.log.Idle := wp_done hopen hrun
    exact (session_grammatical_iff (m := m.reading r') hr').1 (wp_done h hrun rfl).1
  · intro h
    refine wp_mono (wp_run hopen) ?_ fun _ he => he
    rintro ok r' ⟨hrun, hr'⟩ hok
    subst hok
    exact ⟨(session_grammatical_iff (m := m.reading r') hr').2 (h r' hrun),
      execClose_grammatical r'⟩

/-- What the coming `ptrace` calls answer. -/
def Mut.answered (m : Mut) (faults : List (Option Nat)) : Mut :=
  { m with process := { m.process with kernel := { m.process.kernel with faults } } }

/-- The tracker with the executable and the log that were read. -/
def Mut.having (m : Mut) (exec : Exec) (log : Log) : Mut :=
  { m with exec, process := { m.process with log } }

/-- All the session takes from the reader are the executable and the log. -/
theorem reading_seen (r : ExecReader) (exec : Exec) (log : Log)
    (h : (mutExecOpen none r).seen (fun r' => (r'.exec, r'.symtab.log)) =
      some (true, exec, log)) :
    ∃ r', mutExecOpen none r = .done true r' ∧ ∀ m : Mut, m.reading r' = m.having exec log := by
  obtain ⟨r', hread, hseen⟩ := Outcome.of_seen h
  obtain ⟨rfl, rfl⟩ := Prod.mk.inj hseen
  exact ⟨r', hread, fun _ => rfl⟩

/-- What reading `symtabFirst` gives. -/
def Exec.first : Exec := { symtab := [], hasFullSymbols := true }

/-- Names for two functions and for the section of symbols. -/
def freeingNames : List Byte :=
  0 :: (bytesOf "malloc" ++ [0, 0] ++ bytesOf ".symtab" ++ [0] ++ bytesOf "free" ++
    List.replicate 7 0)

/-- A file with `malloc` at 0x10 and `free` at 0x20. -/
def freeingFile : List Byte :=
  smallEhdr 4 ++ freeingNames ++ funcRecord 1 0x10 ++ (funcRecord 17 0x20 ++
    List.replicate 24 0) ++ smallHeader 9 2 80 32 2 ++ smallHeader 0 3 52 28 0 ++
    smallHeader 0 0 0 0 0

/-- What reading that file gives. -/
def Exec.full : Exec := { Exec.freeing with hasFullSymbols := true }

/-- Whether no process of the session is closed while it is stopped. -/
def Mut.closesEnded (m : Mut) : Bool :=
  (match (liftM (mutProcessOpen (.parent 1) "a.out") : MutM Bool) m with
    | .done true m₁ =>
        match mutOpenManage .plain none m₁ with
        | .done false m₂ => decide (m₂.process.status ≠ .stopped)
        | _ => true
    | _ => true) &&
  match mutOpenProcess .plain none (.parent 1) "a.out" m with
  | .done true m₁ =>
      match mutRun (Control.plain.effective m₁.exec) m₁ with
      | .done false m₂ =>
          match mutResourcesClose m₂ with
          | .done () m₃ => decide (m₃.process.status ≠ .stopped)
          | _ => true
      | _ => true
  | _ => true

theorem not_refused (h : m.closesEnded = true)
    (hclean : Cleans .plain none (.parent 1) "a.out" m m') : ¬ KillRefused m' := by
  intro hrefused
  have hstopped : m'.process.status = .stopped := hrefused.stopped
  obtain ⟨hopens, hruns⟩ := Bool.and_eq_true_iff.1 h
  cases hclean with
  | unmanaged hopened hmanaged =>
      simp only [hopened, hmanaged] at hopens
      exact of_decide_eq_true hopens hstopped
  | failed hopened hran hclosed =>
      simp only [hopened, hran, hclosed] at hruns
      exact of_decide_eq_true hruns hstopped

/-- Reading the executable succeeds, the session that starts at `m` after it returns `ok`,
and no assertion of the log fails on the way. -/
def GrammarKeeps (m : Mut) (r : ExecReader) (ok : Bool) : Prop :=
  ∃ r₁ m', mutExecOpen none r = .done true r₁ ∧
    mutSession .plain none (.parent 1) "a.out" (m.reading r₁) = .done ok m' ∧
    GrammarKept none .plain none (.parent 1) "a.out" m r

/-- A session whose target runs to its end, and one whose target is killed in a call. -/
theorem grammar_kept_calls :
    GrammarKeeps .leaking (.plain freeingFile) true ∧
      GrammarKeeps .killed (.plain freeingFile) false := by
  have hkept : ∀ (m : Mut) (r r₁ : ExecReader) (ok : Bool), r.symtab.log.Idle →
      mutExecOpen none r = .done true r₁ → m.reading r₁ = m.having .full mutLogOpen →
      (m.having .full mutLogOpen).closesEnded = true →
      (mutSession .plain none (.parent 1) "a.out" (m.having .full mutLogOpen)).seen
        (fun _ => ()) = some (ok, ()) →
      GrammarKeeps m r ok := by
    intro m r r₁ ok hidle hread₁ hexec hends hseen
    obtain ⟨m', hdone, -⟩ := Outcome.of_seen hseen
    have hclosed : ∀ r', mutExecOpen none r = .done true r' →
        ∀ m', Cleans .plain none (.parent 1) "a.out" (m.reading r') m' → ¬ KillRefused m' := by
      intro r' hread m' hclean
      rw [hread₁] at hread
      cases hread
      rw [hexec] at hclean
      exact not_refused hends hclean
    rw [← hexec] at hdone
    exact ⟨r₁, m', hread₁, hdone,
      (grammar_kept_iff none .plain none (.parent 1) "a.out" m r hidle).2 hclosed⟩
  obtain ⟨r₁, hread₁, hexec⟩ := reading_seen (.plain freeingFile) .full mutLogOpen
    (by decide +kernel)
  have hidle : (ExecReader.plain freeingFile).symtab.log.Idle := Log.idle_mutLogOpen
  constructor
  · exact hkept .leaking (.plain freeingFile) r₁ true hidle hread₁ (hexec _) (by decide +kernel)
      (by decide +kernel)
  · exact hkept .killed (.plain freeingFile) r₁ false hidle hread₁ (hexec _) (by decide +kernel)
      (by decide +kernel)

/-- A session that ends in an ungrammatical halt breaks the grammar. -/
theorem session_ungrammatical {undesirableSuffix : Option (List Byte)} {r r' : ExecReader}
    {e : Halt} (hread : mutExecOpen undesirableSuffix r = .done true r')
    (hrun : (mutSession flags usageFunction fork name (m.reading r')).reason = some e)
    (he : ¬ Grammatical e) :
    ¬ GrammarKept undesirableSuffix flags usageFunction fork name m r :=
  fun h => he (wp_halted (wp_done h hread rfl).1 (Outcome.of_reason hrun))

/-- A refused request ends the run with a fatal error, and after it the kill is refused
as well. -/
theorem kill_refused_ungrammatical :
    ¬ GrammarKept none .plain none (.parent 1) "a.out"
      ((Mut.unopened [.first]).answered [none, some 3, some 3]) (.plain symtabFirst) := by
  obtain ⟨r', hread, hexec⟩ := reading_seen (.plain symtabFirst) .first mutLogOpen
    (by decide +kernel)
  refine session_ungrammatical (e := .assertion .noFatalError) hread ?_ nofun
  rw [hexec]
  decide +kernel

/-- The reader whose log's sink answers `sink`. -/
def ExecReader.logging (r : ExecReader) (sink : List Bool) : ExecReader :=
  { r with symtab := { r.symtab with log := { r.symtab.log with sink } } }

/-- The grammar is not kept when a message cannot be written and another one follows. -/
theorem failed_write_ungrammatical :
    ¬ GrammarKept none { Control.plain with stats := true } none (.parent 1) "a.out"
      (.unopened [.first, .exited 0]) ((ExecReader.plain symtabFirst).logging [true]) := by
  obtain ⟨r', hread, hexec⟩ := reading_seen ((ExecReader.plain symtabFirst).logging [true])
    .first { mutLogOpen with sink := [true] } (by decide +kernel)
  refine session_ungrammatical (e := .assertion .noInternalError) hread ?_ nofun
  rw [hexec]
  decide +kernel

end MutTracker.Source
