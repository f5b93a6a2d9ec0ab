import MutTracker.Logic.CString
import MutTracker.Source.Symtab

/-!
# Reading the executable

`src/exec/elf/mut_exec.c` for a 32-bit ELF file: the section headers, the
string tables, the symbols and the debugging entries, up to the symbol table
that the tracker uses.

The bytes of the file are an input, and so is what the library answers: `io`
lists what the coming `fopen`, `fseek`, `fread` and `fclose` calls answer,
`none` for success, and `symtab.full` what the coming `mut_mem_malloc` calls
answer.  What a buffer on the stack holds before it is read into is an input
as well: the slots' first contents and `stale` for the other headers.

A pointer into a string table is the table and an offset in it.  The nodes of
the symbol table keep such pointers, so `names` keeps them here, and
`ExecReader.exec` reads the names through them.
-/

namespace MutTracker.Source

open MutTracker.Logic MutTracker.Logic.Prog MutTracker.Logic.CString

/-! ## The format of the file -/

abbrev Byte := BitVec 8

/-- The `mut_elf_half` at offset `i`, widened to a word. -/
def halfAt (b : List Byte) (i : Nat) : Word :=
  (b.getD (i + 1) 0 ++ b.getD i 0 : BitVec 16).setWidth 32

/-- The `mut_elf_word` at offset `i`. -/
def wordAt (b : List Byte) (i : Nat) : Word :=
  b.getD (i + 3) 0 ++ b.getD (i + 2) 0 ++ b.getD (i + 1) 0 ++ b.getD i 0

/-- `mut_elf_ehdr`, less the fields that nothing reads. -/
structure Ehdr where
  eIdent : List Byte
  eType : Word
  eShoff : Word
  eShentsize : Word
  eShnum : Word
  eShstrndx : Word
  deriving DecidableEq, Repr

/-- `sizeof(mut_elf_ehdr)`. -/
def ehdrSize : Nat := 52

def Ehdr.ofBytes (b : List Byte) : Ehdr :=
  { eIdent := b.take 16, eType := halfAt b 16, eShoff := wordAt b 32,
    eShentsize := halfAt b 46, eShnum := halfAt b 48, eShstrndx := halfAt b 50 }

/-- `mut_elf_shdr`, less the fields that nothing reads. -/
structure Shdr where
  shName : Word
  shType : Word
  shAddr : Word
  shOffset : Word
  shSize : Word
  shLink : Word
  shAddralign : Word
  shEntsize : Word
  deriving DecidableEq, Repr

/-- `sizeof(mut_elf_shdr)`. -/
def shdrSize : Nat := 40

def Shdr.ofBytes (b : List Byte) : Shdr :=
  { shName := wordAt b 0, shType := wordAt b 4, shAddr := wordAt b 12,
    shOffset := wordAt b 16, shSize := wordAt b 20, shLink := wordAt b 24,
    shAddralign := wordAt b 32, shEntsize := wordAt b 36 }

/-- `mut_elf_sym`, less the fields that nothing reads. -/
structure Sym where
  stName : Word
  stValue : Word
  stInfo : Byte
  deriving DecidableEq, Repr

/-- `sizeof(mut_elf_sym)`. -/
def symSize : Nat := 16

def Sym.ofBytes (b : List Byte) : Sym :=
  { stName := wordAt b 0, stValue := wordAt b 4, stInfo := b.getD 12 0 }

/-- `mut_elf_st_type(s->st_info) == STT_FUNC`. -/
def Sym.isFunc (s : Sym) : Bool := s.stInfo &&& 0xf == 2

/-- `struct mut_exec_stab`. -/
structure Stab where
  otherAndStringIndex : Word
  lineAndType : Word
  value : Word
  deriving DecidableEq, Repr

/-- `sizeof(struct mut_exec_stab)`. -/
def stabSize : Nat := 12

def Stab.ofBytes (b : List Byte) : Stab :=
  { otherAndStringIndex := wordAt b 0, lineAndType := wordAt b 4, value := wordAt b 8 }

def mutExecStabType (s : Stab) : Word := s.lineAndType &&& 0xffff

def mutExecStabStr (s : Stab) : Word := s.otherAndStringIndex &&& 0xffff

def mutExecStabLine (s : Stab) : Word := s.lineAndType >>> 16

def stabTypeFun : Word := 0x24
def stabTypeLine : Word := 0x44
def stabTypeSo : Word := 0x64
def shtProgbits : Word := 1
def shtSymtab : Word := 2
def shtStrtab : Word := 3
def shtDynsym : Word := 11

/-- An array of `n` records of `size` bytes each. -/
def records {α : Type} (ofBytes : List Byte → α) (size n : Nat) (b : List Byte) : List α :=
  (List.range n).map fun i => ofBytes ((b.drop (size * i)).take size)

/-- The bytes of a string of the source. -/
def bytesOf (s : String) : List Byte := s.toList.map fun c => BitVec.ofNat 8 c.toNat

/-- A string of the file, one character for each byte. -/
def textOf (b : List Byte) : String := String.ofList (b.map fun c => Char.ofNat c.toNat)

/-! ## The reader -/

/-- The string tables: three of `mut_exec` and `reader->strings`. -/
inductive Table where
  | strtab
  | dynstr
  | stabstr
  | shstrtab
  deriving DecidableEq, Repr

/-- `struct mut_exec_strings`; `data` is a block or null. -/
structure Strings where
  data : Option Nat
  size : Word
  deriving DecidableEq, Repr

/-- A pointer into a string table. -/
structure NamePtr where
  table : Table
  offset : Nat
  deriving DecidableEq, Repr

/-- The sections whose headers the reader keeps: `reader->dsymtab`,
`reader->symtab`, `reader->stabs` and `reader->plt`. -/
inductive Wanted where
  | dsymtab
  | symtab
  | stabs
  | plt
  deriving DecidableEq, Repr

/-- `mut_exec_reader_sections_max`. -/
def mutExecReaderSectionsMax : Nat := 4

/-- `mut_exec_reader` and the part of `mut_exec` that it fills in, with the
file and the blocks of memory in use.  A block is given up by its entry becoming
`none`, and `symtabClosed` tells that the nodes of the symbol table were. -/
structure ExecReader where
  file : List Byte
  fileName : String
  pos : Nat
  isOpen : Bool
  io : List (Option Nat)
  errno : Nat
  stale : List (List Byte)
  blocks : List (Option (List Byte))
  symtab : Symtab
  symtabClosed : Bool
  names : List (Word × NamePtr)
  tables : Table → Strings
  hasFullSymbols : Bool
  header : Ehdr
  slots : Nat → List Byte
  free : Nat
  sections : Wanted → Option Nat

/-- Why reading the executable stops without returning. -/
inductive ExecHalt where
  /-- The log or the symbol table stops. -/
  | halt (h : Halt)
  /-- `mut_exec_strtab_lookup`, `mut_exec_shstrtab_lookup`: the index is below the size. -/
  | inTable
  /-- `mut_exec_extract_symbols`: the string table is not null. -/
  | stringsNotNull
  /-- `mut_exec_extract_stabs`: there is a header of stabs. -/
  | stabsNotNull
  /-- A header is read past the last slot or is longer than its room. -/
  | overrun
  /-- A string runs past the end of its table. -/
  | unterminated
  /-- The byte before the first one of a table is read. -/
  | beforeTable
  deriving DecidableEq, Repr

abbrev ElfM := Prog ExecReader ExecHalt

instance : MonadLift SymtabM ElfM where
  monadLift := embed ExecReader.symtab (fun s r => { r with symtab := s }) .halt

/-- A fatal message with its arguments. -/
def execFatal (fatal : String) (errno : Nat) (args : List Arg) : ElfM Unit := do
  mutLogFatal fatal errno
  mutLogArgs args
  mutLogEnd

/-! ## The library -/

/-- The error number of the next call's failure. -/
def execIo : ElfM (Option Nat) := do
  let r ← read
  update ({ · with io := r.io.tail, errno := r.io.head?.join.getD r.errno })
  return r.io.head?.join

/-- `EINVAL`. -/
def einval : Nat := 22

def execFopen : ElfM Bool := do
  match ← execIo with
  | some _ => return false
  | none =>
      update ({ · with pos := 0, isOpen := true })
      return true

def execFclose : ElfM Bool := do
  update ({ · with isOpen := false })
  return (← execIo).isNone

/-- `fseek` from the beginning; an offset is a `long`. -/
def execFseek (offset : Word) : ElfM Bool := do
  match ← execIo with
  | some _ => return false
  | none =>
      if offset.msb then
        update ({ · with errno := einval })
        return false
      else
        update ({ · with pos := offset.toNat })
        return true

/-- `fread` of one object of the given size. -/
def execFread (size : Nat) : ElfM (Option (List Byte)) := do
  match ← execIo with
  | some _ => return none
  | none =>
      let r ← read
      let got := (r.file.drop r.pos).take size
      update ({ · with pos := r.pos + got.length })
      if size = 0 ∨ got.length < size then
        return none
      else
        return some got

/-- `fread` of `size` bytes into the room of a section header that holds `old`. -/
def execFreadHeader (size : Word) (old : List Byte) : ElfM (Option (List Byte)) := do
  require (size.toNat ≤ shdrSize) .overrun
  let some b ← execFread size.toNat | return none
  return some (b ++ old.drop size.toNat)

/-- `fread` of `size` bytes into a header on the stack. -/
def execFreadLocal (size : Word) : ElfM (Option Shdr) := do
  let old := (← read).stale.head?.getD []
  update fun r => { r with stale := r.stale.tail }
  let some b ← execFreadHeader size old | return none
  return some (Shdr.ofBytes b)

/-- `mut_mem_malloc`: a block, whose bytes are read in before anything looks at them. -/
def mutMemMalloc : ElfM (Option Nat) := do
  match ← (Symtab.malloc : SymtabM (Option Nat)) with
  | some errno =>
      update ({ · with errno })
      return none
  | none =>
      let p := (← read).blocks.length
      update fun r => { r with blocks := r.blocks ++ [some []] }
      return some p

def mutMemFree : Option Nat → ElfM Unit
  | none => return ()
  | some p => do
      require ((← read).blocks[p]?.join).isSome (.halt .badPointer)
      update fun r => { r with blocks := r.blocks.set p none }

/-- `fread` of a block's bytes. -/
def execFreadBlock (p : Nat) (size : Word) : ElfM Bool := do
  let some b ← execFread size.toNat | return false
  update fun r => { r with blocks := r.blocks.set p (some b) }
  return true

/-- The bytes of a block that is in use. -/
def execBlock (p : Nat) : ElfM (List Byte) := do
  match (← read).blocks[p]?.join with
  | none => stop (.halt .badPointer)
  | some b => return b

/-- What a table holds, if its block is in use. -/
def ExecReader.bytes (r : ExecReader) (t : Table) : Option (List Byte) :=
  (r.tables t).data.bind fun p => r.blocks[p]?.join

def execTable (t : Table) : ElfM (List Byte) := do
  match (← read).bytes t with
  | none => stop (.halt .badPointer)
  | some b => return b

/-- The string at an offset, as `strcmp`, `strlen` and `strstr` read it. -/
def execString (t : Table) (offset : Nat) : ElfM (List Byte) := do
  let b ← execTable t
  require (Terminated 0 b offset) .unterminated
  return cstr 0 b offset

/-- `strcmp` with a string of the source, for equality. -/
def execStrcmp (t : Table) (offset : Nat) (s : String) : ElfM Bool := do
  return (← execString t offset) == bytesOf s

/-- Write into a string table. -/
def ExecReader.setBytes (r : ExecReader) (t : Table) (b : List Byte) : ExecReader :=
  match (r.tables t).data with
  | none => r
  | some p => { r with blocks := r.blocks.set p (some b) }

/-- Write a byte of a string table. -/
def execPoke (t : Table) (offset : Nat) (c : Byte) : ElfM Unit := do
  let b ← execTable t
  update (·.setBytes t (b.set offset c))

def ExecReader.setTable (r : ExecReader) (t : Table) (s : Strings) : ExecReader :=
  { r with tables := fun t' => if t' = t then s else r.tables t' }

def ExecReader.setSection (r : ExecReader) (w : Wanted) (slot : Nat) : ExecReader :=
  { r with sections := fun w' => if w' = w then some slot else r.sections w' }

/-- The header that a pointer of the reader points to. -/
def ExecReader.selected (r : ExecReader) (w : Wanted) : Option Shdr :=
  (r.sections w).map fun slot => Shdr.ofBytes (r.slots slot)

/-! ## The checks of the header -/

def mutExecCheckId : ElfM Bool := do
  let r ← read
  if r.header.eIdent.take 4 ≠ [0x7f, 0x45, 0x4c, 0x46] then
    execFatal "elf.not" r.errno [.string r.fileName]
    return false
  else
    return true

/-- A file of another class is warned about, not refused as an error. -/
def mutExecCheckClass : ElfM Bool := do
  let r ← read
  let c := r.header.eIdent.getD 4 0
  if c ≠ 1 then
    mutLogWarning "elf.bad-class"
    mutLogString r.fileName
    mutLogString (textOf (cstr 0 [c] 0))
    mutLogEnd
    return false
  else
    return true

def mutExecCheckType : ElfM Bool := do
  let r ← read
  if r.header.eType ≠ 2 then
    execFatal "elf.not-exec" 0 [.string r.fileName]
    return false
  else
    return true

/-! ## String tables -/

/-- What `mut_exec_strtab_open`, `mut_exec_stabstr_open` and
`mut_exec_shstrtab_open` do once they have the header of the table.  `fullArgs`
and `ioArgs` are the arguments of their messages. -/
def execStringsOpen (t : Table) (h : Shdr) (fullArgs : List Arg)
    (ioArgs : Nat → List Arg) : ElfM Bool := do
  update fun r => r.setTable t { r.tables t with size := h.shSize }
  match ← mutMemMalloc with
  | none =>
      update fun r => r.setTable t { r.tables t with data := none }
      let r ← read
      execFatal "mem.full" r.errno fullArgs
      return false
  | some p =>
      update fun r => r.setTable t { r.tables t with data := some p }
      if !(← execFseek h.shOffset) then
        let r ← read
        execFatal "io.seek" r.errno (ioArgs r.errno)
        mutMemFree (r.tables t).data
        return false
      if !(← execFreadBlock p h.shSize) then
        let r ← read
        execFatal "io.read" r.errno (ioArgs r.errno)
        mutMemFree (r.tables t).data
        return false
      return true

def mutExecStrtabOpen (symtab : Shdr) (t : Table) : ElfM Bool := do
  let r ← read
  let es := r.header.eShentsize
  let shi := symtab.shLink
  if es ≠ BitVec.ofNat 32 shdrSize then
    execFatal "elf.section.size" 0 [.string r.fileName, .uint es, .uint (BitVec.ofNat 32 shdrSize)]
    return false
  if shi > r.header.eShnum then
    execFatal "elf.section.index.range" 0
      [.string r.fileName, .string ".strtab", .uint shi, .uint r.header.eShnum]
    return false
  if !(← execFseek (r.header.eShoff + shi * es)) then
    execFatal "io.seek" 0 [.string r.fileName, .int (← read).errno]
    return false
  match ← execFread shdrSize with
  | none =>
      let e := (← read).errno
      execFatal "io.read" e [.string r.fileName, .int e]
      return false
  | some b =>
      let h := Shdr.ofBytes b
      if h.shType ≠ shtStrtab then
        execFatal "elf.symtab.strtab" 0
          [.string r.fileName, .int h.shType.toInt, .int shtStrtab.toInt]
        return false
      execStringsOpen t h [.uint h.shSize] fun e => [.string r.fileName, .int e]

/-- The pointer to the string, as an offset. -/
def mutExecStrtabLookup (t : Table) (str : Word) : ElfM Nat := do
  require (str < ((← read).tables t).size) .inTable
  return str.toNat

def mutExecStrtabClose (t : Table) : ElfM Unit := do
  mutMemFree ((← read).tables t).data

def mutExecStabstrOpen (stabs : Shdr) : ElfM Bool := do
  let r ← read
  if stabs.shLink > r.header.eShnum then
    execFatal "elf.section_index.range" 0 [.string r.fileName, .string ".stabstr"]
    return false
  if !(← execFseek (r.header.eShoff + stabs.shLink * r.header.eShentsize)) then
    execFatal "io.seek" 0 [.string r.fileName]
    return false
  match ← execFreadLocal r.header.eShentsize with
  | none =>
      execFatal "io.read" (← read).errno [.string r.fileName]
      return false
  | some h =>
      if h.shType ≠ shtStrtab then
        execFatal "elf.stab.stabstr" 0 [.string r.fileName]
        return false
      execStringsOpen .stabstr h [] fun _ => [.string r.fileName]

def mutExecStabstrClose : ElfM Unit := mutExecStrtabClose .stabstr

def mutExecShstrtabOpen : ElfM Bool := do
  let r ← read
  if !(← execFseek (r.header.eShoff + r.header.eShstrndx * r.header.eShentsize)) then
    execFatal "io.seek" (← read).errno [.string r.fileName]
    return false
  match ← execFreadLocal r.header.eShentsize with
  | none =>
      execFatal "io.read" (← read).errno [.string r.fileName]
      return false
  | some h =>
      if h.shType ≠ shtStrtab then
        execFatal "elf.shstrtab" 0 [.string r.fileName]
        return false
      execStringsOpen .shstrtab h [] fun _ => [.string r.fileName]

def mutExecShstrtabLookup (index : Word) : ElfM Nat := mutExecStrtabLookup .shstrtab index

def mutExecShstrtabClose : ElfM Unit := mutExecStrtabClose .shstrtab

/-! ## The section headers -/

/-- The header in the next free slot is the one of a wanted section. -/
def execSelect (w : Wanted) : ElfM Unit :=
  update fun r => { r.setSection w r.free with free := r.free + 1 }

/-- The `switch` of the loop of `mut_exec_locate_sections`. -/
def mutExecSwitchSection (sectionHeader : Shdr) : ElfM Unit := do
  let r ← read
  if sectionHeader.shType = shtDynsym then
    if (r.sections .dsymtab).isNone then
      let sectionName ← mutExecShstrtabLookup sectionHeader.shName
      if ← execStrcmp .shstrtab sectionName ".dynsym" then
        execSelect .dsymtab
  else if sectionHeader.shType = shtSymtab then
    if (r.sections .symtab).isNone then
      let sectionName ← mutExecShstrtabLookup sectionHeader.shName
      if ← execStrcmp .shstrtab sectionName ".symtab" then
        execSelect .symtab
  else if sectionHeader.shType = shtProgbits then
    let sectionName ← mutExecShstrtabLookup sectionHeader.shName
    if ← execStrcmp .shstrtab sectionName ".stab" then
      if (r.sections .stabs).isNone then
        execSelect .stabs
    else if ← execStrcmp .shstrtab sectionName ".plt" then
      if (r.sections .plt).isNone then
        execSelect .plt

/-- One round of the loop of `mut_exec_locate_sections`. -/
def mutExecLocateSection : ElfM Bool := do
  let r ← read
  require (r.free < mutExecReaderSectionsMax) .overrun
  match ← execFreadHeader r.header.eShentsize (r.slots r.free) with
  | none =>
      execFatal "io.read" (← read).errno [.string r.fileName]
      return false
  | some b =>
      update fun s => { s with slots := fun i => if i = r.free then b else s.slots i }
      mutExecSwitchSection (Shdr.ofBytes b)
      return true

/-- The loop, for as many rounds as are left. -/
def mutExecLocateSectionsFrom : Nat → ElfM Bool
  | 0 => return true
  | left + 1 => do
      if ← mutExecLocateSection then
        mutExecLocateSectionsFrom left
      else
        return false

def mutExecLocateSections : ElfM Bool := do
  let r ← read
  if !(← execFseek r.header.eShoff) then
    execFatal "io.seek" (← read).errno [.string r.fileName]
    return false
  update ({ · with free := 0, sections := fun _ => none })
  if !(← mutExecLocateSectionsFrom (r.header.eShnum.toNat - 1)) then
    return false
  let r ← read
  if (r.sections .dsymtab).isSome || (r.sections .symtab).isSome then
    return true
  else
    execFatal "elf.nosymbols" 0 [.string r.fileName]
    return false

/-! ## Symbols -/

/-- `mut_exec_symtab_add_fun` with the name at an offset of a table. -/
def execAddFun (t : Table) (n : Nat) (a : Word) : ElfM Bool := do
  let b ← execTable t
  let added ← (mutExecSymtabAddFun (textOf (cstr 0 b n)) a : SymtabM Bool)
  whenever added (update fun r => { r with names := r.names ++ [(a, ⟨t, n⟩)] })
  return added

/-- Cut the name where the suffix first occurs in it. -/
def execCutSuffix (t : Table) (n : Nat) : Option (List Byte) → ElfM Unit
  | none => return ()
  | some undesirableSuffix => do
      let name ← execString t n
      match find undesirableSuffix name with
      | none => return ()
      | some start => execPoke t (n + start) 0

/-- The address of a function symbol: `plt` gives the ones without a value theirs. -/
def Sym.addr (s : Sym) (plt : Option Shdr) (f : Word) : Word :=
  match plt with
  | some plt => if s.stValue = 0 then plt.shAddr + f * plt.shAddralign else s.stValue
  | none => s.stValue

/-- The loop of `mut_exec_extract_symbols`, with its counter `f`. -/
def mutExecExtractSymbolsFrom (t : Table) (undesirableSuffix : Option (List Byte))
    (plt : Option Shdr) (f : Word) : List Sym → ElfM Bool
  | [] => return true
  | s :: symbols => do
      if s.isFunc then
        let n ← mutExecStrtabLookup t s.stName
        execCutSuffix t n undesirableSuffix
        let sa := s.addr plt f
        if sa ≠ 0 then
          if !(← execAddFun t n sa) then
            return false
        mutExecExtractSymbolsFrom t undesirableSuffix plt (f + 1) symbols
      else
        mutExecExtractSymbolsFrom t undesirableSuffix plt f symbols

def mutExecSymtabClose : ElfM Unit := do
  let r ← read
  require (!r.symtabClosed || r.symtab.head.isEmpty) (.halt .badPointer)
  update ({ · with symtabClosed := true })

/-- How `mut_exec_extract_symbols` and `mut_exec_extract_stabs` read the records
of a section into a block; `bad` is the message for a section that does not
hold a whole number of them. -/
def execRecordsOpen {α : Type} (ofBytes : List Byte → α) (size : Nat) (bad : String)
    (h : Shdr) : ElfM (Option (Nat × List α)) := do
  let r ← read
  if h.shSize.toNat % size ≠ 0 then
    execFatal bad 0 [.string r.fileName]
    return none
  let some p ← mutMemMalloc | do
    mutLogMemFull (← read).errno
    return none
  if !(← execFseek h.shOffset) then
    execFatal "io.seek" 0 [.string r.fileName, .int h.shOffset.toInt]
    mutMemFree (some p)
    return none
  if !(← execFreadBlock p h.shSize) then
    execFatal "io.read" (← read).errno [.string r.fileName]
    mutMemFree (some p)
    return none
  let b ← execBlock p
  return some (p, records ofBytes size (h.shSize.toNat / size) b)

def mutExecExtractSymbols (symtab : Shdr) (t : Table)
    (undesirableSuffix : Option (List Byte)) (plt : Option Shdr) : ElfM Bool := do
  require ((← read).tables t).data.isSome .stringsNotNull
  let some (p, symbols) ← execRecordsOpen Sym.ofBytes symSize "elf.sym.size" symtab | return false
  if ← mutExecExtractSymbolsFrom t undesirableSuffix plt 1 symbols then
    mutMemFree (some p)
    return true
  else
    mutExecSymtabClose
    mutMemFree (some p)
    return false

/-! ## Debugging entries -/

/-- The block of the entries and the entries in it. -/
def mutExecExtractStabs : ElfM (Option (Nat × List Stab)) := do
  let r ← read
  let some stabs := r.selected .stabs | stop .stabsNotNull
  if stabs.shEntsize ≠ BitVec.ofNat 32 stabSize then
    execFatal "elf.stab.size" 0 [.string r.fileName]
    return none
  execRecordsOpen Stab.ofBytes stabSize "elf.stab.size" stabs

/-- Where the entries have got to: the current file name and function. -/
structure StabCursor where
  fn : Option Nat
  baseAddr : Word
  deriving DecidableEq, Repr

/-- An `SO` entry names a directory or a file, or ends a file. -/
def execStabSource (s : Stab) (c : StabCursor) : ElfM StabCursor := do
  let stringIndex := mutExecStabStr s
  if stringIndex < ((← read).tables .stabstr).size then
    let x := stringIndex.toNat
    let l := (← execString .stabstr x).length
    require (0 < x + l) .beforeTable
    if (← execTable .stabstr).getD (x + l - 1) 0 == 0x2f then
      return c
    else if c.fn.isNone then
      return { c with fn := some x }
    else
      return { c with fn := none }
  else
    return c

/-- The loop of `mut_exec_extract_debug_info`. -/
def mutExecExtractDebugInfoFrom (c : StabCursor) : List Stab → ElfM Bool
  | [] => return true
  | s :: stabs => do
      if mutExecStabType s = stabTypeLine then
        if c.baseAddr ≠ 0 then
          let b ← execTable .stabstr
          if !(← (mutExecSymtabAddRange (c.baseAddr + s.value) (mutExecStabLine s)
              (c.fn.map fun x => textOf (cstr 0 b x)) : SymtabM Bool)) then
            return false
        mutExecExtractDebugInfoFrom c stabs
      else if mutExecStabType s = stabTypeFun then
        mutExecExtractDebugInfoFrom { c with baseAddr := s.value } stabs
      else if mutExecStabType s = stabTypeSo then
        mutExecExtractDebugInfoFrom (← execStabSource s c) stabs
      else
        mutExecExtractDebugInfoFrom c stabs

def mutExecExtractDebugInfo : ElfM Bool := do
  let some (p, stabs) ← mutExecExtractStabs | return false
  let extracted ← mutExecExtractDebugInfoFrom { fn := none, baseAddr := 0 } stabs
  mutMemFree (some p)
  return extracted

/-! ## The whole file -/

/-- The labels of `mut_exec_open` from `could_not_read_header` up. -/
def couldNotReadHeader : ElfM Bool := do
  let _ ← execFclose
  return false

def couldNotLocateSections : ElfM Bool := do
  mutExecShstrtabClose
  couldNotReadHeader

def couldNotOpenStrtab : ElfM Bool := do
  mutExecSymtabClose
  couldNotLocateSections

/-- The label `could_not_open_dynstr` is at the same place. -/
def couldNotOpenSymtab : ElfM Bool := do
  mutExecStrtabClose .strtab
  couldNotOpenStrtab

/-- The label `could_not_open_stabstr` is at the same place. -/
def couldNotOpenDynsym : ElfM Bool := do
  mutExecStrtabClose .dynstr
  couldNotOpenSymtab

def couldNotExtractDebugInfo : ElfM Bool := do
  whenever ((← read).sections .stabs).isSome mutExecStabstrClose
  couldNotOpenDynsym

/-- The end of `mut_exec_open`. -/
def mutExecOpenDone : ElfM Bool := do
  let r ← read
  if !(← execFclose) then
    mutLogWarning "io.close"
    mutLogString r.fileName
    mutLogEnd
  mutExecShstrtabClose
  return true

/-- `mut_exec_open` from the debugging entries on. -/
def mutExecOpenStabs : ElfM Bool := do
  match (← read).selected .stabs with
  | some stabs =>
      if !(← mutExecStabstrOpen stabs) then
        couldNotOpenDynsym
      else if !(← mutExecExtractDebugInfo) then
        couldNotExtractDebugInfo
      else
        mutExecOpenDone
  | none =>
      update fun r => r.setTable .stabstr { r.tables .stabstr with data := none }
      mutExecOpenDone

/-- `mut_exec_open` from the dynamic symbols on. -/
def mutExecOpenDynsym (undesirableSuffix : Option (List Byte)) : ElfM Bool := do
  let r ← read
  match r.selected .dsymtab with
  | some dsymtab =>
      if !(← mutExecStrtabOpen dsymtab .dynstr) then
        couldNotOpenSymtab
      else if !(← mutExecExtractSymbols dsymtab .dynstr undesirableSuffix (r.selected .plt)) then
        couldNotOpenDynsym
      else
        mutExecOpenStabs
  | none => mutExecOpenStabs

/-- `mut_exec_symtab_open`, and no string tables yet. -/
def ExecReader.symtabOpen (r : ExecReader) : ExecReader :=
  { r with
    symtab := { r.symtab with head := [] }
    symtabClosed := false
    names := []
    tables := fun t =>
      if t = .strtab ∨ t = .dynstr then { r.tables t with data := none } else r.tables t }

/-- `mut_exec_open` from the symbols on. -/
def mutExecOpenSymbols (undesirableSuffix : Option (List Byte)) : ElfM Bool := do
  update ExecReader.symtabOpen
  match (← read).selected .symtab with
  | some symtab =>
      if !(← mutExecStrtabOpen symtab .strtab) then
        couldNotOpenStrtab
      else if !(← mutExecExtractSymbols symtab .strtab undesirableSuffix none) then
        couldNotOpenSymtab
      else do
        update ({ · with hasFullSymbols := true })
        mutExecOpenDynsym undesirableSuffix
  | none => mutExecOpenDynsym undesirableSuffix

/-- `mut_exec_open` up to the scan for sections. -/
def mutExecOpenHeader : ElfM Bool := do
  let fileName := (← read).fileName
  if !(← execFopen) then
    execFatal "io.open" (← read).errno [.string fileName]
    return false
  match ← execFread ehdrSize with
  | none =>
      execFatal "io.read" (← read).errno [.string fileName]
      couldNotReadHeader
  | some b =>
      update ({ · with header := Ehdr.ofBytes b })
      if !(← mutExecCheckId) then
        couldNotReadHeader
      else if !(← mutExecCheckClass) then
        couldNotReadHeader
      else if !(← mutExecCheckType) then
        couldNotReadHeader
      else if !(← mutExecShstrtabOpen) then
        couldNotReadHeader
      else
        return true

def mutExecOpen (undesirableSuffix : Option (List Byte)) : ElfM Bool := do
  if !(← mutExecOpenHeader) then
    return false
  else if !(← mutExecLocateSections) then
    couldNotLocateSections
  else
    mutExecOpenSymbols undesirableSuffix

def mutExecClose : ElfM Unit := do
  mutExecStabstrClose
  mutExecStrtabClose .strtab
  mutExecStrtabClose .dynstr
  mutExecSymtabClose

/-- The name that a pointer points to. -/
def ExecReader.name (r : ExecReader) (p : NamePtr) : List Byte :=
  cstr 0 ((r.bytes p.table).getD []) p.offset

/-- What the tracker keeps of the executable, names read through their pointers. -/
def ExecReader.exec (r : ExecReader) : Exec :=
  { symtab := r.symtab.head.map fun f =>
      { f with funName := (((r.names.find? (·.1 == f.funStartAddr)).map fun p =>
          textOf (r.name p.2)).getD f.funName) }
    hasFullSymbols := r.hasFullSymbols }

end MutTracker.Source
