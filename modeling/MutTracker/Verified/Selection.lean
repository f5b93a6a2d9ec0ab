import MutTracker.Verified.Log
import MutTracker.Verified.Sections

/-!
# The sections selected

What `mut_exec_open` makes of a well-formed file.  `sectionHeaders` are all the
headers of the file's table; the scan starts at the first of them and makes one
round fewer than there are headers, so that it sees all but the last.  And
`has_full_symbols` is set when a `.symtab` is found and never cleared.

## Main results

* `openHeader_spec` — up to the scan the file's header and its names are read.
* `openSymbols_spec` — after the scan the selection stays.
* `selection_iff` — when the sections used are the first of the whole table.
-/

namespace MutTracker.Source

open MutTracker.Logic MutTracker.Logic.Prog MutTracker.Logic.CString

variable {r r' : ExecReader} {file b : List Byte} {n : Nat} {h : Shdr} {t : Table}
  {suffix : Option (List Byte)}

/-! ## A well-formed file -/

/-- The header of the file. -/
def fileHeader (file : List Byte) : Ehdr := Ehdr.ofBytes (file.take ehdrSize)

/-- Section header `n`. -/
def sectionHeader (file : List Byte) (n : Nat) : Shdr :=
  Shdr.ofBytes ((file.drop ((fileHeader file).eShoff.toNat + n * shdrSize)).take shdrSize)

/-- All the section headers. -/
def sectionHeaders (file : List Byte) : List Shdr :=
  (List.range (fileHeader file).eShnum.toNat).map (sectionHeader file)

/-- The header of the section of names. -/
def namesHeader (file : List Byte) : Shdr :=
  sectionHeader file (fileHeader file).eShstrndx.toNat

/-- The names of the sections. -/
def sectionNames (file : List Byte) : List Byte :=
  (file.drop (namesHeader file).shOffset.toNat).take (namesHeader file).shSize.toNat

/-- A 32-bit ELF executable whose section headers and names are all there. -/
structure WellFormed (file : List Byte) : Prop where
  magic : (fileHeader file).eIdent.take 4 = [0x7f, 0x45, 0x4c, 0x46]
  elfClass : (fileHeader file).eIdent.getD 4 0 = 1
  executable : (fileHeader file).eType = 2
  entsize : (fileHeader file).eShentsize.toNat = shdrSize
  small : file.length < 2 ^ 31
  table : (fileHeader file).eShoff.toNat + (fileHeader file).eShnum.toNat * shdrSize ≤ file.length
  index : (fileHeader file).eShstrndx.toNat < (fileHeader file).eShnum.toNat
  strtab : (namesHeader file).shType = shtStrtab
  inside : (namesHeader file).shOffset.toNat + (namesHeader file).shSize.toNat ≤ file.length
  named : ∀ h ∈ sectionHeaders file, h.shName < (namesHeader file).shSize ∧
    Terminated 0 (sectionNames file) h.shName.toNat

/-! ## String tables -/

/-- A string table that could be opened holds what the file has at its place. -/
theorem execStringsOpen_spec (t : Table) (h : Shdr) (fullArgs : List Arg)
    (ioArgs : Nat → List Arg) (r : ExecReader) :
    wp (execStringsOpen t h fullArgs ioArgs)
      (fun ok r' => ok = true →
        r'.bytes t = some ((r.file.drop h.shOffset.toNat).take h.shSize.toNat) ∧
          (r'.tables t).size = h.shSize)
      (fun _ => True) r := by
  unfold execStringsOpen
  rw [wp_bind, wp_update, wp_bind]
  refine wp_mono (wp_and (mutMemMalloc_effect _) (fixed_mutMemMalloc _ trivial)) ?_
    fun _ _ => trivial
  intro block r₁ h₁
  obtain ⟨hblock, hfixed⟩ := h₁
  cases block with
  | none =>
      rw [wp_bind, wp_update]
      exact wp_any fun _ _ => wp_any fun _ _ => nofun
  | some p =>
      obtain ⟨rfl, hblocks⟩ := hblock p rfl
      rw [wp_bind, wp_update, wp_bind]
      refine wp_mono (execFseek_spec _ h.shOffset (fun _ => False)) ?_ fun _ _ => trivial
      intro sought r₂ h₂
      rcases h₂ with ⟨rfl, _⟩ | ⟨rfl, _, rfl⟩
      · rw [if_pos (by decide)]
        exact wp_any fun _ _ => wp_any fun _ _ => wp_any fun _ _ => nofun
      rw [if_neg (by decide)]
      unfold execFreadBlock
      rw [wp_bind, wp_bind]
      refine wp_mono (execFread_spec _ h.shSize.toNat (fun _ => False)) ?_ fun _ _ => trivial
      intro got r₃ h₃
      rcases h₃ with ⟨rfl, _⟩ | ⟨rfl, _, rfl⟩
      · exact wp_any fun _ _ => wp_any fun _ _ => wp_any fun _ _ => nofun
      · intro _
        have hfile : r₁.file = r.file := hfixed.file
        have hlast : r₁.blocks = r.blocks ++ [some []] := hblocks.blocks
        have hsize : r₁.tables t = { r.tables t with size := h.shSize } := by
          rw [hblocks.tables]
          exact if_pos rfl
        refine ⟨?_, ?_⟩
        · show ((if t = t then _ else r₁.tables t).data.bind fun q =>
            (r₁.blocks.set r.blocks.length (some _))[q]?.join) = _
          rw [if_pos rfl]
          show (r₁.blocks.set r.blocks.length (some ((r₁.file.drop h.shOffset.toNat).take
            h.shSize.toNat)))[r.blocks.length]?.join = _
          rw [hlast, List.getElem?_set_self (by simp), hfile]
          rfl
        · show (if t = t then _ else r₁.tables t).size = h.shSize
          rw [if_pos rfl, hsize]

/-! ## Up to the scan -/

/-- What comes behind the bytes of a header does not matter. -/
theorem shdr_append {c : List Byte} (hb : b.length = shdrSize) :
    Shdr.ofBytes (b ++ c) = Shdr.ofBytes b := by
  have hget : ∀ i, i < shdrSize → (b ++ c).getD i 0 = b.getD i 0 := by
    intro i hi
    rw [List.getD_eq_getElem?_getD, List.getElem?_append_left (by omega),
      ← List.getD_eq_getElem?_getD]
  unfold Shdr.ofBytes wordAt
  simp only [shdrSize] at hget
  simp only [hget, Nat.reduceAdd, Nat.reduceLT]

theorem execFreadLocal_spec (size : Word) (r : ExecReader) :
    wp (execFreadLocal size)
      (fun o _ => ∀ h, o = some h → ∃ c,
        h = Shdr.ofBytes ((r.file.drop r.pos).take size.toNat ++ c))
      (fun _ => True) r := by
  simp only [execFreadLocal, execFreadHeader, wp_bind, wp_read, wp_update, wp_require]
  split
  · refine wp_mono (execFread_spec _ size.toNat (fun _ => False)) ?_ fun _ _ => trivial
    intro got s hgot
    rcases hgot with ⟨rfl, _⟩ | ⟨rfl, _, rfl⟩
    · simp
    · intro h hh
      cases hh
      exact ⟨_, rfl⟩
  · trivial

/-- An offset in a small file is where it says, and a seek there is granted. -/
theorem offset_toNat {a i s : Word} (h : a.toNat + i.toNat * s.toNat < 2 ^ 31) :
    (a + i * s).toNat = a.toNat + i.toNat * s.toNat := by
  rw [BitVec.toNat_add, BitVec.toNat_mul]
  have hmul : i.toNat * s.toNat % 2 ^ 32 = i.toNat * s.toNat := Nat.mod_eq_of_lt (by omega)
  rw [hmul, Nat.mod_eq_of_lt (by omega)]

/-- What the reader knows when it comes to the scan. -/
structure HeaderRead (r r' : ExecReader) : Prop where
  file : r'.file = r.file
  header : r'.header = fileHeader r.file
  names : r'.bytes .shstrtab = some (sectionNames r.file)
  size : (r'.tables .shstrtab).size = (namesHeader r.file).shSize
  full : r'.hasFullSymbols = r.hasFullSymbols

/-- The section of names is read. -/
theorem shstrtabOpen_spec (hw : WellFormed r.file) (hheader : r.header = fileHeader r.file) :
    wp mutExecShstrtabOpen
      (fun ok r' => ok = true → r'.bytes .shstrtab = some (sectionNames r.file) ∧
        (r'.tables .shstrtab).size = (namesHeader r.file).shSize ∧ Fixed r r')
      (fun _ => True) r := by
  have hbelow : (fileHeader r.file).eShoff.toNat + (fileHeader r.file).eShstrndx.toNat *
      (fileHeader r.file).eShentsize.toNat + shdrSize ≤ r.file.length := by
    have htable := hw.table
    have hindex : (fileHeader r.file).eShstrndx.toNat + 1 ≤ (fileHeader r.file).eShnum.toNat :=
      hw.index
    have hmul := Nat.mul_le_mul_right shdrSize hindex
    rw [Nat.add_mul, Nat.one_mul] at hmul
    rw [hw.entsize]
    omega
  have hsmall := hw.small
  unfold mutExecShstrtabOpen
  rw [wp_bind, wp_read, wp_bind]
  refine wp_mono (execFseek_spec r _ (fun _ => False)) ?_ fun _ _ => trivial
  intro sought r₁ h₁
  rcases h₁ with ⟨rfl, _⟩ | ⟨rfl, _, rfl⟩
  · rw [if_pos (by decide)]
    exact wp_any fun _ _ => wp_any fun _ _ => nofun
  rw [if_neg (by decide), wp_bind]
  refine wp_mono (wp_and (execFreadLocal_spec _ _) (aside_execFreadLocal _ _ trivial)) ?_
    fun _ _ => trivial
  intro got r₂ h₂
  obtain ⟨hgot, haside⟩ := h₂
  cases got with
  | none => exact wp_any fun _ _ => wp_any fun _ _ => nofun
  | some header =>
      obtain ⟨c, hread⟩ := hgot header rfl
      have hnames : header = namesHeader r.file := by
        rw [hread, hheader]
        show Shdr.ofBytes ((r.file.drop (_ + _ * _ : Word).toNat).take _ ++ c) = _
        rw [offset_toNat (by omega), hw.entsize, shdr_append]
        · rfl
        · rw [List.length_take, List.length_drop]
          rw [hw.entsize] at hbelow
          omega
      rw [hnames]
      show wp (if (namesHeader r.file).shType ≠ shtStrtab then _ else _) _ _ r₂
      rw [if_neg (not_not_intro hw.strtab)]
      refine wp_mono (wp_and (execStringsOpen_spec _ _ _ _ _)
        (fixed_execStringsOpen _ _ _ _ r₂ trivial)) ?_ fun _ _ => trivial
      intro ok r₃ h₃ hok
      obtain ⟨hopen, hfixed⟩ := h₃
      obtain ⟨hbytes, hsize⟩ := hopen hok
      rw [haside.file] at hbytes
      have hfirst : Fixed r r₂ := ⟨haside.file, haside.header, haside.slots, haside.free,
        haside.sections, haside.full⟩
      exact ⟨hbytes, hsize, hfirst.trans hfixed⟩

theorem couldNotReadHeader_fails {P : ExecReader → Prop} (s : ExecReader) :
    wp couldNotReadHeader (fun ok s' => ok = true → P s') (fun _ => True) s :=
  wp_any fun _ _ => nofun

theorem checkId_spec (r : ExecReader) :
    wp mutExecCheckId (fun ok s => ok = true → s = r) (fun _ => True) r := by
  unfold mutExecCheckId
  rw [wp_bind, wp_read, wp_ite]
  split
  · exact wp_any fun _ _ => nofun
  · exact fun _ => rfl

theorem checkClass_spec (r : ExecReader) :
    wp mutExecCheckClass (fun ok s => ok = true → s = r) (fun _ => True) r := by
  unfold mutExecCheckClass
  rw [wp_bind, wp_read, wp_ite]
  split
  · exact wp_any fun _ _ => wp_any fun _ _ => wp_any fun _ _ => wp_any fun _ _ => nofun
  · exact fun _ => rfl

theorem checkType_spec (r : ExecReader) :
    wp mutExecCheckType (fun ok s => ok = true → s = r) (fun _ => True) r := by
  unfold mutExecCheckType
  rw [wp_bind, wp_read, wp_ite]
  split
  · exact wp_any fun _ _ => nofun
  · exact fun _ => rfl

/-- Up to the scan the file's header and the names of its sections are read. -/
theorem openHeader_spec (hw : WellFormed r.file) :
    wp mutExecOpenHeader (fun ok r' => ok = true → HeaderRead r r') (fun _ => True) r := by
  unfold mutExecOpenHeader
  rw [wp_bind, wp_read]
  simp only [execFopen, execIo, wp_bind, wp_read, wp_update, wp_pure]
  cases r.io.head?.join with
  | some errno =>
      simp only [wp_pure]
      rw [if_pos (by decide), wp_bind, wp_read]
      exact wp_any fun _ _ => by simp
  | none =>
      simp only [wp_bind, wp_update, wp_pure]
      rw [if_neg (by decide), wp_bind]
      refine wp_mono (execFread_spec _ ehdrSize (fun _ => False)) ?_ fun _ _ => trivial
      intro got r₁ h₁
      rcases h₁ with ⟨rfl, _⟩ | ⟨rfl, _, rfl⟩
      · exact wp_any fun _ _ => wp_any fun _ _ => couldNotReadHeader_fails _
      rw [wp_bind, wp_update, wp_bind]
      refine wp_mono (checkId_spec _) ?_ fun _ _ => trivial
      intro id r₂ h₂
      cases id with
      | false => exact couldNotReadHeader_fails _
      | true =>
      rw [h₂ rfl, if_neg (by decide), wp_bind]
      refine wp_mono (checkClass_spec _) ?_ fun _ _ => trivial
      intro cls r₃ h₃
      cases cls with
      | false => exact couldNotReadHeader_fails _
      | true =>
      rw [h₃ rfl, if_neg (by decide), wp_bind]
      refine wp_mono (checkType_spec _) ?_ fun _ _ => trivial
      intro type r₄ h₄
      cases type with
      | false => exact couldNotReadHeader_fails _
      | true =>
      rw [h₄ rfl, if_neg (by decide), wp_bind]
      refine wp_mono (shstrtabOpen_spec hw rfl) ?_ fun _ _ => trivial
      intro ok r₅ h₅
      cases ok with
      | false => exact couldNotReadHeader_fails _
      | true =>
      intro _
      obtain ⟨hnames, hsize, hfixed⟩ := h₅ rfl
      exact ⟨hfixed.file, hfixed.header, hnames, hsize, hfixed.full⟩

/-! ## The scan -/

/-- What the scan sees of a well-formed file are the headers of its table. -/
theorem scanned_wellFormed (hw : WellFormed r.file) (hr : HeaderRead r r')
    (hn : n ≤ (fileHeader r.file).eShnum.toNat) :
    scanned r' (sectionNames r.file) n = (List.range n).map (sectionHeader r.file) := by
  induction n with
  | zero => rfl
  | succ n ih =>
      have hhead : r'.seenHeader (sectionNames r.file)
          (scanned r' (sectionNames r.file) n) n = sectionHeader r.file n := by
        have htable := hw.table
        have hmul := Nat.mul_le_mul_right shdrSize hn
        rw [Nat.add_mul, Nat.one_mul] at hmul
        unfold ExecReader.seenHeader ExecReader.rawHeader
        rw [hr.file, hr.header, hw.entsize, shdr_append]
        · rfl
        · rw [List.length_take, List.length_drop]
          omega
      unfold scanned
      rw [hhead, ih (by omega), List.range_succ, List.map_append]
      rfl

/-- The headers but the last. -/
theorem sectionHeaders_dropLast (file : List Byte) :
    (sectionHeaders file).dropLast =
      (List.range ((fileHeader file).eShnum.toNat - 1)).map (sectionHeader file) := by
  unfold sectionHeaders
  rw [← List.map_dropLast]
  cases (fileHeader file).eShnum.toNat with
  | zero => rfl
  | succ n => rw [List.range_succ, List.dropLast_concat, Nat.add_sub_cancel]

/-- The scan is over: the sections are the first of all headers but the last. -/
structure ScanDone (r s : ExecReader) : Prop where
  selected : ∀ w, s.selected w =
    (sectionHeaders r.file).dropLast.find? (·.isA (sectionNames r.file) w)
  full : s.hasFullSymbols = r.hasFullSymbols

theorem scanDone_of_scanned {s : ExecReader} (hw : WellFormed r.file) (hr : HeaderRead r r')
    (hs : Scanned r' (sectionNames r.file) (r'.header.eShnum.toNat - 1) s) : ScanDone r s := by
  refine ⟨?_, hs.full.trans hr.full⟩
  intro w
  rw [hs.selected w, hr.header, scanned_wellFormed hw hr (Nat.sub_le _ _),
    sectionHeaders_dropLast]

/-- A scan that finds a symbol table, and one that says it found none. -/
theorem locateSections_spec (hw : WellFormed r.file) (hr : HeaderRead r r') :
    wp mutExecLocateSections (fun ok s => ok = true → ScanDone r s) (fun _ => True) r' := by
  by_cases hseek : SeekGranted r'
  · have hloop : wp (mutExecLocateSectionsFrom (r'.header.eShnum.toNat - 1) >>= locateDone)
        (fun ok s => ok = true → ScanDone r s) (fun _ => True) r'.scanStart := by
      rw [wp_bind]
      refine wp_mono (sectionsFrom_scanned (scanned_start hr.names) _) ?_ fun _ _ => trivial
      intro ok s hs
      refine wp_mono (locateDone_spec ok s) ?_ fun _ _ => trivial
      intro done s' hdone htrue
      obtain ⟨hok, rfl, _⟩ := hdone htrue
      have hscan := hs hok
      rw [Nat.zero_add] at hscan
      exact scanDone_of_scanned hw hr hscan
    unfold wp at hloop ⊢
    rw [locateSections_loop hseek]
    exact hloop
  · refine wp_mono (locateSections_refused hseek) ?_ fun _ _ => trivial
    intro ok s hok htrue
    rw [hok] at htrue
    cases htrue

/-! ## After the scan -/

section Fails

variable {P : ExecReader → Prop}

theorem couldNotLocateSections_fails (s : ExecReader) :
    wp couldNotLocateSections (fun ok s' => ok = true → P s') (fun _ => True) s :=
  wp_any fun _ s' => couldNotReadHeader_fails s'

theorem couldNotOpenStrtab_fails (s : ExecReader) :
    wp couldNotOpenStrtab (fun ok s' => ok = true → P s') (fun _ => True) s :=
  wp_any fun _ s' => couldNotLocateSections_fails s'

theorem couldNotOpenSymtab_fails (s : ExecReader) :
    wp couldNotOpenSymtab (fun ok s' => ok = true → P s') (fun _ => True) s :=
  wp_any fun _ s' => couldNotOpenStrtab_fails s'

theorem couldNotOpenDynsym_fails (s : ExecReader) :
    wp couldNotOpenDynsym (fun ok s' => ok = true → P s') (fun _ => True) s :=
  wp_any fun _ s' => couldNotOpenSymtab_fails s'

theorem couldNotExtractDebugInfo_fails (s : ExecReader) :
    wp couldNotExtractDebugInfo (fun ok s' => ok = true → P s') (fun _ => True) s :=
  wp_any fun _ _ => wp_any fun _ s' => couldNotOpenDynsym_fails s'

end Fails

theorem fixed_mutExecOpenDone : Upholds Fixed mutExecOpenDone := by
  refine Within.read.bind fun s => aside_execFclose.fixed.bind fun closed => Within.ite ?_ ?_
  · refine (aside_lift _).fixed.bind fun _ => (aside_lift _).fixed.bind fun _ => ?_
    refine (aside_lift _).fixed.bind fun _ => ?_
    exact (fixed_mutExecStrtabClose _).bind fun _ => Within.pure _
  · exact (fixed_mutExecStrtabClose _).bind fun _ => Within.pure _

theorem openStabs_spec (r : ExecReader) :
    wp mutExecOpenStabs (fun ok r' => ok = true → Fixed r r') (fun _ => True) r := by
  unfold mutExecOpenStabs
  rw [wp_bind, wp_read]
  cases r.selected .stabs with
  | none =>
      rw [wp_bind, wp_update]
      refine wp_mono (fixed_mutExecOpenDone _ trivial) ?_ fun _ _ => trivial
      intro ok r' hfixed _
      have hfirst : Fixed r (r.setTable .stabstr { r.tables .stabstr with data := none }) :=
        ⟨rfl, rfl, rfl, rfl, rfl, rfl⟩
      exact hfirst.trans hfixed
  | some stabs =>
      show wp (mutExecStabstrOpen stabs >>= _) _ _ r
      rw [wp_bind]
      refine wp_mono (fixed_mutExecStabstrOpen stabs r trivial) ?_ fun _ _ => trivial
      intro opened r₁ h₁
      cases opened with
      | false => exact couldNotOpenDynsym_fails _
      | true =>
          rw [if_neg (by decide), wp_bind]
          refine wp_mono (fixed_mutExecExtractDebugInfo r₁ trivial) ?_ fun _ _ => trivial
          intro extracted r₂ h₂
          cases extracted with
          | false => exact couldNotExtractDebugInfo_fails _
          | true =>
              refine wp_mono (fixed_mutExecOpenDone r₂ trivial) ?_ fun _ _ => trivial
              intro ok r₃ h₃ _
              exact (h₁.trans h₂).trans h₃

theorem openDynsym_spec (r : ExecReader) :
    wp (mutExecOpenDynsym suffix) (fun ok r' => ok = true → Fixed r r') (fun _ => True) r := by
  unfold mutExecOpenDynsym
  rw [wp_bind, wp_read]
  cases r.selected .dsymtab with
  | none => exact openStabs_spec r
  | some dsymtab =>
      show wp (mutExecStrtabOpen dsymtab .dynstr >>= _) _ _ r
      rw [wp_bind]
      refine wp_mono (fixed_mutExecStrtabOpen dsymtab .dynstr r trivial) ?_ fun _ _ => trivial
      intro opened r₁ h₁
      cases opened with
      | false => exact couldNotOpenSymtab_fails _
      | true =>
          rw [if_neg (by decide), wp_bind]
          refine wp_mono (fixed_mutExecExtractSymbols _ _ _ _ r₁ trivial) ?_ fun _ _ => trivial
          intro extracted r₂ h₂
          cases extracted with
          | false => exact couldNotOpenDynsym_fails _
          | true =>
              refine wp_mono (openStabs_spec r₂) ?_ fun _ _ => trivial
              intro ok r₃ h₃ hok
              exact (h₁.trans h₂).trans (h₃ hok)

/-- The sections selected stay, and the flag is set if there is a symbol table. -/
structure Settled (r r' : ExecReader) : Prop where
  selected : r'.selected = r.selected
  full : r'.hasFullSymbols = (r.hasFullSymbols || (r.selected .symtab).isSome)

theorem selected_of_fixed (h : Fixed r r') : r'.selected = r.selected := by
  funext w
  unfold ExecReader.selected
  rw [h.slots, h.sections]

theorem openSymbols_spec (r : ExecReader) :
    wp (mutExecOpenSymbols suffix) (fun ok r' => ok = true → Settled r r') (fun _ => True) r := by
  have hstart : Fixed r r.symtabOpen := ⟨rfl, rfl, rfl, rfl, rfl, rfl⟩
  unfold mutExecOpenSymbols
  rw [wp_bind, wp_update, wp_bind, wp_read]
  cases hsymtab : r.symtabOpen.selected .symtab with
  | none =>
      refine wp_mono (openDynsym_spec _) ?_ fun _ _ => trivial
      intro ok r' hfixed hok
      have hall := hstart.trans (hfixed hok)
      refine ⟨selected_of_fixed hall, ?_⟩
      rw [hall.full, ← selected_of_fixed hstart, hsymtab]
      exact (Bool.or_false _).symm
  | some symtab =>
      show wp (mutExecStrtabOpen symtab .strtab >>= _) _ _ r.symtabOpen
      rw [wp_bind]
      refine wp_mono (fixed_mutExecStrtabOpen symtab .strtab _ trivial) ?_ fun _ _ => trivial
      intro opened r₁ h₁
      cases opened with
      | false => exact couldNotOpenStrtab_fails _
      | true =>
          rw [if_neg (by decide), wp_bind]
          refine wp_mono (fixed_mutExecExtractSymbols _ _ _ _ r₁ trivial) ?_ fun _ _ => trivial
          intro extracted r₂ h₂
          cases extracted with
          | false => exact couldNotOpenSymtab_fails _
          | true =>
              rw [if_neg (by decide), wp_bind, wp_update]
              refine wp_mono (openDynsym_spec _) ?_ fun _ _ => trivial
              intro ok r' hfixed hok
              have hlast := hfixed hok
              have hselected : r'.selected = r₂.selected := by
                rw [selected_of_fixed hlast]
                rfl
              refine ⟨?_, ?_⟩
              · rw [hselected, selected_of_fixed ((hstart.trans h₁).trans h₂)]
              · rw [hlast.full, ← selected_of_fixed hstart, hsymtab]
                exact (Bool.or_true _).symm

/-! ## The claim of the comment -/

/-- The headers used are the first of their kinds in the whole table, and the
flag tells whether there is a `.symtab`. -/
structure Selected (file : List Byte) (r' : ExecReader) : Prop where
  first : ∀ w, r'.selected w = (sectionHeaders file).find? (·.isA (sectionNames file) w)
  full : r'.hasFullSymbols = true ↔
    ∃ h ∈ sectionHeaders file, h.isA (sectionNames file) .symtab = true

/-- The last header of the table is the first of no kind, and the flag was clear
before unless a `.symtab` comes before the last header. -/
structure LastUnneeded (file : List Byte) (flag : Bool) : Prop where
  last : ∀ w, ∀ h ∈ (sectionHeaders file).getLast?, h.isA (sectionNames file) w = true →
    ∃ g ∈ (sectionHeaders file).dropLast, g.isA (sectionNames file) w = true
  flag : flag = true →
    ∃ g ∈ (sectionHeaders file).dropLast, g.isA (sectionNames file) .symtab = true

/-- The header is one of a symbol table. -/
def Shdr.isSymbols (b : List Byte) (h : Shdr) : Prop :=
  h.isA b .dsymtab = true ∨ h.isA b .symtab = true

/-- `mut_exec_open` fails for lack of symbols: the scan says that it found none. -/
def LacksSymbols (r : ExecReader) : Prop :=
  ∃ r₁ r₂, mutExecOpenHeader r = .done true r₁ ∧ mutExecLocateSections r₁ = .done false r₂ ∧
    r₂.symtab.log.messages.head?.map (·.name) = some "elf.nosymbols"

/-! ## The name of the last message -/

/-- The name of the latest message. -/
def Log.latest (l : Log) : Option String := l.messages.head?.map (·.name)

theorem latest_push (l : Log) (a : Arg) : (l.push a).latest = l.latest := by
  unfold Log.latest Log.push
  cases hmessages : l.messages with
  | nil => simp only [hmessages]
  | cons msg earlier => rfl

theorem latest_mutLogArgs (args : List Arg) (l : Log) :
    wp (mutLogArgs args) (fun _ l' => l'.latest = l.latest) (fun _ => True) l := by
  induction args generalizing l with
  | nil => rfl
  | cons a args ih =>
      simp only [mutLogArgs, mutLogArg, wp_bind, wp_read, wp_mutAssert, wp_update]
      split
      · refine wp_mono (ih (l.push a)) ?_ fun _ _ => trivial
        intro _ l' hl'
        rw [hl', latest_push]
      · trivial

/-- After a fatal message it is the latest. -/
theorem latest_execFatal (fatal : String) (errno : Nat) (args : List Arg) (r : ExecReader) :
    wp (execFatal fatal errno args) (fun _ r' => r'.symtab.log.latest = some fatal)
      (fun _ => True) r := by
  simp only [execFatal, mutLogFatal, mutLogBegin, mutLogEnd, wp_bind, wp_liftLogElf, wp_read,
    wp_mutAssert, wp_update]
  split
  · split
    · split
      · refine wp_mono (latest_mutLogArgs args _) ?_ fun _ _ => trivial
        intro _ l hl
        split
        · exact hl
        · trivial
      · trivial
    · trivial
  · trivial

/-- A round that fails says that a header cannot be read. -/
theorem latest_locateSection (s : ExecReader) :
    wp mutExecLocateSection (fun ok s' => ok = false → s'.symtab.log.latest = some "io.read")
      (fun _ => True) s := by
  unfold mutExecLocateSection
  rw [wp_bind, wp_read]
  refine wp_any fun _ s₁ => wp_any fun got s₂ => ?_
  cases got with
  | none =>
      rw [wp_bind, wp_read, wp_bind]
      refine wp_mono (latest_execFatal _ _ _ _) ?_ fun _ _ => trivial
      intro _ s₃ h₃ _
      exact h₃
  | some b => exact wp_any fun _ _ => wp_any fun _ _ => nofun

theorem latest_sectionsFrom (left : Nat) (s : ExecReader) :
    wp (mutExecLocateSectionsFrom left)
      (fun ok s' => ok = false → s'.symtab.log.latest = some "io.read") (fun _ => True) s := by
  induction left generalizing s with
  | zero => exact nofun
  | succ left ih =>
      unfold mutExecLocateSectionsFrom
      rw [wp_bind]
      refine wp_mono (latest_locateSection s) ?_ fun _ _ => trivial
      intro ok s₁ h₁
      cases ok with
      | false => exact fun _ => h₁ rfl
      | true => exact ih s₁

theorem not_isSymbols_of_none {s : ExecReader} (hs : ScanDone r s)
    (hnone : ¬ ((s.sections .dsymtab).isSome || (s.sections .symtab).isSome) = true) :
    ∀ g ∈ (sectionHeaders r.file).dropLast, ¬ g.isSymbols (sectionNames r.file) := by
  have hmissing : ∀ w, (s.sections w).isSome = false →
      ∀ g ∈ (sectionHeaders r.file).dropLast, ¬ g.isA (sectionNames r.file) w = true := by
    intro w hw
    have hsel := hs.selected w
    unfold ExecReader.selected at hsel
    rw [Option.isSome_eq_false_iff, Option.isNone_iff_eq_none] at hw
    rw [hw] at hsel
    exact List.find?_eq_none.1 hsel.symm
  rw [Bool.or_eq_true, not_or, Bool.not_eq_true, Bool.not_eq_true] at hnone
  intro g hg hsym
  rcases hsym with hd | hy
  · exact hmissing .dsymtab hnone.1 g hg hd
  · exact hmissing .symtab hnone.2 g hg hy

/-- A scan that says there are no symbols has seen none. -/
theorem locateSections_none (hw : WellFormed r.file) (hr : HeaderRead r r') :
    wp mutExecLocateSections
      (fun ok s => ok = false → s.symtab.log.latest = some "elf.nosymbols" →
        ∀ g ∈ (sectionHeaders r.file).dropLast, ¬ g.isSymbols (sectionNames r.file))
      (fun _ => True) r' := by
  by_cases hseek : SeekGranted r'
  · have hloop : wp (mutExecLocateSectionsFrom (r'.header.eShnum.toNat - 1) >>= locateDone)
        (fun ok s => ok = false → s.symtab.log.latest = some "elf.nosymbols" →
          ∀ g ∈ (sectionHeaders r.file).dropLast, ¬ g.isSymbols (sectionNames r.file))
        (fun _ => True) r'.scanStart := by
      rw [wp_bind]
      refine wp_mono (wp_and (sectionsFrom_scanned (scanned_start hr.names) _)
        (latest_sectionsFrom _ _)) ?_ fun _ _ => trivial
      intro ok s hs
      obtain ⟨hscan, hsaid⟩ := hs
      cases ok with
      | false =>
          intro _ hlatest
          rw [hsaid rfl] at hlatest
          exact absurd (Option.some.inj hlatest) (by decide)
      | true =>
          have hdone := hscan rfl
          rw [Nat.zero_add] at hdone
          unfold locateDone
          rw [if_neg (by decide), wp_bind, wp_read, wp_ite]
          split
          · exact nofun
          · next hnone =>
              refine wp_any fun _ _ => ?_
              intro _ _
              exact not_isSymbols_of_none (scanDone_of_scanned hw hr hdone) hnone
    unfold wp at hloop ⊢
    rw [locateSections_loop hseek]
    exact hloop
  · unfold mutExecLocateSections
    rw [wp_bind, wp_read, wp_bind]
    refine wp_mono (execFseek_spec r' _ (fun _ => False)) ?_ fun _ _ => trivial
    intro ok s hspec
    rcases hspec with ⟨hok, _⟩ | ⟨_, hok, _⟩
    · rw [hok, if_pos (by decide), wp_bind, wp_read, wp_bind]
      refine wp_mono (latest_execFatal _ _ _ _) ?_ fun _ _ => trivial
      intro _ s' hsaid _ hlatest
      rw [hsaid] at hlatest
      exact absurd (Option.some.inj hlatest) (by decide)
    · exact absurd hok hseek

/-! ## The result -/

/-- The last header does not matter for a kind unless it is the first of it. -/
theorem find_dropLast {p : Shdr → Bool} {l : List Shdr} :
    l.dropLast.find? p = l.find? p ↔
      ∀ h ∈ l.getLast?, p h = true → ∃ g ∈ l.dropLast, p g = true := by
  rcases List.eq_nil_or_concat l with rfl | ⟨init, h, rfl⟩
  · exact ⟨fun _ => nofun, fun _ => rfl⟩
  · rw [List.concat_eq_append, List.dropLast_concat, find_snoc, List.getLast?_concat]
    constructor
    · intro heq g hg hp
      cases hg
      rw [if_pos hp] at heq
      cases hfind : init.find? p with
      | none =>
          rw [hfind, Option.none_or] at heq
          cases heq
      | some g => exact ⟨g, List.mem_of_find?_eq_some hfind, List.find?_some hfind⟩
    · intro hlast
      by_cases hp : p h = true
      · obtain ⟨g, hg, hpg⟩ := hlast h rfl hp
        obtain ⟨g', hg'⟩ := Option.isSome_iff_exists.1 (List.find?_isSome.2 ⟨g, hg, hpg⟩)
        rw [hg', Option.some_or]
      · rw [if_neg hp, Option.or_none]

theorem mem_sectionHeaders (file : List Byte) (h : Shdr) :
    h ∈ sectionHeaders file ↔
      h ∈ (sectionHeaders file).dropLast ∨ h ∈ (sectionHeaders file).getLast? := by
  rcases List.eq_nil_or_concat (sectionHeaders file) with hnil | ⟨init, g, hconcat⟩
  · rw [hnil]
    exact ⟨nofun, fun hor => hor.elim nofun nofun⟩
  · rw [hconcat, List.concat_eq_append, List.dropLast_concat, List.getLast?_concat, List.mem_append,
      List.mem_singleton, Option.mem_some_iff]
    exact or_congr Iff.rfl eq_comm

/-- What a run that succeeds has selected. -/
theorem open_settled (hw : WellFormed r.file) (hopen : mutExecOpen suffix r = .done true r') :
    ∃ s, ScanDone r s ∧ Settled s r' := by
  have hwp : wp (mutExecOpen suffix) (fun ok r' => ok = true → ∃ s, ScanDone r s ∧ Settled s r')
      (fun _ => True) r := by
    unfold mutExecOpen
    rw [wp_bind]
    refine wp_mono (openHeader_spec hw) ?_ fun _ _ => trivial
    intro ok r₁ h₁
    cases ok with
    | false => exact nofun
    | true =>
        rw [if_neg (by decide), wp_bind]
        refine wp_mono (locateSections_spec hw (h₁ rfl)) ?_ fun _ _ => trivial
        intro located s hs
        cases located with
        | false => exact couldNotLocateSections_fails _
        | true =>
            refine wp_mono (openSymbols_spec s) ?_ fun _ _ => trivial
            intro ok r' hsettled hok
            exact ⟨s, hs rfl, hsettled hok⟩
  exact wp_done hwp hopen rfl

/-- On a well-formed file `mut_exec_open` uses the first sections of the whole table
exactly when the last header is not needed; and when it fails for lack of symbols there
are none exactly when the last header is not one of a symbol table. -/
theorem selection_iff (hw : WellFormed r.file) :
    (∀ r', mutExecOpen suffix r = .done true r' →
      (Selected r.file r' ↔ LastUnneeded r.file r.hasFullSymbols)) ∧
    (LacksSymbols r →
      ((∀ h ∈ sectionHeaders r.file, ¬ h.isSymbols (sectionNames r.file)) ↔
        ∀ h ∈ (sectionHeaders r.file).getLast?, ¬ h.isSymbols (sectionNames r.file))) := by
  constructor
  · intro r' hopen
    obtain ⟨s, hscan, hsettled⟩ := open_settled hw hopen
    have hfirst : (∀ w, r'.selected w =
        (sectionHeaders r.file).find? (·.isA (sectionNames r.file) w)) ↔
        ∀ w, ∀ h ∈ (sectionHeaders r.file).getLast?, h.isA (sectionNames r.file) w = true →
          ∃ g ∈ (sectionHeaders r.file).dropLast, g.isA (sectionNames r.file) w = true := by
      refine forall_congr' fun w => ?_
      rw [hsettled.selected, hscan.selected w]
      exact find_dropLast
    have hflag : r'.hasFullSymbols = true ↔ r.hasFullSymbols = true ∨
        ∃ g ∈ (sectionHeaders r.file).dropLast, g.isA (sectionNames r.file) .symtab = true := by
      rw [hsettled.full, hscan.full, hscan.selected .symtab, Bool.or_eq_true,
        List.find?_isSome]
    constructor
    · intro hsel
      have hlast := hfirst.1 hsel.first
      refine ⟨hlast, fun hset => ?_⟩
      obtain ⟨h, hh, hsym⟩ := hsel.full.1 (hflag.2 (.inl hset))
      rcases (mem_sectionHeaders _ h).1 hh with hh | hh
      · exact ⟨h, hh, hsym⟩
      · exact hlast .symtab h hh hsym
    · intro hun
      refine ⟨hfirst.2 hun.last, hflag.trans ?_⟩
      constructor
      · intro hor
        have hex : ∃ g ∈ (sectionHeaders r.file).dropLast,
            g.isA (sectionNames r.file) .symtab = true := hor.elim hun.flag id
        obtain ⟨g, hg, hsym⟩ := hex
        exact ⟨g, (mem_sectionHeaders _ g).2 (.inl hg), hsym⟩
      · intro hex
        obtain ⟨g, hg, hsym⟩ := hex
        rcases (mem_sectionHeaders _ g).1 hg with hg | hg
        · exact .inr ⟨g, hg, hsym⟩
        · exact .inr (hun.last .symtab g hg hsym)
  · intro hlacks
    obtain ⟨r₁, r₂, hopen, hlocate, hsaid⟩ := hlacks
    have hnone := wp_done (locateSections_none hw (wp_done (openHeader_spec hw) hopen rfl))
      hlocate rfl hsaid
    constructor
    · intro hall h hh
      exact hall h ((mem_sectionHeaders _ h).2 (.inr hh))
    · intro hlast h hh
      rcases (mem_sectionHeaders _ h).1 hh with hh | hh
      · exact hnone h hh
      · exact hlast h hh

/-! ## Two small files -/

/-- A section header with the fields that the reader looks at. -/
def smallHeader (shName shType shOffset shSize shLink : Byte) : List Byte :=
  [shName, 0, 0, 0, shType, 0, 0, 0] ++ List.replicate 8 0 ++
    [shOffset, 0, 0, 0, shSize, 0, 0, 0, shLink, 0, 0, 0] ++ List.replicate 12 0

/-- The header of the file for `n` section headers, the third of them that of the names. -/
def smallEhdr (n : Byte) : List Byte :=
  [0x7f, 0x45, 0x4c, 0x46, 1] ++ List.replicate 11 0 ++ [2, 0] ++ List.replicate 14 0 ++
    [96, 0, 0, 0] ++ List.replicate 10 0 ++ [40, 0, n, 0, 2, 0]

/-- A file with a table of four section headers, its names and one symbol. -/
def smallFile (headers : List (List Byte)) : List Byte :=
  smallEhdr 4 ++ wantedNames ++ List.replicate 16 0 ++ headers.flatten

/-- The symbol table comes first. -/
def symtabFirst : List Byte :=
  smallFile [smallHeader 0 0 0 0 0, smallHeader 9 2 80 16 2, smallHeader 0 3 52 28 0,
    smallHeader 0 0 0 0 0]

/-- The symbol table comes last, after one of dynamic symbols. -/
def symtabLast : List Byte :=
  smallFile [smallHeader 0 0 0 0 0, smallHeader 1 11 80 16 2, smallHeader 0 3 52 28 0,
    smallHeader 9 2 80 16 2]

/-- In the first file the right sections are selected. -/
theorem symtab_first_selected : ∃ r', mutExecOpen none (ExecReader.plain symtabFirst) =
    .done true r' ∧ Selected symtabFirst r' := by
  have hrun : (mutExecOpen none (ExecReader.plain symtabFirst)).seen (·.hasFullSymbols) =
      some (true, true) := by decide +kernel
  obtain ⟨r', hopen, _⟩ := Outcome.of_seen hrun
  have hw : WellFormed symtabFirst :=
    ⟨by decide +kernel, by decide +kernel, by decide +kernel, by decide +kernel,
      by decide +kernel, by decide +kernel, by decide +kernel, by decide +kernel,
      by decide +kernel, by decide +kernel⟩
  refine ⟨r', hopen, ((selection_iff (r := ExecReader.plain symtabFirst) hw).1 r' hopen).2 ?_⟩
  refine ⟨?_, nofun⟩
  intro w h hh hkind
  have hlast : (sectionHeaders symtabFirst).getLast? = some (Shdr.ofBytes []) := by
    decide +kernel
  rw [show sectionHeaders (ExecReader.plain symtabFirst).file = sectionHeaders symtabFirst
    from rfl, hlast] at hh
  cases hh
  revert hkind
  cases w <;> decide +kernel

/-- In the second the last header is not read, and its symbol table not used. -/
theorem symtab_last_missed : ∃ r', WellFormed symtabLast ∧
    mutExecOpen none (ExecReader.plain symtabLast) = .done true r' ∧
    r'.selected .symtab = none ∧
    ((sectionHeaders symtabLast).find? (·.isA (sectionNames symtabLast) .symtab)).isSome ∧
    ¬ Selected symtabLast r' := by
  have hrun : (mutExecOpen none (ExecReader.plain symtabLast)).seen (·.selected .symtab) =
      some (true, none) := by decide +kernel
  obtain ⟨r', hopen, hnone⟩ := Outcome.of_seen hrun
  have hsome : ((sectionHeaders symtabLast).find?
      (·.isA (sectionNames symtabLast) .symtab)).isSome = true := by decide +kernel
  refine ⟨r', ?_, hopen, hnone, hsome, ?_⟩
  · exact ⟨by decide +kernel, by decide +kernel, by decide +kernel, by decide +kernel,
      by decide +kernel, by decide +kernel, by decide +kernel, by decide +kernel,
      by decide +kernel, by decide +kernel⟩
  · intro hsel
    rw [← hsel.first .symtab, hnone] at hsome
    cases hsome

end MutTracker.Source
