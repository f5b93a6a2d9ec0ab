import MutTracker.Verified.Names

/-!
# The scan for sections

`mut_exec_locate_sections` reads the section headers one after another into
the next free slot of an array of four, and a slot is kept by moving on to the
next one.  `scanned r b n` are the first `n` headers as the scan sees them and
`Scanned` is what is known after `n` rounds: the sections selected are the
first of their kinds and the slots in use are as many as the kinds found.

So with all four kinds found there is no slot left to read the next header
into.

## Main results

* `locateSection_spec` — one round of the scan.
* `locate_in_room_iff` — when every header is read into a slot that has room for it.
-/

namespace MutTracker.Source

open MutTracker.Logic MutTracker.Logic.Prog MutTracker.Logic.CString

variable {r s s' : ExecReader} {b : List Byte} {n : Nat} {h : Shdr} {hs : List Shdr}
  {w w' : Wanted}

/-! ## Kinds of sections -/

/-- The type of a wanted section. -/
def Wanted.shType : Wanted → Word
  | .dsymtab => shtDynsym
  | .symtab => shtSymtab
  | .stabs => shtProgbits
  | .plt => shtProgbits

/-- The name of a wanted section. -/
def Wanted.sectionName : Wanted → String
  | .dsymtab => ".dynsym"
  | .symtab => ".symtab"
  | .stabs => ".stab"
  | .plt => ".plt"

/-- The header is one of a wanted section, by its type and its name in `b`. -/
def Shdr.isA (b : List Byte) (w : Wanted) (h : Shdr) : Bool :=
  h.shType == w.shType && cstr 0 b h.shName.toNat == bytesOf w.sectionName

/-- All the wanted sections. -/
def wanted : List Wanted := [.dsymtab, .symtab, .stabs, .plt]

theorem mem_wanted (w : Wanted) : w ∈ wanted := by
  cases w <;> decide

theorem isA_iff : h.isA b w = true ↔
    h.shType = w.shType ∧ cstr 0 b h.shName.toNat = bytesOf w.sectionName := by
  unfold Shdr.isA
  rw [Bool.and_eq_true, beq_iff_eq, beq_iff_eq]

/-- A header is of one kind at most. -/
theorem isA_unique (hw : h.isA b w = true) (hw' : h.isA b w' = true) : w = w' := by
  obtain ⟨htype, hname⟩ := isA_iff.1 hw
  obtain ⟨htype', hname'⟩ := isA_iff.1 hw'
  have hkinds : w.shType = w'.shType ∧ bytesOf w.sectionName = bytesOf w'.sectionName :=
    ⟨htype.symm.trans htype', hname.symm.trans hname'⟩
  revert hkinds
  cases w <;> cases w' <;> decide +kernel

/-- How many kinds of wanted sections there are among the headers. -/
def filled (b : List Byte) (hs : List Shdr) : Nat :=
  wanted.countP fun w => (hs.find? (·.isA b w)).isSome

theorem find_snoc (p : Shdr → Bool) (hs : List Shdr) (h : Shdr) :
    (hs ++ [h]).find? p = (hs.find? p).or (if p h then some h else none) := by
  rw [List.find?_append, List.find?_cons, List.find?_nil]
  cases p h <;> rfl

/-- A header that is the first of its kind fills another slot. -/
theorem filled_new (hw : h.isA b w = true) (hnone : hs.find? (·.isA b w) = none) :
    filled b (hs ++ [h]) = filled b hs + 1 := by
  have hother : ∀ w', w' ≠ w → (hs ++ [h]).find? (·.isA b w') = hs.find? (·.isA b w') := by
    intro w' hne
    rw [find_snoc, if_neg fun hw' => hne (isA_unique hw' hw), Option.or_none]
  have hself : (hs ++ [h]).find? (·.isA b w) = some h := by
    rw [find_snoc, hnone, if_pos hw, Option.none_or]
  unfold filled wanted
  simp only [List.countP_cons, List.countP_nil]
  cases w with
  | dsymtab => simp [hself, hnone, hother .symtab, hother .stabs, hother .plt]
  | symtab => simp [hself, hnone, hother .dsymtab, hother .stabs, hother .plt]; omega
  | stabs => simp [hself, hnone, hother .dsymtab, hother .symtab, hother .plt]; omega
  | plt => simp [hself, hnone, hother .dsymtab, hother .symtab, hother .stabs]; omega

/-- Any other header fills none. -/
theorem filled_old (hold : ∀ w, h.isA b w = true → hs.find? (·.isA b w) ≠ none) (w : Wanted) :
    (hs ++ [h]).find? (·.isA b w) = hs.find? (·.isA b w) := by
  rw [find_snoc]
  by_cases hw : h.isA b w = true
  · cases hfind : hs.find? (·.isA b w) with
    | none => exact absurd hfind (hold w hw)
    | some g => rfl
  · rw [if_neg hw, Option.or_none]

/-! ## The switch -/

/-- The header's name lies in the table of names. -/
def Named (r : ExecReader) (b : List Byte) (h : Shdr) : Prop :=
  h.shName < (r.tables .shstrtab).size ∧ Terminated 0 b h.shName.toNat

/-- The switch looks the header's name up. -/
def LooksUp {α : Type} (sections : Wanted → Option α) (h : Shdr) : Prop :=
  (h.shType = shtDynsym ∧ sections .dsymtab = none) ∨
    (h.shType = shtSymtab ∧ sections .symtab = none) ∨ h.shType = shtProgbits

/-- The state with the header in the free slot selected, if it is the first of its kind. -/
def ExecReader.pick (r : ExecReader) (b : List Byte) (h : Shdr) : ExecReader :=
  match wanted.find? (h.isA b ·) with
  | some w =>
      match r.sections w with
      | none => { r.setSection w r.free with free := r.free + 1 }
      | some _ => r
  | none => r

theorem wp_mutExecShstrtabLookup {Q : Nat → ExecReader → Prop} {E : ExecHalt → Prop}
    (index : Word) :
    wp (mutExecShstrtabLookup index) Q E r ↔
      if index < (r.tables .shstrtab).size then Q index.toNat r else E .inTable := by
  simp only [mutExecShstrtabLookup, mutExecStrtabLookup, wp_bind, wp_read, wp_require, wp_pure,
    decide_eq_true_eq]

theorem wp_execStrcmp {Q : Bool → ExecReader → Prop} {E : ExecHalt → Prop}
    (hb : r.bytes .shstrtab = some b) (o : Nat) (name : String) :
    wp (execStrcmp .shstrtab o name) Q E r ↔
      if Terminated 0 b o then Q (cstr 0 b o == bytesOf name) r else E .unterminated := by
  simp only [execStrcmp, execString, wp_bind]
  rw [execTable_done hb]
  simp only [wp_require, wp_pure, decide_eq_true_eq]

/-- Looking the name up and comparing it go through when the name is in the table. -/
theorem wp_name {α : Type} {Q : α → ExecReader → Prop} {E : ExecHalt → Prop}
    {f : Nat → Bool → ElfM α} (hb : r.bytes .shstrtab = some b) (name : String)
    (hnamed : Named r b h →
      wp (f h.shName.toNat (cstr 0 b h.shName.toNat == bytesOf name)) Q E r)
    (hE : ¬ Named r b h → E .inTable ∧ E .unterminated) :
    wp (mutExecShstrtabLookup h.shName >>= fun o => execStrcmp .shstrtab o name >>= f o) Q E r := by
  rw [wp_bind, wp_mutExecShstrtabLookup]
  by_cases hsize : h.shName < (r.tables .shstrtab).size
  · rw [if_pos hsize, wp_bind, wp_execStrcmp hb]
    by_cases hterm : Terminated 0 b h.shName.toNat
    · rw [if_pos hterm]
      exact hnamed ⟨hsize, hterm⟩
    · rw [if_neg hterm]
      exact (hE fun hn => hterm hn.2).2
  · rw [if_neg hsize]
    exact (hE fun hn => hsize hn.1).1

theorem pick_new (hw : h.isA b w = true) (hnone : r.sections w = none) :
    r.pick b h = { r.setSection w r.free with free := r.free + 1 } := by
  have hfind : wanted.find? (h.isA b ·) = some w := by
    cases hf : wanted.find? (h.isA b ·) with
    | none => exact absurd hw (List.find?_eq_none.1 hf w (mem_wanted w))
    | some w' =>
        have hw' : h.isA b w' = true := by simpa using List.find?_some hf
        rw [isA_unique hw' hw]
  unfold ExecReader.pick
  rw [hfind]
  show (match r.sections w with
    | none => { r.setSection w r.free with free := r.free + 1 }
    | some _ => r) = _
  rw [hnone]

theorem pick_old (hold : ∀ w, h.isA b w = true → r.sections w ≠ none) : r.pick b h = r := by
  unfold ExecReader.pick
  cases hf : wanted.find? (h.isA b ·) with
  | none => rfl
  | some w =>
      show (match r.sections w with
        | none => { r.setSection w r.free with free := r.free + 1 }
        | some _ => r) = r
      cases hs : r.sections w with
      | none => exact absurd hs (hold w (by simpa using List.find?_some hf))
      | some j => rfl

theorem isA_type (hw : h.isA b w = true) : h.shType = w.shType := (isA_iff.1 hw).1

/-- A kind that alone has its type. -/
private theorem switch_alone (hb : r.bytes .shstrtab = some b)
    (halone : ∀ w', w'.shType = w.shType → w' = w) (htype : h.shType = w.shType)
    (hlooks : LooksUp r.sections h ↔ r.sections w = none) :
    wp (if (r.sections w).isNone then
        mutExecShstrtabLookup h.shName >>= fun o =>
          execStrcmp .shstrtab o w.sectionName >>= fun same =>
            if same then execSelect w else pure ()
      else pure ())
      (fun _ s => s = r.pick b h ∧ (LooksUp r.sections h → Named r b h))
      (fun e => e ≠ .overrun ∧ LooksUp r.sections h ∧ ¬ Named r b h) r := by
  have hkind : ∀ w', h.isA b w' = true → w' = w := fun w' hw' =>
    halone w' ((isA_type hw').symm.trans htype)
  rw [wp_ite]
  by_cases hnone : r.sections w = none
  · rw [if_pos (by rw [hnone]; rfl)]
    refine wp_name hb w.sectionName ?_ ?_
    · intro hnamed
      rw [wp_ite]
      by_cases hname : (cstr 0 b h.shName.toNat == bytesOf w.sectionName) = true
      · rw [if_pos hname]
        refine ⟨?_, fun _ => hnamed⟩
        rw [pick_new (isA_iff.2 ⟨htype, eq_of_beq hname⟩) hnone]
      · rw [if_neg hname]
        refine ⟨?_, fun _ => hnamed⟩
        rw [pick_old]
        intro w' hw'
        rw [hkind w' hw'] at hw'
        exact absurd (beq_iff_eq.2 (isA_iff.1 hw').2) hname
    · intro hnamed
      exact ⟨⟨nofun, hlooks.2 hnone, hnamed⟩, nofun, hlooks.2 hnone, hnamed⟩
  · rw [if_neg fun hn => hnone (Option.isNone_iff_eq_none.1 hn)]
    refine ⟨?_, fun hl => absurd (hlooks.1 hl) hnone⟩
    rw [pick_old]
    intro w' hw'
    rw [hkind w' hw']
    exact hnone

/-- A header whose type and name were compared with those of a kind. -/
private theorem switch_compared (hsame : h.isA b w = true) :
    wp (if (r.sections w).isNone then execSelect w else pure ())
      (fun _ s => s = r.pick b h) (fun _ => False) r := by
  rw [wp_ite]
  by_cases hnone : r.sections w = none
  · rw [if_pos (by rw [hnone]; rfl)]
    rw [pick_new hsame hnone]
    rfl
  · rw [if_neg fun hn => hnone (Option.isNone_iff_eq_none.1 hn)]
    rw [pick_old fun w' hw' => by rw [isA_unique hw' hsame]; exact hnone]
    rfl

/-- The switch selects the header if it is the first of its kind; it stops only
where the header has no name. -/
theorem switchSection_spec (hb : r.bytes .shstrtab = some b) (h : Shdr) :
    wp (mutExecSwitchSection h)
      (fun _ s => s = r.pick b h ∧ (LooksUp r.sections h → Named r b h))
      (fun e => e ≠ .overrun ∧ LooksUp r.sections h ∧ ¬ Named r b h) r := by
  unfold mutExecSwitchSection
  rw [wp_bind, wp_read]
  by_cases hdyn : h.shType = shtDynsym
  · rw [if_pos hdyn]
    refine switch_alone (w := .dsymtab) hb (fun w' => by cases w' <;> decide) hdyn ?_
    unfold LooksUp
    rw [hdyn]
    simp [shtDynsym, shtSymtab, shtProgbits]
  rw [if_neg hdyn]
  by_cases hsym : h.shType = shtSymtab
  · rw [if_pos hsym]
    refine switch_alone (w := .symtab) hb (fun w' => by cases w' <;> decide) hsym ?_
    unfold LooksUp
    rw [hsym]
    simp [shtDynsym, shtSymtab, shtProgbits]
  rw [if_neg hsym]
  by_cases hprog : h.shType = shtProgbits
  · rw [if_pos hprog]
    refine wp_name hb ".stab" ?_ ?_
    · intro hnamed
      rw [wp_ite]
      by_cases hstab : (cstr 0 b h.shName.toNat == bytesOf ".stab") = true
      · rw [if_pos hstab]
        have hkind : h.isA b .stabs = true := isA_iff.2 ⟨hprog, eq_of_beq hstab⟩
        exact wp_mono (switch_compared hkind) (fun _ _ hs => ⟨hs, fun _ => hnamed⟩) nofun
      · rw [if_neg hstab, wp_bind, wp_execStrcmp hb, if_pos hnamed.2, wp_ite]
        by_cases hplt : (cstr 0 b h.shName.toNat == bytesOf ".plt") = true
        · rw [if_pos hplt]
          have hkind : h.isA b .plt = true := isA_iff.2 ⟨hprog, eq_of_beq hplt⟩
          exact wp_mono (switch_compared hkind) (fun _ _ hs => ⟨hs, fun _ => hnamed⟩) nofun
        · rw [if_neg hplt]
          refine ⟨?_, fun _ => hnamed⟩
          rw [pick_old]
          intro w hw
          obtain ⟨htype, hname⟩ := isA_iff.1 hw
          cases w with
          | dsymtab => exact absurd htype hdyn
          | symtab => exact absurd htype hsym
          | stabs => exact absurd (beq_iff_eq.2 hname) hstab
          | plt => exact absurd (beq_iff_eq.2 hname) hplt
    · intro hnamed
      exact ⟨⟨nofun, .inr (.inr hprog), hnamed⟩, nofun, .inr (.inr hprog), hnamed⟩
  · rw [if_neg hprog]
    refine ⟨?_, ?_⟩
    · rw [pick_old]
      intro w hw
      have htype := isA_type hw
      cases w with
      | dsymtab => exact absurd htype hdyn
      | symtab => exact absurd htype hsym
      | stabs => exact absurd htype hprog
      | plt => exact absurd htype hprog
    · intro hlooks
      rcases hlooks with ⟨htype, _⟩ | ⟨htype, _⟩ | htype
      · exact absurd htype hdyn
      · exact absurd htype hsym
      · exact absurd htype hprog

/-! ## The headers the scan sees -/

/-- The bytes of header `n` in the file. -/
def ExecReader.rawHeader (r : ExecReader) (n : Nat) : List Byte :=
  (r.file.drop (r.header.eShoff.toNat + n * r.header.eShentsize.toNat)).take
    r.header.eShentsize.toNat

/-- A header after the headers `hs`, in the slot that is free then.  When headers
are shorter than slots, the slot's first contents show behind them. -/
def ExecReader.seenHeader (r : ExecReader) (b : List Byte) (hs : List Shdr) (n : Nat) : Shdr :=
  Shdr.ofBytes (r.rawHeader n ++ (r.slots (filled b hs)).drop r.header.eShentsize.toNat)

/-- The first `n` headers as the scan sees them. -/
def scanned (r : ExecReader) (b : List Byte) : Nat → List Shdr
  | 0 => []
  | n + 1 => scanned r b n ++ [r.seenHeader b (scanned r b n) n]

/-- The scan gets past header `n`: it is read, and its name is found if it is looked for. -/
structure Passes (r : ExecReader) (b : List Byte) (n : Nat) : Prop where
  granted : r.io[n + 1]?.join = none
  notEmpty : r.header.eShentsize.toNat ≠ 0
  inside : r.header.eShoff.toNat + (n + 1) * r.header.eShentsize.toNat ≤ r.file.length
  named : LooksUp (fun w => (scanned r b n).find? (·.isA b w))
    (r.seenHeader b (scanned r b n) n) → Named r b (r.seenHeader b (scanned r b n) n)

/-- There is room for header `n`: it is no longer than a slot, and a slot is free. -/
def InRoom (r : ExecReader) (b : List Byte) (n : Nat) : Prop :=
  r.header.eShentsize.toNat ≤ shdrSize ∧ filled b (scanned r b n) < mutExecReaderSectionsMax

/-- The state `s` after `n` rounds of the scan that `r` went into. -/
structure Scanned (r : ExecReader) (b : List Byte) (n : Nat) (s : ExecReader) : Prop where
  file : s.file = r.file
  header : s.header = r.header
  names : s.bytes .shstrtab = some b
  tables : s.tables = r.tables
  full : s.hasFullSymbols = r.hasFullSymbols
  pos : s.pos = r.header.eShoff.toNat + n * r.header.eShentsize.toNat
  io : s.io = r.io.drop (n + 1)
  free : s.free = filled b (scanned r b n)
  /-- The sections selected are the first of their kinds. -/
  selected : ∀ w, s.selected w = (scanned r b n).find? (·.isA b w)
  /-- Their headers are in slots that are not read into again. -/
  below : ∀ w j, s.sections w = some j → j < s.free
  /-- Behind the headers read, the free slots hold what they first held. -/
  rest : ∀ j, s.free ≤ j → (s.slots j).drop r.header.eShentsize.toNat =
    (r.slots j).drop r.header.eShentsize.toNat

/-! ## One round -/

/-- A read of `size` bytes is granted and the file has them. -/
def Readable (s : ExecReader) (size : Nat) : Prop :=
  s.io.head?.join = none ∧ size ≠ 0 ∧ s.pos + size ≤ s.file.length

theorem execFread_spec (s : ExecReader) (size : Nat) (E : ExecHalt → Prop) :
    wp (execFread size)
      (fun got s' => (got = none ∧ ¬ Readable s size) ∨
        (got = some ((s.file.drop s.pos).take size) ∧ Readable s size ∧
          s' = { s with io := s.io.tail, pos := s.pos + size })) E s := by
  simp only [execFread, execIo, wp_bind, wp_read, wp_update, wp_pure]
  cases hio : s.io.head?.join with
  | some errno =>
      refine .inl ⟨rfl, ?_⟩
      intro hread
      rw [hread.1] at hio
      cases hio
  | none =>
      simp only [wp_bind, wp_read, wp_update, wp_ite, wp_pure, Option.getD_none,
        List.length_take, List.length_drop]
      split
      · next hshort =>
          refine .inl ⟨trivial, ?_⟩
          intro hread
          obtain ⟨_, hsize, hinside⟩ := hread
          omega
      · next hlong =>
          have hlen : min size (s.file.length - s.pos) = size := by omega
          refine .inr ⟨trivial, ⟨hio, by omega, by omega⟩, ?_⟩
          rw [hlen]

/-- A message and the answer `false`. -/
theorem wp_refused {Q : Bool → ExecReader → Prop} {E : ExecHalt → Prop} (fatal : String)
    (errno : Nat) (args : List Arg) (hQ : ∀ s', Q false s') (hE : ∀ e, E (.halt e)) :
    wp (do execFatal fatal errno args; return false) Q E s := by
  simp only [execFatal, wp_bind, wp_liftLogElf, wp_pure]
  refine wp_intro ?_ fun e _ => hE e
  intro _ l _
  refine wp_intro ?_ fun e _ => hE e
  intro _ l' _
  refine wp_intro ?_ fun e _ => hE e
  intro _ l'' _
  exact hQ _

theorem Scanned.missing (hs : Scanned r b n s) (w : Wanted) :
    s.sections w = none ↔ (scanned r b n).find? (·.isA b w) = none := by
  rw [← hs.selected w]
  unfold ExecReader.selected
  cases s.sections w with
  | none => exact ⟨fun _ => rfl, fun _ => rfl⟩
  | some j => exact ⟨nofun, nofun⟩

theorem Scanned.looksUp (hs : Scanned r b n s) (h : Shdr) :
    LooksUp s.sections h ↔ LooksUp (fun w => (scanned r b n).find? (·.isA b w)) h := by
  unfold LooksUp
  rw [hs.missing .dsymtab, hs.missing .symtab]

theorem Scanned.rawHeader (hs : Scanned r b n s) :
    (s.file.drop s.pos).take r.header.eShentsize.toNat = r.rawHeader n := by
  unfold ExecReader.rawHeader
  rw [hs.file, hs.pos]

theorem Scanned.readable (hs : Scanned r b n s) :
    Readable s r.header.eShentsize.toNat ↔
      r.io[n + 1]?.join = none ∧ r.header.eShentsize.toNat ≠ 0 ∧
        r.header.eShoff.toNat + (n + 1) * r.header.eShentsize.toNat ≤ r.file.length := by
  unfold Readable
  rw [hs.io, hs.file, hs.pos, List.head?_drop, Nat.add_mul, Nat.one_mul, Nat.add_assoc]

/-- The slot after a header was read into it, seen as a header. -/
theorem Scanned.seenHeader (hs : Scanned r b n s) :
    Shdr.ofBytes (r.rawHeader n ++ (s.slots s.free).drop r.header.eShentsize.toNat) =
      r.seenHeader b (scanned r b n) n := by
  unfold ExecReader.seenHeader
  rw [hs.rest s.free (Nat.le_refl _), hs.free]

/-- The state with a header read into the free slot. -/
def ExecReader.readSlot (r s : ExecReader) (n : Nat) : ExecReader :=
  { s with
    io := s.io.tail
    pos := s.pos + r.header.eShentsize.toNat
    slots := fun i =>
      if i = s.free then r.rawHeader n ++ (s.slots s.free).drop r.header.eShentsize.toNat
      else s.slots i }

theorem readSlot_selected (hs : Scanned r b n s) (w : Wanted) :
    (r.readSlot s n).selected w = s.selected w := by
  unfold ExecReader.selected
  show (s.sections w).map _ = _
  cases hj : s.sections w with
  | none => rfl
  | some j =>
      have hlt := hs.below w j hj
      show some (Shdr.ofBytes (if j = s.free then _ else s.slots j)) = _
      rw [if_neg (Nat.ne_of_lt hlt)]
      rfl

theorem rawHeader_length
    (h : r.header.eShoff.toNat + (n + 1) * r.header.eShentsize.toNat ≤ r.file.length) :
    (r.rawHeader n).length = r.header.eShentsize.toNat := by
  unfold ExecReader.rawHeader
  rw [List.length_take, List.length_drop]
  rw [Nat.add_mul, Nat.one_mul] at h
  omega

/-- What a slot holds behind a header does not change. -/
theorem readSlot_rest (hs : Scanned r b n s) (hlen : (r.rawHeader n).length =
    r.header.eShentsize.toNat) {j : Nat} (hj : s.free ≤ j) :
    ((r.readSlot s n).slots j).drop r.header.eShentsize.toNat =
      (r.slots j).drop r.header.eShentsize.toNat := by
  show (if j = s.free then _ else s.slots j).drop _ = _
  by_cases heq : j = s.free
  · rw [if_pos heq, List.drop_append_of_le_length (Nat.le_of_eq hlen.symm), heq,
      List.drop_of_length_le (Nat.le_of_eq hlen), List.nil_append]
    exact hs.rest s.free (Nat.le_refl _)
  · rw [if_neg heq]
    exact hs.rest j hj

/-- A round that goes through adds one header to those scanned. -/
theorem Scanned.next (hs : Scanned r b n s) (hlen : (r.rawHeader n).length =
    r.header.eShentsize.toNat) :
    Scanned r b (n + 1)
      ((r.readSlot s n).pick b (r.seenHeader b (scanned r b n) n)) := by
  have hpos : s.pos + r.header.eShentsize.toNat =
      r.header.eShoff.toNat + (n + 1) * r.header.eShentsize.toNat := by
    rw [hs.pos, Nat.add_mul, Nat.one_mul, Nat.add_assoc]
  have hio : s.io.tail = r.io.drop (n + 1 + 1) := by
    rw [hs.io, List.tail_drop]
  by_cases hnew : ∃ w, (r.seenHeader b (scanned r b n) n).isA b w = true ∧ s.sections w = none
  · obtain ⟨w, hw, hnone⟩ := hnew
    have hmissing := (hs.missing w).1 hnone
    rw [pick_new hw (show (r.readSlot s n).sections w = none from hnone)]
    refine ⟨hs.file, hs.header, hs.names, hs.tables, hs.full, hpos, hio, ?_, ?_, ?_, ?_⟩
    · show s.free + 1 = filled b (scanned r b n ++ [_])
      rw [filled_new hw hmissing, hs.free]
    · intro w'
      show ((if w' = w then some s.free else s.sections w').map _) =
        (scanned r b n ++ [_]).find? _
      rw [find_snoc]
      by_cases hww : w' = w
      · rw [if_pos hww, hww, hmissing, if_pos hw, Option.none_or]
        show some (Shdr.ofBytes (if s.free = s.free then _ else s.slots s.free)) = _
        rw [if_pos rfl, hs.seenHeader]
      · rw [if_neg hww, if_neg fun hw' => hww (isA_unique hw' hw), Option.or_none,
          ← hs.selected w', ← readSlot_selected hs w']
        rfl
    · intro w' j hj
      by_cases hww : w' = w
      · rw [show ((r.readSlot s n).setSection w (r.readSlot s n).free).sections w' = some s.free
          from if_pos hww] at hj
        cases hj
        exact Nat.lt_succ_self _
      · exact Nat.lt_succ_of_lt (hs.below w' j ((if_neg hww).symm.trans hj))
    · intro j hj
      exact readSlot_rest hs hlen (Nat.le_of_succ_le hj)
  · have hold : ∀ w, (r.seenHeader b (scanned r b n) n).isA b w = true → s.sections w ≠ none :=
      fun w hw hnone => hnew ⟨w, hw, hnone⟩
    have hfind := filled_old fun w hw hnone => hold w hw ((hs.missing w).2 hnone)
    rw [pick_old (show ∀ w, _ → (r.readSlot s n).sections w ≠ none from hold)]
    refine ⟨hs.file, hs.header, hs.names, hs.tables, hs.full, hpos, hio, ?_, ?_, hs.below, ?_⟩
    · show s.free = filled b (scanned r b n ++ [_])
      unfold filled
      simp only [hfind]
      exact hs.free
    · intro w
      rw [readSlot_selected hs w, hs.selected w]
      exact (hfind w).symm
    · intro j hj
      exact readSlot_rest hs hlen hj

/-- A header for which there is no room is not read. -/
theorem locateSection_overrun (hs : Scanned r b n s) (hroom : ¬ InRoom r b n) :
    mutExecLocateSection s = .halt .overrun := by
  have hwp : wp mutExecLocateSection (fun _ _ => False) (fun e => e = .overrun) s := by
    simp only [mutExecLocateSection, execFreadHeader, wp_bind, wp_read, wp_require,
      decide_eq_true_eq]
    by_cases hfree : s.free < mutExecReaderSectionsMax
    · rw [if_pos hfree, if_neg]
      · trivial
      · rw [hs.header]
        intro hsize
        rw [hs.free] at hfree
        exact hroom ⟨hsize, hfree⟩
    · rw [if_neg hfree]
      trivial
  unfold wp at hwp
  cases hx : mutExecLocateSection s with
  | done ok s' =>
      rw [hx] at hwp
      exact hwp.elim
  | halt e =>
      rw [hx] at hwp
      rw [hwp]

/-- A round with room for its header gets past it exactly when the header is
there and has the name looked up. -/
theorem locateSection_spec (hs : Scanned r b n s) (hroom : InRoom r b n) :
    wp mutExecLocateSection
      (fun ok s' => (ok = true ↔ Passes r b n) ∧ (ok = true → Scanned r b (n + 1) s'))
      (fun e => e ≠ .overrun ∧ ¬ Passes r b n) s := by
  have hfree : s.free < mutExecReaderSectionsMax := by
    rw [hs.free]
    exact hroom.2
  have hsize : s.header.eShentsize.toNat ≤ shdrSize := by
    rw [hs.header]
    exact hroom.1
  simp only [mutExecLocateSection, execFreadHeader, wp_bind, wp_read, wp_require,
    decide_eq_true_eq, if_pos hfree, if_pos hsize]
  rw [hs.header]
  refine wp_mono (execFread_spec s _ (fun _ => False)) ?_ fun _ h => absurd h id
  intro got s₁ hgot
  rcases hgot with ⟨rfl, hnot⟩ | ⟨rfl, hread, rfl⟩
  · have hfails : ¬ Passes r b n := fun hp =>
      hnot (hs.readable.2 ⟨hp.granted, hp.notEmpty, hp.inside⟩)
    refine wp_refused _ _ _ ?_ ?_
    · intro s'
      exact ⟨⟨by simp, fun hp => absurd hp hfails⟩, by simp⟩
    · intro e
      exact ⟨by simp, hfails⟩
  · obtain ⟨hgranted, hne, hinside⟩ := hs.readable.1 hread
    rw [hs.rawHeader]
    simp only [wp_pure, wp_bind, wp_update]
    rw [hs.seenHeader]
    have hb : (r.readSlot s n).bytes .shstrtab = some b := hs.names
    refine wp_mono (switchSection_spec hb _) ?_ ?_
    · intro _ s₂ h₂
      obtain ⟨rfl, hnamed⟩ := h₂
      have hnamed' : LooksUp (fun w => (scanned r b n).find? (·.isA b w))
          (r.seenHeader b (scanned r b n) n) → Named r b (r.seenHeader b (scanned r b n) n) := by
        intro hlooks
        have hn := hnamed ((hs.looksUp _).2 hlooks)
        unfold Named at hn ⊢
        rw [← hs.tables]
        exact hn
      exact ⟨⟨fun _ => ⟨hgranted, hne, hinside, hnamed'⟩, fun _ => trivial⟩,
        fun _ => hs.next (rawHeader_length hinside)⟩
    · intro e he
      obtain ⟨hover, hlooks, hnot⟩ := he
      refine ⟨hover, ?_⟩
      intro hp
      refine hnot ?_
      have hn := hp.named ((hs.looksUp _).1 hlooks)
      unfold Named at hn ⊢
      rw [← hs.tables] at hn
      exact hn

/-! ## The whole scan -/

/-- The loop runs out of room at the first header that has none, if it gets there. -/
theorem sectionsFrom_overrun_iff (hs : Scanned r b n s) (left : Nat) :
    mutExecLocateSectionsFrom left s = .halt .overrun ↔
      ∃ m, n ≤ m ∧ m < n + left ∧ (∀ i, n ≤ i → i < m → Passes r b i) ∧ ¬ InRoom r b m := by
  induction left generalizing n s with
  | zero =>
      refine ⟨nofun, ?_⟩
      intro hm
      obtain ⟨m, hle, hlt, _⟩ := hm
      omega
  | succ left ih =>
      unfold mutExecLocateSectionsFrom
      by_cases hroom : InRoom r b n
      · have hspec := locateSection_spec hs hroom
        have hnext : Passes r b n → ((∃ m, n + 1 ≤ m ∧ m < n + 1 + left ∧
            (∀ i, n + 1 ≤ i → i < m → Passes r b i) ∧ ¬ InRoom r b m) ↔
            ∃ m, n ≤ m ∧ m < n + (left + 1) ∧ (∀ i, n ≤ i → i < m → Passes r b i) ∧
              ¬ InRoom r b m) := by
          intro hpass
          constructor
          · intro hm
            obtain ⟨m, hle, hlt, hall, hbad⟩ := hm
            refine ⟨m, by omega, by omega, ?_, hbad⟩
            intro i hi him
            by_cases heq : i = n
            · rw [heq]
              exact hpass
            · exact hall i (by omega) him
          · intro hm
            obtain ⟨m, hle, hlt, hall, hbad⟩ := hm
            have hne : m ≠ n := fun heq => hbad (heq ▸ hroom)
            exact ⟨m, by omega, by omega, fun i hi him => hall i (by omega) him, hbad⟩
        have hstop : ¬ Passes r b n → ¬ ∃ m, n ≤ m ∧ m < n + (left + 1) ∧
            (∀ i, n ≤ i → i < m → Passes r b i) ∧ ¬ InRoom r b m := by
          intro hfails hm
          obtain ⟨m, hle, hlt, hall, hbad⟩ := hm
          have hne : m ≠ n := fun heq => hbad (heq ▸ hroom)
          exact hfails (hall n (Nat.le_refl n) (by omega))
        cases hround : mutExecLocateSection s with
        | done ok s₁ =>
            obtain ⟨hpass, hscan⟩ := wp_done hspec hround
            rw [bind_done hround]
            cases ok with
            | true => exact (ih (hscan rfl)).trans (hnext (hpass.1 rfl))
            | false =>
                refine ⟨nofun, fun hm => absurd hm (hstop fun hp => ?_)⟩
                exact Bool.false_ne_true (hpass.2 hp)
        | halt e =>
            obtain ⟨hover, hfails⟩ := wp_halted hspec hround
            rw [bind_halt hround]
            exact ⟨fun heq => absurd (Outcome.halt.inj heq) hover,
              fun hm => absurd hm (hstop hfails)⟩
      · rw [bind_halt (locateSection_overrun hs hroom)]
        refine ⟨fun _ => ⟨n, Nat.le_refl n, by omega, ?_, hroom⟩, fun _ => rfl⟩
        intro i hi him
        omega

/-- A loop that goes through has scanned every header it was to read. -/
theorem sectionsFrom_scanned (hs : Scanned r b n s) (left : Nat) :
    wp (mutExecLocateSectionsFrom left)
      (fun ok s' => ok = true → Scanned r b (n + left) s') (fun _ => True) s := by
  induction left generalizing n s with
  | zero => exact fun _ => hs
  | succ left ih =>
      unfold mutExecLocateSectionsFrom
      rw [wp_bind]
      by_cases hroom : InRoom r b n
      · refine wp_mono (locateSection_spec hs hroom) ?_ fun _ _ => trivial
        intro ok s₁ h₁
        cases ok with
        | false => exact nofun
        | true =>
            have hrest := ih (h₁.2 rfl)
            rw [Nat.add_assoc, Nat.add_comm 1 left] at hrest
            exact hrest
      · unfold wp
        rw [locateSection_overrun hs hroom]
        trivial

/-- The scan gets to the header table. -/
def SeekGranted (r : ExecReader) : Prop :=
  r.io.head?.join = none ∧ r.header.eShoff.msb = false

/-- The scan gets to header `n`. -/
def ScanReaches (r : ExecReader) (b : List Byte) (n : Nat) : Prop :=
  SeekGranted r ∧ n + 1 < r.header.eShnum.toNat ∧ ∀ m, m < n → Passes r b m

/-- The state in which the loop is entered. -/
def ExecReader.scanStart (r : ExecReader) : ExecReader :=
  { r with io := r.io.tail, pos := r.header.eShoff.toNat, free := 0, sections := fun _ => none }

theorem scanned_start (hb : r.bytes .shstrtab = some b) : Scanned r b 0 r.scanStart := by
  refine ⟨rfl, rfl, hb, rfl, rfl, ?_, ?_, rfl, fun _ => rfl, nofun, fun _ _ => rfl⟩
  · show r.header.eShoff.toNat = _
    omega
  · exact List.drop_one.symm

theorem execFseek_spec (r : ExecReader) (offset : Word) (E : ExecHalt → Prop) :
    wp (execFseek offset)
      (fun ok r' => (ok = false ∧ ¬ (r.io.head?.join = none ∧ offset.msb = false)) ∨
        (ok = true ∧ (r.io.head?.join = none ∧ offset.msb = false) ∧
          r' = { r with io := r.io.tail, pos := offset.toNat })) E r := by
  simp only [execFseek, execIo, wp_bind, wp_read, wp_update, wp_pure]
  cases hio : r.io.head?.join with
  | some errno =>
      refine .inl ⟨rfl, ?_⟩
      intro hok
      cases hok.1
  | none =>
      simp only [wp_ite, wp_bind, wp_update, wp_pure, Option.getD_none]
      cases hmsb : offset.msb with
      | true => exact .inl ⟨trivial, by simp⟩
      | false => exact .inr ⟨trivial, ⟨trivial, rfl⟩, trivial⟩

/-- What the scan says when it is over. -/
def locateDone (ok : Bool) : ElfM Bool := do
  if !ok then
    return false
  let r ← read
  if (r.sections .dsymtab).isSome || (r.sections .symtab).isSome then
    return true
  else
    execFatal "elf.nosymbols" 0 [.string r.fileName]
    return false

theorem locateDone_spec (ok : Bool) (s : ExecReader) :
    wp (locateDone ok) (fun done s' => done = true →
        ok = true ∧ s' = s ∧ ((s.sections .dsymtab).isSome || (s.sections .symtab).isSome) = true)
      (fun e => e ≠ .overrun) s := by
  cases ok with
  | false => exact nofun
  | true =>
      unfold locateDone
      rw [if_neg (by decide), wp_bind, wp_read, wp_ite]
      split
      · next hsome => exact fun _ => ⟨rfl, rfl, hsome⟩
      · exact wp_refused _ _ _ (fun _ => nofun) fun _ => nofun

/-- The scan is the loop and what is said after it. -/
theorem locateSections_loop (hseek : SeekGranted r) :
    mutExecLocateSections r =
      (mutExecLocateSectionsFrom (r.header.eShnum.toNat - 1) >>= locateDone) r.scanStart := by
  have hsought : execFseek r.header.eShoff r =
      .done true { r with io := r.io.tail, pos := r.header.eShoff.toNat } := by
    obtain ⟨ok, s, hrun, hspec⟩ := wp_returns (execFseek_spec r r.header.eShoff fun _ => False)
      fun _ he => he
    rcases hspec with ⟨_, hnot⟩ | ⟨rfl, _, rfl⟩
    · exact absurd hseek hnot
    · exact hrun
  unfold mutExecLocateSections
  rw [bind_done (show (read : ElfM ExecReader) r = .done r r from rfl), bind_done hsought]
  rfl

/-- The scan of a table that cannot be reached. -/
theorem locateSections_refused (hseek : ¬ SeekGranted r) :
    wp mutExecLocateSections (fun ok _ => ok = false) (fun e => e ≠ .overrun) r := by
  unfold mutExecLocateSections
  rw [wp_bind, wp_read, wp_bind]
  refine wp_mono (execFseek_spec r _ (fun _ => False)) ?_ (fun _ he => he.elim)
  intro ok s hspec
  rcases hspec with ⟨hok, _⟩ | ⟨_, hok, _⟩
  · rw [hok, if_pos (by decide), wp_bind, wp_read]
    exact wp_refused _ _ _ (fun _ => rfl) fun _ => nofun
  · exact absurd hok hseek

/-- Every header that the scan reads goes into a slot with room for it exactly when
none of those it gets to is longer than a slot or comes after all four kinds. -/
theorem locate_in_room_iff (hb : r.bytes .shstrtab = some b) :
    mutExecLocateSections r ≠ .halt .overrun ↔ ∀ n, ScanReaches r b n → InRoom r b n := by
  by_cases hseek : SeekGranted r
  · have hloop := sectionsFrom_overrun_iff (scanned_start hb) (r.header.eShnum.toNat - 1)
    have hwhole : mutExecLocateSections r = .halt .overrun ↔
        mutExecLocateSectionsFrom (r.header.eShnum.toNat - 1) r.scanStart = .halt .overrun := by
      rw [locateSections_loop hseek]
      cases hrun : mutExecLocateSectionsFrom (r.header.eShnum.toNat - 1) r.scanStart with
      | done ok s =>
          rw [bind_done hrun]
          refine ⟨?_, nofun⟩
          intro hhalt
          have hover := wp_halted (locateDone_spec ok s) hhalt
          exact absurd rfl hover
      | halt e => rw [bind_halt hrun]
    refine Iff.trans (not_congr (hwhole.trans hloop)) ?_
    constructor
    · intro hnone n hreach
      obtain ⟨_, hlt, hall⟩ := hreach
      refine Classical.byContradiction fun hbad => hnone ⟨n, Nat.zero_le n, by omega, ?_, hbad⟩
      intro i _ hi
      exact hall i hi
    · intro hroom hbad
      obtain ⟨m, _, hlt, hall, hm⟩ := hbad
      exact hm (hroom m ⟨hseek, by omega, fun i hi => hall i (Nat.zero_le i) hi⟩)
  · refine ⟨fun _ n hreach => absurd hreach.1 hseek, ?_⟩
    intro _ hhalt
    exact wp_halted (locateSections_refused hseek) hhalt rfl

/-! ## A fifth header -/

/-- The names of the wanted sections, at offsets 1, 9, 17 and 23. -/
def wantedNames : List Byte := bytesOf "\x00.dynsym\x00.symtab\x00.stab\x00.plt\x00"

/-- A header with a name and a type and nothing else. -/
def headerBytes (shName shType : Byte) : List Byte :=
  [shName, 0, 0, 0, shType, 0, 0, 0] ++ List.replicate 32 0

/-- A reader at a table of headers, with their names loaded. -/
def scanReader (headers : List (List Byte)) : ExecReader :=
  { ExecReader.plain headers.flatten with
    header := { Ehdr.ofBytes [] with
      eShentsize := 40, eShnum := BitVec.ofNat 32 headers.length }
    blocks := [some wantedNames]
    tables := fun t => if t = .shstrtab then ⟨some 0, 28⟩ else ⟨none, 0⟩ }

/-- The header of no section, and those of the four wanted ones. -/
def wantedHeaders : List (List Byte) :=
  [headerBytes 0 0, headerBytes 1 11, headerBytes 9 2, headerBytes 17 1, headerBytes 23 1]

/-- With the four sections last but one, there is room for them all. -/
theorem scan_in_room :
    mutExecLocateSections (scanReader (wantedHeaders ++ [headerBytes 0 3])) ≠
      .halt .overrun := by
  refine (locate_in_room_iff (b := wantedNames) rfl).2 ?_
  intro n hreach
  have hlt : n + 1 < 6 := hreach.2.1
  have hcases : n = 0 ∨ n = 1 ∨ n = 2 ∨ n = 3 ∨ n = 4 := by omega
  rcases hcases with rfl | rfl | rfl | rfl | rfl <;> exact ⟨by decide, by decide +kernel⟩

/-- When two more headers follow them, the first of these is read past the last slot. -/
theorem scan_overruns :
    mutExecLocateSections (scanReader (wantedHeaders ++ [headerBytes 0 3, headerBytes 0 3])) =
      .halt .overrun := by
  apply Outcome.of_reason
  decide +kernel

end MutTracker.Source
