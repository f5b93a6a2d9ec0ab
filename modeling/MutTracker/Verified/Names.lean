import MutTracker.Verified.Elf

/-!
# The names of the symbols

`mut_exec_extract_symbols` takes a suffix off the names of the functions by
writing a terminator into the string table, where the suffix first occurs in a
name.  The table is shared, so one name's turn may change others.  Here is when
every function ends up with the name documented, its own without the suffix:
`NamesDesired` says so of every moment of the loop, and `names_desired_iff`
tells for which tables and suffixes the loop has it.

## Main results

* `symbolsFrom_effect` — the loop truncates the names of the function symbols in turn.
* `names_desired_iff` — the names are as documented exactly when every turn is clear.
-/

namespace MutTracker.Source

open MutTracker.Logic MutTracker.Logic.Prog MutTracker.Logic.CString

variable {r r' r₀ : ExecReader} {t : Table} {d : List Byte} {suffix : Option (List Byte)}
  {plt : Option Shdr} {f : Word} {symbols : List Sym}

/-! ## One table -/

theorem setBytes_tables (r : ExecReader) (t : Table) (b : List Byte) :
    (r.setBytes t b).tables = r.tables := by
  unfold ExecReader.setBytes
  cases (r.tables t).data <;> rfl

theorem setBytes_names (r : ExecReader) (t : Table) (b : List Byte) :
    (r.setBytes t b).names = r.names := by
  unfold ExecReader.setBytes
  cases (r.tables t).data <;> rfl

/-- What is written into a table is in it. -/
theorem setBytes_bytes (h : r.bytes t = some d) (b : List Byte) :
    (r.setBytes t b).bytes t = some b := by
  unfold ExecReader.bytes at h ⊢
  rw [setBytes_tables]
  unfold ExecReader.setBytes
  cases hdata : (r.tables t).data with
  | none =>
      rw [hdata] at h
      cases h
  | some p =>
      rw [hdata] at h
      have hlive : r.blocks[p]?.join = some d := h
      show (r.blocks.set p (some b))[p]?.join = some b
      rw [List.getElem?_set_self (lt_length_of_live hlive)]
      rfl

theorem execTable_done (h : r.bytes t = some d) {E : ExecHalt → Prop}
    {Q : List Byte → ExecReader → Prop} : wp (execTable t) Q E r ↔ Q d r := by
  simp only [execTable, wp_bind, wp_read, h, wp_pure]

/-- The table as a turn for the name at offset `o` leaves it. -/
def cutTable (suffix : Option (List Byte)) (d : List Byte) (o : Nat) : List Byte :=
  match suffix with
  | none => d
  | some s => truncate 0 s d o

/-! ## The loop -/

/-- The offsets of the names of the function symbols. -/
def nameOffsets (symbols : List Sym) : List Nat :=
  (symbols.filter Sym.isFunc).map fun s => s.stName.toNat

/-- The functions that the loop adds: addresses and offsets of names. -/
def addedFrom (plt : Option Shdr) (f : Word) : List Sym → List (Word × Nat)
  | [] => []
  | s :: symbols =>
      if s.isFunc then
        if s.addr plt f ≠ 0 then
          (s.addr plt f, s.stName.toNat) :: addedFrom plt (f + 1) symbols
        else addedFrom plt (f + 1) symbols
      else addedFrom plt f symbols

/-- What a step of the loop makes of the table and the names. -/
structure Extracted (t : Table) (d : List Byte) (added : List (Word × Nat))
    (r r' : ExecReader) : Prop where
  bytes : r'.bytes t = some d
  tables : r'.tables = r.tables
  names : r'.names = r.names ++ added.map fun e => (e.1, ⟨t, e.2⟩)

theorem Extracted.trans {r'' : ExecReader} {d' : List Byte} {added added' : List (Word × Nat)}
    (h : Extracted t d added r r') (h' : Extracted t d' added' r' r'') :
    Extracted t d' (added ++ added') r r'' := by
  refine ⟨h'.bytes, h'.tables.trans h.tables, ?_⟩
  rw [h'.names, h.names, List.map_append, List.append_assoc]

theorem execCutSuffix_effect (h : r.bytes t = some d) (n : Nat) :
    wp (execCutSuffix t n suffix) (fun _ r' => Extracted t (cutTable suffix d n) [] r r')
      (fun _ => True) r := by
  cases suffix with
  | none => exact ⟨h, rfl, (List.append_nil _).symm⟩
  | some s =>
      unfold execCutSuffix execString
      rw [wp_bind, wp_bind, execTable_done h, wp_bind, wp_require]
      split
      · rw [wp_pure]
        cases hfind : find s (cstr 0 d n) with
        | none =>
            refine ⟨?_, rfl, (List.append_nil _).symm⟩
            show r.bytes t = some (truncate 0 s d n)
            rw [truncate_none hfind, h]
        | some start =>
            simp only [execPoke, wp_bind]
            rw [execTable_done h, wp_update]
            refine ⟨?_, setBytes_tables .., ?_⟩
            · show (r.setBytes t _).bytes t = some (truncate 0 s d n)
              rw [truncate_some hfind, setBytes_bytes h]
            · rw [setBytes_names]
              exact (List.append_nil _).symm
      · trivial

theorem execAddFun_effect (h : r.bytes t = some d) (n : Nat) (a : Word) :
    wp (execAddFun t n a) (fun added r' => added = true → Extracted t d [(a, n)] r r')
      (fun _ => True) r := by
  unfold execAddFun
  rw [wp_bind, execTable_done h, wp_bind, wp_liftSymtab]
  refine wp_intro ?_ fun _ _ => trivial
  intro added s _
  cases added with
  | false =>
      intro hadded
      cases hadded
  | true =>
      intro _
      exact ⟨h, rfl, rfl⟩

/-- The table after the turns of all the function symbols. -/
def cutAll (suffix : Option (List Byte)) (d : List Byte) (symbols : List Sym) : List Byte :=
  (nameOffsets symbols).foldl (cutTable suffix) d

theorem nameOffsets_append (pre post : List Sym) :
    nameOffsets (pre ++ post) = nameOffsets pre ++ nameOffsets post := by
  unfold nameOffsets
  rw [List.filter_append, List.map_append]

theorem nameOffsets_func {s : Sym} (hs : s.isFunc = true) :
    nameOffsets (s :: symbols) = s.stName.toNat :: nameOffsets symbols := by
  unfold nameOffsets
  rw [List.filter_cons_of_pos hs, List.map_cons]

theorem nameOffsets_other {s : Sym} (hs : ¬ s.isFunc = true) :
    nameOffsets (s :: symbols) = nameOffsets symbols := by
  unfold nameOffsets
  rw [List.filter_cons_of_neg hs]

/-- The loop truncates the names of the function symbols in turn. -/
theorem symbolsFrom_effect (h : r.bytes t = some d) :
    wp (mutExecExtractSymbolsFrom t suffix plt f symbols)
      (fun ok r' => ok = true →
        Extracted t (cutAll suffix d symbols) (addedFrom plt f symbols) r r')
      (fun _ => True) r := by
  induction symbols generalizing f r d with
  | nil => exact fun _ => ⟨h, rfl, (List.append_nil _).symm⟩
  | cons s symbols ih =>
      unfold mutExecExtractSymbolsFrom addedFrom
      by_cases hs : s.isFunc = true
      · rw [if_pos hs, if_pos hs]
        simp only [mutExecStrtabLookup, wp_bind, wp_read, wp_require, wp_pure]
        split
        · refine wp_mono (execCutSuffix_effect h _) ?_ fun _ _ => trivial
          intro _ r₁ h₁
          have hall : cutAll suffix d (s :: symbols) =
              cutAll suffix (cutTable suffix d s.stName.toNat) symbols := by
            unfold cutAll
            rw [nameOffsets_func hs, List.foldl_cons]
          rw [hall]
          by_cases ha : s.addr plt f ≠ 0
          · rw [if_pos ha, if_pos ha, wp_bind]
            refine wp_mono (execAddFun_effect h₁.bytes _ _) ?_ fun _ _ => trivial
            intro added r₂ h₂
            cases added with
            | false =>
                intro hok
                cases hok
            | true =>
                refine wp_mono (ih (h₂ rfl).bytes) ?_ fun _ _ => trivial
                intro ok r₃ h₃ hok
                exact (h₁.trans (h₂ rfl)).trans (h₃ hok)
          · rw [if_neg ha, if_neg ha]
            refine wp_mono (ih h₁.bytes) ?_ fun _ _ => trivial
            intro ok r₃ h₃ hok
            exact h₁.trans (h₃ hok)
        · trivial
      · rw [if_neg hs, if_neg hs]
        have hall : cutAll suffix d (s :: symbols) = cutAll suffix d symbols := by
          unfold cutAll
          rw [nameOffsets_other hs]
        rw [hall]
        exact ih h

/-- A loop that went through did so over the first symbols. -/
theorem symbolsFrom_first {post : List Sym}
    (h : mutExecExtractSymbolsFrom t suffix plt f (symbols ++ post) r = .done true r') :
    ∃ r₁, mutExecExtractSymbolsFrom t suffix plt f symbols r = .done true r₁ := by
  induction symbols generalizing f r with
  | nil => exact ⟨r, rfl⟩
  | cons s symbols ih =>
      rw [List.cons_append] at h
      unfold mutExecExtractSymbolsFrom at h ⊢
      by_cases hs : s.isFunc = true
      · rw [if_pos hs] at h ⊢
        obtain ⟨n, r₁, hn, h⟩ := done_bind h
        obtain ⟨_, r₂, hcut, h⟩ := done_bind h
        by_cases ha : s.addr plt f ≠ 0
        · rw [if_pos ha] at h
          obtain ⟨added, r₃, hadd, h⟩ := done_bind h
          cases added with
          | false => cases h
          | true =>
              obtain ⟨r₄, hr⟩ := ih h
              exact ⟨r₄, by
                rw [bind_done hn, bind_done hcut, if_pos ha, bind_done hadd]
                exact hr⟩
        · rw [if_neg ha] at h
          obtain ⟨r₄, hr⟩ := ih h
          exact ⟨r₄, by
            rw [bind_done hn, bind_done hcut, if_neg ha]
            exact hr⟩
      · rw [if_neg hs] at h ⊢
        exact ih h

/-! ## The rule -/

/-- The name of a function without the undesirable suffix. -/
def desired (suffix : Option (List Byte)) (n : List Byte) : List Byte :=
  match suffix with
  | none => n
  | some s => strip s n

/-- The name of a symbol, as the table has it. -/
def ExecReader.symName (r : ExecReader) (t : Table) (s : Sym) : List Byte :=
  r.name ⟨t, s.stName.toNat⟩

/-- The loop over the symbols, entered at `r₀`, gives every function the name
documented: `r'` is the state it leaves them in. -/
structure NamesDesired (t : Table) (suffix : Option (List Byte)) (plt : Option Shdr)
    (symbols : List Sym) (r₀ r' : ExecReader) : Prop where
  /-- Every function ends up with its name without the suffix. -/
  recorded : ∀ s ∈ symbols, s.isFunc = true → r'.symName t s = desired suffix (r₀.symName t s)
  /-- A function has its name from its turn in the loop on. -/
  passed : ∀ pre post r₁, symbols = pre ++ post →
    mutExecExtractSymbolsFrom t suffix plt 1 pre r₀ = .done true r₁ →
      ∀ s ∈ pre, s.isFunc = true → r₁.symName t s = desired suffix (r₀.symName t s)
  /-- A turn changes the name of no function except by that same rule. -/
  turn : ∀ pre s post r₁ r₂, symbols = pre ++ s :: post →
    mutExecExtractSymbolsFrom t suffix plt 1 pre r₀ = .done true r₁ →
      mutExecExtractSymbolsFrom t suffix plt 1 (pre ++ [s]) r₀ = .done true r₂ →
        ∀ i ∈ symbols, i.isFunc = true →
          r₂.symName t i = r₁.symName t i ∨ r₂.symName t i = desired suffix (r₁.symName t i)

/-- When there is a suffix, every function's turn is clear: the suffix is in its
name nowhere but at the end or, once an earlier turn shortened the name, nowhere. -/
def NamesClear (suffix : Option (List Byte)) (d : List Byte) (symbols : List Sym) : Prop :=
  ∀ s, suffix = some s → AllClear 0 s d (nameOffsets symbols)

theorem symName_eq (h : r.bytes t = some d) (s : Sym) :
    r.symName t s = cstr 0 d s.stName.toNat := by
  unfold ExecReader.symName ExecReader.name
  rw [h]
  rfl

/-- The name of a symbol at a moment of the loop. -/
theorem symName_moment (h : r.bytes t = some d)
    (hrun : mutExecExtractSymbolsFrom t suffix plt f symbols r = .done true r') (s : Sym) :
    r'.symName t s = cstr 0 (cutAll suffix d symbols) s.stName.toNat :=
  symName_eq (wp_done (symbolsFrom_effect h) hrun rfl).bytes s

theorem cutAll_none (d : List Byte) (symbols : List Sym) : cutAll none d symbols = d := by
  unfold cutAll
  induction nameOffsets symbols with
  | nil => rfl
  | cons o os ih => exact ih

theorem mem_nameOffsets {s : Sym} (hs : s ∈ symbols) (hf : s.isFunc = true) :
    s.stName.toNat ∈ nameOffsets symbols :=
  List.mem_map.2 ⟨s, List.mem_filter.2 ⟨hs, hf⟩, rfl⟩

/-- Where the offsets of the names come apart, the symbols do. -/
theorem nameOffsets_split {os os' : List Nat} (h : nameOffsets symbols = os ++ os') :
    ∃ pre post, symbols = pre ++ post ∧ nameOffsets pre = os ∧ nameOffsets post = os' := by
  obtain ⟨l, l', hl, rfl, rfl⟩ := List.map_eq_append_iff.1 h
  obtain ⟨pre, post, rfl, rfl, rfl⟩ := List.filter_eq_append_iff.1 hl
  exact ⟨pre, post, rfl, rfl, rfl⟩

theorem nameOffsets_split_cons {os os' : List Nat} {o : Nat}
    (h : nameOffsets symbols = os ++ o :: os') :
    ∃ pre s post, symbols = pre ++ s :: post ∧ nameOffsets pre = os ∧ s.isFunc = true ∧
      s.stName.toNat = o := by
  obtain ⟨pre, rest, rfl, rfl, hrest⟩ := nameOffsets_split h
  obtain ⟨s, l, hl, rfl, _⟩ := List.map_eq_cons_iff.1 hrest
  obtain ⟨between, post, rfl, hbetween, hs, _⟩ := List.filter_eq_cons_iff.1 hl
  refine ⟨pre ++ between, s, post, (List.append_assoc ..).symm, ?_, hs, rfl⟩
  have hnone : nameOffsets between = [] := by
    unfold nameOffsets
    rw [List.filter_eq_nil_iff.2 hbetween, List.map_nil]
  rw [nameOffsets_append, hnone, List.append_nil]

section Suffix

variable {s : List Byte} {r₁ : ExecReader}

/-- The names desired, said of the table. -/
theorem NamesDesired.stripped (hd : r₀.bytes t = some d)
    (hrun : mutExecExtractSymbolsFrom t (some s) plt 1 symbols r₀ = .done true r₁)
    (h : NamesDesired t (some s) plt symbols r₀ r') :
    Stripped 0 s d (nameOffsets symbols) := by
  constructor
  · intro os os' hos o ho
    obtain ⟨pre, post, rfl, rfl, _⟩ := nameOffsets_split hos
    obtain ⟨r₂, hpre⟩ := symbolsFrom_first hrun
    obtain ⟨i, hi, rfl⟩ := List.mem_map.1 ho
    obtain ⟨hi, hf⟩ := List.mem_filter.1 hi
    have hname := h.passed pre post r₂ rfl hpre i hi hf
    rw [symName_moment hd hpre, symName_eq hd] at hname
    exact hname
  · intro os o os' hos o' ho'
    obtain ⟨pre, x, post, rfl, rfl, hx, rfl⟩ := nameOffsets_split_cons hos
    obtain ⟨r₂, hpre⟩ := symbolsFrom_first hrun
    rw [← List.singleton_append, ← List.append_assoc] at hrun
    obtain ⟨r₃, hturn⟩ := symbolsFrom_first hrun
    obtain ⟨i, hi, rfl⟩ := List.mem_map.1 ho'
    obtain ⟨hi, hf⟩ := List.mem_filter.1 hi
    have hname := h.turn pre x post r₂ r₃ rfl hpre hturn i hi hf
    rw [symName_moment hd hpre, symName_moment hd hturn] at hname
    unfold cutAll at hname
    rw [nameOffsets_append, nameOffsets_func hx] at hname
    exact hname

/-- The table stripped, said of the names. -/
theorem namesDesired_of_stripped (hd : r₀.bytes t = some d)
    (hrun : mutExecExtractSymbolsFrom t (some s) plt 1 symbols r₀ = .done true r₁)
    (hlast : r'.bytes t = r₁.bytes t) (h : Stripped 0 s d (nameOffsets symbols)) :
    NamesDesired t (some s) plt symbols r₀ r' := by
  have hpassed : ∀ pre post r₂, symbols = pre ++ post →
      mutExecExtractSymbolsFrom t (some s) plt 1 pre r₀ = .done true r₂ →
        ∀ i ∈ pre, i.isFunc = true → r₂.symName t i = desired (some s) (r₀.symName t i) := by
    intro pre post r₂ hsplit hpre i hi hf
    rw [symName_moment hd hpre, symName_eq hd]
    exact h.passed (nameOffsets pre) (nameOffsets post)
      (by rw [hsplit, nameOffsets_append]) _ (mem_nameOffsets hi hf)
  refine ⟨?_, hpassed, ?_⟩
  · intro i hi hf
    have hname := hpassed symbols [] r₁ (List.append_nil _).symm hrun i hi hf
    unfold ExecReader.symName ExecReader.name at hname ⊢
    rw [hlast]
    exact hname
  · intro pre x post r₂ r₃ hsplit hpre hturn i hi hf
    rw [symName_moment hd hpre, symName_moment hd hturn]
    unfold cutAll
    rw [nameOffsets_append]
    by_cases hx : x.isFunc = true
    · rw [nameOffsets_func hx]
      exact h.turn _ _ (nameOffsets post)
        (by rw [hsplit, nameOffsets_append, nameOffsets_func hx]) _ (mem_nameOffsets hi hf)
    · rw [nameOffsets_other hx]
      exact .inl (by rw [show nameOffsets [] = [] from rfl, List.append_nil])

end Suffix

/-- Without a suffix no name changes. -/
theorem namesDesired_none {r₁ : ExecReader} (hd : r₀.bytes t = some d)
    (hrun : mutExecExtractSymbolsFrom t none plt 1 symbols r₀ = .done true r₁)
    (hlast : r'.bytes t = r₁.bytes t) : NamesDesired t none plt symbols r₀ r' := by
  have hsame : ∀ {pre r₂}, mutExecExtractSymbolsFrom t none plt 1 pre r₀ = .done true r₂ →
      ∀ i, r₂.symName t i = r₀.symName t i := by
    intro pre r₂ hpre i
    rw [symName_moment hd hpre, symName_eq hd, cutAll_none]
  refine ⟨?_, ?_, ?_⟩
  · intro i _ _
    have hname := hsame hrun i
    unfold ExecReader.symName ExecReader.name at hname ⊢
    rw [hlast]
    exact hname
  · intro pre post r₂ _ hpre i _ _
    exact hsame hpre i
  · intro pre x post r₂ r₃ _ hpre hturn i _ _
    exact .inl (by rw [hsame hpre, hsame hturn])

/-! ## The symbols of a section -/

section Symbols

variable {h : Shdr} {p : Nat}

/-- Before the loop the table is as it was. -/
theorem bytes_of_open (hd : r.bytes t = some d)
    (hopen : execRecordsOpen Sym.ofBytes symSize "elf.sym.size" h r
      = .done (some (p, symbols)) r₀) :
    r₀.bytes t = some d ∧ r₀.names = r.names ∧ (r₀.tables t).data ≠ some p := by
  obtain ⟨rfl, b, hb⟩ := wp_done (execRecordsOpen_effect _ _ _ h r) hopen p symbols rfl
  unfold ExecReader.bytes at hd ⊢
  rw [hb.tables, hb.blocks]
  cases hdata : (r.tables t).data with
  | none =>
      rw [hdata] at hd
      cases hd
  | some q =>
      rw [hdata] at hd
      have hq : q < r.blocks.length := lt_length_of_live hd
      refine ⟨?_, hb.names, ?_⟩
      · show (r.blocks ++ [some b])[q]?.join = some d
        rw [List.getElem?_append_left hq]
        exact hd
      · intro heq
        cases heq
        exact Nat.lt_irrefl _ hq

/-- Freeing another block leaves the table. -/
theorem mutMemFree_bytes (hp : (r.tables t).data ≠ some p) :
    wp (mutMemFree (some p)) (fun _ r' => r'.bytes t = r.bytes t ∧ r'.names = r.names)
      (fun _ => True) r := by
  simp only [mutMemFree, wp_bind, wp_read, wp_require, wp_update]
  split
  · refine ⟨?_, trivial⟩
    unfold ExecReader.bytes
    show (r.tables t).data.bind (fun q => (r.blocks.set p none)[q]?.join) = _
    cases hdata : (r.tables t).data with
    | none => rfl
    | some q =>
        have hne : p ≠ q := fun heq => hp (by rw [hdata, heq])
        show (r.blocks.set p none)[q]?.join = r.blocks[q]?.join
        rw [List.getElem?_set_ne hne]
  · trivial

/-- A run that went through, at the end of its loop. -/
theorem extractSymbols_loop (hd : r.bytes t = some d)
    (hopen : execRecordsOpen Sym.ofBytes symSize "elf.sym.size" h r
      = .done (some (p, symbols)) r₀)
    (hdone : mutExecExtractSymbols h t suffix plt r = .done true r') :
    ∃ r₁, mutExecExtractSymbolsFrom t suffix plt 1 symbols r₀ = .done true r₁ ∧
      r'.bytes t = r₁.bytes t ∧ r'.names = r₁.names := by
  obtain ⟨hd₀, _, hp⟩ := bytes_of_open hd hopen
  unfold mutExecExtractSymbols at hdone
  obtain ⟨s, _, hread, hafter⟩ := done_bind hdone
  cases hread
  obtain ⟨_, r₂, hreq, hrest⟩ := done_bind hafter
  have hr : r₂ = r := by
    by_cases hsome : (r.tables t).data.isSome = true
    · rw [hsome] at hreq
      cases hreq
      rfl
    · rw [Bool.eq_false_iff.2 hsome] at hreq
      cases hreq
  rw [hr, bind_done hopen] at hrest
  obtain ⟨ok, r₃, hloop, hend⟩ := done_bind hrest
  cases ok with
  | false =>
      obtain ⟨_, _, _, hend⟩ := done_bind hend
      obtain ⟨_, _, _, hend⟩ := done_bind hend
      cases hend
  | true =>
      have heffect := wp_done (symbolsFrom_effect hd₀) hloop rfl
      obtain ⟨_, r₄, hfree, hend⟩ := done_bind hend
      cases hend
      obtain ⟨hbytes, hnames⟩ :=
        wp_done (mutMemFree_bytes (by rw [heffect.tables]; exact hp)) hfree
      exact ⟨r₃, hloop, hbytes, hnames⟩

/-- The functions added are recorded by their pointers into the table; their names
are as documented, at every moment, exactly when every turn is clear. -/
theorem names_desired_iff (hd : r.bytes t = some d)
    (hopen : execRecordsOpen Sym.ofBytes symSize "elf.sym.size" h r
      = .done (some (p, symbols)) r₀)
    (hdone : mutExecExtractSymbols h t suffix plt r = .done true r') :
    r'.names = r.names ++ (addedFrom plt 1 symbols).map (fun e => (e.1, ⟨t, e.2⟩)) ∧
      (NamesDesired t suffix plt symbols r₀ r' ↔ NamesClear suffix d symbols) := by
  obtain ⟨r₁, hloop, hlast, hnames⟩ := extractSymbols_loop hd hopen hdone
  obtain ⟨hd₀, hnames₀, _⟩ := bytes_of_open hd hopen
  refine ⟨?_, ?_⟩
  · rw [hnames, (wp_done (symbolsFrom_effect hd₀) hloop rfl).names, hnames₀]
  cases suffix with
  | none =>
      constructor
      · intro _ s hs
        cases hs
      · intro _
        exact namesDesired_none hd₀ hloop hlast
  | some s =>
      constructor
      · intro hnamed s' hs'
        cases hs'
        exact stripped_iff.1 (hnamed.stripped hd₀ hloop)
      · intro hclear
        exact namesDesired_of_stripped hd₀ hloop hlast (stripped_iff.2 (hclear s rfl))

end Symbols

/-! ## A name cut short -/

/-- One function symbol, named at the start of the table. -/
def oneSymbol : List Byte := [0, 0, 0, 0, 16, 0, 0, 0, 0, 0, 0, 0, 0x12, 0, 0, 0]

/-- The header of the section that holds it. -/
def oneSymbolHeader : Shdr :=
  { shName := 0, shType := shtSymtab, shAddr := 0, shOffset := 0, shSize := 16, shLink := 0,
    shAddralign := 0, shEntsize := 16 }

/-- A reader with the name in its loaded string table. -/
def namedReader (name : String) : ExecReader :=
  { ExecReader.plain oneSymbol with
    blocks := [some (bytesOf name ++ [0])]
    tables := fun t => if t = .strtab then ⟨some 0, 16⟩ else ⟨none, 0⟩ }

/-- What is read of the section. -/
def oneSym : Sym := { stName := 0, stValue := 16, stInfo := 0x12 }

private theorem open_one (name : String) (d b : List Byte)
    (hopen : (execRecordsOpen Sym.ofBytes symSize "elf.sym.size" oneSymbolHeader
      (namedReader name)).seen (·.bytes .strtab) = some (some (1, [oneSym]), some d))
    (hdone : (mutExecExtractSymbols oneSymbolHeader .strtab (some (bytesOf "_x")) none
      (namedReader name)).seen (·.bytes .strtab) = some (true, some b)) :
    ∃ r₀ r', execRecordsOpen Sym.ofBytes symSize "elf.sym.size" oneSymbolHeader
        (namedReader name) = .done (some (1, [oneSym])) r₀ ∧
      mutExecExtractSymbols oneSymbolHeader .strtab (some (bytesOf "_x")) none
        (namedReader name) = .done true r' ∧
      r₀.bytes .strtab = some d ∧ r'.bytes .strtab = some b := by
  obtain ⟨r₀, h₀, hd⟩ := Outcome.of_seen hopen
  obtain ⟨r', h', hb⟩ := Outcome.of_seen hdone
  exact ⟨r₀, r', h₀, h', hd, hb⟩

/-- The name loses its suffix. -/
theorem name_loses_suffix : ∃ r₀ r',
    mutExecExtractSymbols oneSymbolHeader .strtab (some (bytesOf "_x")) none
      (namedReader "f_x") = .done true r' ∧
    NamesDesired .strtab (some (bytesOf "_x")) none [oneSym] r₀ r' := by
  obtain ⟨r₀, r', h₀, h', _, _⟩ := open_one "f_x" (bytesOf "f_x" ++ [0])
    (bytesOf "f" ++ [0] ++ bytesOf "x" ++ [0]) (by decide +kernel) (by decide +kernel)
  have hd : (namedReader "f_x").bytes .strtab = some (bytesOf "f_x" ++ [0]) := rfl
  refine ⟨r₀, r', h', (names_desired_iff hd h₀ h').2.2 ?_⟩
  intro s hs pre o post hos
  cases hs
  have hoffsets : nameOffsets [oneSym] = [0] := by decide +kernel
  rw [hoffsets] at hos
  cases pre with
  | nil =>
      cases hos
      intro k hk
      have hfind : find (bytesOf "_x") (cstr 0 (bytesOf "f_x" ++ [0]) 0) = some 1 := by
        decide +kernel
      rw [hfind] at hk
      cases hk
      decide +kernel
  | cons a pre =>
      have hlen := congrArg List.length hos
      simp at hlen

/-- A name that ends in the suffix twice loses it twice. -/
theorem name_cut_short : ∃ r₀ r',
    execRecordsOpen Sym.ofBytes symSize "elf.sym.size" oneSymbolHeader (namedReader "f_x_x") =
      .done (some (1, [oneSym])) r₀ ∧
    mutExecExtractSymbols oneSymbolHeader .strtab (some (bytesOf "_x")) none
      (namedReader "f_x_x") = .done true r' ∧
    desired (some (bytesOf "_x")) (r₀.symName .strtab oneSym) = bytesOf "f_x" ∧
    r'.symName .strtab oneSym = bytesOf "f" ∧
    ¬ NamesDesired .strtab (some (bytesOf "_x")) none [oneSym] r₀ r' := by
  obtain ⟨r₀, r', h₀, h', hd, hb⟩ := open_one "f_x_x" (bytesOf "f_x_x" ++ [0])
    (bytesOf "f" ++ [0] ++ bytesOf "x_x" ++ [0]) (by decide +kernel) (by decide +kernel)
  have hwant : desired (some (bytesOf "_x")) (r₀.symName .strtab oneSym) = bytesOf "f_x" := by
    rw [symName_eq hd]
    decide +kernel
  have hgot : r'.symName .strtab oneSym = bytesOf "f" := by
    rw [symName_eq hb]
    decide +kernel
  refine ⟨r₀, r', h₀, h', hwant, hgot, ?_⟩
  intro hnamed
  have hname := hnamed.recorded oneSym List.mem_cons_self (by decide +kernel)
  rw [hwant, hgot] at hname
  revert hname
  decide +kernel

end MutTracker.Source
