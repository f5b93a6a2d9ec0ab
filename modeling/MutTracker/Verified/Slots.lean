import MutTracker.Verified.Names

/-!
# The slots of the undefined functions

A function symbol without a value is called through its slot of the procedure
linkage table, and the reader takes the slots to be in the order of these symbols.
The counter of `mut_exec_extract_symbols` goes on with every function symbol, the
defined ones too, so the slot of an undefined function depends on what is listed
before it.

## Main results

* `addedFrom_iff` — when a count of all functions serves as one of the undefined.
* `slots_iff` — the functions are added with the addresses of their own slots
  exactly when the defined functions listed before them do not matter.
-/

namespace MutTracker.Source

open MutTracker.Logic MutTracker.Logic.Prog

/-- A function symbol that is not defined in the file. -/
def Sym.undefined (s : Sym) : Bool := s.isFunc && s.stValue == 0

/-- A function symbol with a value. -/
def Sym.defined (s : Sym) : Bool := s.isFunc && s.stValue != 0

/-- The address of the `i`-th slot. -/
def slotAddr (plt : Shdr) (i : Nat) : Word := plt.shAddr + BitVec.ofNat 32 i * plt.shAddralign

/-- The functions as they are to be added, `n` undefined ones being listed before: an
undefined one with the address of its own slot, a defined one with its value. -/
def slotted (plt : Shdr) (n : Nat) : List Sym → List (Word × Nat)
  | [] => []
  | s :: symbols =>
      if s.undefined then (slotAddr plt (n + 1), s.stName.toNat) :: slotted plt (n + 1) symbols
      else if s.defined then (s.stValue, s.stName.toNat) :: slotted plt n symbols
      else slotted plt n symbols

/-- The functions listed before an undefined one leave it its slot: the defined ones
do not move the address, and the slot is not at address 0. -/
def OwnSlot (plt : Shdr) (before : List Sym) : Prop :=
  BitVec.ofNat 32 (before.countP Sym.defined) * plt.shAddralign = 0 ∧
    slotAddr plt (before.countP Sym.undefined + 1) ≠ 0

/-- Every undefined function has its own slot. -/
def OwnSlots (plt : Shdr) (symbols : List Sym) : Prop :=
  ∀ before s after, symbols = before ++ s :: after → s.undefined = true → OwnSlot plt before

/-! ## One count for all functions -/

variable {plt : Shdr} {symbols : List Sym} {s : Sym}

/-- `d` slots further on the address is the same if and only if they take no room. -/
theorem slotAddr_add (plt : Shdr) (i d : Nat) :
    slotAddr plt (i + d) = slotAddr plt i ↔ BitVec.ofNat 32 d * plt.shAddralign = 0 := by
  unfold slotAddr
  rw [BitVec.ofNat_add, BitVec.add_mul, ← BitVec.add_assoc]
  constructor
  · intro h
    have hsub := congrArg (· - (plt.shAddr + BitVec.ofNat 32 i * plt.shAddralign)) h
    simpa [BitVec.add_comm _ (BitVec.ofNat 32 d * _), BitVec.add_sub_cancel] using hsub
  · intro h
    rw [h]
    exact BitVec.add_zero _

theorem addr_undefined (hs : s.undefined = true) (f : Nat) :
    s.addr (some plt) (BitVec.ofNat 32 f) = slotAddr plt f := by
  have hzero : s.stValue = 0 := by
    simp only [Sym.undefined, Bool.and_eq_true, beq_iff_eq] at hs
    exact hs.2
  simp only [Sym.addr, hzero, if_true, slotAddr]

theorem addr_defined (hs : s.defined = true) (f : Word) : s.addr (some plt) f = s.stValue := by
  have hvalue : s.stValue ≠ 0 := by
    simp only [Sym.defined, Bool.and_eq_true, bne_iff_ne, ne_eq] at hs
    exact hs.2
  simp only [Sym.addr, if_neg hvalue]

theorem isFunc_iff : s.isFunc = true ↔ s.undefined = true ∨ s.defined = true := by
  unfold Sym.undefined Sym.defined
  by_cases hzero : s.stValue = 0#32 <;> simp [hzero]

theorem not_both (hs : s.undefined = true) : s.defined = false := by
  simp only [Sym.undefined, Bool.and_eq_true, beq_iff_eq] at hs
  simp [Sym.defined, hs.2]

theorem value_ne_zero (hs : s.defined = true) : s.stValue ≠ 0 := by
  simp only [Sym.defined, Bool.and_eq_true, bne_iff_ne, ne_eq] at hs
  exact hs.2

/-- No more functions are added than there are. -/
theorem length_addedFrom (plt : Shdr) (f : Word) (n : Nat) (symbols : List Sym) :
    (addedFrom (some plt) f symbols).length ≤ (slotted plt n symbols).length := by
  induction symbols generalizing f n with
  | nil => exact Nat.le_refl _
  | cons s symbols ih =>
      unfold addedFrom slotted
      by_cases hundef : s.undefined = true
      · rw [if_pos (isFunc_iff.2 (.inl hundef)), if_pos hundef]
        have hrest := ih (f + 1) (n + 1)
        split <;> simp only [List.length_cons] <;> omega
      · by_cases hdef : s.defined = true
        · rw [if_pos (isFunc_iff.2 (.inr hdef)), if_neg hundef, if_pos hdef]
          have hrest := ih (f + 1) n
          split <;> simp only [List.length_cons] <;> omega
        · have hfunc : ¬ s.isFunc = true := fun h => (isFunc_iff.1 h).elim hundef hdef
          rw [if_neg hfunc, if_neg hundef, if_neg hdef]
          exact ih f n

/-- One more symbol before. -/
theorem ownSlots_cons (s : Sym) (symbols before : List Sym) :
    (∀ mid x after, s :: symbols = mid ++ x :: after → x.undefined = true →
      OwnSlot plt (before ++ mid)) ↔
    (s.undefined = true → OwnSlot plt before) ∧
      ∀ mid x after, symbols = mid ++ x :: after → x.undefined = true →
        OwnSlot plt (before ++ [s] ++ mid) := by
  constructor
  · intro h
    constructor
    · intro hs
      have hfirst := h [] s symbols rfl hs
      rwa [List.append_nil] at hfirst
    · intro mid x after hsplit hx
      rw [List.append_assoc]
      exact h (s :: mid) x after (by rw [hsplit]; rfl) hx
  · rintro ⟨hfirst, hrest⟩ mid x after hsplit hx
    cases mid with
    | nil =>
        cases hsplit
        rw [List.append_nil]
        exact hfirst hx
    | cons y mid =>
        cases hsplit
        have hlater := hrest mid x after rfl hx
        rwa [List.append_assoc] at hlater

/-- The loop's count serves as one of the undefined functions alone if and only if each
of them has its own slot, counted from the symbols `before`. -/
theorem addedFrom_iff (before symbols : List Sym) :
    addedFrom (some plt)
        (BitVec.ofNat 32 (before.countP Sym.undefined + before.countP Sym.defined + 1)) symbols =
      slotted plt (before.countP Sym.undefined) symbols ↔
    ∀ mid s after, symbols = mid ++ s :: after → s.undefined = true →
      OwnSlot plt (before ++ mid) := by
  induction symbols generalizing before with
  | nil =>
      refine iff_of_true rfl ?_
      intro mid s after hsplit
      cases mid <;> cases hsplit
  | cons s symbols ih =>
      rw [ownSlots_cons]
      have hih := ih (before ++ [s])
      rw [List.countP_append, List.countP_append] at hih
      unfold addedFrom slotted
      by_cases hundef : s.undefined = true
      · rw [if_pos (isFunc_iff.2 (.inl hundef)), if_pos hundef, addr_undefined hundef]
        simp only [List.countP_singleton, hundef, not_both hundef, if_true, Bool.false_eq_true,
          if_false, Nat.add_zero] at hih
        have hcount : before.countP Sym.undefined + 1 + before.countP Sym.defined + 1 =
            before.countP Sym.undefined + before.countP Sym.defined + 1 + 1 := by omega
        rw [hcount, BitVec.ofNat_add _ 1] at hih
        have hcomm : before.countP Sym.undefined + before.countP Sym.defined + 1 =
            before.countP Sym.undefined + 1 + before.countP Sym.defined := by omega
        by_cases haddr : slotAddr plt
            (before.countP Sym.undefined + before.countP Sym.defined + 1) ≠ 0
        · rw [if_pos haddr, List.cons.injEq, Prod.mk.injEq]
          refine and_congr ?_ hih
          rw [hcomm] at haddr ⊢
          constructor
          · intro h _
            exact ⟨(slotAddr_add _ _ _).1 h.1, h.1 ▸ haddr⟩
          · intro h
            exact ⟨(slotAddr_add _ _ _).2 (h hundef).1, rfl⟩
        · rw [if_neg haddr]
          refine iff_of_false ?_ ?_
          · intro heq
            have hlen := length_addedFrom plt
              (BitVec.ofNat 32 (before.countP Sym.undefined + before.countP Sym.defined + 1) + 1)
              (before.countP Sym.undefined + 1) symbols
            have hsame := congrArg List.length heq
            simp only [List.length_cons] at hsame
            omega
          · intro h
            obtain ⟨hmoved, hzero⟩ := h.1 hundef
            rw [hcomm, (slotAddr_add _ _ _).2 hmoved] at haddr
            exact haddr hzero
      · by_cases hdef : s.defined = true
        · rw [if_pos (isFunc_iff.2 (.inr hdef)), if_neg hundef, if_pos hdef, addr_defined hdef,
            if_pos (value_ne_zero hdef), List.cons.injEq]
          simp only [List.countP_singleton, hundef, hdef, if_true, Bool.false_eq_true,
            if_false, Nat.add_zero] at hih
          rw [← Nat.add_assoc, BitVec.ofNat_add _ 1] at hih
          refine and_congr (iff_of_true rfl fun h => absurd h hundef) hih
        · have hfunc : ¬ s.isFunc = true := fun h => (isFunc_iff.1 h).elim hundef hdef
          rw [if_neg hfunc, if_neg hundef, if_neg hdef]
          simp only [List.countP_singleton, hundef, hdef, Bool.false_eq_true,
            if_false, Nat.add_zero] at hih
          rw [hih]
          exact (and_iff_right fun h => absurd h hundef).symm

/-! ## The section of dynamic symbols -/

section Symbols

variable {r r' r₀ : ExecReader} {t : Table} {d : List Byte} {suffix : Option (List Byte)}
  {h : Shdr} {p : Nat}

/-- What was added to the record of the functions. -/
theorem recorded_names_iff (t : Table) (names : List (Word × NamePtr)) (fs gs : List (Word × Nat)) :
    names ++ fs.map (fun e => (e.1, (⟨t, e.2⟩ : NamePtr))) =
      names ++ gs.map (fun e => (e.1, ⟨t, e.2⟩)) ↔ fs = gs := by
  rw [List.append_cancel_left_eq]
  apply List.map_inj_right
  intro e e' heq
  cases e
  cases e'
  cases heq
  rfl

/-- Every undefined function is added with the address of its own slot, and every
defined one with its value, exactly when the defined functions listed before an
undefined one do not move its address. -/
theorem slots_iff (hd : r.bytes t = some d)
    (hopen : execRecordsOpen Sym.ofBytes symSize "elf.sym.size" h r
      = .done (some (p, symbols)) r₀)
    (hdone : mutExecExtractSymbols h t suffix (some plt) r = .done true r') :
    r'.names = r.names ++ (slotted plt 0 symbols).map (fun e => (e.1, ⟨t, e.2⟩)) ↔
      OwnSlots plt symbols := by
  obtain ⟨r₁, hloop, _, hnames⟩ := extractSymbols_loop hd hopen hdone
  obtain ⟨hd₀, hnames₀, _⟩ := bytes_of_open hd hopen
  rw [hnames, (wp_done (symbolsFrom_effect hd₀) hloop rfl).names, hnames₀, recorded_names_iff]
  exact addedFrom_iff [] symbols

end Symbols

/-! ## A slot too far -/

/-- The record of a function symbol with the given value, named at `name`. -/
def funcRecord (name value : Byte) : List Byte :=
  [name, 0, 0, 0, value, 0, 0, 0, 0, 0, 0, 0, 0x12, 0, 0, 0]

/-- A section with `n` symbols at the start of the file. -/
def recordsHeader (n : Nat) : Shdr :=
  { shName := 0, shType := shtDynsym, shAddr := 0, shOffset := 0,
    shSize := BitVec.ofNat 32 (symSize * n), shLink := 0, shAddralign := 0, shEntsize := 16 }

/-- A linkage table with slots of 16 bytes. -/
def smallPlt : Shdr :=
  { shName := 0, shType := shtProgbits, shAddr := 0x1000, shOffset := 0, shSize := 64,
    shLink := 0, shAddralign := 16, shEntsize := 4 }

/-- A reader with the names `f` and `g` in its loaded table of dynamic names. -/
def dynamicReader (records : List (List Byte)) : ExecReader :=
  { ExecReader.plain records.flatten with
    blocks := [some (bytesOf "f" ++ [0] ++ bytesOf "g" ++ [0])]
    tables := fun t => if t = .dynstr then ⟨some 0, 4⟩ else ⟨none, 0⟩ }

/-- Two undefined functions have the first two slots. -/
theorem slots_undefined : ∃ r',
    mutExecExtractSymbols (recordsHeader 2) .dynstr none (some smallPlt)
      (dynamicReader [funcRecord 0 0, funcRecord 2 0]) = .done true r' ∧
    r'.names = [(0x1010, ⟨.dynstr, 0⟩), (0x1020, ⟨.dynstr, 2⟩)] := by
  have hopen : (execRecordsOpen Sym.ofBytes symSize "elf.sym.size" (recordsHeader 2)
      (dynamicReader [funcRecord 0 0, funcRecord 2 0])).seen (fun _ => ()) =
        some (some (1, [⟨0, 0, 0x12⟩, ⟨2, 0, 0x12⟩]), ()) := by decide +kernel
  have hdone : (mutExecExtractSymbols (recordsHeader 2) .dynstr none (some smallPlt)
      (dynamicReader [funcRecord 0 0, funcRecord 2 0])).seen (fun _ => ()) =
        some (true, ()) := by decide +kernel
  obtain ⟨r₀, h₀, _⟩ := Outcome.of_seen hopen
  obtain ⟨r', h', _⟩ := Outcome.of_seen hdone
  refine ⟨r', h', (slots_iff (d := bytesOf "f" ++ [0] ++ bytesOf "g" ++ [0]) rfl h₀ h').2 ?_⟩
  intro before s after hsplit _
  match before with
  | [] => exact ⟨by decide, by decide⟩
  | [x] =>
      cases hsplit
      exact ⟨by decide, by decide⟩
  | x :: y :: before =>
      have hlen := congrArg List.length hsplit
      simp at hlen

/-- A defined function before an undefined one takes its slot. -/
theorem slot_taken : ∃ r₀ r',
    execRecordsOpen Sym.ofBytes symSize "elf.sym.size" (recordsHeader 2)
      (dynamicReader [funcRecord 0 16, funcRecord 2 0]) =
        .done (some (1, [⟨0, 16, 0x12⟩, ⟨2, 0, 0x12⟩])) r₀ ∧
    mutExecExtractSymbols (recordsHeader 2) .dynstr none (some smallPlt)
      (dynamicReader [funcRecord 0 16, funcRecord 2 0]) = .done true r' ∧
    r'.names = [(16, ⟨.dynstr, 0⟩), (0x1020, ⟨.dynstr, 2⟩)] ∧
    slotted smallPlt 0 [⟨0, 16, 0x12⟩, ⟨2, 0, 0x12⟩] = [(16, 0), (0x1010, 2)] ∧
    r'.names ≠ (slotted smallPlt 0 [⟨0, 16, 0x12⟩, ⟨2, 0, 0x12⟩]).map
      fun e => (e.1, ⟨.dynstr, e.2⟩) := by
  have hopen : (execRecordsOpen Sym.ofBytes symSize "elf.sym.size" (recordsHeader 2)
      (dynamicReader [funcRecord 0 16, funcRecord 2 0])).seen (fun _ => ()) =
        some (some (1, [⟨0, 16, 0x12⟩, ⟨2, 0, 0x12⟩]), ()) := by decide +kernel
  have hdone : (mutExecExtractSymbols (recordsHeader 2) .dynstr none (some smallPlt)
      (dynamicReader [funcRecord 0 16, funcRecord 2 0])).seen (·.names) =
        some (true, [(16, ⟨.dynstr, 0⟩), (0x1020, ⟨.dynstr, 2⟩)]) := by decide +kernel
  obtain ⟨r₀, h₀, _⟩ := Outcome.of_seen hopen
  obtain ⟨r', h', hnames⟩ := Outcome.of_seen hdone
  exact ⟨r₀, r', h₀, h', hnames, by decide, by rw [hnames]; decide⟩

end MutTracker.Source
