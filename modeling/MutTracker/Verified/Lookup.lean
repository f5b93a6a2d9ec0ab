import MutTracker.Logic.Floor
import MutTracker.Verified.Symtab

/-!
# Looking an address up

An address belongs to the function with the greatest start address not above it.
The lookup walks the ordered list and stops where the next function is above; the
same walk finds the function that a line is added to.  The lines of a function are
ordered by their addresses, those of one address as they came.

Of the lines the lookup takes the first one from the address on, where the line
whose code the address is in is the last one up to it.

## Main results

* `lookup_floor` — the lookup finds the floor of an address, if it has one.
* `addSymbols_lookup` — what a sequence of symbols makes of every lookup.
* `addRanges_table` — every line goes to the function it is in.
* `line_exact_iff` — when the line reported is the one the address is in.
-/

namespace MutTracker.Verified.Symtab

open MutTracker.Source MutTracker.Logic MutTracker.Logic.Prog

/-- The function `f` of the list covers the address. -/
abbrev Covers (l : List SymtabFun) (a : Word) (f : SymtabFun) : Prop :=
  IsFloor SymtabFun.funStartAddr a l f

section Lookup

variable {l : List SymtabFun} {a : Word}

/-- The walk stops at a function not above the address whose successor is. -/
theorem rangeOf_split {before after : List SymtabFun} {f : SymtabFun}
    (h : mutExecSymtabRangeOf a l = some (before, f, after)) :
    l = before ++ f :: after ∧ f.funStartAddr ≤ a ∧ ∀ g ∈ after.head?, a < g.funStartAddr := by
  induction l generalizing before with
  | nil => cases h
  | cons g next ih =>
      unfold mutExecSymtabRangeOf at h
      split at h
      · rename_i hstop
        cases h
        exact ⟨rfl, hstop⟩
      · cases hnext : mutExecSymtabRangeOf a next with
        | none =>
            rw [hnext] at h
            cases h
        | some found =>
            rw [hnext] at h
            cases h
            obtain ⟨hsplit, hstop⟩ := ih hnext
            exact ⟨by rw [hsplit]; rfl, hstop⟩

/-- The walk passes the end only if every function is above the address. -/
theorem rangeOf_none (hord : Ordered l) (h : mutExecSymtabRangeOf a l = none) :
    ∀ f ∈ l, a < f.funStartAddr := by
  induction l with
  | nil => exact nofun
  | cons g next ih =>
      obtain ⟨hg, hnext⟩ := List.pairwise_cons.1 hord
      unfold mutExecSymtabRangeOf at h
      split at h
      · cases h
      · rename_i hgo
        have habove : ∀ f ∈ next, a < f.funStartAddr := by
          refine ih hnext ?_
          cases hrange : mutExecSymtabRangeOf a next with
          | none => rfl
          | some found =>
              rw [hrange] at h
              cases h
        have hfirst : a < g.funStartAddr := by
          refine BitVec.not_le.1 fun hle => hgo ⟨hle, ?_⟩
          intro f hf
          exact habove f (List.mem_of_mem_head? hf)
        intro f hf
        rcases List.mem_cons.1 hf with rfl | hf
        · exact hfirst
        · exact habove f hf

/-- The lookup walks as adding a line does. -/
theorem lookup_rangeOf (a : Word) (l : List SymtabFun) :
    mutExecSymtabLookupAddr a l = (mutExecSymtabRangeOf a l).map fun found =>
      { functionAddr := found.2.1.funStartAddr, name := found.2.1.funName,
        fileName := found.2.1.fileName, line := found.2.1.line a } := by
  induction l with
  | nil => rfl
  | cons g next ih =>
      unfold mutExecSymtabLookupAddr mutExecSymtabRangeOf
      split
      · rfl
      · rw [ih, Option.map_map]
        rfl

theorem rangeOf_covers (hord : Ordered l) {before after : List SymtabFun} {f : SymtabFun}
    (h : mutExecSymtabRangeOf a l = some (before, f, after)) : Covers l a f := by
  obtain ⟨hsplit, hle, hnext⟩ := rangeOf_split h
  rw [hsplit] at hord ⊢
  exact floor_of_split hord hle hnext

/-- The lookup finds the function that covers the address. -/
theorem lookup_floor (hord : Ordered l) {f : SymtabFun} (hf : Covers l a f) :
    mutExecSymtabLookupAddr a l = some
      { functionAddr := f.funStartAddr, name := f.funName, fileName := f.fileName,
        line := f.line a } := by
  rw [lookup_rangeOf]
  cases h : mutExecSymtabRangeOf a l with
  | none => exact absurd hf.le (BitVec.not_le.2 (rangeOf_none hord h f hf.mem))
  | some found =>
      obtain ⟨before, g, after⟩ := found
      have hg := rangeOf_covers hord h
      rw [eq_of_key hord hf.mem hg.mem (hf.key_eq hg)]
      rfl

/-- The lookup fails if and only if every function is above the address. -/
theorem lookup_none_iff (hord : Ordered l) :
    mutExecSymtabLookupAddr a l = none ↔ ∀ f ∈ l, a < f.funStartAddr := by
  rw [lookup_rangeOf, Option.map_eq_none_iff]
  constructor
  · exact rangeOf_none hord
  · intro habove
    cases h : mutExecSymtabRangeOf a l with
    | none => rfl
    | some found =>
        obtain ⟨before, g, after⟩ := found
        have hg := rangeOf_covers hord h
        exact absurd hg.le (BitVec.not_le.2 (habove g hg.mem))

end Lookup

/-! ## After a sequence of symbols -/

/-- What a lookup is to answer: the function that covers the address, and nothing when
every function is above it. -/
def Answers (l : List SymtabFun) (a : Word) : Option AddrName → Prop
  | none => ∀ f ∈ l, a < f.funStartAddr
  | some x => ∃ f, Covers l a f ∧ x.functionAddr = f.funStartAddr ∧ x.name = f.funName

/-- Whatever symbols are added in whatever order, the list is ordered, it holds the
addresses added, each with a name given for it, and every lookup finds the function
that covers its address. -/
theorem addSymbols_lookup (s : Symtab) (syms : List Sym) (hroom : Roomy s)
    (hempty : s.head = []) :
    ∃ s', addSymbols syms s = .done true s' ∧ Ordered s'.head ∧
      (∀ a, (∃ f ∈ s'.head, f.funStartAddr = a) ↔ ∃ n, (n, a) ∈ syms) ∧
      (∀ f ∈ s'.head, (f.funName, f.funStartAddr) ∈ syms) ∧
      ∀ a, Answers s'.head a (mutExecSymtabLookupAddr a s'.head) := by
  have hkeeps : Keeps [] s.head := by
    rw [hempty]
    exact ⟨List.Pairwise.nil, fun t => by simp [First]⟩
  obtain ⟨ok, s', hrun, rfl, h⟩ :=
    wp_returns (addSymbols_keeps (E := fun _ => False) hroom hkeeps syms) fun _ => id
  rw [List.nil_append] at h
  have hnamed : ∀ f ∈ s'.head, (f.funName, f.funStartAddr) ∈ syms := by
    intro f hf
    exact List.mem_of_find?_eq_some ((h.lists (f.funName, f.funStartAddr)).1 ⟨f, hf, rfl, rfl⟩)
  refine ⟨s', hrun, h.ordered, ?_, hnamed, ?_⟩
  · intro a
    constructor
    · rintro ⟨f, hf, hfa⟩
      exact ⟨f.funName, hfa ▸ hnamed f hf⟩
    · rintro ⟨n, hn⟩
      cases hfirst : syms.find? (fun t => t.2 = a) with
      | none => exact absurd (List.find?_eq_none.1 hfirst (n, a) hn) (by simp)
      | some t =>
          have ht : t.2 = a := by simpa using List.find?_some hfirst
          obtain ⟨f, hf, -, hfa⟩ := (h.lists t).2 (by rw [First, ht, hfirst])
          exact ⟨f, hf, hfa.trans ht⟩
  · intro a
    cases hlookup : mutExecSymtabLookupAddr a s'.head with
    | none => exact (lookup_none_iff h.ordered).1 hlookup
    | some x =>
        rw [lookup_rangeOf] at hlookup
        cases hrange : mutExecSymtabRangeOf a s'.head with
        | none =>
            rw [hrange] at hlookup
            cases hlookup
        | some found =>
            obtain ⟨before, f, after⟩ := found
            rw [hrange] at hlookup
            cases hlookup
            exact ⟨f, rangeOf_covers h.ordered hrange, rfl, rfl⟩

/-- Symbols in another order than that of their addresses, with an alias. -/
theorem addSymbols_lookup_aliases :
    ∃ s', addSymbols [("main", 0x2000), ("f", 0x1000), ("g", 0x1000)] emptySymtab =
        .done true s' ∧ Ordered s'.head ∧
      (∀ a, (∃ f ∈ s'.head, f.funStartAddr = a) ↔
        ∃ n, (n, a) ∈ [("main", (0x2000 : Word)), ("f", 0x1000), ("g", 0x1000)]) ∧
      (∀ f ∈ s'.head, (f.funName, f.funStartAddr) ∈
        [("main", (0x2000 : Word)), ("f", 0x1000), ("g", 0x1000)]) ∧
      ∀ a, Answers s'.head a (mutExecSymtabLookupAddr a s'.head) :=
  addSymbols_lookup emptySymtab _ (fun _ h => nomatch h) rfl

/-! ## Adding lines -/

/-- A call of `mut_exec_symtab_add_range`. -/
structure RangeCall where
  addr : Word
  line : Word
  file : Option String
  deriving DecidableEq, Repr

/-- Make the calls in order. -/
def addRanges : List RangeCall → SymtabM Bool
  | [] => return true
  | c :: rest => do
      if !(← mutExecSymtabAddRange c.addr c.line c.file) then
        return false
      addRanges rest

/-- The node that a call makes. -/
def RangeCall.entry (c : RangeCall) : SymtabFunLine :=
  { lineAddr := c.addr, lineNumber := c.line &&& 0xffff }

/-- The function with a line more. -/
def addLine (f : SymtabFun) (c : RangeCall) : SymtabFun :=
  { f with fileName := c.file, funLines := insertAfter SymtabFunLine.lineAddr c.entry f.funLines }

/-- Of the functions of the list, `f` is the one that covers the address. -/
def inside (l : List SymtabFun) (f : SymtabFun) (a : Word) : Bool :=
  decide (f.funStartAddr ≤ a ∧ ∀ g ∈ l, g.funStartAddr ≤ a → g.funStartAddr ≤ f.funStartAddr)

/-- The calls for addresses inside the function. -/
def linesOf (l : List SymtabFun) (f : SymtabFun) (calls : List RangeCall) : List RangeCall :=
  calls.filter fun c => inside l f c.addr

section Lines

variable {l : List SymtabFun} {f : SymtabFun} {s s' : Symtab} {calls : List RangeCall}

theorem inside_iff {a : Word} (hf : f ∈ l) : inside l f a = true ↔ Covers l a f := by
  unfold inside
  rw [decide_eq_true_iff]
  constructor
  · intro h
    exact ⟨hf, h.1, h.2⟩
  · intro h
    exact ⟨h.le, h.greatest⟩

/-- Where functions start decides what is inside them. -/
theorem inside_map {F : SymtabFun → SymtabFun}
    (hF : ∀ g, (F g).funStartAddr = g.funStartAddr) (a : Word) :
    inside (l.map F) (F f) a = inside l f a := by
  unfold inside
  rw [decide_eq_decide, hF]
  refine and_congr_right fun _ => ?_
  constructor
  · intro h g hg
    have hmapped := h (F g) (List.mem_map_of_mem hg)
    rwa [hF] at hmapped
  · intro h g hg
    obtain ⟨g', hg', rfl⟩ := List.mem_map.1 hg
    rw [hF]
    exact h g' hg'

/-- Logging changes the log alone. -/
theorem wp_symtabLog {y : LogM Unit} {Q : Unit → Symtab → Prop}
    (hQ : ∀ l, Q () { s with log := l }) :
    wp (liftM y : SymtabM Unit) Q (fun _ => True) s :=
  (wp_focus Symtab.log (fun l s => { s with log := l }) y).2
    (wp_intro (fun _ l _ => hQ l) fun _ _ => trivial)

/-- A node goes before the first whose address is above its own. -/
theorem addXxx_effect (c : RangeCall) (fls : List SymtabFunLine) :
    wp (mutExecSymtabAddXxx c.addr c.line fls)
      (fun r s' => (∀ ls, r = some ls → ls = insertAfter SymtabFunLine.lineAddr c.entry fls) ∧
        s'.head = s.head) (fun _ => True) s := by
  have hopen : wp (mutExecSymtabFunLineOpen c.addr c.line)
      (fun r s' => (∀ nfl, r = some nfl → nfl = c.entry) ∧ s'.head = s.head)
      (fun _ => True) s := by
    simp only [mutExecSymtabFunLineOpen, Symtab.malloc, wp_bind, wp_read, wp_update, wp_pure]
    cases s.full.head?.join with
    | some errno =>
        simp only [wp_bind]
        exact wp_symtabLog fun _ => wp_symtabLog fun _ => ⟨by simp, rfl⟩
    | none => exact ⟨fun _ h => (Option.some.inj h).symm, rfl⟩
  induction fls with
  | nil =>
      unfold mutExecSymtabAddXxx
      rw [wp_bind]
      refine wp_mono hopen ?_ fun _ _ => trivial
      rintro r s₁ ⟨hr, hhead⟩
      cases r with
      | none => exact ⟨by simp, hhead⟩
      | some nfl =>
          rw [hr nfl rfl]
          exact ⟨fun _ h => (Option.some.inj h).symm, hhead⟩
  | cons fl next ih =>
      unfold mutExecSymtabAddXxx insertAfter
      by_cases hlt : c.addr < fl.lineAddr
      · rw [if_pos hlt, if_pos (show c.entry.lineAddr < fl.lineAddr from hlt), wp_bind]
        refine wp_mono hopen ?_ fun _ _ => trivial
        rintro r s₁ ⟨hr, hhead⟩
        cases r with
        | none => exact ⟨by simp, hhead⟩
        | some nfl =>
            rw [hr nfl rfl]
            exact ⟨fun _ h => (Option.some.inj h).symm, hhead⟩
      · rw [if_neg hlt, if_neg (show ¬ c.entry.lineAddr < fl.lineAddr from hlt), wp_bind]
        refine wp_mono ih ?_ fun _ _ => trivial
        rintro r s₁ ⟨hr, hhead⟩
        cases r with
        | none => exact ⟨by simp, hhead⟩
        | some next' =>
            rw [hr next' rfl]
            exact ⟨fun _ h => (Option.some.inj h).symm, hhead⟩

/-- Changing the function that covers an address. -/
theorem map_covering {a : Word} {before after : List SymtabFun} (F : SymtabFun → SymtabFun)
    (hord : Ordered l) (h : mutExecSymtabRangeOf a l = some (before, f, after)) :
    l.map (fun g => if inside l g a then F g else g) = before ++ F f :: after := by
  have hf := rangeOf_covers hord h
  obtain ⟨hsplit, _, _⟩ := rangeOf_split h
  have hpair := hord
  rw [hsplit] at hpair
  obtain ⟨_, hafter, hbefore⟩ := List.pairwise_append.1 hpair
  have hsame : ∀ g ∈ l, g.funStartAddr ≠ f.funStartAddr →
      (if inside l g a then F g else g) = g := by
    intro g hg hne
    refine if_neg fun hinside => hne ?_
    exact ((inside_iff hg).1 hinside).key_eq hf
  have hmem : ∀ g, g ∈ before ∨ g ∈ after → g ∈ l := by
    intro g hg
    rw [hsplit]
    exact hg.elim (List.mem_append_left _) fun hg =>
      List.mem_append_right _ (List.mem_cons_of_mem _ hg)
  have hfirst : before.map (fun g => if inside l g a then F g else g) = before := by
    refine List.map_congr_left (fun g hg => hsame g (hmem g (.inl hg)) ?_) |>.trans
      (List.map_id _)
    exact BitVec.ne_of_lt (hbefore g hg f List.mem_cons_self)
  have hlast : after.map (fun g => if inside l g a then F g else g) = after := by
    refine List.map_congr_left (fun g hg => hsame g (hmem g (.inr hg)) ?_) |>.trans
      (List.map_id _)
    exact (BitVec.ne_of_lt ((List.pairwise_cons.1 hafter).1 g hg)).symm
  have hmap : ∀ xs, xs = before ++ f :: after →
      xs.map (fun g => if inside l g a then F g else g) = before ++ F f :: after := by
    intro xs hxs
    rw [hxs, List.map_append, List.map_cons, hfirst, hlast, if_pos ((inside_iff hf.mem).2 hf)]
  exact hmap l hsplit

/-- A call adds its line to the function that covers its address, if there is one. -/
theorem addRange_effect (hord : Ordered s.head) (c : RangeCall) :
    wp (mutExecSymtabAddRange c.addr c.line c.file)
      (fun ok s' => ok = true → s'.head = s.head.map fun f =>
        if inside s.head f c.addr then addLine f c else f) (fun _ => True) s := by
  unfold mutExecSymtabAddRange
  rw [wp_bind, wp_read]
  cases hrange : mutExecSymtabRangeOf c.addr s.head with
  | none =>
      have habove := rangeOf_none hord hrange
      have hsame : (s.head.map fun f => if inside s.head f c.addr then addLine f c else f) =
          s.head := by
        refine (List.map_congr_left fun f hf => if_neg fun hinside => ?_).trans (List.map_id _)
        exact absurd ((inside_iff hf).1 hinside).le (BitVec.not_le.2 (habove f hf))
      rw [hsame]
      simp only [mutLogWarning, wp_bind]
      exact wp_symtabLog fun _ => wp_symtabLog fun _ _ => rfl
  | some found =>
      obtain ⟨before, f, after⟩ := found
      simp only [wp_bind, wp_update]
      refine wp_mono (addXxx_effect c f.funLines) ?_ fun _ _ => trivial
      rintro r s₁ ⟨hr, _⟩
      cases r with
      | none => simp
      | some funLines =>
          intro _
          rw [map_covering (fun g => addLine g c) hord hrange, addLine, ← hr funLines rfl]

theorem map_addLine_ordered (hord : Ordered l) {F : SymtabFun → SymtabFun}
    (hF : ∀ g, (F g).funStartAddr = g.funStartAddr) : Ordered (l.map F) := by
  refine List.pairwise_map.2 (hord.imp fun {g g'} hlt => ?_)
  rw [hF, hF]
  exact hlt

theorem foldl_addLine_start (es : List RangeCall) (f : SymtabFun) :
    (es.foldl addLine f).funStartAddr = f.funStartAddr ∧
      (es.foldl addLine f).funName = f.funName := by
  induction es generalizing f with
  | nil => exact ⟨rfl, rfl⟩
  | cons c es ih => exact ih (addLine f c)

theorem foldl_addLine_lines (es : List RangeCall) (f : SymtabFun) :
    (es.foldl addLine f).funLines =
      insertAll SymtabFunLine.lineAddr f.funLines (es.map RangeCall.entry) := by
  induction es generalizing f with
  | nil => rfl
  | cons c es ih => exact ih (addLine f c)

theorem foldl_addLine_file (es : List RangeCall) (f : SymtabFun) :
    (es.foldl addLine f).fileName = ((es.getLast?).map (·.file)).getD f.fileName := by
  induction es generalizing f with
  | nil => rfl
  | cons c es ih =>
      rw [List.foldl_cons, ih]
      cases es with
      | nil => rfl
      | cons d es => rw [List.getLast?_cons_cons]; rfl

/-- After the calls every function has the lines inside it, in order. -/
theorem addRanges_table (hord : Ordered s.head) (h : addRanges calls s = .done true s') :
    s'.head = s.head.map fun f => (linesOf s.head f calls).foldl addLine f := by
  induction calls generalizing s with
  | nil =>
      cases h
      exact (List.map_id _).symm
  | cons c calls ih =>
      obtain ⟨ok, s₁, hfirst, hrest⟩ := done_bind h
      cases ok with
      | false => cases hrest
      | true =>
          have hrest : addRanges calls s₁ = .done true s' := hrest
          have hstep := wp_done (addRange_effect hord c) hfirst rfl
          have hstart : ∀ g, (if inside s.head g c.addr then addLine g c else g).funStartAddr =
              g.funStartAddr := by
            intro g
            split <;> rfl
          have hord₁ : Ordered s₁.head := hstep ▸ map_addLine_ordered hord hstart
          rw [ih hord₁ hrest, hstep, List.map_map]
          apply List.map_congr_left
          intro f _
          unfold linesOf
          simp only [Function.comp_apply, inside_map hstart, List.filter_cons]
          split <;> rfl

/-! ## Functions to which no line was added -/

/-- The list is in order and no function has a line. -/
structure Fresh (l : List SymtabFun) : Prop where
  ordered : Ordered l
  empty : ∀ f ∈ l, f.funLines = []

theorem fresh_cons (hl : Fresh l) (hf : f.funLines = [])
    (hlt : ∀ g ∈ l, f.funStartAddr < g.funStartAddr) : Fresh (f :: l) := by
  refine ⟨List.pairwise_cons.2 ⟨hlt, hl.ordered⟩, ?_⟩
  intro g hg
  rcases List.mem_cons.1 hg with rfl | hg
  · exact hf
  · exact hl.empty g hg

/-- A new function has no line. -/
theorem funOpen_effect (n : String) (a : Word) :
    wp (mutExecSymtabFunOpen n a)
      (fun r _ => ∀ nf, r = some nf → nf.funStartAddr = a ∧ nf.funLines = [])
      (fun _ => True) s := by
  simp only [mutExecSymtabFunOpen, Symtab.malloc, wp_bind, wp_read, wp_update, wp_pure]
  cases s.full.head?.join with
  | some errno =>
      simp only [wp_bind]
      exact wp_symtabLog fun _ => wp_symtabLog fun _ => by simp
  | none =>
      intro nf h
      rw [← Option.some.inj h]
      exact ⟨rfl, rfl⟩

/-- A function goes before the first one above it. -/
theorem addFunFrom_effect (n : String) (a : Word) (hl : Fresh l) :
    wp (mutExecSymtabAddFunFrom n a l)
      (fun r _ => ∀ l', r = some l' →
        Fresh l' ∧ ∀ g ∈ l', g ∈ l ∨ g.funStartAddr = a)
      (fun _ => True) s := by
  induction l with
  | nil =>
      unfold mutExecSymtabAddFunFrom
      rw [wp_bind]
      refine wp_mono (funOpen_effect n a) ?_ fun _ _ => trivial
      intro r s₁ hr
      cases r with
      | none => simp
      | some nf =>
          intro l' hl'
          obtain ⟨ha, hlines⟩ := hr nf rfl
          rw [← Option.some.inj hl']
          refine ⟨fresh_cons hl hlines (by simp), ?_⟩
          intro g hg
          rw [List.mem_singleton.1 hg]
          exact Or.inr ha
  | cons f next ih =>
      obtain ⟨hhead, htail⟩ := List.pairwise_cons.1 hl.ordered
      have hnext : Fresh next :=
        ⟨htail, fun g hg => hl.empty g (List.mem_cons_of_mem f hg)⟩
      unfold mutExecSymtabAddFunFrom
      by_cases hlt : a < f.funStartAddr
      · rw [if_pos hlt, wp_bind]
        refine wp_mono (funOpen_effect n a) ?_ fun _ _ => trivial
        intro r s₁ hr
        cases r with
        | none => simp
        | some nf =>
            intro l' hl'
            obtain ⟨ha, hlines⟩ := hr nf rfl
            rw [← Option.some.inj hl']
            constructor
            · apply fresh_cons hl hlines
              intro g hg
              rw [ha]
              rcases List.mem_cons.1 hg with rfl | hg
              · exact hlt
              · exact BitVec.lt_trans hlt (hhead g hg)
            · intro g hg
              rcases List.mem_cons.1 hg with rfl | hg
              · exact Or.inr ha
              · exact Or.inl hg
      · rw [if_neg hlt]
        by_cases heq : a = f.funStartAddr
        · rw [if_pos heq]
          intro l' hl'
          rw [← Option.some.inj hl']
          exact ⟨hl, fun g hg => Or.inl hg⟩
        · rw [if_neg heq, wp_bind]
          refine wp_mono (ih hnext) ?_ fun _ _ => trivial
          intro r s₁ hr
          cases r with
          | none => simp
          | some next' =>
              intro l' hl'
              obtain ⟨hfresh, hmem⟩ := hr next' rfl
              rw [← Option.some.inj hl']
              constructor
              · apply fresh_cons hfresh (hl.empty f List.mem_cons_self)
                intro g hg
                rcases hmem g hg with hold | hnew
                · exact hhead g hold
                · rw [hnew]
                  bv_omega
              · intro g hg
                rcases List.mem_cons.1 hg with rfl | hg
                · exact Or.inl List.mem_cons_self
                · exact (hmem g hg).imp (List.mem_cons_of_mem f) id

/-- However many symbols are added, the functions have no lines yet. -/
theorem addSymbols_fresh {syms : List Sym} (hl : Fresh s.head)
    (h : addSymbols syms s = .done true s') : Fresh s'.head := by
  induction syms generalizing s with
  | nil =>
      cases h
      exact hl
  | cons t rest ih =>
      obtain ⟨ok, s₁, hfirst, hrest⟩ := done_bind h
      cases ok with
      | false => cases hrest
      | true =>
          have hrest : addSymbols rest s₁ = .done true s' := hrest
          refine ih ?_ hrest
          have hadd : wp (mutExecSymtabAddFun t.1 t.2)
              (fun ok s' => ok = true → Fresh s'.head) (fun _ => True) s := by
            unfold mutExecSymtabAddFun
            simp only [wp_bind, wp_read]
            refine wp_mono (addFunFrom_effect t.1 t.2 hl) ?_ fun _ _ => trivial
            intro r s₂ hr
            cases r with
            | none => simp
            | some l' => exact fun _ => (hr l' rfl).1
          exact wp_done hadd hfirst rfl

/-! ## The line reported -/

/-- `n` is the line of the first entry from `a` on, and 0 if all are below. -/
def NextLine (es : List RangeCall) (a n : Word) : Prop :=
  (∃ c, a ≤ c.addr ∧ (∀ d ∈ es, a ≤ d.addr → c.addr ≤ d.addr) ∧
    es.find? (fun d => d.addr = c.addr) = some c ∧ n = c.line) ∨
  ((∀ d ∈ es, d.addr < a) ∧ n = 0)

/-- There is an entry at the address, or the first entry from it on has the line number
of the last one up to it. -/
def LineKnown (es : List RangeCall) (a : Word) : Prop :=
  (∃ c ∈ es, c.addr = a) ∨ ∃ c n, IsFloor RangeCall.addr a es c ∧ NextLine es a n ∧ n = c.line

/-- The line of the first entry from an address on is unique. -/
theorem nextLine_unique {es : List RangeCall} {a n m : Word} (h : NextLine es a n)
    (h' : NextLine es a m) : n = m := by
  rcases h with ⟨c, hc, hleast, hfind, rfl⟩ | ⟨hbelow, rfl⟩
  · have hmem := List.mem_of_find?_eq_some hfind
    rcases h' with ⟨d, hd, hleast', hfind', rfl⟩ | ⟨hbelow, rfl⟩
    · have hmem' := List.mem_of_find?_eq_some hfind'
      have haddr : c.addr = d.addr :=
        BitVec.le_antisymm (hleast d hmem' hd) (hleast' c hmem hc)
      rw [haddr, hfind'] at hfind
      rw [Option.some.inj hfind]
    · exact absurd (hbelow c hmem) (BitVec.not_lt.2 hc)
  · rcases h' with ⟨d, hd, -, hfind', rfl⟩ | ⟨-, rfl⟩
    · exact absurd (hbelow d (List.mem_of_find?_eq_some hfind')) (BitVec.not_lt.2 hd)
    · rfl

/-- A line number below 65536 is kept by the node. -/
theorem masked_line {l : Word} (h : l < 0x10000) : l &&& 0xffff = l := by
  apply BitVec.eq_of_toNat_eq
  have hlt : l.toNat < 2 ^ 16 := h
  rw [BitVec.toNat_and]
  show l.toNat &&& (2 ^ 16 - 1) = l.toNat
  rw [Nat.and_two_pow_sub_one_eq_mod, Nat.mod_eq_of_lt hlt]

/-- A function with no lines but those of the calls reports the next one. -/
theorem line_next (hempty : f.funLines = []) {es : List RangeCall}
    (hsmall : ∀ c ∈ es, c.line < 0x10000) (a : Word) :
    NextLine es a ((es.foldl addLine f).line a) := by
  have hord : (insertAll SymtabFunLine.lineAddr [] (es.map RangeCall.entry)).Pairwise
      fun x y => x.lineAddr ≤ y.lineAddr := insertAll_pairwise List.Pairwise.nil _
  unfold SymtabFun.line
  rw [foldl_addLine_lines, hempty]
  cases hfind : (insertAll SymtabFunLine.lineAddr [] (es.map RangeCall.entry)).find?
      fun fl => a ≤ fl.lineAddr with
  | none =>
      refine Or.inr ⟨?_, rfl⟩
      intro c hc
      have hmem : c.entry ∈ insertAll SymtabFunLine.lineAddr [] (es.map RangeCall.entry) :=
        mem_insertAll.2 (Or.inl (List.mem_map_of_mem hc))
      have hnot := List.find?_eq_none.1 hfind c.entry hmem
      rw [decide_eq_true_iff] at hnot
      exact BitVec.not_le.1 hnot
  | some fl =>
      obtain ⟨hle, hleast, hfirst⟩ := find_ordered hord hfind
      rw [find_insertAll, List.find?_map] at hfirst
      obtain ⟨c, hc, rfl⟩ := Option.map_eq_some_iff.1 hfirst
      refine Or.inl ⟨c, hle, ?_, hc, masked_line (hsmall c (List.mem_of_find?_eq_some hc))⟩
      intro d hd had
      exact hleast d.entry (mem_insertAll.2 (Or.inl (List.mem_map_of_mem hd))) had

/-- After the calls the lookup finds the function with the lines inside it. -/
theorem lookup_added (hord : Ordered s.head) (hcalls : addRanges calls s = .done true s')
    {a : Word} (hf : Covers s.head a f) :
    mutExecSymtabLookupAddr a s'.head = some
      { functionAddr := f.funStartAddr, name := f.funName
        fileName := (((linesOf s.head f calls).getLast?).map (·.file)).getD f.fileName
        line := ((linesOf s.head f calls).foldl addLine f).line a } := by
  have htable := addRanges_table hord hcalls
  have hstart : ∀ g, ((linesOf s.head g calls).foldl addLine g).funStartAddr = g.funStartAddr :=
    fun g => (foldl_addLine_start _ g).1
  have hcover : Covers s'.head a ((linesOf s.head f calls).foldl addLine f) := by
    rw [htable]
    refine ⟨List.mem_map_of_mem hf.mem, (hstart f).symm ▸ hf.le, ?_⟩
    intro g hg hga
    obtain ⟨g', hg', rfl⟩ := List.mem_map.1 hg
    rw [hstart] at hga ⊢
    rw [hstart]
    exact hf.greatest g' hg' hga
  have hord' : Ordered s'.head := htable ▸ map_addLine_ordered hord hstart
  rw [lookup_floor hord' hcover, hstart f, (foldl_addLine_start _ f).2, foldl_addLine_file]

/-- For an address inside a function, the line reported is that of an entry of the
function with the greatest address not above it, if and only if there is an entry at
the address or the next one has the same line number. -/
theorem line_exact_iff (hfresh : Fresh s.head) (hcalls : addRanges calls s = .done true s')
    (hsmall : ∀ c ∈ calls, c.line < 0x10000) {a : Word} (hf : Covers s.head a f) :
    ∃ x, mutExecSymtabLookupAddr a s'.head = some x ∧ x.functionAddr = f.funStartAddr ∧
      ((∃ c, IsFloor RangeCall.addr a (linesOf s.head f calls) c ∧ x.line = c.line) ↔
        LineKnown (linesOf s.head f calls) a) := by
  have hsmall' : ∀ c ∈ linesOf s.head f calls, c.line < 0x10000 :=
    fun c hc => hsmall c (List.mem_of_mem_filter hc)
  have hnext := line_next (hfresh.empty f hf.mem) hsmall' a
  refine ⟨_, lookup_added hfresh.ordered hcalls hf, rfl, ?_⟩
  constructor
  · rintro ⟨c, hc, hline⟩
    exact Or.inr ⟨c, _, hc, hnext, hline⟩
  · intro hknown
    rcases hknown with ⟨c, hc, rfl⟩ | ⟨c, n, hc, hn, rfl⟩
    · rcases hnext with ⟨d, hd, hleast, hfind, hline⟩ | ⟨hbelow, -⟩
      · have haddr : d.addr = c.addr := BitVec.le_antisymm (hleast c hc (BitVec.le_refl _)) hd
        refine ⟨d, ⟨List.mem_of_find?_eq_some hfind, BitVec.le_of_eq haddr, ?_⟩, hline⟩
        intro y _ hy
        rw [haddr]
        exact hy
      · exact absurd (hbelow c hc) (BitVec.lt_irrefl _)
    · exact ⟨c, hc, nextLine_unique hnext hn⟩

end Lines

/-- A table with one function. -/
def oneFunction : Symtab :=
  { emptySymtab with head := [⟨"main", 0x1000, none, []⟩] }

/-- Two lines of it. -/
def twoLines : List RangeCall := [⟨0x1000, 1, none⟩, ⟨0x1010, 2, none⟩]

/-- The table with the two lines. -/
def linedFunction : Symtab :=
  { emptySymtab with head := [⟨"main", 0x1000, none, [⟨0x1000, 1⟩, ⟨0x1010, 2⟩]⟩] }

theorem fresh_oneFunction : Fresh oneFunction.head := by
  have hadded : addSymbols [("main", 0x1000)] emptySymtab = .done true oneFunction := rfl
  have hnone : Fresh emptySymtab.head := ⟨List.Pairwise.nil, nofun⟩
  exact addSymbols_fresh hnone hadded

theorem covers_oneFunction : Covers oneFunction.head 0x1004 ⟨"main", 0x1000, none, []⟩ := by
  refine ⟨List.mem_cons_self, by decide, ?_⟩
  intro g hg _
  rw [List.mem_singleton.1 hg]
  exact BitVec.le_refl _

theorem line_exact_iff_oneFunction :
    ∃ x, mutExecSymtabLookupAddr 0x1004 linedFunction.head = some x ∧ x.functionAddr = 0x1000 ∧
      ((∃ c, IsFloor RangeCall.addr 0x1004
          (linesOf oneFunction.head ⟨"main", 0x1000, none, []⟩ twoLines) c ∧ x.line = c.line) ↔
        LineKnown (linesOf oneFunction.head ⟨"main", 0x1000, none, []⟩ twoLines) 0x1004) := by
  have hcalls : addRanges twoLines oneFunction = .done true linedFunction := rfl
  exact line_exact_iff fresh_oneFunction hcalls (by decide) covers_oneFunction

/-- An address in the code of the first line is reported with the second. -/
theorem line_ahead :
    ¬ ∀ (calls : List RangeCall) (s s' : Symtab) (f : SymtabFun) (a : Word) (x : AddrName),
      Fresh s.head → addRanges calls s = .done true s' → (∀ c ∈ calls, c.line < 0x10000) →
      Covers s.head a f → (∃ c ∈ linesOf s.head f calls, c.addr ≤ a) →
      mutExecSymtabLookupAddr a s'.head = some x →
      ∃ c, IsFloor RangeCall.addr a (linesOf s.head f calls) c ∧ x.line = c.line := by
  intro h
  have hlookup : mutExecSymtabLookupAddr 0x1004 linedFunction.head =
      some ⟨0x1000, "main", none, 2⟩ := by decide
  obtain ⟨c, hc, hline⟩ := h twoLines oneFunction linedFunction ⟨"main", 0x1000, none, []⟩
    0x1004 ⟨0x1000, "main", none, 2⟩ fresh_oneFunction rfl (by decide) covers_oneFunction
    (by decide) hlookup
  have hmem : c ∈ twoLines := List.mem_of_mem_filter hc.mem
  rcases List.mem_cons.1 hmem with rfl | hsecond
  · exact absurd hline (by decide)
  · rw [List.mem_singleton.1 hsecond] at hc
    exact absurd hc.le (by decide)

end MutTracker.Verified.Symtab
