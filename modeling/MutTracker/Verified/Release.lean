import MutTracker.Verified.Phases
import MutTracker.Verified.Slots

/-!
# What `mut_exec_open` gives back

Where something fails the labels of `mut_exec_open` lead back to the phase in which nothing
is held.  After success the tables and the nodes are held until the executable is closed.

One step is not like the others.  `mut_exec_extract_symbols` closes the symbol table itself
when its loop fails, and the label it is left by closes it again.

## Main results

* `extractSymbols_spec` — the function that cleans up after itself.
* `openStrtab_ends`, `openSymtab_ends`, `openDynsym_ends` — the labels.
* `release_exact` — everything is given back, each block once, unless the loop over the
  symbols runs out of memory after its first node.
-/

namespace MutTracker.Source.Release

open MutTracker.Logic MutTracker.Logic.Prog

variable {α β : Type} {r r' : ExecReader} {t : Table} {p : Nat} {E : ExecHalt → Prop} {ph : Phase}

/-! ## The function that cleans up after itself -/

/-- Closing the table frees no node that is freed already. -/
def Closable (r : ExecReader) : Prop := r.symtabClosed = false ∨ r.symtab.head = []

/-- The loop of `mut_exec_extract_symbols` fails when the symbol table has nodes. -/
def Lost (h : Shdr) (t : Table) (suffix : Option (List Byte)) (plt : Option Shdr)
    (r : ExecReader) : Prop :=
  ∃ p symbols r₁ r₂,
    execRecordsOpen Sym.ofBytes symSize "elf.sym.size" h r = .done (some (p, symbols)) r₁ ∧
      mutExecExtractSymbolsFrom t suffix plt 1 symbols r₁ = .done false r₂ ∧
      r₂.symtab.head ≠ []

theorem free_frame (q : Option Nat) (r : ExecReader) :
    wp (mutMemFree q) (fun _ r' => r'.symtab = r.symtab ∧ r'.symtabClosed = r.symtabClosed)
      (fun _ => True) r := by
  cases q with
  | none =>
      show r.symtab = r.symtab ∧ r.symtabClosed = r.symtabClosed
      exact ⟨rfl, rfl⟩
  | some p =>
      unfold mutMemFree
      simp only [wp_bind, wp_read, wp_require, wp_update]
      cases (r.blocks[p]?.join).isSome <;> simp

/-- A sequence whose first part is known to have returned. -/
theorem wp_from {x : ElfM α} {f : α → ElfM β} {Q : β → ExecReader → Prop} {a : α}
    (hx : x r = .done a r') (h : wp (f a) Q E r') : wp (x >>= f) Q E r := by
  unfold wp at h ⊢
  rw [bind_done hx]
  exact h

/-- A sequence whose first part is known to have halted. -/
theorem wp_stuck {x : ElfM α} {f : α → ElfM β} {Q : β → ExecReader → Prop} {e : ExecHalt}
    (hx : x r = .halt e) (h : E e) : wp (x >>= f) Q E r := by
  unfold wp
  rw [bind_halt hx]
  exact h

theorem extractSymbols_spec (hr : ph.At r) (ht : ph.tables t = .block)
    (hnone : ph.record = none) (hn : ph.nodes = .opened) (h : Shdr)
    (suffix : Option (List Byte)) (plt : Option Shdr) :
    wp (mutExecExtractSymbols h t suffix plt)
      (fun ok r' =>
        if ok then ph.At r' ∧ ¬ Lost h t suffix plt r
        else ({ ph with nodes := .loose } : Phase).At r' ∧
          (Closable r' ↔ ¬ Lost h t suffix plt r))
      (fun e => Benign e ∧ ¬ Lost h t suffix plt r) r := by
  have hph : ({ ph with record := none } : Phase) = ph := by
    rw [← hnone]
  have hloosen : ∀ r', ph.At r' → ({ ph with nodes := .loose } : Phase).At r' := fun r' hr' =>
    ⟨hr'.isOpen, hr'.null, hr'.block, hr'.owned, trivial, hr'.stabs⟩
  unfold mutExecExtractSymbols
  rw [wp_bind, wp_read, wp_bind, wp_require, if_pos (hr.block t ht)]
  have hrecords := goes_recordsOpen hnone Sym.ofBytes symSize "elf.sym.size" h r hr
  cases hrun : execRecordsOpen Sym.ofBytes symSize "elf.sym.size" h r with
  | halt e =>
      refine wp_stuck hrun ⟨wp_halted hrecords hrun, ?_⟩
      rintro ⟨p, symbols, r₁, r₂, hrun', -⟩
      rw [hrun] at hrun'
      exact absurd hrun' (by simp)
  | done o r₁ =>
      have hr₁ := wp_done hrecords hrun
      refine wp_from hrun ?_
      cases o with
      | none =>
          have hr₁ : ph.At r₁ := by
            rw [← hph]
            exact hr₁
          have hopened : ph.nodes.Hold r₁ := hr₁.nodes
          rw [hn] at hopened
          refine ⟨hloosen r₁ hr₁, iff_of_true (Or.inl hopened) ?_⟩
          rintro ⟨p, symbols, r₂, r₃, hrun', -⟩
          rw [hrun] at hrun'
          injection hrun' with hvalue
          exact absurd hvalue (by simp)
      | some found =>
          obtain ⟨p, symbols⟩ := found
          have hlost : Lost h t suffix plt r ↔
              ∃ r₂, mutExecExtractSymbolsFrom t suffix plt 1 symbols r₁ = .done false r₂ ∧
                r₂.symtab.head ≠ [] := by
            constructor
            · rintro ⟨q, ss, r₁', r₂, hrun', hrest⟩
              rw [hrun] at hrun'
              injection hrun' with hvalue hstate
              obtain ⟨rfl, rfl⟩ := Prod.mk.inj (Option.some.inj hvalue)
              rw [← hstate] at hrest
              exact ⟨r₂, hrest⟩
            · rintro ⟨r₂, hrest⟩
              exact ⟨p, symbols, r₁, r₂, hrun, hrest⟩
          have hr₁ : ({ ph with record := some p } : Phase).At r₁ := hr₁
          have hgoes : OpenGoes { ph with record := some p } (fun _ => { ph with record := some p })
              (mutExecExtractSymbolsFrom t suffix plt 1 symbols) := by
            apply goes_extractSymbolsFrom
            · exact ht
            · simp [hn]
          have hloop := hgoes r₁ hr₁
          rw [hlost]
          cases hrun₂ : mutExecExtractSymbolsFrom t suffix plt 1 symbols r₁ with
          | halt e =>
              exact wp_stuck hrun₂ ⟨wp_halted hloop hrun₂, by simp⟩
          | done extracted r₂ =>
              have hr₂ := wp_done hloop hrun₂
              refine wp_from hrun₂ ?_
              cases extracted with
              | true =>
                  refine wp_seq (goes_freeRecord p r₂ hr₂) (fun e he => ⟨he, by simp⟩) ?_
                  intro _ r₃ hr₃
                  rw [hph] at hr₃
                  exact ⟨hr₃, by simp⟩
              | false =>
                  have hopened : r₂.symtabClosed = false := by
                    have hnodes : ph.nodes.Hold r₂ := hr₂.nodes
                    rw [hn] at hnodes
                    exact hnodes
                  let shut : Phase := { ph with nodes := .loose }
                  have hclosed : ({ shut with record := some p } : Phase).At
                      { r₂ with symtabClosed := true } :=
                    ⟨hr₂.isOpen, hr₂.null, hr₂.block, hr₂.owned, trivial, hr₂.stabs⟩
                  simp only [Bool.false_eq_true, if_false]
                  unfold mutExecSymtabClose
                  rw [wp_bind, wp_bind, wp_read, wp_bind, wp_require, hopened,
                    if_pos (by simp), wp_update]
                  refine wp_seq (wp_and (free_record (E := fun _ => False) hclosed)
                    (free_frame (some p) _)) (fun _ he => he.1.elim) ?_
                  intro _ r₃ hboth
                  obtain ⟨hr₃, hsymtab, hshut⟩ := hboth
                  have hnone₃ : ({ shut with record := none } : Phase) = shut := by
                    rw [← show shut.record = none from hnone]
                  rw [hnone₃] at hr₃
                  refine ⟨hr₃, ?_⟩
                  have hhead : r₃.symtab.head = r₂.symtab.head := by rw [hsymtab]
                  have hshut₃ : r₃.symtabClosed = true := hshut
                  unfold Closable
                  rw [hshut₃, hhead]
                  simp

theorem goes_extractDebugInfo (ht : ph.tables .stabstr = .block) (hnone : ph.record = none)
    (hn : ph.nodes ≠ .shut) (hs : ph.hasStabs = true) :
    OpenGoes ph (fun _ => ph) mutExecExtractDebugInfo := by
  have hph : ({ ph with record := none } : Phase) = ph := by
    rw [← hnone]
  have hstabs : OpenGoes ph (fun o => { ph with record := recordOf o }) mutExecExtractStabs := by
    intro r hr
    obtain ⟨slot, hslot⟩ := Option.isSome_iff_exists.1 (hr.stabs hs)
    unfold mutExecExtractStabs
    rw [wp_bind, wp_read]
    simp only [ExecReader.selected, hslot, Option.map_some]
    refine Goes.ite ?_ (goes_recordsOpen hnone _ _ _ _) r hr
    refine .bind (keeps_execFatal _ _ _ ph) fun _ => .pure fun r hr => ?_
    show ({ ph with record := none } : Phase).At r
    rw [hph]
    exact hr
  have hsource : ∀ (ph₁ : Phase), ph₁.tables .stabstr = .block → ∀ s c,
      OpenGoes ph₁ (fun _ => ph₁) (execStabSource s c) := by
    intro ph₁ ht₁ s c
    refine .bind .read fun r => .ite ?_ (keeps_pure _ ph₁)
    refine .bind (goes_execString ht₁ _) fun l => ?_
    refine .bind (keeps_require (by simp [Malformed]) ph₁) fun _ => ?_
    refine .bind (goes_execTable ht₁) fun b => .ite (keeps_pure _ ph₁) ?_
    exact .ite (keeps_pure _ ph₁) (keeps_pure _ ph₁)
  have hfrom : ∀ (ph₁ : Phase), ph₁.tables .stabstr = .block → ph₁.nodes ≠ .shut →
      ∀ stabs c, OpenGoes ph₁ (fun _ => ph₁) (mutExecExtractDebugInfoFrom c stabs) := by
    intro ph₁ ht₁ hn₁ stabs
    induction stabs with
    | nil => exact fun c => keeps_pure _ ph₁
    | cons s stabs ih =>
        intro c
        refine .ite (.ite ?_ (ih c)) (.ite (ih _) (.ite ?_ (ih c)))
        · refine .bind (goes_execTable ht₁) fun b => ?_
          exact .check (goes_symtab hn₁ (symtabOnly_addRange _ _ _)) (keeps_pure _ ph₁) (ih c)
        · exact .bind (hsource ph₁ ht₁ s c) fun c' => ih c'
  apply hstabs.bind
  intro opened
  cases opened with
  | none =>
      refine .pure fun r hr => ?_
      have hr : ({ ph with record := none } : Phase).At r := hr
      rw [hph] at hr
      exact hr
  | some opened =>
      refine .bind (hfrom { ph with record := some opened.1 } ht hn _ _) fun extracted => ?_
      refine .bind (goes_freeRecord opened.1) fun _ => .pure fun r hr => ?_
      rw [hph] at hr
      exact hr

/-! ## The labels -/

/-- Nothing is held any more. -/
structure Released (r : ExecReader) : Prop where
  closed : r.isOpen = false
  freed : ∀ p, ¬ InUse r p
  nodes : r.symtabClosed = true ∨ r.symtab.head = []

theorem Phase.At.released (hr : ph.At r) (hopen : ph.isOpen = false) (hnone : ph.record = none)
    (htables : ∀ t, ph.tables t ≠ .block) (hn : ph.nodes = .shut) : Released r where
  closed := hr.isOpen.trans hopen
  freed := by
    apply hr.owned.nothing
    intro o
    cases o with
    | record => exact hnone
    | table t => simp [Phase.holds, htables t]
  nodes := by
    have hnodes := hr.nodes
    rw [hn] at hnodes
    exact hnodes

/-- A label ends with nothing held, if the symbol table can still be closed; if not, its
nodes are freed again. -/
def Ends (c : Prop) (x : ElfM Bool) (r : ExecReader) : Prop :=
  wp x (fun ok r' => ok = false ∧ Released r' ∧ c)
    (fun e => Benign e ∧ c ∨ e = .halt .badPointer ∧ ¬ c) r

theorem readHeader_ends (hr : ph.At r) (hnone : ph.record = none)
    (htables : ∀ t, ph.tables t ≠ .block) (hn : ph.nodes = .shut) :
    Ends True couldNotReadHeader r := by
  refine wp_seq (goes_fclose r hr) (fun e he => Or.inl ⟨he, trivial⟩) ?_
  intro _ r₁ hr₁
  exact ⟨rfl, hr₁.released rfl hnone htables hn, trivial⟩

/-- After the table's block is freed, the other tables are as they were. -/
theorem tables_after (ts : List Table)
    (htables : ∀ t', t' ∉ ts → t' ≠ t → ph.tables t' ≠ .block) : ∀ t', t' ∉ ts →
    (ph.withTable t .loose).tables t' ≠ .block := by
  intro t' h
  by_cases heq : t' = t
  · rw [heq, Phase.withTable_self]
    simp
  · rw [ph.withTable_other .loose heq]
    exact htables t' h heq

/-- The table is closed on the way to a later label. -/
theorem close_ends {x : ElfM Bool} {c : ExecReader → Prop} (hr : ph.At r)
    (ht : ph.tables t ≠ .loose)
    (hc : ∀ r', r'.symtab = r.symtab → r'.symtabClosed = r.symtabClosed → (c r' ↔ c r))
    (hx : ∀ r', (ph.withTable t .loose).At r' → Ends (c r') x r') :
    Ends (c r) (mutExecStrtabClose t >>= fun _ => x) r := by
  have hclose : mutExecStrtabClose t r = mutMemFree (r.tables t).data r := rfl
  have hfree := wp_and (free_table (E := fun _ => False) hr ht)
    (free_frame (r.tables t).data r)
  obtain ⟨_, r₁, hrun, hr₁, hsymtab, hclosed⟩ := wp_returns hfree fun _ he => he.1
  refine wp_from (hclose.trans hrun) ?_
  have hends := hx r₁ hr₁
  unfold Ends at hends
  rw [hc r₁ hsymtab hclosed] at hends
  exact hends

theorem locateSections_ends (hr : ph.At r) (hnone : ph.record = none)
    (hsh : ph.tables .shstrtab ≠ .loose) (htables : ∀ t, t ≠ .shstrtab → ph.tables t ≠ .block)
    (hn : ph.nodes = .shut) : Ends True couldNotLocateSections r := by
  refine close_ends (c := fun _ => True) hr hsh (fun _ _ _ => Iff.rfl) ?_
  intro r₁ hr₁
  refine readHeader_ends hr₁ hnone ?_ hn
  intro t
  exact tables_after [] (fun t' _ h => htables t' h) t (by simp)

theorem openStrtab_ends (hr : ph.At r) (hnone : ph.record = none)
    (hsh : ph.tables .shstrtab ≠ .loose) (htables : ∀ t, t ≠ .shstrtab → ph.tables t ≠ .block) :
    Ends (Closable r) couldNotOpenStrtab r := by
  unfold Ends couldNotOpenStrtab mutExecSymtabClose
  rw [wp_bind, wp_bind, wp_read, wp_bind, wp_require]
  by_cases hc : Closable r
  · have hpass : (!r.symtabClosed || r.symtab.head.isEmpty) = true := by
      rcases hc with h | h
      · simp [h]
      · simp [h]
    rw [if_pos hpass, wp_update]
    have hshut : ({ ph with nodes := .shut } : Phase).At { r with symtabClosed := true } :=
      ⟨hr.isOpen, hr.null, hr.block, hr.owned, Or.inl rfl, hr.stabs⟩
    refine wp_mono (locateSections_ends hshut hnone hsh htables rfl) ?_ ?_
    · intro ok r' h
      exact ⟨h.1, h.2.1, hc⟩
    · intro e he
      rcases he with he | he
      · exact Or.inl ⟨he.1, hc⟩
      · exact absurd trivial he.2
  · have hfail : ¬ (!r.symtabClosed || r.symtab.head.isEmpty) = true := by
      unfold Closable at hc
      simpa using hc
    rw [if_neg hfail]
    exact Or.inr ⟨rfl, hc⟩

theorem closable_iff (hsymtab : r'.symtab = r.symtab) (hclosed : r'.symtabClosed = r.symtabClosed) :
    Closable r' ↔ Closable r := by
  unfold Closable
  rw [hsymtab, hclosed]

theorem openSymtab_ends (hr : ph.At r) (hnone : ph.record = none)
    (hsh : ph.tables .shstrtab ≠ .loose) (hstr : ph.tables .strtab ≠ .loose)
    (htables : ∀ t, t ∉ [Table.shstrtab, .strtab] → ph.tables t ≠ .block) :
    Ends (Closable r) couldNotOpenSymtab r := by
  refine close_ends hr hstr (fun _ => closable_iff) ?_
  intro r₁ hr₁
  refine openStrtab_ends hr₁ hnone ?_ ?_
  · rw [ph.withTable_other .loose (by simp)]
    exact hsh
  · intro t ht
    exact tables_after [.shstrtab] (fun t' h h' => htables t' (by simp_all)) t
      (by simpa using ht)

theorem openDynsym_ends (hr : ph.At r) (hnone : ph.record = none)
    (hsh : ph.tables .shstrtab ≠ .loose) (hstr : ph.tables .strtab ≠ .loose)
    (hdyn : ph.tables .dynstr ≠ .loose) (hstab : ph.tables .stabstr ≠ .block) :
    Ends (Closable r) couldNotOpenDynsym r := by
  refine close_ends hr hdyn (fun _ => closable_iff) ?_
  intro r₁ hr₁
  refine openSymtab_ends hr₁ hnone ?_ ?_ ?_
  · rw [ph.withTable_other .loose (by simp)]
    exact hsh
  · rw [ph.withTable_other .loose (by simp)]
    exact hstr
  · intro t ht
    refine tables_after [.shstrtab, .strtab] (fun t' h h' => ?_) t ht
    cases t' with
    | stabstr => exact hstab
    | strtab | dynstr | shstrtab => simp at h h'

theorem extractDebugInfo_ends (hr : ph.At r) (hnone : ph.record = none)
    (hsh : ph.tables .shstrtab ≠ .loose) (hstr : ph.tables .strtab ≠ .loose)
    (hdyn : ph.tables .dynstr ≠ .loose) (hstab : ph.tables .stabstr ≠ .loose)
    (hs : ph.hasStabs = true) : Ends (Closable r) couldNotExtractDebugInfo r := by
  unfold couldNotExtractDebugInfo
  unfold Ends
  rw [wp_bind, wp_read]
  unfold whenever
  rw [if_pos (hr.stabs hs)]
  refine close_ends hr hstab (fun _ => closable_iff) ?_
  intro r₁ hr₁
  refine openDynsym_ends hr₁ hnone ?_ ?_ ?_ ?_
  · rw [ph.withTable_other .loose (by simp)]
    exact hsh
  · rw [ph.withTable_other .loose (by simp)]
    exact hstr
  · rw [ph.withTable_other .loose (by simp)]
    exact hdyn
  · simp

/-! ## The whole file -/

/-- What is held after the executable was opened is all given back by closing it. -/
structure Kept (r : ExecReader) : Prop where
  closed : r.isOpen = false
  closes : wp mutExecClose (fun _ r' => Released r') (fun _ => False) r

/-- How `mut_exec_open` ends: all is given back, or kept until it is closed, unless the nodes
were `lost`; then they are freed again. -/
def Opens (lost : Prop) (x : ElfM Bool) (r : ExecReader) : Prop :=
  wp x (fun ok r' => ¬ lost ∧ if ok then Kept r' else Released r')
    (fun e => Benign e ∧ ¬ lost ∨ e = .halt .badPointer ∧ lost) r

theorem Ends.opens {c lost : Prop} {x : ElfM Bool} (h : Ends c x r) (hc : c ↔ ¬ lost) :
    Opens lost x r := by
  refine wp_mono h ?_ ?_
  · intro ok r' hok
    rw [hok.1]
    exact ⟨hc.1 hok.2.2, hok.2.1⟩
  · intro e he
    rcases he with he | he
    · exact Or.inl ⟨he.1, hc.1 he.2⟩
    · exact Or.inr ⟨he.1, not_not.1 fun h => he.2 (hc.2 h)⟩

theorem Opens.congr {lost lost' : Prop} {x : ElfM Bool} (h : Opens lost x r)
    (hlost : lost ↔ lost') : Opens lost' x r := by
  unfold Opens at h ⊢
  rw [← hlost]
  exact h

theorem close_released (hr : ph.At r) (hopen : ph.isOpen = false) (hnone : ph.record = none)
    (hsh : ph.tables .shstrtab ≠ .block) (hstr : ph.tables .strtab ≠ .loose)
    (hdyn : ph.tables .dynstr ≠ .loose) (hstab : ph.tables .stabstr ≠ .loose)
    (hn : ph.nodes = .opened) : Kept r := by
  refine ⟨hr.isOpen.trans hopen, ?_⟩
  unfold mutExecClose
  refine wp_seq (free_table (t := .stabstr) hr hstab) (fun _ he => he) ?_
  intro _ r₁ hr₁
  refine wp_seq (free_table (t := .strtab) hr₁ ?_) (fun _ he => he) ?_
  · rw [ph.withTable_other .loose (by simp)]
    exact hstr
  intro _ r₂ hr₂
  refine wp_seq (free_table (t := .dynstr) hr₂ ?_) (fun _ he => he) ?_
  · rw [Phase.withTable_other .loose (by simp), ph.withTable_other .loose (by simp)]
    exact hdyn
  intro _ r₃ hr₃
  have hopened : r₃.symtabClosed = false := by
    have hnodes : ph.nodes.Hold r₃ := hr₃.nodes
    rw [hn] at hnodes
    exact hnodes
  unfold mutExecSymtabClose
  rw [wp_bind, wp_read, wp_bind, wp_require, hopened, if_pos (by simp), wp_update]
  have hshut : ({ ((ph.withTable .stabstr .loose).withTable .strtab .loose).withTable .dynstr
      .loose with nodes := .shut } : Phase).At { r₃ with symtabClosed := true } :=
    ⟨hr₃.isOpen, hr₃.null, hr₃.block, hr₃.owned, Or.inl rfl, hr₃.stabs⟩
  refine hshut.released hopen hnone ?_ rfl
  intro t
  cases t with
  | shstrtab => exact hsh
  | strtab | dynstr | stabstr => simp [Phase.withTable]

/-- The symbol table is open and the tables so far are known. -/
structure Opening (ph : Phase) : Prop where
  record : ph.record = none
  shstrtab : ph.tables .shstrtab = .block
  strtab : ph.tables .strtab ≠ .loose
  dynstr : ph.tables .dynstr ≠ .loose
  stabstr : ph.tables .stabstr ≠ .block
  nodes : ph.nodes = .opened

theorem Opening.closable (h : Opening ph) (hr : ph.At r) : Closable r := by
  have hnodes := hr.nodes
  rw [h.nodes] at hnodes
  exact Or.inl hnodes

theorem openDone_opens (hr : ph.At r) (hnone : ph.record = none)
    (hsh : ph.tables .shstrtab = .block) (hstr : ph.tables .strtab ≠ .loose)
    (hdyn : ph.tables .dynstr ≠ .loose) (hstab : ph.tables .stabstr ≠ .loose)
    (hn : ph.nodes = .opened) : Opens False mutExecOpenDone r := by
  have hlast : ∀ r', ({ ph with isOpen := false } : Phase).At r' →
      Opens False (do mutExecShstrtabClose; return true) r' := by
    intro r' hr'
    refine wp_seq (free_table (t := .shstrtab) hr' (by simp [hsh])) (fun _ he => he) ?_
    intro _ r₂ hr₂
    refine ⟨not_false, ?_⟩
    rw [if_pos rfl]
    exact close_released hr₂ rfl hnone (by simp) hstr hdyn hstab hn
  unfold mutExecOpenDone
  rw [Opens, wp_bind, wp_read]
  refine wp_seq (goes_fclose r hr) (fun e he => Or.inl ⟨he, not_false⟩) ?_
  intro closed r₁ hr₁
  cases closed with
  | true => exact hlast r₁ hr₁
  | false =>
      simp only [Bool.not_false, if_true]
      refine wp_seq (keeps_log (logOnly_begin _ _) _ r₁ hr₁) (fun e he => Or.inl ⟨he, not_false⟩) ?_
      intro _ r₂ hr₂
      refine wp_seq (keeps_log (logOnly_arg _) _ r₂ hr₂) (fun e he => Or.inl ⟨he, not_false⟩) ?_
      intro _ r₃ hr₃
      refine wp_seq (keeps_log logOnly_end _ r₃ hr₃) (fun e he => Or.inl ⟨he, not_false⟩) ?_
      intro _ r₄ hr₄
      exact hlast r₄ hr₄

theorem openStabs_opens (h : Opening ph) (hr : ph.At r) : Opens False mutExecOpenStabs r := by
  unfold mutExecOpenStabs
  rw [Opens, wp_bind, wp_read]
  cases hstabs : r.selected .stabs with
  | none =>
      have hset := (hr.retype (t := .stabstr) (k := .loose) h.stabstr (by simp) (by simp)).setTable
        (ph.withTable_self .loose) { r.tables .stabstr with data := none }
      have hnull := hset.retype (t := .stabstr) (k := .null) (by simp) (by simp)
        (by simp [ExecReader.setTable])
      rw [wp_bind, wp_update]
      refine openDone_opens hnull h.record h.shstrtab h.strtab h.dynstr ?_ h.nodes
      simp
  | some stabs =>
      have hsome : (r.sections .stabs).isSome = true := by
        unfold ExecReader.selected at hstabs
        cases hs : r.sections .stabs with
        | none =>
            rw [hs] at hstabs
            exact absurd hstabs (by simp)
        | some slot => rfl
      let ph₁ : Phase := { ph with hasStabs := true }
      have hr₁ : ph₁.At r := ⟨hr.isOpen, hr.null, hr.block, hr.owned, hr.nodes, fun _ => hsome⟩
      have hopen : OpenGoes ph₁ (fun ok => ph₁.withTable .stabstr (Held.ofOk ok))
          (mutExecStabstrOpen stabs) := by
        apply goes_stabstrOpen
        · exact h.stabstr
        · exact h.record
      refine wp_seq (hopen r hr₁) (fun e he => Or.inl ⟨he, not_false⟩) ?_
      intro opened r₂ hr₂
      have hopening : Opening (ph₁.withTable .stabstr .loose) :=
        ⟨h.record, h.shstrtab, h.strtab, h.dynstr, by simp, h.nodes⟩
      cases opened with
      | false =>
          refine Ends.opens (openDynsym_ends hr₂ h.record ?_ h.strtab h.dynstr ?_) ?_
          · exact fun heq => absurd (h.shstrtab.symm.trans heq) (by simp)
          · simp [Held.ofOk]
          · exact iff_of_true (hopening.closable hr₂) not_false
      | true =>
          let ph₂ : Phase := ph₁.withTable .stabstr .block
          have hdebug : OpenGoes ph₂ (fun _ => ph₂) mutExecExtractDebugInfo := by
            apply goes_extractDebugInfo
            · exact ph₁.withTable_self .block
            · exact h.record
            · rw [show ph₂.nodes = .opened from h.nodes]
              simp
            · rfl
          refine wp_seq (hdebug r₂ hr₂) (fun e he => Or.inl ⟨he, not_false⟩) ?_
          intro extracted r₃ hr₃
          cases extracted with
          | false =>
              refine Ends.opens (extractDebugInfo_ends hr₃ h.record ?_ h.strtab h.dynstr ?_ rfl) ?_
              · exact fun heq => absurd (h.shstrtab.symm.trans heq) (by simp)
              · rw [ph₁.withTable_self .block]
                simp
              · have hnodes : ph.nodes.Hold r₃ := hr₃.nodes
                rw [h.nodes] at hnodes
                exact iff_of_true (Or.inl hnodes) not_false
          | true =>
              refine openDone_opens hr₃ h.record h.shstrtab h.strtab h.dynstr ?_ h.nodes
              rw [ph₁.withTable_self .block]
              simp

/-! ## The runs that lose nodes -/

/-- The loop over the dynamic symbols is the one that fails. -/
def LostDynsym (suffix : Option (List Byte)) (r : ExecReader) : Prop :=
  ∃ dsymtab r₁, r.selected .dsymtab = some dsymtab ∧
    mutExecStrtabOpen dsymtab .dynstr r = .done true r₁ ∧
    Lost dsymtab .dynstr suffix (r.selected .plt) r₁

/-- The loop over the symbols fails, or the one over the dynamic symbols after it. -/
def LostSymbols (suffix : Option (List Byte)) (r : ExecReader) : Prop :=
  match r.selected .symtab with
  | some symtab => ∃ r₁, mutExecStrtabOpen symtab .strtab r.symtabOpen = .done true r₁ ∧
      (Lost symtab .strtab suffix none r₁ ∨
        ∃ r₂, mutExecExtractSymbols symtab .strtab suffix none r₁ = .done true r₂ ∧
          LostDynsym suffix { r₂ with hasFullSymbols := true })
  | none => LostDynsym suffix r.symtabOpen

/-- Memory is full in a loop over symbols that has added a node already. -/
def NodesLost (suffix : Option (List Byte)) (r : ExecReader) : Prop :=
  ∃ r₁ r₂, mutExecOpenHeader r = .done true r₁ ∧ mutExecLocateSections r₁ = .done true r₂ ∧
    LostSymbols suffix r₂

/-- The first of two parts ends, and what is lost is lost in the second. -/
theorem opens_seq {x : ElfM α} {f : α → ElfM Bool} {g : α → Phase} {lost : Prop}
    (hx : OpenGoes ph g x) (hr : ph.At r)
    (hlost : lost → ∃ a r', x r = .done a r')
    (hf : ∀ a r', x r = .done a r' → (g a).At r' → Opens lost (f a) r') :
    Opens lost (x >>= f) r := by
  cases hrun : x r with
  | halt e =>
      refine wp_stuck hrun (Or.inl ⟨wp_halted (hx r hr) hrun, ?_⟩)
      intro h
      obtain ⟨a, r', hdone⟩ := hlost h
      rw [hrun] at hdone
      exact absurd hdone (by simp)
  | done a r' => exact wp_from hrun (hf a r' hrun (hx.done hr hrun))

/-- What comes after the symbols of a section were extracted, or could not be. -/
theorem extractSymbols_opens {x y : ElfM Bool} {lost : Prop} {h : Shdr}
    {suffix : Option (List Byte)} {plt : Option Shdr} (hr : ph.At r) (ht : ph.tables t = .block)
    (hnone : ph.record = none) (hn : ph.nodes = .opened)
    (hlost : lost → Lost h t suffix plt r ∨ ∃ r', mutExecExtractSymbols h t suffix plt r =
      .done true r')
    (hnow : Lost h t suffix plt r → lost)
    (hx : ∀ r', ({ ph with nodes := .loose } : Phase).At r' → Ends (Closable r') x r')
    (hy : ∀ r', mutExecExtractSymbols h t suffix plt r = .done true r' → ph.At r' →
      ¬ Lost h t suffix plt r → Opens lost y r') :
    Opens lost (mutExecExtractSymbols h t suffix plt >>= fun ok => if !ok then x else y) r := by
  have hspec := extractSymbols_spec hr ht hnone hn h suffix plt
  cases hrun : mutExecExtractSymbols h t suffix plt r with
  | halt e =>
      have hends := wp_halted hspec hrun
      refine wp_stuck hrun (Or.inl ⟨hends.1, fun hl => ?_⟩)
      rcases hlost hl with hl | ⟨r', hdone⟩
      · exact hends.2 hl
      · rw [hrun] at hdone
        exact absurd hdone (by simp)
  | done ok r' =>
      have hends := wp_done hspec hrun
      refine wp_from hrun ?_
      cases ok with
      | true => exact hy r' hrun hends.1 hends.2
      | false =>
          simp only [Bool.false_eq_true, if_false] at hends
          refine (hx r' hends.1).opens (hends.2.trans (not_congr ⟨hnow, fun hl => ?_⟩))
          rcases hlost hl with hl | ⟨r'', hdone⟩
          · exact hl
          · rw [hrun] at hdone
            injection hdone with hok
            exact absurd hok (by simp)

theorem openDynsym_opens (h : Opening ph) (hdyn : ph.tables .dynstr = .null) (hr : ph.At r)
    (suffix : Option (List Byte)) :
    Opens (LostDynsym suffix r) (mutExecOpenDynsym suffix) r := by
  have hsh : ph.tables .shstrtab ≠ .loose := fun heq => absurd (h.shstrtab.symm.trans heq) (by simp)
  unfold mutExecOpenDynsym
  rw [Opens, wp_bind, wp_read]
  cases hsel : r.selected .dsymtab with
  | none =>
      refine (openStabs_opens h hr).congr (iff_of_false not_false ?_)
      rintro ⟨dsymtab, r₁, hsome, -⟩
      rw [hsel] at hsome
      exact absurd hsome (by simp)
  | some dsymtab =>
      have hstrtab : OpenGoes ph (fun ok => ph.withTable .dynstr (Held.ofOk ok))
          (mutExecStrtabOpen dsymtab .dynstr) :=
        goes_strtabOpen (by simp [hdyn]) h.record dsymtab
      have hlost : LostDynsym suffix r ↔
          ∃ r₁, mutExecStrtabOpen dsymtab .dynstr r = .done true r₁ ∧
            Lost dsymtab .dynstr suffix (r.selected .plt) r₁ := by
        constructor
        · rintro ⟨d, r₁, hsome, hrest⟩
          rw [hsel] at hsome
          rw [← Option.some.inj hsome] at hrest
          exact ⟨r₁, hrest⟩
        · rintro ⟨r₁, hrest⟩
          exact ⟨dsymtab, r₁, hsel, hrest⟩
      rw [hlost]
      refine opens_seq hstrtab hr ?_ ?_
      · rintro ⟨r₁, hdone, -⟩
        exact ⟨true, r₁, hdone⟩
      intro opened r₁ hrun hr₁
      rw [hrun]
      cases opened with
      | false =>
          refine (openSymtab_ends hr₁ h.record hsh h.strtab ?_).opens (iff_of_true ?_ ?_)
          · intro t ht
            cases t with
            | strtab | shstrtab => simp at ht
            | dynstr => simp [Held.ofOk]
            | stabstr => exact h.stabstr
          · have hnodes : ph.nodes.Hold r₁ := hr₁.nodes
            rw [h.nodes] at hnodes
            exact Or.inl hnodes
          · simp
      | true =>
          let ph₁ : Phase := ph.withTable .dynstr .block
          have hself : ph₁.tables .dynstr = .block := ph.withTable_self .block
          have hopening : Opening ph₁ :=
            ⟨h.record, h.shstrtab, h.strtab, by simp [hself], h.stabstr, h.nodes⟩
          have hone : (∃ r₂, (Outcome.done true r₁ : Outcome ExecReader ExecHalt Bool) =
              .done true r₂ ∧ Lost dsymtab .dynstr suffix (r.selected .plt) r₂) ↔
              Lost dsymtab .dynstr suffix (r.selected .plt) r₁ := by simp
          rw [hone]
          have hr₁ : ph₁.At r₁ := hr₁
          refine extractSymbols_opens hr₁ hself h.record h.nodes Or.inl (fun hl => hl)
            ?_ ?_
          · intro r₂ hr₂
            exact openDynsym_ends hr₂ h.record hsh h.strtab (by simp [hself]) h.stabstr
          · intro r₂ _ hr₂ hkept
            exact (openStabs_opens hopening hr₂).congr (iff_of_false not_false hkept)

/-- The phase in which the symbol table was opened. -/
def symtabOpened (ph : Phase) : Phase :=
  { (ph.withTable .strtab .null).withTable .dynstr .null with nodes := .opened }

theorem symtabOpen_at (hr : ph.At r) (htables : ∀ t, t ≠ .shstrtab → ph.tables t ≠ .block) :
    (symtabOpened ph).At r.symtabOpen := by
  have hnull : ∀ t, t = .strtab ∨ t = .dynstr → (symtabOpened ph).tables t = .null ∧
      (r.symtabOpen.tables t).data = none := by
    intro t ht
    rcases ht with rfl | rfl <;> simp [symtabOpened, Phase.withTable, ExecReader.symtabOpen]
  have hother : ∀ t, ¬ (t = .strtab ∨ t = .dynstr) →
      (symtabOpened ph).tables t = ph.tables t ∧ r.symtabOpen.tables t = r.tables t := by
    intro t ht
    cases t <;> simp_all [symtabOpened, Phase.withTable, ExecReader.symtabOpen]
  refine ⟨hr.isOpen, ?_, ?_, ?_, rfl, hr.stabs⟩
  · intro t h
    by_cases ht : t = .strtab ∨ t = .dynstr
    · exact (hnull t ht).2
    · rw [(hother t ht).2]
      exact hr.null t ((hother t ht).1.symm.trans h)
  · intro t h
    by_cases ht : t = .strtab ∨ t = .dynstr
    · exact absurd ((hnull t ht).1.symm.trans h) (by simp)
    · rw [(hother t ht).2]
      exact hr.block t ((hother t ht).1.symm.trans h)
  · apply hr.owned.congr fun _ => Iff.rfl
    intro o
    cases o with
    | record => rfl
    | table t =>
        by_cases ht : t = .strtab ∨ t = .dynstr
        · have hne : ph.tables t ≠ .block := htables t (by rcases ht with rfl | rfl <;> simp)
          simp [Phase.holds, (hnull t ht).1, hne]
        · simp only [Phase.holds, (hother t ht).1, (hother t ht).2]

theorem openSymbols_opens (hr : ph.At r) (hnone : ph.record = none)
    (hsh : ph.tables .shstrtab = .block) (htables : ∀ t, t ≠ .shstrtab → ph.tables t ≠ .block)
    (suffix : Option (List Byte)) : Opens (LostSymbols suffix r) (mutExecOpenSymbols suffix) r := by
  have hr₁ := symtabOpen_at hr htables
  have hopening : Opening (symtabOpened ph) :=
    ⟨hnone, hsh, by simp [symtabOpened, Phase.withTable], by simp [symtabOpened, Phase.withTable],
      htables .stabstr (by simp), rfl⟩
  have hdyn : (symtabOpened ph).tables .dynstr = .null := by simp [symtabOpened, Phase.withTable]
  have hselected : ∀ w, r.symtabOpen.selected w = r.selected w := fun _ => rfl
  unfold mutExecOpenSymbols
  rw [Opens, wp_bind, wp_update, wp_bind, wp_read, hselected]
  unfold LostSymbols
  cases r.selected .symtab with
  | none => exact openDynsym_opens hopening hdyn hr₁ suffix
  | some symtab =>
      simp only
      have hstrtab : OpenGoes (symtabOpened ph)
          (fun ok => (symtabOpened ph).withTable .strtab (Held.ofOk ok))
          (mutExecStrtabOpen symtab .strtab) :=
        goes_strtabOpen (by simp [symtabOpened, Phase.withTable]) hopening.record symtab
      refine opens_seq hstrtab hr₁ ?_ ?_
      · rintro ⟨r₂, hdone, -⟩
        exact ⟨true, r₂, hdone⟩
      intro opened r₂ hrun hr₂
      rw [hrun]
      cases opened with
      | false =>
          refine (openStrtab_ends hr₂ hnone ?_ ?_).opens (iff_of_true (Or.inl hr₂.nodes) (by simp))
          · exact fun heq => absurd (hsh.symm.trans heq) (by simp)
          · intro t ht
            cases t with
            | shstrtab => exact absurd rfl ht
            | strtab => simp [Held.ofOk]
            | dynstr => simp [symtabOpened, Phase.withTable]
            | stabstr => exact htables .stabstr ht
      | true =>
          let ph₁ : Phase := (symtabOpened ph).withTable .strtab .block
          have hr₂ : ph₁.At r₂ := hr₂
          have hself : ph₁.tables .strtab = .block := Phase.withTable_self .block
          have hdyn₁ : ph₁.tables .dynstr = .null := by
            rw [show ph₁.tables .dynstr = (symtabOpened ph).tables .dynstr from
              Phase.withTable_other .block (by simp)]
            exact hdyn
          have hopening₁ : Opening ph₁ :=
            ⟨hnone, hsh, by simp [hself], by simp [hdyn₁], htables .stabstr (by simp), rfl⟩
          have hone : (∃ r₁, (Outcome.done true r₂ : Outcome ExecReader ExecHalt Bool) =
                .done true r₁ ∧ (Lost symtab .strtab suffix none r₁ ∨
              ∃ r₃, mutExecExtractSymbols symtab .strtab suffix none r₁ = .done true r₃ ∧
                LostDynsym suffix { r₃ with hasFullSymbols := true })) ↔
              (Lost symtab .strtab suffix none r₂ ∨
                ∃ r₃, mutExecExtractSymbols symtab .strtab suffix none r₂ = .done true r₃ ∧
                  LostDynsym suffix { r₃ with hasFullSymbols := true }) := by simp
          rw [hone]
          refine extractSymbols_opens hr₂ hself hnone rfl ?_ Or.inl ?_ ?_
          · intro hl
            rcases hl with hl | ⟨r₃, hdone, -⟩
            · exact Or.inl hl
            · exact Or.inr ⟨r₃, hdone⟩
          · intro r₃ hr₃
            refine openSymtab_ends hr₃ hnone ?_ ?_ ?_
            · exact fun heq => absurd (hsh.symm.trans heq) (by simp)
            · simp [hself]
            · intro t ht
              cases t with
              | strtab | shstrtab => simp at ht
              | dynstr => simp [hdyn₁]
              | stabstr => exact htables .stabstr (by simp)
          · intro r₃ hrun₃ hr₃ hkept
            have hfull : ph₁.At { r₃ with hasFullSymbols := true } :=
              hr₃.same ⟨rfl, fun _ => rfl, fun _ => Iff.rfl, rfl, rfl, fun hs => hs⟩
            rw [Opens, wp_bind, wp_update]
            refine (openDynsym_opens hopening₁ hdyn₁ hfull suffix).congr ⟨?_, ?_⟩
            · intro hl
              exact Or.inr ⟨r₃, hrun₃, hl⟩
            · intro hl
              rcases hl with hl | ⟨r₄, hdone, hl⟩
              · exact absurd hl hkept
              · rw [hrun₃] at hdone
                injection hdone with _ hstate
                rw [hstate]
                exact hl

/-- A reader before the file is opened. -/
structure Fresh (r : ExecReader) : Prop where
  closed : r.isOpen = false
  unused : ∀ p, ¬ InUse r p
  empty : r.symtab.head = []

/-- Nothing has been acquired. -/
def unopened : Phase :=
  { isOpen := false, tables := fun _ => .loose, record := none, nodes := .shut, hasStabs := false }

theorem Fresh.at (h : Fresh r) : unopened.At r := by
  refine ⟨h.closed, by simp [unopened], by simp [unopened], ⟨?_, ?_⟩, Or.inr h.empty,
    by simp [unopened]⟩
  · intro p
    refine iff_of_false (h.unused p) ?_
    rintro ⟨o, ho⟩
    cases o <;> simp [Phase.holds, unopened] at ho
  · intro o o' p ho
    cases o <;> simp [Phase.holds, unopened] at ho

theorem goes_refused (fatal : String) (errno : Nat) (args : List Arg) :
    OpenGoes ph (fun _ => ph) (do
      execFatal fatal errno args
      return false) :=
  .bind (keeps_execFatal _ _ _ ph) fun _ => keeps_pure _ ph

theorem goes_checkClass : OpenGoes ph (fun _ => ph) mutExecCheckClass := by
  refine .bind .read fun r => .ite ?_ (keeps_pure _ ph)
  refine .bind (keeps_log (logOnly_begin _ _) ph) fun _ => ?_
  refine .bind (keeps_log (logOnly_arg _) ph) fun _ => ?_
  refine .bind (keeps_log (logOnly_arg _) ph) fun _ => ?_
  exact .bind (keeps_log logOnly_end ph) fun _ => keeps_pure _ ph

/-- The header and the names of the sections are read, or all is given back. -/
def headed (ok : Bool) : Phase :=
  if ok then ({ unopened with isOpen := true } : Phase).withTable .shstrtab .block else unopened

theorem goes_openHeader : OpenGoes unopened headed mutExecOpenHeader := by
  let opened : Phase := { unopened with isOpen := true }
  have hend : ∀ ph₁ : Phase, ph₁ = opened → OpenGoes ph₁ headed couldNotReadHeader := by
    intro ph₁ heq
    rw [heq]
    exact .bind goes_fclose fun _ => .pure fun _ hr => hr
  have hrefused : OpenGoes opened (fun _ => opened) mutExecCheckId :=
    .bind .read fun _ => .ite (goes_refused _ _ _) (keeps_pure _ opened)
  have htype : OpenGoes opened (fun _ => opened) mutExecCheckType :=
    .bind .read fun _ => .ite (goes_refused _ _ _) (keeps_pure _ opened)
  have hstrings : OpenGoes opened (fun ok => opened.withTable .shstrtab (Held.ofOk ok))
      mutExecShstrtabOpen := goes_shstrtabOpen (by simp [opened, unopened]) rfl
  have hloose : opened.withTable .shstrtab .loose = opened := by
    unfold Phase.withTable
    rw [show (Held.loose : Held) = opened.tables .shstrtab from rfl, Function.update_eq_self]
  apply Goes.read.bind
  intro r
  refine .check (goes_fopen rfl) ?_ ?_
  · refine .bind .read fun _ => ?_
    exact .bind (keeps_execFatal _ _ _ unopened) fun _ => .pure fun _ hr => hr
  apply (keeps_execFread _ opened).bind
  intro b
  cases b with
  | none =>
      refine .bind .read fun _ => ?_
      exact .bind (keeps_execFatal _ _ _ opened) fun _ => hend opened rfl
  | some b =>
      refine keeps_then_goes (fun _ =>
        ⟨rfl, fun _ => rfl, fun _ => Iff.rfl, rfl, rfl, fun hs => hs⟩) ?_
      refine .check hrefused (hend opened rfl) ?_
      refine .check goes_checkClass (hend opened rfl) ?_
      refine .check htype (hend opened rfl) ?_
      exact .check hstrings (hend _ hloose) (.pure fun _ hr => hr)

/-- What is held when `mut_exec_open` ends, and when it stops. -/
theorem opens_file (suffix : Option (List Byte)) (h : Fresh r) :
    Opens (NodesLost suffix r) (mutExecOpen suffix) r := by
  refine opens_seq goes_openHeader h.at ?_ ?_
  · rintro ⟨r₁, r₂, hdone, -⟩
    exact ⟨true, r₁, hdone⟩
  intro ok r₁ hrun hr₁
  unfold NodesLost
  rw [hrun]
  cases ok with
  | false => exact ⟨by simp, hr₁.released rfl rfl (by simp [headed, unopened]) rfl⟩
  | true =>
      have hone : (∃ r₁' r₂, (Outcome.done true r₁ : Outcome ExecReader ExecHalt Bool) =
            .done true r₁' ∧ mutExecLocateSections r₁' = .done true r₂ ∧
              LostSymbols suffix r₂) ↔
          ∃ r₂, mutExecLocateSections r₁ = .done true r₂ ∧ LostSymbols suffix r₂ := by simp
      have hsh : (headed true).tables .shstrtab = .block := Phase.withTable_self .block
      have htables : ∀ t, t ≠ .shstrtab → (headed true).tables t ≠ .block := by
        intro t ht
        rw [show (headed true).tables t = unopened.tables t from
          Phase.withTable_other .block ht]
        simp [unopened]
      rw [hone]
      refine opens_seq (goes_locateSections hsh rfl) hr₁ ?_ ?_
      · rintro ⟨r₂, hdone, -⟩
        exact ⟨true, r₂, hdone⟩
      intro located r₂ hrun₂ hr₂
      rw [hrun₂]
      cases located with
      | false =>
          exact (locateSections_ends hr₂ rfl (by simp [hsh]) htables rfl).opens
            (iff_of_true trivial (by simp))
      | true => exact (openSymbols_opens hr₂ rfl hsh htables suffix).congr (by simp)

/-- After a failure nothing is held; after success the file is closed, and closing the
executable gives back the rest.  Each block is freed once and none is used after that, since
either would halt.  But if memory is full in a loop over symbols that has added a node, the
nodes are freed twice. -/
theorem release_exact (suffix : Option (List Byte)) (r : ExecReader) (h : Fresh r)
    (hlog : r.symtab.log.Idle) :
    (∀ ok r', mutExecOpen suffix r = .done ok r' →
      ¬ NodesLost suffix r ∧ if ok then Kept r' else Released r') ∧
    (∀ e, mutExecOpen suffix r = .halt e →
      Malformed e ∧ ¬ NodesLost suffix r ∨ e = .halt .badPointer ∧ NodesLost suffix r) := by
  have hopens := opens_file suffix h
  have hboth := wp_and hopens (goes_execOpen suffix r hlog)
  constructor
  · intro ok r' hrun
    exact (wp_done hboth hrun).1
  · intro e hrun
    obtain ⟨he, hgrammatical⟩ := wp_halted hboth hrun
    have hno : e.ofLog = false := hgrammatical
    rcases he with ⟨hbenign, hl⟩ | he
    · rcases hbenign with hmalformed | hofLog
      · exact Or.inl ⟨hmalformed, hl⟩
      · rw [hno] at hofLog
        exact absurd hofLog (by simp)
    · exact Or.inr he

/-- A file with two functions, whose symbols reach into the first section header. -/
def twoSymbols : List Byte :=
  smallEhdr 4 ++ wantedNames ++ funcRecord 0 8 ++ (funcRecord 0 16 ++ List.replicate 24 0) ++
    smallHeader 9 2 80 32 2 ++ smallHeader 0 3 52 28 0 ++ smallHeader 0 0 0 0 0

/-- Memory is full when the second function is to be added. -/
def fullMemory : ExecReader :=
  { ExecReader.plain twoSymbols with
    symtab := { head := [], log := mutLogOpen, full := [none, none, none, none, some 12],
                leftover := none } }

/-- The node of the first function is freed twice. -/
theorem release_exact_twice :
    (mutExecOpen none fullMemory).reason = some (.halt .badPointer) ∧
      NodesLost none fullMemory := by
  refine ⟨by decide +kernel, ?_⟩
  rcases (release_exact none fullMemory ⟨rfl, by simp [InUse, fullMemory, ExecReader.plain], rfl⟩
    ⟨rfl, rfl, rfl, rfl⟩).2 (.halt .badPointer) (Outcome.of_reason (by decide +kernel)) with
    hno | hlost
  · exact absurd hno.1 (by simp [Malformed])
  · exact hlost.2

end MutTracker.Source.Release
