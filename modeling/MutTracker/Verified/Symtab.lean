import MutTracker.Source.Symtab
import Mathlib.Data.List.Basic

/-!
# What the symbol table keeps of the symbols

The executable's function symbols are added one by one to a list ordered by
address.  `add_fun` keeps one name per address, the first that came: a later
alias is dropped without a word.  `Keeps` says exactly that about a list and
the symbols it was made from, and each addition preserves it.

Looking a name up therefore finds it when one of its symbols came first at
its address.  An executable whose symbol table lists `__libc_malloc` before
`malloc` at one address loses `malloc`, which
`mut_exec_functions_addr` is documented not to do.

## Main results

* `mutExecSymtabAddFun_keeps` — one symbol is added as described.
* `addSymbols_keeps` — and so is a sequence of them.
* `functionsAddr_located_iff` — a name is located as documented exactly when
  its symbols are not all shadowed.
-/

namespace MutTracker.Verified.Symtab

open MutTracker.Source MutTracker.Logic MutTracker.Logic.Prog

/-- A function symbol: its name and its address. -/
abbrev Sym := String × Word

/-- The tracker does not run out of memory. -/
def Roomy (s : Symtab) : Prop := ∀ answer ∈ s.full, answer = none

/-- The functions are in order of their addresses. -/
def Ordered (l : List SymtabFun) : Prop := l.Pairwise fun f g => f.funStartAddr < g.funStartAddr

/-- The list holds a function with this name and address. -/
def Lists (l : List SymtabFun) (s : Sym) : Prop :=
  ∃ f ∈ l, f.funName = s.1 ∧ f.funStartAddr = s.2

/-- The symbol is the first of the sequence at its address. -/
def First (syms : List Sym) (s : Sym) : Prop := syms.find? (fun t => t.2 = s.2) = some s

/-- The list holds the first symbol at every address, in order. -/
structure Keeps (syms : List Sym) (l : List SymtabFun) : Prop where
  ordered : Ordered l
  lists : ∀ s, Lists l s ↔ First syms s

section Lists

variable {l next : List SymtabFun} {f : SymtabFun} {s : Sym}

@[simp] theorem lists_nil : ¬ Lists [] s := by simp [Lists]

theorem lists_cons :
    Lists (f :: l) s ↔ s = (f.funName, f.funStartAddr) ∨ Lists l s := by
  obtain ⟨n, a⟩ := s
  simp only [Lists, List.mem_cons, exists_eq_or_imp, Prod.mk.injEq]
  rw [eq_comm (a := n), eq_comm (a := a)]

/-- Below the first function of an ordered list there is none. -/
theorem not_lists_of_lt (h : Ordered (f :: next)) (ha : s.2 < f.funStartAddr) :
    ¬ Lists (f :: next) s := by
  rintro ⟨g, hg, -, haddr⟩
  rcases List.mem_cons.1 hg with rfl | hg
  · exact absurd (haddr ▸ ha) (BitVec.lt_irrefl _)
  · have hlt := (List.pairwise_cons.1 h).1 g hg
    rw [haddr] at hlt
    exact absurd (BitVec.lt_trans ha hlt) (BitVec.lt_irrefl _)

end Lists

/-! ## Adding a symbol -/

/-- A new node, when there is memory for it. -/
theorem mutExecSymtabFunOpen_spec {s : Symtab} {E : Halt → Prop} (h : Roomy s)
    (n : String) (a : Word) :
    wp (mutExecSymtabFunOpen n a)
      (fun r s' => r = some ⟨n, a, s.leftover, []⟩ ∧ Roomy s' ∧ s'.head = s.head) E s := by
  have hnone : s.full.head?.join = none := by
    cases hfull : s.full with
    | nil => rfl
    | cons answer rest => simp [h answer (by simp [hfull])]
  simp only [mutExecSymtabFunOpen, Symtab.malloc, wp_bind, wp_read, wp_update, wp_pure, hnone]
  exact ⟨trivial, fun answer hmem => h answer (List.mem_of_mem_tail hmem), trivial⟩

/-- The loop puts the symbol in its place, unless its address is taken. -/
theorem mutExecSymtabAddFunFrom_spec {s : Symtab} {E : Halt → Prop} (n : String) (a : Word)
    (l : List SymtabFun) (hroom : Roomy s) (hord : Ordered l) :
    wp (mutExecSymtabAddFunFrom n a l)
      (fun r s' => ∃ l', r = some l' ∧ Roomy s' ∧ Ordered l' ∧
        ∀ t, Lists l' t ↔ Lists l t ∨ t = (n, a) ∧ ∀ m, ¬ Lists l (m, a)) E s := by
  have hopen := mutExecSymtabFunOpen_spec (E := E) hroom n a
  induction l with
  | nil =>
      simp only [mutExecSymtabAddFunFrom, wp_bind]
      refine wp_mono hopen ?_ fun _ he => he
      rintro _ s' ⟨rfl, hroom', -⟩
      refine ⟨_, rfl, hroom', by simp [Ordered], fun t => ?_⟩
      simp [lists_cons]
  | cons f next ih =>
      obtain ⟨hhead, htail⟩ := List.pairwise_cons.1 hord
      unfold mutExecSymtabAddFunFrom
      split
      · rename_i hlt
        simp only [wp_bind]
        refine wp_mono hopen ?_ fun _ he => he
        rintro _ s' ⟨rfl, hroom', -⟩
        refine ⟨_, rfl, hroom', List.pairwise_cons.2 ⟨?_, hord⟩, fun t => ?_⟩
        · intro g hg
          rcases List.mem_cons.1 hg with rfl | hg
          · exact hlt
          · exact BitVec.lt_trans hlt (hhead g hg)
        · have hfree : ∀ m, ¬ Lists (f :: next) (m, a) := fun m => not_lists_of_lt hord hlt
          rw [lists_cons, or_comm]
          simp only [hfree, not_false_eq_true, implies_true, and_true]
      · split
        · rename_i heq
          refine ⟨_, rfl, hroom, hord, fun t => ?_⟩
          have htaken : Lists (f :: next) (f.funName, a) :=
            ⟨f, List.mem_cons_self, rfl, heq.symm⟩
          refine ⟨Or.inl, fun ht => ht.elim id fun hnew => ?_⟩
          exact absurd htaken (hnew.2 f.funName)
        · rename_i hnlt hne
          have hgt : f.funStartAddr < a := by bv_omega
          simp only [wp_bind]
          refine wp_mono (ih htail) ?_ fun _ he => he
          rintro _ s' ⟨l', rfl, hroom', hord', hlists⟩
          refine ⟨_, rfl, hroom', List.pairwise_cons.2 ⟨?_, hord'⟩, fun t => ?_⟩
          · intro g hg
            rcases (hlists (g.funName, g.funStartAddr)).1 ⟨g, hg, rfl, rfl⟩ with
              ⟨k, hk, -, hkaddr⟩ | ⟨hnew, -⟩
            · have hlt := hhead k hk
              rw [hkaddr] at hlt
              exact hlt
            · rw [Prod.mk.injEq] at hnew
              exact hnew.2 ▸ hgt
          · have hother : ∀ m, (m, a) ≠ (f.funName, f.funStartAddr) := fun m hm =>
              hne (Prod.mk.injEq .. ▸ hm).2
            rw [lists_cons, hlists, lists_cons, or_assoc]
            simp only [lists_cons, hother, false_or]

/-- Adding a symbol keeps what the list keeps. -/
theorem mutExecSymtabAddFun_keeps {s : Symtab} {E : Halt → Prop} {syms : List Sym}
    (hroom : Roomy s) (hkeeps : Keeps syms s.head) (t : Sym) :
    wp (mutExecSymtabAddFun t.1 t.2)
      (fun ok s' => ok = true ∧ Roomy s' ∧ Keeps (syms ++ [t]) s'.head) E s := by
  unfold mutExecSymtabAddFun
  simp only [wp_bind, wp_read]
  refine wp_mono (mutExecSymtabAddFunFrom_spec t.1 t.2 s.head hroom hkeeps.ordered) ?_
    fun _ he => he
  rintro _ s' ⟨l', rfl, hroom', hord', hlists⟩
  refine ⟨rfl, hroom', hord', fun u => ?_⟩
  rw [hlists, hkeeps.lists]
  have hfree : (∀ m, ¬ Lists s.head (m, t.2)) ↔ syms.find? (fun v => v.2 = t.2) = none := by
    simp only [hkeeps.lists, First]
    cases hfind : syms.find? (fun v => v.2 = t.2) with
    | none => simp [hfind]
    | some v =>
        have haddr : v.2 = t.2 := by simpa using List.find?_some hfind
        simp only [reduceCtorEq, iff_false, not_forall, not_not]
        exact ⟨v.1, by rw [hfind, ← haddr]⟩
  rw [hfree]
  unfold First
  rw [List.find?_append]
  cases hfind : syms.find? (fun v => v.2 = u.2) with
  | some v =>
      simp only [Option.some.injEq, Option.some_or]
      refine ⟨fun h => h.elim id fun hnew => ?_, Or.inl⟩
      rw [hnew.1] at hfind
      exact absurd hfind (by rw [hnew.2]; simp)
  | none =>
      simp only [reduceCtorEq, false_or, Option.none_or]
      constructor
      · rintro ⟨rfl, -⟩
        simp
      · intro h
        have hmem := List.mem_of_find?_eq_some h
        rw [List.mem_singleton] at hmem
        subst hmem
        exact ⟨rfl, hfind⟩

/-! ## Adding a sequence of symbols -/

/-- Feed the symbols to `mut_exec_symtab_add_fun` in order. -/
def addSymbols : List Sym → SymtabM Bool
  | [] => return true
  | t :: rest => do
      if !(← mutExecSymtabAddFun t.1 t.2) then
        return false
      addSymbols rest

theorem addSymbols_keeps {s : Symtab} {E : Halt → Prop} {before : List Sym}
    (hroom : Roomy s) (hkeeps : Keeps before s.head) (syms : List Sym) :
    wp (addSymbols syms) (fun ok s' => ok = true ∧ Keeps (before ++ syms) s'.head) E s := by
  induction syms generalizing s before with
  | nil => exact ⟨rfl, by rwa [List.append_nil]⟩
  | cons t rest ih =>
      simp only [addSymbols, wp_bind]
      refine wp_mono (mutExecSymtabAddFun_keeps hroom hkeeps t) ?_ fun _ he => he
      rintro _ s' ⟨rfl, hroom', hkeeps'⟩
      have hrest := ih hroom' hkeeps'
      rw [List.append_assoc, List.singleton_append] at hrest
      exact hrest

/-! ## Looking a name up -/

/-- The name lookup finds a listed function of that name, if any. -/
theorem mutExecSymtabLookupName_spec (n : String) (l : List SymtabFun)
    (hnz : ∀ f ∈ l, f.funStartAddr ≠ 0) :
    (mutExecSymtabLookupName n l ≠ 0 ↔ ∃ a, Lists l (n, a)) ∧
      (mutExecSymtabLookupName n l ≠ 0 → Lists l (n, mutExecSymtabLookupName n l)) := by
  induction l with
  | nil => simp [mutExecSymtabLookupName]
  | cons f next ih =>
      have ih := ih fun g hg => hnz g (List.mem_cons_of_mem f hg)
      unfold mutExecSymtabLookupName
      by_cases hn : n = f.funName
      · rw [if_pos hn]
        have hlists : Lists (f :: next) (n, f.funStartAddr) :=
          lists_cons.2 (.inl (by rw [hn]))
        exact ⟨⟨fun _ => ⟨_, hlists⟩, fun _ => hnz f List.mem_cons_self⟩, fun _ => hlists⟩
      · rw [if_neg hn]
        refine ⟨ih.1.trans ⟨fun ⟨a, ha⟩ => ⟨a, lists_cons.2 (.inr ha)⟩, ?_⟩,
          fun h => lists_cons.2 (.inr (ih.2 h))⟩
        rintro ⟨a, ha⟩
        rcases lists_cons.1 ha with heq | ha
        · exact absurd (Prod.mk.inj heq).1 hn
        · exact ⟨a, ha⟩

/-- What `mut_exec_functions_addr` is documented to answer for a name: its
flag says whether the executable has such a function, and its address is one's. -/
def Located (syms : List Sym) (f : ExecFunction) : Prop :=
  (f.flags = true ↔ ∃ a, (f.name, a) ∈ syms) ∧ (f.flags = true → (f.name, f.addr) ∈ syms)

/-- If the executable has a function of this name, one of the name's symbols
is the first at its address. -/
def Unshadowed (syms : List Sym) (name : String) : Prop :=
  (∃ a, (name, a) ∈ syms) → ∃ a, First syms (name, a)

/-- A name is located as documented exactly when aliases do not shadow it. -/
theorem functionsAddr_located_iff (s : Symtab) (syms : List Sym) (hroom : Roomy s)
    (hempty : s.head = []) (hnz : ∀ t ∈ syms, t.2 ≠ 0) :
    ∃ s', addSymbols syms s = .done true s' ∧
      ∀ hasFullSymbols names,
        ∀ f ∈ mutExecFunctionsAddr ⟨s'.head, hasFullSymbols⟩ names,
          Located syms f ↔ Unshadowed syms f.name := by
  have hkeeps : Keeps [] s.head := by
    rw [hempty]
    exact ⟨List.Pairwise.nil, fun t => by simp [First]⟩
  obtain ⟨ok, s', hrun, rfl, hkeeps'⟩ :=
    wp_returns (addSymbols_keeps (E := fun _ => False) hroom hkeeps syms) fun _ => id
  refine ⟨s', hrun, fun _ names f hf => ?_⟩
  rw [List.nil_append] at hkeeps'
  have hmem : ∀ t, First syms t → t ∈ syms := fun t ht => List.mem_of_find?_eq_some ht
  have hnz' : ∀ g ∈ s'.head, g.funStartAddr ≠ 0 := fun g hg =>
    hnz (g.funName, g.funStartAddr) (hmem _ ((hkeeps'.lists _).1 ⟨g, hg, rfl, rfl⟩))
  obtain ⟨name, -, rfl⟩ := List.mem_map.1 hf
  obtain ⟨hiff, haddr⟩ := mutExecSymtabLookupName_spec name s'.head hnz'
  simp only [Located, Unshadowed, bne_iff_ne]
  rw [hiff]
  simp only [hkeeps'.lists] at hiff haddr ⊢
  constructor
  · rintro ⟨hflag, -⟩ hex
    exact hflag.2 hex
  · intro h
    refine ⟨⟨fun ⟨a, ha⟩ => ⟨a, hmem _ ha⟩, h⟩, fun hex => hmem _ (haddr (hiff.2 hex))⟩

/-- The symbols of one function, with `malloc` not the first. -/
def aliases : List Sym := [("__libc_malloc", 0x1000), ("malloc", 0x1000), ("main", 0x2000)]

/-- An empty symbol table with memory to spare. -/
def emptySymtab : Symtab := { head := [], log := mutLogOpen, full := [], leftover := none }

theorem functionsAddr_located_iff_aliases :
    ∃ s', addSymbols aliases emptySymtab = .done true s' ∧
      ∀ hasFullSymbols names,
        ∀ f ∈ mutExecFunctionsAddr ⟨s'.head, hasFullSymbols⟩ names,
          Located aliases f ↔ Unshadowed aliases f.name :=
  functionsAddr_located_iff emptySymtab aliases (fun _ h => nomatch h) rfl (by decide)

/-- The executable has a `malloc`, and looking for it finds none. -/
theorem malloc_lost :
    ("malloc", (0x1000 : Word)) ∈ aliases ∧
      ∃ s', addSymbols aliases emptySymtab = .done true s' ∧
        ∃ f ∈ mutExecFunctionsAddr ⟨s'.head, true⟩ ["malloc"],
          f.name = "malloc" ∧ ¬ Located aliases f := by
  refine ⟨by decide, _, rfl, _, List.mem_singleton.2 rfl, rfl, fun h => ?_⟩
  exact absurd (h.1.2 ⟨0x1000, by decide⟩) (by decide)

end MutTracker.Verified.Symtab
