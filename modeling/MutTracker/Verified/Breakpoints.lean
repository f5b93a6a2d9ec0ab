import MutTracker.Verified.Runs

/-!
# Breakpoints

A breakpoint is a whole word written over the text, and what it covers is kept
in its action.  `mut_manage_actions` sets the breakpoints in one order, every later
installation in the opposite one, and removal puts the words back in that same
opposite order.  None of this matters when no two of the words share a byte:
then every removal gives the text back, and every installation covers it again.

## Main results

* `mutInstallActionBreakpointsOf_effect`, `mutRemoveActionBreakpointsOf_effect`,
  `mutManageActions_spec` — what each does to the text and the actions.
* `transparent_iff` — the text comes back in every round exactly when the words
  at the actions are apart.
-/

namespace MutTracker.Source

open MutTracker.Logic MutTracker.Logic.Prog MutTracker.Logic.Memory

variable {flags : Control} {m m' m₀ : Mut} {a : Routine} {as : List Routine} {x₀ : Memory}

/-- The text of the traced program. -/
abbrev Mut.text (m : Mut) : Memory := m.process.kernel.text

/-- Where the function of an action begins. -/
abbrev Mut.addr (m : Mut) (a : Routine) : Word := (m.actions a).addr

/-- No two of the words at the actions share a byte. -/
abbrev Mut.AllApart (m : Mut) (as : List Routine) : Prop := (as.map m.addr).Pairwise Apart

/-- The text with a breakpoint at each of the actions. -/
def Mut.covered (m : Mut) (x₀ : Memory) (as : List Routine) : Memory :=
  cover x₀ mutInstrBp (as.map m.addr)

/-- Each of the actions has saved the word of the text that its breakpoint covers. -/
def Mut.Saved (m : Mut) (x₀ : Memory) (as : List Routine) : Prop :=
  ∀ a ∈ as, (m.actions a).instr = x₀.readWord (m.addr a)

/-! ## What a round of breakpoints leaves alone -/

/-- From `m` to `m'` only the text, the log, the kernel's answers and the saved
words may change. -/
structure Replanted (m m' : Mut) : Prop where
  stopped : m'.Stopped
  pc : m'.process.pc = m.process.pc
  resumed : m'.process.resumed = m.process.resumed
  waits : m'.process.kernel.waits = m.process.kernel.waits
  target : m'.target = m.target
  exec : m'.exec = m.exec
  root : m'.root = m.root
  resources : m'.resources = m.resources
  stats : m'.stats = m.stats
  mem : m'.mem = m.mem
  actions : ∀ a, m'.actions a = { m.actions a with instr := (m'.actions a).instr }

theorem Replanted.refl (hp : m.Stopped) : Replanted m m :=
  ⟨hp, rfl, rfl, rfl, rfl, rfl, rfl, rfl, rfl, rfl, fun _ => rfl⟩

theorem Replanted.trans {m'' : Mut} (h : Replanted m m') (h' : Replanted m' m'') :
    Replanted m m'' where
  stopped := h'.stopped
  pc := h'.pc.trans h.pc
  resumed := h'.resumed.trans h.resumed
  waits := h'.waits.trans h.waits
  target := h'.target.trans h.target
  exec := h'.exec.trans h.exec
  root := h'.root.trans h.root
  resources := h'.resources.trans h.resources
  stats := h'.stats.trans h.stats
  mem := h'.mem.trans h.mem
  actions a := by rw [h'.actions a, h.actions a]

theorem Replanted.of_process {q : Process} (hstatus : q.status = .stopped)
    (hpc : q.pc = m.process.pc) (hresumed : q.resumed = m.process.resumed)
    (hwaits : q.kernel.waits = m.process.kernel.waits)
    (htarget : q.kernel.target = m.target) : Replanted m { m with process := q } :=
  ⟨hstatus, hpc, hresumed, hwaits, htarget, rfl, rfl, rfl, rfl, rfl, fun _ => rfl⟩

/-- The saved word of an action is replaced. -/
theorem Replanted.save (h : Replanted m m') (a : Routine) (instr : Word) :
    Replanted m
      { m' with actions := Function.update m'.actions a { m'.actions a with instr } } where
  stopped := h.stopped
  pc := h.pc
  resumed := h.resumed
  waits := h.waits
  target := h.target
  exec := h.exec
  root := h.root
  resources := h.resources
  stats := h.stats
  mem := h.mem
  actions c := by
    show Function.update m'.actions a _ c = _
    by_cases hc : c = a
    · subst hc
      simp only [Function.update_self]
      rw [h.actions c]
    · simp only [Function.update_of_ne hc]
      exact h.actions c

theorem Replanted.addr (h : Replanted m m') : m'.addr = m.addr := by
  funext a
  show (m'.actions a).addr = _
  rw [h.actions a]

theorem Replanted.covered (h : Replanted m m') (x₀ : Memory) (as : List Routine) :
    m'.covered x₀ as = m.covered x₀ as := by
  rw [Mut.covered, Mut.covered, h.addr]

theorem Replanted.type (h : Replanted m m') (a : Routine) :
    (m'.actions a).type = (m.actions a).type := by rw [h.actions a]

/-! ## Removing -/

/-- The word of the first action is put back: the others stay covered. -/
theorem covered_restore (hapart : m.AllApart (a :: as)) :
    (m.covered x₀ (a :: as)).writeWord (m.addr a) (x₀.readWord (m.addr a)) =
      m.covered x₀ as := by
  have hhead : ∀ b ∈ as.map m.addr, Apart b (m.addr a) := fun b hb =>
    ((List.pairwise_cons.1 hapart).1 b hb).symm
  rw [Mut.covered, List.map_cons, cover_cons, writeWord_writeWord_self, writeWord_cover hhead,
    writeWord_readWord, Mut.covered]

theorem mutRemoveActionBreakpointsOf_effect (as : List Routine) (hp : m.Stopped) :
    wp (mutRemoveActionBreakpointsOf as)
      (fun ok m' => (∃ q, m' = { m with process := q }) ∧ Replanted m m' ∧
        (ok = true → m'.process.log = m.process.log ∧
          ∀ x₀, m.AllApart as → m.Saved x₀ as → m.text = m.covered x₀ as → m'.text = x₀))
      Orderly m := by
  induction as generalizing m with
  | nil =>
      exact ⟨⟨m.process, rfl⟩, .refl hp, fun _ => ⟨rfl, fun x₀ _ _ (htext : m.text = x₀) => htext⟩⟩
  | cons a as ih =>
      simp only [mutRemoveActionBreakpointsOf, wp_bind, wp_read, wp_liftProcess]
      refine wp_mono (mutProcessRestore_effect hp _ _) ?_ fun _ he => he
      intro ok q hq
      have hreplanted : Replanted m { m with process := q } :=
        .of_process hq.status hq.pc hq.resumed hq.waits hq.target
      cases ok with
      | false => exact ⟨⟨q, rfl⟩, hreplanted, by simp⟩
      | true =>
          refine wp_mono (ih (m := { m with process := q }) hq.status) ?_ fun _ he => he
          rintro ok m' ⟨⟨q', heq⟩, h', hdone⟩
          refine ⟨⟨q', heq⟩, hreplanted.trans h', fun hok =>
            ⟨(hdone hok).1.trans (hq.log rfl), fun x₀ hapart hsaved htext => ?_⟩⟩
          refine (hdone hok).2 x₀ (List.pairwise_cons.1 hapart).2
            (fun c hc => hsaved c (List.mem_cons_of_mem a hc)) ?_
          show q.kernel.text = m.covered x₀ as
          rw [hq.text rfl, show m.process.kernel.text = _ from htext,
            hsaved a List.mem_cons_self]
          exact covered_restore hapart

/-! ## Installing -/

theorem mutInstallActionBreakpointsOf_effect (as : List Routine) (hp : m.Stopped) :
    wp (mutInstallActionBreakpointsOf as)
      (fun ok m' => Replanted m m' ∧ (∀ c, c ∉ as → m'.actions c = m.actions c) ∧
        (ok = true → m'.process.log = m.process.log ∧ (m.AllApart as →
          m'.text = m.covered m.text as ∧ m'.Saved m.text as))) Orderly m := by
  induction as generalizing m with
  | nil =>
      exact ⟨.refl hp, fun _ _ => rfl, fun _ => ⟨rfl, fun _ =>
        ⟨rfl, fun c hc => absurd hc List.not_mem_nil⟩⟩⟩
  | cons a as ih =>
      simp only [mutInstallActionBreakpointsOf, wp_bind, wp_read, wp_liftProcess]
      refine wp_mono (mutProcessBreakpoint_effect hp _) ?_ fun _ he => he
      intro r q hq
      have hreplanted : Replanted m { m with process := q } :=
        .of_process hq.status hq.pc hq.resumed hq.waits hq.target
      cases r with
      | none =>
          exact ⟨hreplanted, fun _ _ => rfl, by simp⟩
      | some instr =>
          simp only [Mut.setAction, wp_bind, wp_update]
          have h₁ := hreplanted.save a instr
          refine wp_mono (ih h₁.stopped) ?_ fun _ he => he
          rintro ok m' ⟨h', hothers, hdone⟩
          have hlog : q.log = m.process.log := hq.log rfl
          refine ⟨h₁.trans h', fun c hc => ?_, fun hok =>
            ⟨(hdone hok).1.trans hlog, fun hapart => ?_⟩⟩
          · have hca : c ≠ a := fun h => hc (h ▸ List.mem_cons_self)
            rw [hothers c fun h => hc (List.mem_cons_of_mem a h)]
            show Function.update m.actions a _ c = _
            rw [Function.update_of_ne hca]
          · have hhead : ∀ b ∈ as.map m.addr, Apart (m.addr a) b :=
              (List.pairwise_cons.1 hapart).1
            have htext : q.kernel.text = m.text.writeWord (m.addr a) mutInstrBp := hq.text rfl
            have haddr : ({ m with process := q, actions := _ } : Mut).addr = m.addr := h₁.addr
            obtain ⟨htext', hsaved⟩ := (hdone hok).2 (by
              show (as.map _).Pairwise Apart
              rw [haddr]
              exact (List.pairwise_cons.1 hapart).2)
            rw [h₁.covered] at htext'
            refine ⟨?_, fun c hc => ?_⟩
            · rw [htext']
              show m.covered q.kernel.text as = _
              rw [htext, Mut.covered, Mut.covered, List.map_cons, cover_cons]
              exact (writeWord_cover fun b hb => (hhead b hb).symm).symm
            · rw [(h₁.trans h').addr]
              rcases List.mem_cons.1 hc with rfl | hc
              · have hnew : c ∉ as := fun hmem =>
                  Apart.irrefl (hhead _ (List.mem_map_of_mem hmem))
                rw [hothers c hnew]
                show (Function.update m.actions c _ c).instr = _
                rw [Function.update_self]
                exact hq.saved instr rfl
              · have hword := hsaved c hc
                rw [h'.addr, h₁.addr] at hword
                rw [hword]
                show q.kernel.text.readWord _ = _
                rw [htext]
                exact readWord_writeWord_apart (hhead _ (List.mem_map_of_mem hc))

/-! ## Setting the breakpoints first -/

/-- Each of the actions has saved the word that its breakpoint covers, where the
breakpoints of the later ones in the list were set before it. -/
def Mut.Saves (m : Mut) (x₀ : Memory) : List Routine → Prop
  | [] => True
  | a :: as =>
      (m.actions a).instr = (m.covered x₀ as).readWord (m.addr a) ∧ m.Saves x₀ as

/-- When the words are apart, what was set before does not matter. -/
theorem Mut.Saves.saved (h : m.Saves x₀ as) (hapart : m.AllApart as) : m.Saved x₀ as := by
  induction as with
  | nil => exact nofun
  | cons a as ih =>
      have hhead := (List.pairwise_cons.1 hapart).1
      intro c hc
      rcases List.mem_cons.1 hc with rfl | hc
      · rw [h.1]
        exact readWord_cover fun b hb => (hhead b hb).symm
      · exact ih h.2 (List.pairwise_cons.1 hapart).2 c hc

/-- In a text of no breakpoint's bytes, only words apart are saved as they were. -/
theorem Mut.Saves.allApart (h : m.Saves (fun _ => 0xff) as)
    (hsaved : m.Saved (fun _ => 0xff) as) : m.AllApart as := by
  induction as with
  | nil => exact .nil
  | cons a as ih =>
      refine .cons ?_ (ih h.2 fun c hc => hsaved c (List.mem_cons_of_mem a hc))
      intro b hb
      apply Classical.byContradiction
      intro hnot
      obtain ⟨x, hxa, hxb⟩ := exists_within_of_not_apart hnot
      have hword := h.1.symm.trans (hsaved a List.mem_cons_self)
      have hbyte := readWord_eq_iff_within.1 hword x hxa
      obtain ⟨i, hi, hcovered⟩ :=
        cover_within (m := fun _ => 0xff) (v := mutInstrBp) ⟨b, hb, hxb⟩
      rw [Mut.covered, hcovered] at hbyte
      have hnone : ∀ i, i < 4 → byteAt mutInstrBp i ≠ 0xff := by decide
      exact hnone i hi hbyte

/-- Actions that are not listed do not matter. -/
theorem covered_congr (h : ∀ c ∈ as, m'.actions c = m.actions c) :
    m'.covered x₀ as = m.covered x₀ as := by
  have haddr : as.map m'.addr = as.map m.addr :=
    List.map_congr_left fun c hc => by rw [Mut.addr, h c hc]
  rw [Mut.covered, Mut.covered, haddr]

theorem Mut.Saves.congr (h : ∀ c ∈ as, m'.actions c = m.actions c) (hs : m.Saves x₀ as) :
    m'.Saves x₀ as := by
  induction as with
  | nil => trivial
  | cons a as ih =>
      have htail : ∀ c ∈ as, m'.actions c = m.actions c := fun c hc =>
        h c (List.mem_cons_of_mem a hc)
      refine ⟨?_, ih htail hs.2⟩
      rw [covered_congr htail, Mut.addr, h a List.mem_cons_self]
      exact hs.1

/-- The addresses in the action map once that of a function is entered. -/
def ExecFunction.entered (f : ExecFunction) (addrs : List Word) : List Word :=
  if f.flags = true ∧ f.addr ∉ addrs then f.addr :: addrs else addrs

/-- The addresses of the actions in the map. -/
def Mut.addrs (m : Mut) : List Word := m.root.map m.addr

/-- The tracker in the middle of `mut_manage_actions`, which `p` began. -/
structure Managing (p : Process) (x₀ : Memory) (m : Mut) : Prop where
  calm : ∃ rs, Calm p rs p.kernel.target (m.covered x₀ m.root) m.process
  typed : Typed m
  saves : m.Saves x₀ m.root

/-- The action `a` was managed for the function `f`. -/
structure Managed (p : Process) (x₀ : Memory) (m : Mut) (a : Routine) (f : ExecFunction)
    (m' : Mut) : Prop where
  managing : Managing p x₀ m'
  exec : m'.exec = m.exec
  addrs : m'.addrs = f.entered m.addrs
  listed : ∀ c ∈ m'.root, c = a ∨ c ∈ m.root

section Managing

variable {p : Process} {E : Halt → Prop} {f : ExecFunction}

/-- An action that is not in the map is assigned to. -/
theorem Managing.setAction (h : Managing p x₀ m) (ha : a ∉ m.root) (v : Action) :
    Managing p x₀ { m with actions := Function.update m.actions a v } ∧
      ({ m with actions := Function.update m.actions a v } : Mut).addrs = m.addrs := by
  have hothers : ∀ c ∈ m.root, Function.update m.actions a v c = m.actions c := fun c hc =>
    Function.update_of_ne (fun heq : c = a => ha (heq ▸ hc)) v m.actions
  refine ⟨⟨?_, fun c hc => ?_, h.saves.congr hothers⟩, ?_⟩
  · obtain ⟨rs, hcalm⟩ := h.calm
    refine ⟨rs, ?_⟩
    rw [covered_congr (m := m) hothers]
    exact hcalm
  · show (Function.update m.actions a v c).type = _
    rw [hothers c hc]
    exact h.typed c hc
  · exact List.map_congr_left fun c hc => congrArg Action.addr (hothers c hc)

/-- An action that is not in the map is entered, unless its address is there. -/
theorem mutActionsEnter_spec (ha : a ∉ m.root) :
    wp (mutActionsEnter a) (fun oa m' =>
      (oa ≠ a ∧ m.addr a ∈ m.addrs ∧ m' = m) ∨
        (oa = a ∧ m.addr a ∉ m.addrs ∧ m' = { m with root := a :: m.root })) E m := by
  simp only [mutActionsEnter, wp_bind, wp_read]
  cases hfind : m.root.find? fun c => (m.actions c).addr = (m.actions a).addr with
  | some c =>
      have hmem := List.mem_of_find?_eq_some hfind
      have hsame : m.addr c = m.addr a := by simpa using List.find?_some hfind
      exact .inl ⟨fun h => ha (h ▸ hmem), List.mem_map.2 ⟨c, hmem, hsame⟩, rfl⟩
  | none =>
      refine .inr ⟨rfl, fun hmem => ?_, rfl⟩
      obtain ⟨c, hc, hsame⟩ := List.mem_map.1 hmem
      have hnot := List.find?_eq_none.1 hfind c hc
      simp only [decide_eq_true_eq] at hnot
      exact hnot hsame

/-- A breakpoint is set at an action that is entered into the map. -/
theorem Managing.enter (h : Managing p x₀ m) (htype : (m.actions a).type = a.type)
    (hroot : m'.root = a :: m.root) (hothers : ∀ c ∈ m.root, m'.actions c = m.actions c)
    (hself : m'.actions a =
      { m.actions a with instr := (m.covered x₀ m.root).readWord (m.addr a) })
    {rs : List Report} (hq : Calm p rs p.kernel.target
      ((m.covered x₀ m.root).writeWord (m.addr a) mutInstrBp) m'.process) :
    Managing p x₀ m' := by
  have haddr : m'.addr a = m.addr a := by rw [Mut.addr, hself]
  have hcovered : m'.covered x₀ m.root = m.covered x₀ m.root := covered_congr hothers
  have htext : m'.covered x₀ m'.root =
      (m.covered x₀ m.root).writeWord (m.addr a) mutInstrBp := by
    rw [hroot, ← hcovered, ← haddr]
    rfl
  refine ⟨⟨rs, htext ▸ hq⟩, fun c hc => ?_, ?_⟩
  · rw [hroot] at hc
    rcases List.mem_cons.1 hc with rfl | hc
    · rw [hself]
      exact htype
    · rw [hothers c hc]
      exact h.typed c hc
  · rw [hroot]
    refine ⟨?_, h.saves.congr hothers⟩
    rw [hcovered, haddr, hself]

theorem mutManageAction_spec (h : Managing p x₀ m) (ha : a ∉ m.root)
    (htype : (m.actions a).type = a.type) (f : ExecFunction) :
    wp (mutManageAction a f) (fun ok m' => (ok = true ∧ Managed p x₀ m a f m') ∨
      (ok = false ∧ p.Faulted m'.process)) E m := by
  unfold mutManageAction
  simp only [Mut.setAction, wp_bind, wp_update, wp_ite]
  by_cases hflags : f.flags = true
  · rw [if_neg (by simpa using hflags)]
    simp only [Function.update_self, Function.update_idem]
    obtain ⟨h₁, haddrs⟩ := h.setAction ha { m.actions a with hits := 0, addr := f.addr }
    generalize hm₁ : ({ m with actions := Function.update m.actions a _ } : Mut) = m₁ at h₁ haddrs
    have hroot : m₁.root = m.root := by rw [← hm₁]
    have hexec : m₁.exec = m.exec := by rw [← hm₁]
    have hself : m₁.actions a = { m.actions a with hits := 0, addr := f.addr } := by
      rw [← hm₁]
      exact Function.update_self ..
    have haddr : m₁.addr a = f.addr := by rw [Mut.addr, hself]
    obtain ⟨rs, hcalm⟩ := h₁.calm
    refine wp_mono (mutActionsEnter_spec (hroot ▸ ha)) ?_ fun _ he => he
    rintro oa m₂ (⟨hne, hlisted, rfl⟩ | ⟨rfl, hfresh, rfl⟩)
    · rw [if_pos hne]
      simp only [wp_read, wp_liftLogMut, mutLogInfo, mutLogString, mutLogExecAddr,
        wp_mutLogBegin hcalm.idle, wp_mutLogArg, wp_mutLogEnd, wp_pure]
      refine .inl ⟨trivial, ?_, hexec, ?_, fun c hc => .inr (hroot ▸ hc)⟩
      · exact ⟨⟨_, hcalm.say _⟩, h₁.typed, h₁.saves.congr (by intro _ _; rfl)⟩
      · show m₂.addrs = _
        rw [haddrs, ExecFunction.entered, if_neg fun h => h.2 (haddr ▸ haddrs ▸ hlisted)]
    · rw [if_neg (fun h => h rfl)]
      simp only [wp_read, wp_liftProcess]
      refine wp_mono (mutProcessBreakpoint_spec hcalm _) ?_ fun _ he => he
      rintro _ q (⟨rfl, hq⟩ | ⟨rfl, hfault⟩)
      · have hothers : ∀ v : Action, ∀ c ∈ m₁.root, Function.update m₁.actions oa v c =
            m₁.actions c := fun v c hc =>
          Function.update_of_ne (fun heq : c = oa => ha (hroot ▸ heq ▸ hc)) v m₁.actions
        refine .inl ⟨rfl, ?_, hexec, ?_, fun c hc => ?_⟩
        · exact h₁.enter (by rw [hself]; exact htype) rfl (hothers _)
            (Function.update_self ..) hq
        · rw [ExecFunction.entered, if_pos ⟨hflags, haddr ▸ haddrs ▸ hfresh⟩, ← haddrs, ← haddr]
          refine congrArg₂ List.cons ?_ (List.map_congr_left fun c hc => ?_)
          · show (Function.update m₁.actions oa _ oa).addr = _
            rw [Function.update_self]
          · exact congrArg Action.addr (hothers _ c hc)
        · exact (List.mem_cons.1 hc).imp_right fun hc => hroot ▸ hc
      · exact .inr ⟨rfl, hfault⟩
  · rw [if_pos (by simpa using hflags)]
    obtain ⟨h₁, haddrs⟩ := h.setAction ha { m.actions a with hits := 0 }
    refine .inl ⟨rfl, h₁, rfl, ?_, fun c hc => .inr hc⟩
    rw [haddrs, ExecFunction.entered, if_neg fun h => hflags h.1]

theorem mutManageEach_spec (rs : List (Routine × ExecFunction)) (h : Managing p x₀ m)
    (hnew : ∀ r ∈ rs, r.1 ∉ m.root) (hnodup : (rs.map Prod.fst).Nodup) :
    wp (mutManageEach rs) (fun ok m' =>
      (ok = true ∧ Managing p x₀ m' ∧ m'.exec = m.exec ∧
        m'.addrs = (rs.map Prod.snd).foldl (fun addrs f => f.entered addrs) m.addrs) ∨
      (ok = false ∧ p.Faulted m'.process)) E m := by
  induction rs generalizing m with
  | nil => exact .inl ⟨rfl, h, rfl, rfl⟩
  | cons r rs ih =>
      obtain ⟨a, f⟩ := r
      have ha : a ∉ m.root := hnew (a, f) List.mem_cons_self
      obtain ⟨h₁, haddrs₁⟩ := h.setAction ha { m.actions a with type := a.type }
      obtain ⟨hfirst, hrest⟩ := List.nodup_cons.1 hnodup
      simp only [mutManageEach, Mut.setAction, wp_bind, wp_update]
      have htype : (Function.update m.actions a { m.actions a with type := a.type } a).type =
          a.type := by rw [Function.update_self]
      refine wp_mono (mutManageAction_spec h₁ ha htype f) ?_ fun _ he => he
      rintro _ m₂ (⟨rfl, h₂⟩ | ⟨rfl, hfault⟩)
      · refine wp_mono (ih h₂.managing (fun r hr hmem => ?_) hrest) ?_ fun _ he => he
        · rcases h₂.listed r.1 hmem with heq | hmem
          · exact hfirst (List.mem_map.2 ⟨r, hr, heq⟩)
          · exact hnew r (List.mem_cons_of_mem _ hr) hmem
        · rintro ok m' (⟨rfl, h', hexec, haddrs⟩ | ⟨rfl, hfault⟩)
          · refine .inl ⟨rfl, h', hexec.trans h₂.exec, ?_⟩
            rw [haddrs, h₂.addrs, haddrs₁]
            rfl
          · exact .inr ⟨rfl, hfault⟩
      · exact .inr ⟨rfl, hfault⟩

/-- The addresses at which `mut_manage_actions` sets breakpoints, the latest first. -/
def managed (exec : Exec) (usageFunction : Option String) : List Word :=
  (mutExecFunctionsAddr exec ((mutRoutines usageFunction).map Prod.snd)).foldl
    (fun addrs f => f.entered addrs) []

theorem nodup_mutRoutines (usageFunction : Option String) :
    ((mutRoutines usageFunction).map Prod.fst).Nodup := by
  cases usageFunction with
  | none => decide
  | some name => simp [mutRoutines]

/-- `mut_manage_actions` at a stopped process with no action in the map yet. -/
theorem mutManageActions_spec (usageFunction : Option String) (hp : m.Stopped)
    (hidle : m.process.log.Idle) (hroot : m.root = []) :
    wp (mutManageActions usageFunction) (fun ok m' =>
      (ok = true ∧ Managing m.process m.text m' ∧ m'.exec = m.exec ∧
        m'.addrs = managed m.exec usageFunction) ∨
      (ok = false ∧ m.process.Faulted m'.process)) E m := by
  simp only [mutManageActions, wp_bind, wp_update, wp_read]
  have hlen : ((mutRoutines usageFunction).map Prod.fst).length =
      (mutExecFunctionsAddr m.exec ((mutRoutines usageFunction).map Prod.snd)).length := by
    simp only [mutExecFunctionsAddr, List.length_map]
  generalize hm₁ : ({ m with actions := _ } : Mut) = m₁
  have hroot₁ : m₁.root = [] := by rw [← hm₁]; exact hroot
  have hmanaging : Managing m.process m.text m₁ := by
    have hprocess : m₁.process = m.process := by rw [← hm₁]
    refine ⟨⟨[], ?_⟩, ?_, ?_⟩
    · rw [hroot₁, hprocess]
      exact .refl hp hidle
    · rw [Typed, hroot₁]
      simp
    · rw [hroot₁]
      trivial
  refine wp_mono (mutManageEach_spec _ hmanaging ?_ ?_) ?_ fun _ he => he
  · intro r _
    rw [hroot₁]
    exact List.not_mem_nil
  · rw [List.map_fst_zip (Nat.le_of_eq hlen)]
    exact nodup_mutRoutines usageFunction
  · rintro ok m' (⟨rfl, h', hexec, haddrs⟩ | hfailed)
    · have hexec₁ : m₁.exec = m.exec := by rw [← hm₁]
      refine .inl ⟨rfl, h', hexec.trans hexec₁, ?_⟩
      rw [haddrs, List.map_snd_zip (Nat.le_of_eq hlen.symm), Mut.addrs, hroot₁]
      rfl
    · exact .inr hfailed

end Managing

/-! ## Rounds -/

/-- Where a round of `mut_run` stands: the breakpoints are set, or the handler has
the process. -/
inductive Stage where
  | installed
  | removed

/-- What `mut_run` does from one stage to the next. -/
inductive Turn where
  | run
  | remove
  | handle (a : Routine)
  | install

inductive Turns (flags : Control) : Stage × Mut → Turn → Stage × Mut → Prop
  | run {m : Mut} {p q : Process} {pc : Word} :
      mutProcessResume m.process = .done true p → mutProcessWait p = .done (.stopped pc) q →
      Turns flags (.installed, m) .run (.installed, { m with process := q })
  | remove {m m' : Mut} :
      mutRemoveActionBreakpoints m = .done true m' →
      Turns flags (.installed, m) .remove (.removed, m')
  | handle {m m' : Mut} {a : Routine} :
      a ∈ m.root → mutHandle flags a m = .done true m' →
      Turns flags (.removed, m) (.handle a) (.removed, m')
  | install {m m' : Mut} :
      mutInstallActionBreakpoints m = .done true m' →
      Turns flags (.removed, m) .install (.installed, m')

/-- What the traced program and the action map are to look like, when its text
is `x₀`. -/
def Mut.Transparent (m : Mut) (x₀ : Memory) : Stage → Prop
  | .removed => m.text = x₀
  | .installed =>
      (∀ a ∈ m.root, m.text (m.addr a) = 0xcc ∧ (m.actions a).instr = x₀.readWord (m.addr a)) ∧
        ∀ x, (∀ a ∈ m.root, ¬ Memory.Within x (m.addr a)) → m.text x = x₀ x

/-- The invariant of the rounds when the words at the actions are apart. -/
structure Tidy (x₀ : Memory) (s : Stage × Mut) : Prop where
  stopped : s.2.Stopped
  typed : Typed s.2
  apart : s.2.AllApart s.2.root
  removed : s.1 = .removed → s.2.text = x₀
  installed : s.1 = .installed →
    s.2.text = s.2.covered x₀ s.2.root ∧ s.2.Saved x₀ s.2.root

theorem Tidy.transparent {s : Stage × Mut} (h : Tidy x₀ s) : s.2.Transparent x₀ s.1 := by
  obtain ⟨stage, m⟩ := s
  cases stage with
  | removed => exact h.removed rfl
  | installed =>
      obtain ⟨htext, hsaved⟩ := h.installed rfl
      refine ⟨fun a ha => ⟨?_, hsaved a ha⟩, fun x hx => ?_⟩
      · have hword : m.text.readWord (m.addr a) = mutInstrBp := by
          rw [show m.text = _ from htext]
          exact readWord_cover_self h.apart (List.mem_map_of_mem ha)
        have hself : Memory.Within (m.addr a) (m.addr a) := by
          show (m.addr a - m.addr a).toNat < 4
          rw [BitVec.sub_self]
          decide
        rw [← byteAt_readWord (m := m.text) hself, hword, BitVec.sub_self]
        rfl
      · rw [show m.text = _ from htext]
        refine cover_without fun b hb => ?_
        obtain ⟨a, ha, rfl⟩ := List.mem_map.1 hb
        exact hx a ha

/-- What is kept of the actions when their addresses and types are. -/
theorem Tidy.moved {stage stage' : Stage} (h : Tidy x₀ (stage, m)) (hp : m'.Stopped)
    (hroot : m'.root = m.root) (haddr : m'.addr = m.addr)
    (htype : ∀ a, (m'.actions a).type = (m.actions a).type)
    (hremoved : stage' = .removed → m'.text = x₀)
    (hinstalled : stage' = .installed →
      m'.text = m.covered x₀ m.root ∧ m'.Saved x₀ m.root) : Tidy x₀ (stage', m') where
  stopped := hp
  typed a ha := by
    rw [htype a]
    exact h.typed a (hroot ▸ ha)
  apart := by
    show (m'.root.map m'.addr).Pairwise Apart
    rw [hroot, haddr]
    exact h.apart
  removed := hremoved
  installed hs := by
    show m'.text = cover x₀ mutInstrBp (m'.root.map m'.addr) ∧ m'.Saved x₀ m'.root
    rw [hroot, haddr]
    exact hinstalled hs

theorem Turns.tidy {s s' : Stage × Mut} {l : Turn} (hs : Turns flags s l s')
    (h : Tidy x₀ s) : Tidy x₀ s' := by
  cases hs with
  | @run m p q pc hresume hwait =>
      have hleft := wp_done (mutProcessResume_effect h.stopped) hresume
      have hended := wp_done (mutProcessWait_effect hleft.status) hwait
      have htext : q.kernel.text = m.text := hended.text.trans hleft.text
      refine h.moved (hended.stopped pc rfl).1 rfl rfl (fun _ => rfl) nofun fun _ => ?_
      rw [show ({ m with process := q } : Mut).text = _ from htext]
      exact h.installed rfl
  | @remove m m' hremove =>
      obtain ⟨-, hreplanted, htext⟩ :=
        wp_done (mutRemoveActionBreakpointsOf_effect m.root h.stopped) hremove
      obtain ⟨hcovered, hsaved⟩ := h.installed rfl
      exact h.moved hreplanted.stopped hreplanted.root hreplanted.addr hreplanted.type
        (fun _ => (htext rfl).2 x₀ h.apart hsaved hcovered) nofun
  | @handle m m' a ha hhandle =>
      have hacts := wp_done (mutHandle_acts h.stopped (h.typed a ha)) hhandle
      have hactions := hacts.frame.actions
      refine h.moved (hacts.stopped rfl) hacts.frame.root ?_ (fun c => ?_) (fun _ => ?_) nofun
      · funext c
        show (m'.actions c).addr = _
        rw [hactions c]
      · rw [hactions c]
      · exact (hacts.text rfl).trans (h.removed rfl)
  | @install m m' hinstall =>
      obtain ⟨hreplanted, -, hdone⟩ :=
        wp_done (mutInstallActionBreakpointsOf_effect m.root h.stopped) hinstall
      have htext : m.text = x₀ := h.removed rfl
      rw [htext] at hdone
      exact h.moved hreplanted.stopped hreplanted.root hreplanted.addr hreplanted.type nofun
        fun _ => (hdone rfl).2 h.apart

/-- The tracker just before `mut_manage_actions`. -/
structure Opening (exec : Exec) (m : Mut) : Prop where
  exec : m.exec = exec
  stopped : m.Stopped
  idle : m.process.log.Idle
  root : m.root = []

theorem Managing.tidy {p : Process} (h : Managing p x₀ m) (hapart : m.AllApart m.root) :
    Tidy x₀ (.installed, m) := by
  obtain ⟨rs, hcalm⟩ := h.calm
  exact ⟨hcalm.status, h.typed, hapart, nofun, fun _ => ⟨hcalm.text, h.saves.saved hapart⟩⟩

/-- A tracker before `mut_manage_actions`, whose target's text has no byte of a
breakpoint. -/
def Mut.bare (exec : Exec) : Mut :=
  let m := Mut.small .plain (.calling 0 0) []
  { m with
    exec
    root := []
    process := { m.process with kernel := { m.process.kernel with text := fun _ => 0xff } } }

theorem bare_opening (exec : Exec) : Opening exec (.bare exec) :=
  ⟨rfl, rfl, Log.idle_mutLogOpen, rfl⟩

/-- The tracker `m` with other reports of `waitpid` to come. -/
def Mut.awaiting (m : Mut) (waits : List Stop) : Mut :=
  { m with process := { m.process with kernel := { m.process.kernel with waits } } }

/-- In a bare tracker nothing hinders `mut_manage_actions`, and it saves the words of
the text only when they are apart. -/
theorem bare_managed (exec : Exec) (usageFunction : Option String) :
    ∃ m, mutManageActions usageFunction (.bare exec) = .done true m ∧
      m.addrs = managed exec usageFunction ∧
      (m.Saved (Mut.bare exec).text m.root → (managed exec usageFunction).Pairwise Apart) := by
  have hspec := mutManageActions_spec (E := fun _ => False) (m := .bare exec) usageFunction rfl
    Log.idle_mutLogOpen rfl
  obtain ⟨ok, m, hrun, ⟨rfl, h, -, haddrs⟩ | ⟨-, hfault⟩⟩ := wp_returns hspec fun _ he => he
  · have haddrs : m.addrs = managed exec usageFunction := haddrs
    refine ⟨m, hrun, haddrs, fun hsaved => ?_⟩
    rw [← haddrs]
    exact h.saves.allApart hsaved
  · obtain ⟨answers, errno, heq, hmem⟩ := hfault
    have hnil : answers = [] := (List.append_eq_nil_iff.1 heq).1
    rw [hnil] at hmem
    cases hmem

/-- In every round every removal gives the text back, and every installation sets
the breakpoints and saves what they cover, for every text of the traced program,
exactly when no two of the words at the actions share a byte. -/
theorem transparent_iff (exec : Exec) (usageFunction : Option String) :
    (∀ (flags : Control) (m₀ m : Mut), Opening exec m₀ →
      mutManageActions usageFunction m₀ = .done true m →
      ∀ (turns : List Turn) (s : Stage) (m' : Mut),
        Run (Turns flags) (.installed, m) turns (s, m') → m'.Transparent m₀.text s) ↔
      (managed exec usageFunction).Pairwise Apart := by
  constructor
  · intro h
    obtain ⟨m, hrun, -, hapart⟩ := bare_managed exec usageFunction
    refine hapart fun a ha => ?_
    have htransparent := h .plain _ m (bare_opening exec) hrun [] .installed m .start
    exact (htransparent.1 a ha).2
  · intro hapart flags m₀ m hopening hmanage turns s m' hrun
    have hspec := mutManageActions_spec (E := fun _ => True) usageFunction hopening.stopped
      hopening.idle hopening.root
    rcases wp_done hspec hmanage with ⟨-, hmanaging, -, haddrs⟩ | ⟨hok, -⟩
    · rw [hopening.exec] at haddrs
      have htidy : Tidy m₀.text (.installed, m) := hmanaging.tidy (by
        show m.addrs.Pairwise Apart
        rw [haddrs]
        exact hapart)
      exact (hrun.invariant htidy fun _ _ _ ht hl => hl.tidy ht).transparent
    · cases hok

/-- Two functions a byte apart. -/
def Exec.adjacent : Exec where
  symtab :=
    [{ funName := "malloc", funStartAddr := 0x10, fileName := none, funLines := [] },
      { funName := "free", funStartAddr := 0x11, fileName := none, funLines := [] }]
  hasFullSymbols := false

/-- The breakpoint on `malloc` is set first, and what `free` saves is its rest. -/
theorem adjacent_not_transparent :
    ∃ m, mutManageActions none (.bare .adjacent) = .done true m ∧
      m.addrs = [0x11, 0x10] ∧ ¬ m.Transparent (Mut.bare .adjacent).text .installed := by
  obtain ⟨m, hrun, haddrs, hapart⟩ := bare_managed .adjacent none
  have hmanaged : managed .adjacent none = [0x11, 0x10] := by decide
  rw [hmanaged] at haddrs hapart
  refine ⟨m, hrun, haddrs, fun htransparent => ?_⟩
  have hnot : ¬ [(0x11 : Word), 0x10].Pairwise Apart := by decide
  exact hnot (hapart fun a ha => (htransparent.1 a ha).2)

end MutTracker.Source
