import MutTracker.Source.Uint64

/-!
# 64-bit counters, word by word

The low word of a counter is always right: whatever is carried or borrowed,
it is the low word of the exact value.  The high word is right only while
nothing is carried or borrowed, because the carry is added to the word that
the result held before.

## Main results

* `inc_eq`, `dec_eq` — the two words after a change.
* `counter_exact_iff` — the counters are exact up to the first carry or borrow.
* `inc_inexact` — one increment past 2³².
-/

namespace MutTracker.Source

namespace Uint64

/-- The value of a counter. -/
def val (x : Uint64) : Nat := x.hi.toNat * 2 ^ 32 + x.lo.toNat

theorem val_lt (x : Uint64) : x.val < 2 ^ 64 := by
  have hhi := x.hi.isLt
  have hlo := x.lo.isLt
  unfold val
  omega

end Uint64

namespace Change

/-- The change carries out of the low word, or borrows into it. -/
def carries (lo : Word) : Change → Bool
  | .inc ui => decide (2 ^ 32 ≤ lo.toNat + ui.toNat)
  | .dec ui => decide (lo.toNat < ui.toNat)

/-- The low word after the change. -/
def low (lo : Word) : Change → Word
  | .inc ui => lo + ui
  | .dec ui => lo - ui

/-- The carry added to a high word. -/
def high (hi : Word) : Change → Word
  | .inc _ => hi + 1
  | .dec _ => hi - 1

/-- The change does not take `n` below zero. -/
def Covered (n : Nat) : Change → Prop
  | .inc _ => True
  | .dec ui => ui.toNat ≤ n

/-- The exact value after the change. -/
def exact (n : Nat) : Change → Nat
  | .inc ui => (n + ui.toNat) % 2 ^ 64
  | .dec ui => n - ui.toNat

end Change

/-- The changes never go below zero from `n` on. -/
def Covered : List Change → Nat → Prop
  | [], _ => True
  | c :: cs, n => c.Covered n ∧ Covered cs (c.exact n)

/-- No change carries or borrows, from a low word on. -/
def Uncarried : List Change → Word → Prop
  | [], _ => True
  | c :: cs, lo => c.carries lo = false ∧ Uncarried cs (c.low lo)

variable {ans x y : Uint64} {c : Change} {cs : List Change}

/-! ## One change -/

theorem inc_eq (ans x : Uint64) (ui : Word) :
    mutUint64Inc ans x ui =
      { hi := if (Change.inc ui).carries x.lo then ans.hi + 1 else x.hi
        lo := x.lo + ui } := by
  have hlo := x.lo.isLt
  have hui := ui.isLt
  have hcarry : ulongMax - x.lo < ui ↔ 2 ^ 32 ≤ x.lo.toNat + ui.toNat := by
    rw [ulongMax]
    bv_omega
  have hlow₁ : ui - (ulongMax - x.lo) - 1 = x.lo + ui := by
    rw [ulongMax]
    bv_omega
  have hlow₂ : x.lo - (ulongMax - ui) - 1 = x.lo + ui := by
    rw [ulongMax]
    bv_omega
  unfold mutUint64Inc
  by_cases h : 2 ^ 32 ≤ x.lo.toNat + ui.toNat
  · have hc : (Change.inc ui).carries x.lo = true := decide_eq_true h
    rw [if_pos (hcarry.2 h), if_pos hc, hlow₁, hlow₂, ite_self]
  · have hc : (Change.inc ui).carries x.lo = false := decide_eq_false h
    rw [if_neg fun h' => h (hcarry.1 h'), hc, if_neg Bool.false_ne_true]

theorem dec_eq (ans x : Uint64) (ui : Word) :
    mutUint64Dec ans x ui =
      if (Change.dec ui).carries x.lo then
        if x.hi = 0 then none else some { hi := ans.hi - 1, lo := x.lo - ui }
      else some { hi := x.hi, lo := x.lo - ui } := by
  have hlow : ulongMax - (ui - x.lo) + 1 = x.lo - ui := by
    rw [ulongMax]
    bv_omega
  have hpos : x.hi > 0 ↔ ¬ x.hi = 0 := by
    rw [gt_iff_lt, BitVec.lt_def]
    constructor
    · rintro h h0
      rw [h0] at h
      exact Nat.lt_irrefl _ h
    · intro h
      exact Nat.pos_of_ne_zero fun h0 => h (BitVec.eq_of_toNat_eq h0)
  have hborrow : x.lo < ui ↔ x.lo.toNat < ui.toNat := BitVec.lt_def
  unfold mutUint64Dec
  by_cases h : x.lo.toNat < ui.toNat
  · have hc : (Change.dec ui).carries x.lo = true := decide_eq_true h
    rw [if_pos (hborrow.2 h), if_pos hc, hlow]
    by_cases h0 : x.hi = 0
    · rw [if_neg fun hp => hpos.1 hp h0, if_pos h0]
    · rw [if_pos (hpos.2 h0), if_neg h0]
  · have hc : (Change.dec ui).carries x.lo = false := decide_eq_false h
    rw [if_neg fun h' => h (hborrow.1 h'), hc, if_neg Bool.false_ne_true]

/-- Without a carry a change is exact, whatever the result held before. -/
theorem change_uncarried (h : c.carries x.lo = false) :
    Uint64.change ans x c = some { hi := x.hi, lo := c.low x.lo } := by
  cases c with
  | inc ui => rw [Uint64.change, inc_eq, h, if_neg Bool.false_ne_true]; rfl
  | dec ui => rw [Uint64.change, dec_eq, h, if_neg Bool.false_ne_true]; rfl

/-- With a carry the high word is the one the result held before, changed. -/
theorem change_carried (h : c.carries x.lo = true)
    (hy : Uint64.change ans x c = some y) : y = { hi := c.high ans.hi, lo := c.low x.lo } := by
  cases c with
  | inc ui =>
      rw [Uint64.change, inc_eq, if_pos h] at hy
      exact (Option.some.inj hy).symm
  | dec ui =>
      rw [Uint64.change, dec_eq, if_pos h] at hy
      split at hy
      · cases hy
      · exact (Option.some.inj hy).symm

theorem exact_uncarried (h : c.carries x.lo = false) :
    c.exact x.val = Uint64.val { hi := x.hi, lo := c.low x.lo } := by
  have hval := x.val_lt
  cases c with
  | inc ui =>
      have hsmall : x.lo.toNat + ui.toNat < 2 ^ 32 := by
        simpa only [Change.carries, decide_eq_false_iff_not, Nat.not_le] using h
      have hlow : (x.lo + ui).toNat = x.lo.toNat + ui.toNat := BitVec.toNat_add_of_lt hsmall
      have hhi := x.hi.isLt
      simp only [Change.exact, Uint64.val, Change.low, hlow]
      omega
  | dec ui =>
      have hle : ui.toNat ≤ x.lo.toNat := by
        simpa only [Change.carries, decide_eq_false_iff_not, Nat.not_lt] using h
      have hlow : (x.lo - ui).toNat = x.lo.toNat - ui.toNat := BitVec.toNat_sub_of_le hle
      simp only [Change.exact, Uint64.val, Change.low, hlow]
      omega

/-- After a carry the high word can be any, so whatever is expected is missed. -/
theorem carried_misses (c : Change) (n : Nat) : ∃ ans : Uint64, ∀ lo : Word,
    Uint64.val { hi := c.high ans.hi, lo } ≠ n := by
  obtain ⟨ans, hans⟩ : ∃ ans : Uint64, c.high ans.hi = BitVec.ofNat 32 (n / 2 ^ 32) + 1 := by
    cases c with
    | inc ui => exact ⟨{ hi := BitVec.ofNat 32 (n / 2 ^ 32), lo := 0 }, rfl⟩
    | dec ui =>
        exact ⟨{ hi := BitVec.ofNat 32 (n / 2 ^ 32) + 2, lo := 0 }, by
          simp only [Change.high]
          bv_omega⟩
  refine ⟨ans, fun lo hval => ?_⟩
  have hlo := lo.isLt
  have hhi : (c.high ans.hi).toNat = n / 2 ^ 32 := by
    simp only [Uint64.val] at hval
    omega
  rw [← hhi, BitVec.ofNat_toNat, BitVec.setWidth_eq] at hans
  bv_omega

/-! ## Sequences of changes -/

theorem changeLongLong_toNat {n : LongLong} (h : c.Covered n.toNat) :
    (changeLongLong n c).toNat = c.exact n.toNat := by
  have hn := n.isLt
  cases c with
  | inc ui =>
      simp only [changeLongLong, longLongInc, Change.exact, BitVec.toNat_add,
        BitVec.toNat_setWidth]
      omega
  | dec ui =>
      have hle : ui.toNat ≤ n.toNat := h
      simp only [changeLongLong, longLongDec, Change.exact, BitVec.toNat_sub,
        BitVec.toNat_setWidth]
      omega

/-- Up to the first carry the two implementations hold one value. -/
theorem changes_uncarried {junk : List (Uint64 × Change)} {n : LongLong}
    (h : Uncarried (junk.map (·.2)) x.lo) (hn : n.toNat = x.val)
    (hcovered : Covered (junk.map (·.2)) x.val) :
    ∃ y, Uint64.changes junk x = some y ∧ y.hi = x.hi ∧
      y.val = ((junk.map (·.2)).foldl changeLongLong n).toNat := by
  induction junk generalizing x n with
  | nil => exact ⟨x, rfl, rfl, hn.symm⟩
  | cons ac junk ih =>
      obtain ⟨hc, hcs⟩ := h
      have hexact := exact_uncarried hc
      have hlong : (changeLongLong n ac.2).toNat =
          Uint64.val { hi := x.hi, lo := ac.2.low x.lo } := by
        rw [changeLongLong_toNat (hn ▸ hcovered.1), hn, hexact]
      have hrest := hcovered.2
      rw [hexact] at hrest
      obtain ⟨y, hy, hhi, hval⟩ := ih (x := { hi := x.hi, lo := ac.2.low x.lo }) hcs hlong hrest
      refine ⟨y, ?_, hhi, hval⟩
      rw [Uint64.changes, change_uncarried hc]
      exact hy

/-- The high word stays what it is up to the first carry. -/
theorem changes_hi {junk : List (Uint64 × Change)} (h : Uncarried (junk.map (·.2)) x.lo)
    (hy : Uint64.changes junk x = some y) : y.hi = x.hi := by
  induction junk generalizing x with
  | nil => rw [← Option.some.inj hy]
  | cons ac junk ih =>
      rw [Uint64.changes, change_uncarried h.1] at hy
      exact ih (x := { hi := x.hi, lo := ac.2.low x.lo }) h.2 hy

/-- Once something is carried, no value is reached whatever the results held
before. -/
theorem changes_carried (h : ¬ Uncarried cs x.lo) (n : Nat) :
    ∃ junk, junk.map (·.2) = cs ∧ ∀ y, Uint64.changes junk x = some y → y.val ≠ n := by
  induction cs generalizing x with
  | nil => exact absurd trivial h
  | cons c cs ih =>
      by_cases hc : c.carries x.lo = true
      · by_cases hcs : Uncarried cs (c.low x.lo)
        · -- `c` is the last change that carries: its high word is the last one's
          obtain ⟨ans, hans⟩ := carried_misses c n
          have hjunk : (cs.map fun c => (x, c)).map (·.2) = cs := by
            rw [List.map_map]
            exact List.map_id cs
          refine ⟨(ans, c) :: cs.map fun c => (x, c), by rw [List.map_cons, hjunk],
            fun y hy hval => ?_⟩
          obtain ⟨z, hz, hy⟩ := Option.bind_eq_some_iff.1 hy
          obtain rfl := change_carried hc hz
          have hhi : y.hi = c.high ans.hi := changes_hi (hjunk.symm ▸ hcs) hy
          refine hans y.lo ?_
          rw [← hhi]
          exact hval
        · obtain ⟨junk, hjunk, hmiss⟩ := ih (x := { hi := c.high x.hi, lo := c.low x.lo }) hcs
          refine ⟨(x, c) :: junk, by rw [List.map_cons, hjunk], fun y hy => ?_⟩
          obtain ⟨z, hz, hy⟩ := Option.bind_eq_some_iff.1 hy
          obtain rfl := change_carried hc hz
          exact hmiss y hy
      · have hc : c.carries x.lo = false := Bool.eq_false_iff.2 hc
        obtain ⟨junk, hjunk, hmiss⟩ := ih (x := { hi := x.hi, lo := c.low x.lo })
          fun hcs => h ⟨hc, hcs⟩
        refine ⟨(x, c) :: junk, by rw [List.map_cons, hjunk], fun y hy => ?_⟩
        rw [Uint64.changes, change_uncarried hc] at hy
        exact hmiss y hy

/-- Both implementations of a sequence of changes end at one value, whatever
the results held before, exactly when nothing is carried or borrowed. -/
theorem changes_exact_iff (hcovered : Covered cs x.val) :
    (∀ junk : List (Uint64 × Change), junk.map (·.2) = cs →
      ∃ y, Uint64.changes junk x = some y ∧
        y.val = (cs.foldl changeLongLong (BitVec.ofNat 64 x.val)).toNat) ↔
      Uncarried cs x.lo := by
  have hn : (BitVec.ofNat 64 x.val).toNat = x.val := by
    rw [BitVec.toNat_ofNat, Nat.mod_eq_of_lt x.val_lt]
  constructor
  · intro hall
    refine Classical.byContradiction fun hcarried => ?_
    obtain ⟨junk, hjunk, hmiss⟩ := changes_carried hcarried
      (cs.foldl changeLongLong (BitVec.ofNat 64 x.val)).toNat
    obtain ⟨y, hy, hval⟩ := hall junk hjunk
    exact hmiss y hy hval
  · rintro h junk rfl
    obtain ⟨y, hy, -, hval⟩ := changes_uncarried h hn hcovered
    exact ⟨y, hy, hval⟩

/-- One change is exact, whatever the result held before, exactly when it
does not carry or borrow. -/
theorem change_exact_iff :
    (∀ ans, ∃ y, Uint64.change ans x c = some y ∧ y.val = c.exact x.val) ↔
      c.carries x.lo = false := by
  constructor
  · intro hall
    refine Classical.byContradiction fun hc => ?_
    obtain ⟨ans, hans⟩ := carried_misses c (c.exact x.val)
    obtain ⟨y, hy, hval⟩ := hall ans
    obtain rfl := change_carried (by simpa using hc) hy
    exact hans _ hval
  · exact fun h ans => ⟨_, change_uncarried h, (exact_uncarried h).symm⟩

/-- Increments, decrements and sequences of both are exact for exactly the
operands that carry nothing and borrow nothing. -/
theorem counter_exact_iff (x : Uint64) :
    (∀ d, (∀ ans, (mutUint64Inc ans x d).val = (x.val + d.toNat) % 2 ^ 64) ↔
      x.lo.toNat + d.toNat < 2 ^ 32) ∧
    (∀ d, d.toNat ≤ x.val →
      ((∀ ans, ∃ y, mutUint64Dec ans x d = some y ∧ y.val = x.val - d.toNat) ↔
        d.toNat ≤ x.lo.toNat)) ∧
    (∀ cs, Covered cs x.val →
      ((∀ junk : List (Uint64 × Change), junk.map (·.2) = cs →
        ∃ y, Uint64.changes junk x = some y ∧
          y.val = (cs.foldl changeLongLong (BitVec.ofNat 64 x.val)).toNat) ↔
        Uncarried cs x.lo)) := by
  refine ⟨fun d => ?_, fun d _ => ?_, fun cs => changes_exact_iff⟩
  · have h := change_exact_iff (x := x) (c := .inc d)
    simpa only [Uint64.change, Option.some.injEq, exists_eq_left', Change.exact,
      Change.carries, decide_eq_false_iff_not, Nat.not_le] using h
  · have h := change_exact_iff (x := x) (c := .dec d)
    simpa only [Uint64.change, Change.exact, Change.carries, decide_eq_false_iff_not,
      Nat.not_lt] using h

theorem counter_exact_iff_small :
    Uncarried [.inc 5, .dec 3] (mutUint64FromUint 7).lo ∧
      ∀ junk : List (Uint64 × Change), junk.map (·.2) = [.inc 5, .dec 3] →
        ∃ y, Uint64.changes junk (mutUint64FromUint 7) = some y ∧ y.val = 9 := by
  have hcarry : Uncarried [.inc 5, .dec 3] (mutUint64FromUint 7).lo :=
    ⟨by decide, by decide, trivial⟩
  have hcovered : Covered [.inc 5, .dec 3] (mutUint64FromUint 7).val :=
    ⟨trivial, (by decide : 3 ≤ 12), trivial⟩
  have hnine : ([.inc 5, .dec 3].foldl changeLongLong
      (BitVec.ofNat 64 (mutUint64FromUint 7).val)).toNat = 9 := by decide
  have h := ((counter_exact_iff (mutUint64FromUint 7)).2.2 [.inc 5, .dec 3] hcovered).2 hcarry
  rw [hnine] at h
  exact ⟨hcarry, h⟩

/-- One more than 2³² - 1, into a result whose high word held 7. -/
theorem inc_inexact :
    mutUint64Inc ⟨7, 0⟩ ⟨0, 0xFFFFFFFF⟩ 1 = ⟨8, 0⟩ ∧
      (mutUint64Inc ⟨7, 0⟩ ⟨0, 0xFFFFFFFF⟩ 1).val ≠
        (Uint64.val ⟨0, 0xFFFFFFFF⟩ + (1 : Word).toNat) % 2 ^ 64 := by
  have hinc : mutUint64Inc ⟨7, 0⟩ ⟨0, 0xFFFFFFFF⟩ 1 = ⟨8, 0⟩ := by decide
  refine ⟨hinc, ?_⟩
  rw [hinc]
  simp [Uint64.val]

end MutTracker.Source
