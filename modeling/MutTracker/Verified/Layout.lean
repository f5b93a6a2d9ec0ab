import MutTracker.Verified.Runs

/-!
# Where the marks of an object are

In check mode a request is made larger, so that the block has room for a mark
on either side of the object.  `Request` is a request that is handled so;
`Request.adjusted` is the size that is asked for and `Request.size` the one that
is recorded.  The marks are installed from the first and looked for from the
second.

## Main results

* `roundUp_toNat`, `callocZones_toNat` — the exact sizes.
* `laid_iff` — the marks are looked for where they are, but for a `calloc` of
  whole words.
* `Step.marked` — a handled request is laid out by these sizes.
* `calloc_misplaced` — such a `calloc`.
-/

namespace MutTracker.Source

open MutTracker.Logic

/-- A request for whose block the handler marks zones. -/
inductive Request where
  | malloc (size : Word)
  | calloc (nElems elemSize : Word)
  | realloc (size : Word)

namespace Request

/-- The size of the resource that is recorded. -/
def size : Request → Word
  | .malloc size => size
  | .calloc nElems elemSize => nElems * elemSize
  | .realloc size => size

/-- The size of the block that is asked for. -/
def adjusted : Request → Word
  | .malloc size => mutRoundUp size
  | .calloc nElems elemSize => mutCallocZones nElems elemSize * mutZoneSize
  | .realloc size => mutRoundUp size

/-- The size that the target asked for, as a number. -/
def exact : Request → Nat
  | .malloc size => size.toNat
  | .calloc nElems elemSize => nElems.toNat * elemSize.toNat
  | .realloc size => size.toNat

/-- The size of the block, computed without wrapping round. -/
def block : Request → Nat
  | .malloc size => (size.toNat + 3) / 4 * 4 + 8
  | .calloc nElems elemSize => (nElems.toNat * elemSize.toNat / 4 + 1 + 2) * 4
  | .realloc size => (size.toNat + 3) / 4 * 4 + 8

/-- No computation for a block at `base` wraps round. -/
structure Fits (r : Request) (base : Word) : Prop where
  exact : r.exact < 2 ^ 32
  block : r.block < 2 ^ 32
  room : base.toNat + r.block ≤ 2 ^ 32

/-- A `calloc` of whole words. -/
def Whole : Request → Prop
  | .calloc nElems elemSize => 4 ∣ nElems.toNat * elemSize.toNat
  | .malloc _ | .realloc _ => False

end Request

/-! ## Exact sizes -/

theorem maskDown_toNat (n : Word) : (n &&& ~~~(3 : Word)).toNat = n.toNat / 4 * 4 := by
  have hapart : (n &&& ~~~(3 : Word)) &&& (n &&& 3) = 0 := by
    ext i hi
    simp only [BitVec.getElem_and, BitVec.getElem_not]
    cases n[i] <;> cases (3 : Word)[i] <;> simp
  have hsplit : (n &&& ~~~(3 : Word)) + (n &&& 3) = n := by
    rw [BitVec.add_eq_or_of_and_eq_zero _ _ hapart]
    ext i hi
    simp only [BitVec.getElem_or, BitVec.getElem_and, BitVec.getElem_not]
    cases n[i] <;> cases (3 : Word)[i] <;> rfl
  have hlow : (n &&& (3 : Word)).toNat = n.toNat % 4 :=
    Nat.and_two_pow_sub_one_eq_mod n.toNat 2
  have hsum := congrArg BitVec.toNat hsplit
  have hn := n.isLt
  have hhigh := (n &&& ~~~(3 : Word)).isLt
  rw [BitVec.toNat_add, hlow] at hsum
  have hle : (n &&& ~~~(3 : Word)).toNat ≤ n.toNat := by
    rw [BitVec.toNat_and]
    exact Nat.and_le_left
  omega

/-- `mut_round_up`, exactly. -/
theorem roundUp_toNat (size : Word) :
    (mutRoundUp size).toNat = ((size.toNat + 3) % 2 ^ 32 / 4 * 4 + 8) % 2 ^ 32 := by
  have hstart : size + mutZoneSize - 1 = size + 3 := by
    unfold mutZoneSize
    bv_omega
  have hmask : mutZoneSize - 1 = 3 := by decide
  have htwo : 2 * mutZoneSize = 8 := by decide
  rw [mutRoundUp, hstart, hmask, htwo, BitVec.toNat_add, maskDown_toNat, BitVec.toNat_add]
  rfl

/-- The zones of `mut_do_calloc`, exactly. -/
theorem callocZones_toNat (nElems elemSize : Word) :
    (mutCallocZones nElems elemSize).toNat =
      nElems.toNat * elemSize.toNat % 2 ^ 32 / 4 + 1 + 2 := by
  have hdiv : ((nElems * elemSize).udiv mutZoneSize).toNat =
      nElems.toNat * elemSize.toNat % 2 ^ 32 / 4 := by
    rw [BitVec.udiv_eq, BitVec.toNat_udiv, BitVec.toNat_mul]
    rfl
  rw [mutCallocZones, BitVec.toNat_add, BitVec.toNat_add, hdiv]
  show ((_ + 1) % 2 ^ 32 + 2) % 2 ^ 32 = _
  omega

namespace Request

variable {r : Request} {base : Word}

theorem Fits.size (h : r.Fits base) : r.size.toNat = r.exact := by
  have hexact := h.exact
  cases r with
  | malloc n | realloc n => rfl
  | calloc k e =>
      show (k * e).toNat = k.toNat * e.toNat
      rw [BitVec.toNat_mul]
      exact Nat.mod_eq_of_lt hexact

theorem Fits.adjusted (h : r.Fits base) : r.adjusted.toNat = r.block := by
  have hexact := h.exact
  have hblock := h.block
  cases r with
  | malloc n | realloc n =>
      simp only [Request.exact, Request.block] at hexact hblock
      rw [Request.adjusted, Request.block, roundUp_toNat]
      omega
  | calloc k e =>
      simp only [Request.exact, Request.block] at hexact hblock
      rw [Request.adjusted, Request.block, BitVec.toNat_mul, callocZones_toNat,
        Nat.mod_eq_of_lt hexact]
      exact Nat.mod_eq_of_lt hblock

end Request

/-! ## The marks -/

/-- The object at `addr` of the size that is recorded for `r`, in the block at
`base` that was asked for: the marks are looked for where they are installed,
and they and the object take up disjoint parts of the block. -/
structure Laid (r : Request) (base addr : Word) : Prop where
  pre : preZoneAddr addr = base
  post : postZoneAddr addr r.size = base + r.adjusted - mutZoneSize
  object : (preZoneAddr addr).toNat + 4 ≤ addr.toNat
  after : addr.toNat + r.size.toNat ≤ (postZoneAddr addr r.size).toNat
  inside : base.toNat ≤ (preZoneAddr addr).toNat ∧
    (postZoneAddr addr r.size).toNat + 4 ≤ base.toNat + r.adjusted.toNat

variable {r : Request} {base : Word}

theorem preZoneAddr_object (base : Word) : preZoneAddr (base + mutZoneSize) = base := by
  unfold preZoneAddr
  bv_omega

/-- Where the second mark is looked for, exactly. -/
theorem postZoneAddr_toNat (h : r.Fits base) :
    (postZoneAddr (base + mutZoneSize) r.size).toNat =
      base.toNat + ((r.exact + 3) / 4 * 4 + 4) := by
  have hround : (mutRoundUp r.size).toNat = (r.exact + 3) / 4 * 4 + 8 ∧
      base.toNat + ((r.exact + 3) / 4 * 4 + 8) ≤ 2 ^ 32 := by
    have hsize := h.size
    have hblock := h.block
    have hroom := h.room
    rw [roundUp_toNat, hsize]
    cases r with
    | malloc n | realloc n =>
        simp only [Request.exact, Request.block] at hblock hroom ⊢
        omega
    | calloc k e =>
        simp only [Request.exact, Request.block] at hblock hroom ⊢
        omega
  obtain ⟨hround, hroom⟩ := hround
  have hzone : mutZoneSize.toNat = 4 := rfl
  have hbase := base.isLt
  rw [postZoneAddr, preZoneAddr_object, BitVec.toNat_sub, BitVec.toNat_add, hround, hzone]
  omega

/-- Where the second mark is installed, exactly. -/
theorem installed_toNat (h : r.Fits base) :
    (base + r.adjusted - mutZoneSize).toNat = base.toNat + (r.block - 4) := by
  have hroom := h.room
  have hsmall : 8 ≤ r.block := by
    cases r with
    | malloc n | realloc n => exact Nat.le_add_left 8 _
    | calloc k e =>
        simp only [Request.block]
        omega
  have hzone : mutZoneSize.toNat = 4 := rfl
  have hbase := base.isLt
  rw [BitVec.toNat_sub, BitVec.toNat_add, h.adjusted, hzone]
  omega

/-- The block that is asked for is the one that the recorded size needs, unless
it is for whole words. -/
theorem block_iff : r.block = (r.exact + 3) / 4 * 4 + 8 ↔ ¬ r.Whole := by
  cases r with
  | malloc n | realloc n => exact iff_of_true rfl id
  | calloc k e =>
      simp only [Request.block, Request.exact, Request.Whole]
      omega

/-- For a request that fits at `base` the marks are laid out well exactly when
it is no `calloc` of whole words. -/
theorem laid_iff (r : Request) (base : Word) (h : r.Fits base) :
    Laid r base (base + mutZoneSize) ↔ ¬ r.Whole := by
  have hpost := postZoneAddr_toNat h
  have hinstalled := installed_toNat h
  have hroom := h.room
  have hsmall : (r.exact + 3) / 4 * 4 + 8 ≤ r.block := by
    cases r with
    | malloc n | realloc n => exact Nat.le_refl _
    | calloc k e =>
        simp only [Request.block, Request.exact]
        omega
  constructor
  · intro hlaid
    rw [← block_iff]
    have hsame := congrArg BitVec.toNat hlaid.post
    omega
  · intro hwhole
    have hblock := block_iff.2 hwhole
    have hobject : (base + mutZoneSize).toNat = base.toNat + 4 := by
      rw [BitVec.toNat_add]
      show (base.toNat + 4) % 2 ^ 32 = _
      omega
    refine ⟨preZoneAddr_object base, BitVec.eq_of_toNat_eq (by omega), ?_, ?_, ?_⟩
    · refine Nat.le_of_eq ?_
      rw [preZoneAddr_object, hobject]
    · rw [h.size]
      omega
    · rw [preZoneAddr_object, h.adjusted]
      omega

theorem laid_iff_malloc : Laid (.malloc 8) 0x2000 0x2004 :=
  (laid_iff (.malloc 8) 0x2000 ⟨by decide, by decide, by decide⟩).2 id

/-- For two elements of four bytes the second mark is installed a word above
where it is looked for. -/
theorem calloc_misplaced :
    (Request.calloc 2 4).Fits 0x2000 ∧
      0x2000 + (Request.calloc 2 4).adjusted - mutZoneSize = 0x2010 ∧
      postZoneAddr 0x2004 (Request.calloc 2 4).size = 0x200c ∧
      ¬ Laid (.calloc 2 4) 0x2000 0x2004 := by
  have hpost : postZoneAddr 0x2004 (Request.calloc 2 4).size = 0x200c := by decide
  have hinstalled : 0x2000 + (Request.calloc 2 4).adjusted - mutZoneSize = 0x2010 := by decide
  refine ⟨⟨by decide, by decide, by decide⟩, hinstalled, hpost, fun h => ?_⟩
  have hsame := h.post
  rw [hpost, hinstalled] at hsame
  exact absurd hsame (by decide)

/-! ## Handled requests -/

/-- The request of the target that the handler of `a` marks zones for. -/
def Mut.request (flags : Control) (m : Mut) : Routine → Option Request
  | .malloc => some (.malloc (m.target.arg 0))
  | .calloc => some (.calloc (m.target.arg 0) (m.target.arg 1))
  | .realloc =>
      if m.target.arg 0 = 0 ∨ flags.free = false ∧ m.find (m.target.arg 0) = none then
        some (.realloc (m.target.arg 1))
      else none
  | .free | .cfree | .usage => none

variable {flags : Control} {m m' : Mut} {v : Visit} {a : Routine} {t : Target}

/-- A request enters its size one zone above the block. -/
theorem request_entered (hreq : m.request flags a = some r) (hne : m.result ≠ 0) (b : Book)
    (hb : ∀ addr, b.find addr = m.find addr) :
    (b.step flags (m.event a)).find (objectAt flags m.result) =
      some ⟨objectAt flags m.result, r.size, some a, none⟩ := by
  have hmade : ∀ (b' : Book) (c : Routine) (size : Word),
      (b'.made flags c (objectAt flags m.result) size).find (objectAt flags m.result) =
        some ⟨objectAt flags m.result, size, some c, none⟩ := by
    intro b' c size
    rw [Book.find, Book.made, Book.counted_entries, Book.entered, Keyed.get_cons, if_pos rfl]
  cases a with
  | malloc | calloc =>
      cases hreq
      show (b.produce flags _ _ _ _ _).find _ = _
      rw [Book.produce, if_neg hne]
      exact hmade ..
  | realloc =>
      simp only [Mut.request] at hreq
      show (b.reallocate flags _ _ _).find _ = _
      by_cases hzero : m.target.arg 0 = 0
      · rw [if_pos (.inl hzero)] at hreq
        cases hreq
        rw [Book.reallocate, if_pos hzero]
        exact hmade ..
      · by_cases hunknown : flags.free = false ∧ m.find (m.target.arg 0) = none
        · rw [if_pos (.inr hunknown)] at hreq
          cases hreq
          rw [Book.reallocate_unknown flags b hzero ((hb _).trans hunknown.2), if_neg (by
            rw [hunknown.1]
            exact Bool.false_ne_true)]
          exact hmade ..
        · rw [if_neg fun h => h.elim hzero hunknown] at hreq
          cases hreq
  | free | cfree | usage => cases hreq

/-- The handler leaves the block of a request with its marks. -/
theorem request_left (hreq : m.request flags a = some r) (ht : t.eax ≠ 0) :
    m.left flags a t = t.produced flags t.eax r.adjusted := by
  cases a with
  | malloc | calloc =>
      cases hreq
      exact if_neg ht
  | realloc =>
      simp only [Mut.request] at hreq
      by_cases hzero : m.target.arg 0 = 0
      · rw [if_pos (.inl hzero)] at hreq
        cases hreq
        rw [Mut.left, if_pos hzero]
        exact if_neg ht
      · by_cases hunknown : flags.free = false ∧ m.find (m.target.arg 0) = none
        · rw [if_pos (.inr hunknown)] at hreq
          cases hreq
          rw [Mut.left, if_neg hzero, hunknown.2]
          simp only [hunknown.1, Bool.false_eq_true, if_false]
          exact if_neg ht
        · rw [if_neg fun h => h.elim hzero hunknown] at hreq
          cases hreq
  | free | cfree | usage => cases hreq

/-- In check mode a handled request leaves the marks of a block of the adjusted
size, and the object between them in the list with the size asked for. -/
theorem Step.marked (hs : Step flags m v m') (hready : Ready flags m)
    (hfresh : Fresh flags v.tracker v.routine) (hcheck : flags.check = true)
    (hreq : v.tracker.request flags v.routine = some r) (hne : v.tracker.result ≠ 0) :
    m'.find (v.tracker.result + mutZoneSize) =
        some ⟨v.tracker.result + mutZoneSize, r.size, some v.routine, none⟩ ∧
      ∃ t, v.tracker.returning = some t ∧
        m'.target.data = (t.data.writeWord v.tracker.result mutZoneValue).writeWord
          (v.tracker.result + r.adjusted - mutZoneSize) mutZoneValue := by
  obtain ⟨t, hserved⟩ := hs.served hready hfresh
  have hobject : objectAt flags v.tracker.result = v.tracker.result + mutZoneSize := by
    rw [objectAt, if_pos hcheck]
  have hruns : v.tracker.runs flags v.routine = true := by
    cases hroutine : v.routine with
    | malloc | calloc | realloc | usage => rfl
    | free | cfree =>
        rw [hroutine] at hreq
        cases hreq
  obtain ⟨t', hret, hleft⟩ := hserved.returned hruns
  have heax := result_of_returning hret
  refine ⟨?_, t', hret, ?_⟩
  · have hentered := request_entered hreq hne v.tracker.book fun _ => rfl
    rw [hobject, ← hserved.midway.book] at hentered
    exact hentered
  · rw [hserved.midway.target, hleft, request_left hreq (heax ▸ hne), heax, Target.produced,
      if_pos hcheck]
    rfl

end MutTracker.Source
