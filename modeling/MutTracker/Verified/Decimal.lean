import MutTracker.Logic.LongDivision
import MutTracker.Source.Decimal
import MutTracker.Verified.Uint64

/-!
# The decimal numeral of a counter

`mut_uint64_udiv10` is long division in base 16.  A chunk at position `k` is divided
with the remainder of all above it, which was stored into the chunk above; the mask
covers that one, and, where the partial dividends were 0, chunks further above that
hold nothing but zeros.  `Udiv.Ready` is what is so before a chunk is divided.

`N` is the number divided: the high word, or the low one with the remainder of the
high word in front of it.

## Main results

* `partial_dividend` — what is masked out is the partial dividend.
* `next_ready` — dividing a chunk makes the next one ready.
* `udiv10_exact` — the quotient and the remainder, for every counter.
* `out_exact` — the numeral of every counter is written.
-/

namespace MutTracker.Source

open MutTracker.Logic.LongDivision

variable {N k m : Nat} {s : Udiv} {x : Word}

/-! ## Bits -/

theorem chunkMask_bit (i : Nat) : mutUint64ChunkMask.getLsbD i = decide (i < 4) := by
  rw [show mutUint64ChunkMask = BitVec.ofNat 32 (2 ^ 4 - 1) from rfl, BitVec.getLsbD_ofNat,
    Nat.testBit_two_pow_sub_one]
  by_cases h : i < 4
  · have h32 : i < 32 := by omega
    simp [h, h32]
  · simp [h]

theorem twoChunkMask_bit (i : Nat) : mutUint64TwoChunkMask.getLsbD i = decide (i < 8) := by
  rw [show mutUint64TwoChunkMask = BitVec.ofNat 32 (2 ^ 8 - 1) from rfl, BitVec.getLsbD_ofNat,
    Nat.testBit_two_pow_sub_one]
  by_cases h : i < 8
  · have h32 : i < 32 := by omega
    simp [h, h32]
  · simp [h]

/-- Storing `r` into the chunk at position `k` changes the bits of that chunk. -/
theorem stored_bit {n r : Word} (hr : r.toNat < 16) {i : Nat} (hi : i < 32) :
    ((r <<< k) ||| (n &&& ~~~(mutUint64ChunkMask <<< k))).getLsbD i =
      if k ≤ i ∧ i < k + 4 then r.getLsbD (i - k) else n.getLsbD i := by
  simp only [BitVec.getLsbD_or, BitVec.getLsbD_and, BitVec.getLsbD_not, BitVec.getLsbD_shiftLeft,
    chunkMask_bit, hi, decide_true, Bool.true_and]
  by_cases hk : i < k
  · have hout : ¬ (k ≤ i ∧ i < k + 4) := by omega
    simp [hk, hout]
  · by_cases hchunk : i < k + 4
    · have hin : k ≤ i ∧ i < k + 4 := by omega
      have hlow : i - k < 4 := by omega
      simp [hk, hin, hlow]
    · have hout : ¬ (k ≤ i ∧ i < k + 4) := by omega
      have hhigh : ¬ i - k < 4 := by omega
      have hzero : r.getLsbD (i - k) = false := by
        rw [← BitVec.testBit_toNat]
        apply Nat.testBit_lt_two_pow
        have hpow : 2 ^ 4 ≤ 2 ^ (i - k) := Nat.pow_le_pow_right (by decide) (by omega)
        omega
      simp [hk, hout, hhigh, hzero]

/-! ## One chunk -/

/-- Before the chunk at position `k` is divided: the mask has `m` bits, the chunk and what is
below it are still those of `N`, and the quotient has the digits above it. -/
structure Udiv.Ready (N k m : Nat) (s : Udiv) : Prop where
  shift : s.shift.toNat = k
  low : ∀ i, i < k + 4 → s.n.getLsbD i = N.testBit i
  mask : ∀ i, i < 32 → s.mask.getLsbD i = decide (i < m)
  four : 4 ≤ m
  ans : s.ans.toNat = N / 2 ^ (k + 4) / 10

/-- What the mask covers above the chunk is the remainder. -/
structure Udiv.Covers (N k m : Nat) (s : Udiv) : Prop where
  high : ∀ i, i + 4 < m → s.n.getLsbD (k + 4 + i) = (N / 2 ^ (k + 4) % 10).testBit i
  fits : 16 * (N / 2 ^ (k + 4) % 10) < 2 ^ m

theorem above_div (N k : Nat) : N / 2 ^ (k + 4) = N / 2 ^ k / 16 := by
  rw [Nat.pow_add, Nat.div_div_eq_div_mul]

/-- What is masked out is the partial dividend. -/
theorem partial_dividend (h : s.Ready N k m) (hc : s.Covers N k m) (hk : k + 4 ≤ 32) :
    ((s.n >>> k) &&& s.mask).toNat = bringDown 16 10 (N / 2 ^ k) := by
  unfold bringDown
  rw [← above_div]
  apply Nat.eq_of_testBit_eq
  intro i
  have hlow : N / 2 ^ k % 16 < 2 ^ 4 := Nat.mod_lt _ (by decide)
  show _ = (2 ^ 4 * (N / 2 ^ (k + 4) % 10) + N / 2 ^ k % 16).testBit i
  rw [Nat.testBit_two_pow_mul_add _ hlow, BitVec.testBit_toNat, BitVec.getLsbD_and,
    BitVec.getLsbD_ushiftRight]
  by_cases hi : i < 4
  · have hmask : s.mask.getLsbD i = true := by
      rw [h.mask i (by omega)]
      have hfour := h.four
      simp only [decide_eq_true_eq]
      omega
    rw [if_pos hi, hmask, Bool.and_true, h.low (k + i) (by omega),
      show N / 2 ^ k % 16 = N / 2 ^ k % 2 ^ 4 from rfl, Nat.testBit_mod_two_pow,
      Nat.testBit_div_two_pow, Nat.add_comm]
    simp only [hi, decide_true, Bool.true_and]
  · rw [if_neg hi]
    by_cases hm : i < m
    · have hhigh := hc.high (i - 4) (by omega)
      rw [show k + 4 + (i - 4) = k + i from by omega] at hhigh
      rw [hhigh]
      by_cases h32 : i < 32
      · rw [h.mask i h32]
        simp only [hm, decide_true, Bool.and_true]
      · -- beyond the word the remainder has no bits either
        have hnone : s.n.getLsbD (k + i) = false := BitVec.getLsbD_of_ge _ _ (by omega)
        rw [← hhigh, hnone]
        rfl
    · have hnone : (N / 2 ^ (k + 4) % 10).testBit (i - 4) = false := by
        apply Nat.testBit_lt_two_pow
        have hfits := hc.fits
        have hpow : 2 ^ m ≤ 2 ^ i := Nat.pow_le_pow_right (by decide) (by omega)
        have hsplit : 2 ^ i = 2 ^ (i - 4) * 2 ^ 4 := by
          rw [← Nat.pow_add]
          congr 1
          omega
        omega
      rw [hnone]
      by_cases h32 : i < 32
      · rw [h.mask i h32]
        simp only [hm, decide_false, Bool.and_false]
      · rw [BitVec.getLsbD_of_ge s.mask _ (by omega), Bool.and_false]

/-- A chunk more of the quotient, and the remainder. -/
theorem chunk_quot (h : s.Ready N k m) (hN : N < 10 * 2 ^ 32) (hk : k + 4 ≤ 32)
    (hx : x.toNat = bringDown 16 10 (N / 2 ^ k)) :
    (s.chunk x).ans.toNat = N / 2 ^ k / 10 ∧ (s.chunk x).r.toNat = N / 2 ^ k % 10 := by
  have hdigit : x.toNat / 10 < 2 ^ 4 := by
    rw [hx]
    exact digit_lt (by decide) (by decide) _
  have hquot : (x / 10).toNat = x.toNat / 10 := by
    rw [BitVec.toNat_udiv]
    rfl
  have hroom : s.ans.toNat <<< 4 < 2 ^ 32 := by
    rw [Nat.shiftLeft_eq, h.ans, Nat.div_div_eq_div_mul, Nat.mul_comm]
    have hpow : (2 : Nat) ^ 4 ≤ 2 ^ (k + 4) := Nat.pow_le_pow_right (by decide) (by omega)
    have hle : N / (2 ^ (k + 4) * 10) ≤ N / (2 ^ 4 * 10) :=
      Nat.div_le_div_left (by omega) (by decide)
    omega
  constructor
  · show ((s.ans <<< 4) ||| (x / 10)).toNat = _
    rw [BitVec.toNat_or, BitVec.toNat_shiftLeft, Nat.mod_eq_of_lt hroom, hquot,
      ← Nat.shiftLeft_add_eq_or_of_lt hdigit, Nat.shiftLeft_eq, h.ans, hx, above_div,
      Nat.mul_comm]
    exact (bringDown_quot (by decide) _).symm
  · show (x % 10).toNat = _
    rw [BitVec.toNat_umod, hx]
    exact (bringDown_rem _).symm

/-- The state with the next chunk ready. -/
def Udiv.shifted (s : Udiv) (x : Word) : Udiv :=
  { s.chunk x with
    mask := if x = 0 then (s.mask <<< 4) ||| s.mask else mutUint64TwoChunkMask
    n := ((s.chunk x).r <<< s.shift.toNat) |||
      (s.n &&& ~~~(mutUint64ChunkMask <<< s.shift.toNat))
    shift := s.shift - mutUint64ChunkBits }

theorem next_shifted (h : s.shift.toNat < 32) (x : Word) : s.next x = some (s.shifted x) := by
  have hshift : s.shift < 32 := h
  simp only [Udiv.next, Udiv.chunk, Word.shl, hshift, if_true]
  rfl

theorem round_shifted (h : s.shift.toNat < 32) :
    s.round = some (s.shifted ((s.n >>> s.shift.toNat) &&& s.mask)) := by
  have hshift : s.shift < 32 := h
  simp only [Udiv.round, Word.shr, hshift, if_true]
  exact next_shifted h _

/-- Where a partial dividend is 0 there is nothing above the chunk. -/
theorem zero_above (h : s.Ready N k m) (hzero : (s.n >>> k) &&& s.mask = 0) (i : Nat)
    (hi : i + 4 < m) : s.n.getLsbD (k + 4 + i) = false := by
  by_cases h32 : k + 4 + i < 32
  · have hbit : ((s.n >>> k) &&& s.mask).getLsbD (i + 4) = false := by
      rw [hzero]
      exact BitVec.getLsbD_zero
    rw [BitVec.getLsbD_and, BitVec.getLsbD_ushiftRight, h.mask _ (by omega)] at hbit
    simp only [hi, decide_true, Bool.and_true] at hbit
    rw [show k + 4 + i = k + (i + 4) from by omega]
    exact hbit
  · exact BitVec.getLsbD_of_ge _ _ (by omega)

/-- Dividing a chunk that is not the last makes the next one ready. -/
theorem next_ready (h : s.Ready N (k + 4) m) (hN : N < 10 * 2 ^ 32) (hk : k + 8 ≤ 32)
    (hx : x.toNat = bringDown 16 10 (N / 2 ^ (k + 4)))
    (hzero : x = 0 → ∀ i, i + 4 < m → s.n.getLsbD (k + 8 + i) = false) :
    ∃ m', (s.shifted x).Ready N k m' ∧ (s.shifted x).Covers N k m' := by
  obtain ⟨hans, hr⟩ := chunk_quot h hN (by omega) hx
  have hr16 : (s.chunk x).r.toNat < 16 := by
    rw [hr]
    have hlt : N / 2 ^ (k + 4) % 10 < 10 := Nat.mod_lt _ (by decide)
    omega
  have hshift : (s.shifted x).shift.toNat = k := by
    have hlt : mutUint64ChunkBits.toNat ≤ s.shift.toNat := by
      rw [h.shift]
      exact Nat.le_add_left 4 k
    show (s.shift - mutUint64ChunkBits).toNat = k
    rw [BitVec.toNat_sub_of_le hlt, h.shift]
    exact Nat.add_sub_cancel k 4
  have hn : ∀ i, i < 32 → (s.shifted x).n.getLsbD i =
      if k + 4 ≤ i ∧ i < k + 8 then (s.chunk x).r.getLsbD (i - (k + 4)) else s.n.getLsbD i := by
    intro i hi
    show (((s.chunk x).r <<< s.shift.toNat) ||| _).getLsbD i = _
    rw [h.shift]
    exact stored_bit hr16 hi
  have hlow : ∀ i, i < k + 4 → (s.shifted x).n.getLsbD i = N.testBit i := by
    intro i hi
    rw [hn i (by omega), if_neg (by omega), h.low i (by omega)]
  have hstored : ∀ i, i < 4 → (s.shifted x).n.getLsbD (k + 4 + i) =
      (N / 2 ^ (k + 4) % 10).testBit i := by
    intro i hi
    rw [hn _ (by omega), if_pos (by omega), show k + 4 + i - (k + 4) = i from by omega,
      ← BitVec.testBit_toNat, hr]
  by_cases hx0 : x = 0
  · -- the mask widens over the chunk just cleared
    have hrem : N / 2 ^ (k + 4) % 10 = 0 := by
      rw [bringDown_rem (b := 16), ← hx, hx0]
      rfl
    refine ⟨m + 4, ⟨hshift, hlow, ?_, by omega, hans⟩, ⟨?_, ?_⟩⟩
    · intro i hi
      show (if x = 0 then (s.mask <<< 4) ||| s.mask else _).getLsbD i = _
      have hfour := h.four
      rw [if_pos hx0, BitVec.getLsbD_or, BitVec.getLsbD_shiftLeft, h.mask i hi]
      by_cases hi4 : i < 4
      · have him : i < m := by omega
        have him4 : i < m + 4 := by omega
        simp [hi4, him, him4]
      · rw [h.mask (i - 4) (by omega)]
        have hiff : i - 4 < m ↔ i < m + 4 := by omega
        by_cases him : i < m
        · have him4 : i < m + 4 := by omega
          simp [him, him4]
        · simp [hi, hi4, him, hiff]
    · intro i hi
      by_cases hi4 : i < 4
      · exact hstored i hi4
      · rw [hrem, Nat.zero_testBit]
        by_cases h32 : k + 4 + i < 32
        · rw [hn _ h32, if_neg (by omega), show k + 4 + i = k + 8 + (i - 4) from by omega]
          exact hzero hx0 (i - 4) (by omega)
        · exact BitVec.getLsbD_of_ge _ _ (by omega)
    · rw [hrem]
      exact Nat.two_pow_pos _
  · refine ⟨8, ⟨hshift, hlow, ?_, by decide, hans⟩, ⟨?_, ?_⟩⟩
    · intro i _
      show (if x = 0 then _ else mutUint64TwoChunkMask).getLsbD i = _
      rw [if_neg hx0]
      exact twoChunkMask_bit i
    · intro i hi
      exact hstored i (by omega)
    · have hlt : N / 2 ^ (k + 4) % 10 < 10 := Nat.mod_lt _ (by decide)
      omega

/-! ## Both words -/

/-- The partial dividends so far, `n` of them. -/
structure Udiv.Small (n : Nat) (s : Udiv) : Prop where
  count : s.partials.length = n
  small : ∀ x ∈ s.partials, x.toNat < 160

theorem Udiv.Small.chunk {n : Nat} (h : s.Small n) (hx : x.toNat = bringDown 16 10 N) :
    (s.chunk x).Small (n + 1) := by
  constructor
  · show (s.partials ++ [x]).length = n + 1
    rw [List.length_append, h.count]
    rfl
  · intro y hy
    rcases List.mem_append.1 hy with hy | hy
    · exact h.small y hy
    · rw [List.mem_singleton.1 hy, hx]
      exact partial_lt (by decide) (by decide) N

theorem Udiv.Small.shifted {n : Nat} (h : s.Small n) (hx : x.toNat = bringDown 16 10 N) :
    (s.shifted x).Small (n + 1) := ⟨(h.chunk hx).count, (h.chunk hx).small⟩

/-- A round of either loop that does not divide the last chunk. -/
theorem round_ready {n : Nat} (h : s.Ready N (k + 4) m) (hc : s.Covers N (k + 4) m)
    (hsmall : s.Small n) (hN : N < 10 * 2 ^ 32) (hk : k + 8 ≤ 32) :
    ∃ m' s', s.round = some s' ∧ s'.Ready N k m' ∧ s'.Covers N k m' ∧ s'.Small (n + 1) := by
  have hlt : s.shift.toNat < 32 := by
    rw [h.shift]
    omega
  have hx := partial_dividend h hc (by omega)
  obtain ⟨m', hready, hcovers⟩ := next_ready h hN hk hx fun hzero i hi =>
    zero_above h hzero i hi
  refine ⟨m', _, round_shifted hlt, ?_⟩
  rw [h.shift]
  exact ⟨hready, hcovers, hsmall.shifted hx⟩

/-- The loop over the high word ends before its last chunk. -/
theorem udivHigh_ready {j n l : Nat} (h : s.Ready N (4 * j + 4) m)
    (hc : s.Covers N (4 * j + 4) m) (hsmall : s.Small n) (hN : N < 10 * 2 ^ 32)
    (hj : 4 * j + 8 ≤ 32) (hrounds : j < l) :
    ∃ m' s', mutUint64UdivHigh l s = some s' ∧ s'.Ready N 0 m' ∧ s'.Covers N 0 m' ∧
      s'.Small (n + j + 1) := by
  induction j generalizing s m n l with
  | zero =>
      obtain ⟨left, rfl⟩ : ∃ left, l = left + 1 := ⟨l - 1, by omega⟩
      obtain ⟨m', s', hround, hready, hcovers, hsmall'⟩ := round_ready h hc hsmall hN hj
      refine ⟨m', s', ?_, hready, hcovers, hsmall'⟩
      have hshift : s'.shift = 0 := BitVec.eq_of_toNat_eq hready.shift
      simp only [mutUint64UdivHigh, hround, Option.bind_eq_bind, Option.bind_some, hshift]
      rfl
  | succ j ih =>
      obtain ⟨left, rfl⟩ : ∃ left, l = left + 1 := ⟨l - 1, by omega⟩
      obtain ⟨m₁, s₁, hround, hready, hcovers, hsmall₁⟩ :=
        round_ready h hc hsmall hN (by omega)
      obtain ⟨m', s', hloop, hready', hcovers', hsmall'⟩ :=
        ih (l := left) hready hcovers hsmall₁ (by omega) (by omega)
      refine ⟨m', s', ?_, hready', hcovers', ?_⟩
      · have hshift : s₁.shift ≠ 0 := by
          intro hzero
          have hval := hready.shift
          rw [hzero] at hval
          simp at hval
        simp only [mutUint64UdivHigh, hround, Option.bind_eq_bind, Option.bind_some]
        rw [if_pos hshift]
        exact hloop
      · rw [show n + (j + 1) + 1 = n + 1 + j + 1 from by omega]
        exact hsmall'

/-- The loop over the low word divides to its last chunk. -/
theorem udivLow_quot {j n : Nat} (h : s.Ready N (4 * j) m) (hc : s.Covers N (4 * j) m)
    (hsmall : s.Small n) (hN : N < 10 * 2 ^ 32) (hj : 4 * j + 4 ≤ 32) :
    ∃ s', mutUint64UdivLow (j + 1) s = some s' ∧ s'.ans.toNat = N / 10 ∧ s'.r.toNat = N % 10 ∧
      s'.Small (n + j + 1) := by
  induction j generalizing s m n with
  | zero =>
      have hlt : s.shift.toNat < 32 := by
        rw [h.shift]
        decide
      have hx := partial_dividend h hc (by decide)
      obtain ⟨hans, hr⟩ := chunk_quot h hN (by decide) hx
      have hround := round_shifted hlt
      rw [h.shift] at hround
      rw [Nat.mul_zero, Nat.pow_zero, Nat.div_one] at hans hr
      refine ⟨s.shifted ((s.n >>> 0) &&& s.mask), ?_, hans, hr, hsmall.shifted hx⟩
      rw [mutUint64UdivLow, hround]
      rfl
  | succ j ih =>
      obtain ⟨m₁, s₁, hround, hready, hcovers, hsmall₁⟩ :=
        round_ready h hc hsmall hN (by omega)
      obtain ⟨s', hloop, hans, hr, hsmall'⟩ := ih hready hcovers hsmall₁ (by omega)
      refine ⟨s', ?_, hans, hr, ?_⟩
      · rw [mutUint64UdivLow, hround]
        exact hloop
      · rw [show n + (j + 1) + 1 = n + 1 + j + 1 from by omega]
        exact hsmall'

/-- Before the first chunk of the high word. -/
def Udiv.upper (hi : Word) : Udiv :=
  { n := hi, ans := 0, shift := mutUint64InitShift, mask := mutUint64ChunkMask, r := 0
    partials := [] }

/-- Before the first chunk of the low word, which comes with the remainder of the high
word. -/
def Udiv.lower (s : Udiv) (lo : Word) : Udiv :=
  { s with n := lo, ans := 0, shift := mutUint64InitShift, mask := mutUint64TwoChunkMask }

theorem upper_ready (hi : Word) : (Udiv.upper hi).Ready hi.toNat 28 4 := by
  have hnone : hi.toNat / 2 ^ 32 = 0 := Nat.div_eq_of_lt hi.isLt
  refine ⟨rfl, ?_, ?_, by decide, ?_⟩
  · intro i _
    exact (BitVec.testBit_toNat hi).symm
  · intro i _
    exact chunkMask_bit i
  · rw [hnone]
    rfl

theorem upper_covers (hi : Word) : (Udiv.upper hi).Covers hi.toNat 28 4 := by
  refine ⟨fun i hi4 => absurd hi4 (by omega), ?_⟩
  rw [Nat.div_eq_of_lt hi.isLt]
  decide

theorem lower_ready (lo : Word) (hr : s.r.toNat < 10) :
    (s.lower lo).Ready (s.r.toNat * 2 ^ 32 + lo.toNat) 28 8 := by
  have hlo := lo.isLt
  have habove : (s.r.toNat * 2 ^ 32 + lo.toNat) / 2 ^ 32 = s.r.toNat := by omega
  refine ⟨rfl, ?_, ?_, by decide, ?_⟩
  · intro i hi
    show lo.getLsbD i = _
    rw [Nat.mul_comm, Nat.testBit_two_pow_mul_add _ hlo, if_pos (by omega), BitVec.testBit_toNat]
  · intro i _
    exact twoChunkMask_bit i
  · rw [habove, Nat.div_eq_of_lt hr]
    rfl

/-- The first partial dividend of the low word. -/
def Udiv.carried (s : Udiv) (lo : Word) : Word :=
  ((s.r <<< mutUint64ChunkBits) ||| (lo >>> mutUint64InitShift)) &&& mutUint64TwoChunkMask

theorem carried_dividend (lo : Word) (hr : s.r.toNat < 10) :
    (s.carried lo).toNat = bringDown 16 10 ((s.r.toNat * 2 ^ 32 + lo.toNat) / 2 ^ 28) := by
  have hlo := lo.isLt
  have hchunk : lo.toNat / 2 ^ 28 < 2 ^ 4 := by omega
  have hroom : s.r.toNat <<< 4 < 2 ^ 32 := by
    rw [Nat.shiftLeft_eq]
    omega
  have hor : ((s.r <<< mutUint64ChunkBits) ||| (lo >>> mutUint64InitShift)).toNat =
      16 * s.r.toNat + lo.toNat / 2 ^ 28 := by
    show ((s.r <<< 4) ||| (lo >>> 28)).toNat = _
    rw [BitVec.toNat_or, BitVec.toNat_shiftLeft, Nat.mod_eq_of_lt hroom,
      BitVec.toNat_ushiftRight, Nat.shiftRight_eq_div_pow,
      ← Nat.shiftLeft_add_eq_or_of_lt hchunk, Nat.shiftLeft_eq, Nat.mul_comm]
  have hx : (s.carried lo).toNat = 16 * s.r.toNat + lo.toNat / 2 ^ 28 := by
    unfold Udiv.carried
    rw [BitVec.toNat_and, hor]
    show _ &&& (2 ^ 8 - 1) = _
    rw [Nat.and_two_pow_sub_one_eq_mod]
    omega
  have hq : (s.r.toNat * 2 ^ 32 + lo.toNat) / 2 ^ 28 = 16 * s.r.toNat + lo.toNat / 2 ^ 28 := by
    omega
  rw [hx, hq]
  unfold bringDown
  omega

/-- The low word is divided with the remainder of the high word in front of it. -/
theorem lower_quot {n : Nat} (lo : Word) (hr : s.r.toNat < 10) (hsmall : s.Small n) :
    ∃ s₁ s', (s.lower lo).next (s.carried lo) = some s₁ ∧ mutUint64UdivLow 7 s₁ = some s' ∧
      s'.ans.toNat = (s.r.toNat * 2 ^ 32 + lo.toNat) / 10 ∧
      s'.r.toNat = (s.r.toNat * 2 ^ 32 + lo.toNat) % 10 ∧ s'.Small (n + 8) := by
  have hlo := lo.isLt
  have hready := lower_ready lo hr
  have hx := carried_dividend lo hr
  have hlower : (s.lower lo).Small n := ⟨hsmall.count, hsmall.small⟩
  have hbeyond : ∀ i, i + 4 < 8 → (s.lower lo).n.getLsbD (24 + 8 + i) = false := by
    intro i _
    exact BitVec.getLsbD_of_ge _ _ (by omega)
  generalize hN : s.r.toNat * 2 ^ 32 + lo.toNat = N at hready hx ⊢
  have hbound : N < 10 * 2 ^ 32 := by omega
  obtain ⟨m₁, hready₁, hcovers₁⟩ :=
    next_ready (k := 24) hready hbound (by decide) hx fun _ => hbeyond
  obtain ⟨s', hlow, hans, hrem, hsmall'⟩ :=
    udivLow_quot (j := 6) hready₁ hcovers₁ (hlower.shifted hx) hbound (by decide)
  exact ⟨_, s', next_shifted (by rw [hready.shift]; decide) _, hlow, hans, hrem, hsmall'⟩

/-- The division of both words. -/
theorem udiv10_eq (n : Uint64) :
    mutUint64Udiv10 n = (mutUint64UdivHigh 32 (.upper n.hi)).bind fun s =>
      (((s.chunk (s.n &&& s.mask)).lower n.lo).next
        ((s.chunk (s.n &&& s.mask)).carried n.lo)).bind fun s₁ =>
          (mutUint64UdivLow 7 s₁).bind fun s' =>
            some { r := s'.r, n := { hi := (s.chunk (s.n &&& s.mask)).ans, lo := s'.ans },
                   partials := s'.partials } := rfl

/-- Every counter is divided by ten, in 16 partial dividends. -/
theorem udiv10_quot (n : Uint64) :
    ∃ a, mutUint64Udiv10 n = some a ∧ a.r.toNat = n.val % 10 ∧ a.n.val = n.val / 10 ∧
      a.partials.length = 16 ∧ ∀ x ∈ a.partials, x.toNat < 160 := by
  have hN : n.hi.toNat < 10 * 2 ^ 32 := by
    have hhi := n.hi.isLt
    omega
  obtain ⟨m, s, hloop, hready, hcovers, hsmall⟩ :=
    udivHigh_ready (j := 6) (l := 32) (upper_ready n.hi) (upper_covers n.hi) ⟨rfl, nofun⟩ hN
      (by decide) (by decide)
  have hx := partial_dividend hready hcovers (by decide)
  rw [BitVec.ushiftRight_zero] at hx
  obtain ⟨hans, hr⟩ := chunk_quot hready hN (by decide) hx
  rw [Nat.pow_zero, Nat.div_one] at hans hr
  have hr10 : (s.chunk (s.n &&& s.mask)).r.toNat < 10 := by
    rw [hr]
    exact Nat.mod_lt _ (by decide)
  obtain ⟨s₁, s', hnext, hlow, hans', hr', hsmall'⟩ := lower_quot n.lo hr10 (hsmall.chunk hx)
  have hrun : mutUint64Udiv10 n = some
      { r := s'.r, n := { hi := (s.chunk (s.n &&& s.mask)).ans, lo := s'.ans },
        partials := s'.partials } := by
    rw [udiv10_eq, hloop, Option.bind_some, hnext, Option.bind_some, hlow, Option.bind_some]
  have hwords := two_words n.hi.toNat (show 0 < 10 by decide) n.lo.isLt
  refine ⟨_, hrun, ?_, ?_, hsmall'.count, hsmall'.small⟩
  · show s'.r.toNat = n.val % 10
    rw [hr', hr]
    exact hwords.2.symm
  · show (s.chunk (s.n &&& s.mask)).ans.toNat * 2 ^ 32 + s'.ans.toNat = n.val / 10
    rw [hans', hans, hr]
    exact hwords.1.symm

/-- For every two words the remainder is returned and the two words of the quotient are
left.  The 16 partial dividends are below 160, so that what each of them adds to the
quotient is a nibble; and no shift is by 32 or more, for the result would be `none`. -/
theorem udiv10_exact (hi lo : Word) :
    ∃ a, mutUint64Udiv10 ⟨hi, lo⟩ = some a ∧
      a.r.toNat = (hi.toNat * 2 ^ 32 + lo.toNat) % 10 ∧
      a.n.hi.toNat = (hi.toNat * 2 ^ 32 + lo.toNat) / 10 / 2 ^ 32 ∧
      a.n.lo.toNat = (hi.toNat * 2 ^ 32 + lo.toNat) / 10 % 2 ^ 32 ∧
      a.partials.length = 16 ∧ ∀ x ∈ a.partials, x.toNat < 160 ∧ x.toNat / 10 < 16 := by
  obtain ⟨a, hrun, hr, hn, hcount, hsmall⟩ := udiv10_quot ⟨hi, lo⟩
  have hlow := a.n.lo.isLt
  have hval : a.n.hi.toNat * 2 ^ 32 + a.n.lo.toNat = (hi.toNat * 2 ^ 32 + lo.toNat) / 10 := hn
  refine ⟨a, hrun, hr, ?_, ?_, hcount, ?_⟩
  · rw [← hval]
    omega
  · rw [← hval]
    omega
  · intro x hx
    have hlt := hsmall x hx
    exact ⟨hlt, by omega⟩

/-! ## Writing the digits -/

/-- The characters of the decimal numeral. -/
def numeral (v : Nat) : List (BitVec 8) := (Nat.toDigits 10 v).map fun c => BitVec.ofNat 8 c.toNat

/-- The character of a digit. -/
def digitByte (d : Nat) : BitVec 8 := BitVec.ofNat 8 (48 + d)

theorem numeral_small {v : Nat} (h : v < 10) : numeral v = [digitByte v] := by
  rw [numeral, Nat.toDigits_of_lt_base h, List.map_singleton, Nat.toNat_digitChar_of_lt_ten h]
  rfl

theorem numeral_large {v : Nat} (h : 10 ≤ v) :
    numeral v = numeral (v / 10) ++ [digitByte (v % 10)] := by
  have hlt : v % 10 < 10 := Nat.mod_lt _ (by decide)
  rw [numeral, Nat.toDigits_of_base_le (by decide) h, List.map_append, List.map_singleton,
    Nat.toNat_digitChar_of_lt_ten hlt]
  rfl

theorem numeral_length {v : Nat} (h : v < 2 ^ 64) : (numeral v).length ≤ 20 := by
  rw [numeral, List.length_map, Nat.length_toDigits_le_iff (by decide) (by decide)]
  exact Nat.lt_trans h (by decide)

/-- Only the numeral of 0 begins with a 0. -/
theorem numeral_head {v : Nat} (h : (numeral v).head? = some (digitByte 0)) : v = 0 := by
  induction v using Nat.strongRecOn with
  | ind v ih =>
      by_cases hsmall : v < 10
      · rw [numeral_small hsmall] at h
        have hbyte : digitByte v = digitByte 0 := Option.some.inj h
        unfold digitByte at hbyte
        have hval := congrArg BitVec.toNat hbyte
        simp only [BitVec.toNat_ofNat] at hval
        omega
      · rw [numeral_large (by omega)] at h
        have hne : numeral (v / 10) ≠ [] := by
          intro hnil
          exact Nat.toDigits_ne_nil (List.map_eq_nil_iff.1 hnil)
        obtain ⟨b, bs, hcons⟩ := List.exists_cons_of_ne_nil hne
        have hhead : (numeral (v / 10)).head? = some (digitByte 0) := by
          rw [hcons] at h ⊢
          exact h
        have hzero := ih (v / 10) (by omega) hhead
        omega

/-- The buffer holds the characters `t` from the index on, and the terminator after them;
the digits were put at indices below that of the terminator. -/
structure Out.Holds (t : List (BitVec 8)) (s : Out) : Prop where
  room : s.i.toNat + t.length = 20
  text : ∀ j, s.i.toNat + j < 20 → s.buffer (BitVec.ofNat 32 (s.i.toNat + j)) = t[j]?
  terminated : s.buffer 20 = some 0
  used : ∀ i ∈ s.used, i.toNat ≤ 20
  below : ∀ i ∈ s.digits, i.toNat ≤ 19
  count : s.digits.length = t.length

/-- The next digit. -/
def Out.put (s : Out) (c : BitVec 8) : Out :=
  { buffer := fun j => if j = s.i - 1 then some c else s.buffer j, i := s.i - 1
    used := s.used ++ [s.i - 1], digits := s.digits ++ [s.i - 1] }

variable {t : List (BitVec 8)}

theorem put_holds {o : Out} (h : o.Holds t) (ht : t.length < 20) (c : BitVec 8) :
    (o.put c).Holds (c :: t) := by
  have hroom := h.room
  have hi : (o.i - 1).toNat = o.i.toNat - 1 := BitVec.toNat_sub_of_le (by
    show 1 ≤ o.i.toNat
    omega)
  refine ⟨?_, ?_, ?_, ?_, ?_, ?_⟩
  · show (o.i - 1).toNat + (t.length + 1) = 20
    omega
  · intro j hj
    have hj : (o.i - 1).toNat + j < 20 := hj
    show (if BitVec.ofNat 32 ((o.i - 1).toNat + j) = o.i - 1 then some c else _) = _
    cases j with
    | zero =>
        rw [if_pos (by rw [Nat.add_zero, BitVec.ofNat_toNat, BitVec.setWidth_eq])]
        rfl
    | succ j =>
        have hne : BitVec.ofNat 32 ((o.i - 1).toNat + (j + 1)) ≠ o.i - 1 := by
          intro heq
          have hval := congrArg BitVec.toNat heq
          rw [BitVec.toNat_ofNat] at hval
          omega
        have hnext : (o.i - 1).toNat + (j + 1) = o.i.toNat + j := by omega
        rw [if_neg hne, List.getElem?_cons_succ]
        show o.buffer (BitVec.ofNat 32 ((o.i - 1).toNat + (j + 1))) = t[j]?
        rw [hnext]
        exact h.text j (by omega)
  · have hne : (20 : Word) ≠ o.i - 1 := by
      intro heq
      have hval := congrArg BitVec.toNat heq
      have h20 : (20 : Word).toNat = 20 := rfl
      omega
    show (if (20 : Word) = o.i - 1 then some c else o.buffer 20) = some 0
    rw [if_neg hne]
    exact h.terminated
  · intro i hmem
    rcases List.mem_append.1 hmem with hmem | hmem
    · exact h.used i hmem
    · rw [List.mem_singleton.1 hmem]
      omega
  · intro i hmem
    rcases List.mem_append.1 hmem with hmem | hmem
    · exact h.below i hmem
    · rw [List.mem_singleton.1 hmem]
      omega
  · show (o.digits ++ [o.i - 1]).length = (c :: t).length
    rw [List.length_append, h.count]
    rfl

/-- A round of the loop puts the last digit. -/
theorem outDigits_round {o : Out} {l : Nat} (h : o.Holds t) (ht : t.length < 20) (ui : Uint64) :
    ∃ ui' : Uint64, ui'.val = ui.val / 10 ∧
      mutUint64OutDigits (l + 1) ui o =
        if ui' = ⟨0, 0⟩ then .ok (o.put (digitByte (ui.val % 10)))
        else mutUint64OutDigits l ui' (o.put (digitByte (ui.val % 10))) := by
  obtain ⟨a, hrun, hr, hn, -⟩ := udiv10_quot ui
  have hroom := h.room
  have hdigit : a.r < 10 := by
    show a.r.toNat < 10
    rw [hr]
    exact Nat.mod_lt _ (by decide)
  have hbyte : (a.r + 48).setWidth 8 = digitByte (ui.val % 10) := by
    apply BitVec.eq_of_toNat_eq
    have hlt : ui.val % 10 < 10 := Nat.mod_lt _ (by decide)
    rw [BitVec.toNat_setWidth, BitVec.toNat_add, hr, digitByte, BitVec.toNat_ofNat]
    show (ui.val % 10 + 48) % 2 ^ 32 % 2 ^ 8 = _
    omega
  have hinside : (o.i - 1).toNat < mutUint64MaxDecimalChars + 1 := by
    show (o.i - 1).toNat < 21
    rw [BitVec.toNat_sub_of_le (show 1 ≤ o.i.toNat by omega)]
    show o.i.toNat - 1 < 21
    omega
  refine ⟨a.n, hn, ?_⟩
  rw [mutUint64OutDigits, hrun]
  simp only [hdigit, if_true, Out.set, hinside, hbyte]
  by_cases hzero : a.n = ⟨0, 0⟩
  · have hdone : ¬ (a.n.hi ≠ 0 ∨ a.n.lo ≠ 0) := by
      rw [hzero]
      decide
    rw [if_pos hzero]
    exact if_neg hdone
  · have hmore : a.n.hi ≠ 0 ∨ a.n.lo ≠ 0 := by
      by_cases hhi : a.n.hi = 0
      · refine .inr fun hlo => hzero ?_
        show (⟨a.n.hi, a.n.lo⟩ : Uint64) = ⟨0, 0⟩
        rw [hhi, hlo]
      · exact .inl hhi
    rw [if_neg hzero]
    exact if_pos hmore

/-- The loop puts the numeral in front of the characters already there. -/
theorem outDigits_holds {o : Out} {l : Nat} (ui : Uint64) (h : o.Holds t)
    (hfits : (numeral ui.val).length + t.length ≤ 20) (hl : (numeral ui.val).length ≤ l) :
    ∃ o', mutUint64OutDigits l ui o = .ok o' ∧ o'.Holds (numeral ui.val ++ t) := by
  induction l generalizing ui o t with
  | zero =>
      have hnil : numeral ui.val = [] := List.length_eq_zero_iff.1 (Nat.le_zero.1 hl)
      exact absurd (List.map_eq_nil_iff.1 hnil) Nat.toDigits_ne_nil
  | succ l ih =>
      have hpos : 0 < (numeral ui.val).length := by
        apply List.length_pos_iff.2
        intro hnil
        exact Nat.toDigits_ne_nil (List.map_eq_nil_iff.1 hnil)
      obtain ⟨ui', hval, hround⟩ := outDigits_round (l := l) h (by omega) ui
      have hput := put_holds h (by omega) (digitByte (ui.val % 10))
      rw [hround]
      by_cases hsmall : ui.val < 10
      · have hzero : ui' = ⟨0, 0⟩ := by
          have hval0 : ui'.hi.toNat * 2 ^ 32 + ui'.lo.toNat = 0 := by
            show ui'.val = 0
            rw [hval, Nat.div_eq_of_lt hsmall]
          have hhi : ui'.hi = 0 := BitVec.eq_of_toNat_eq (by show ui'.hi.toNat = 0; omega)
          have hlo : ui'.lo = 0 := BitVec.eq_of_toNat_eq (by show ui'.lo.toNat = 0; omega)
          show (⟨ui'.hi, ui'.lo⟩ : Uint64) = ⟨0, 0⟩
          rw [hhi, hlo]
        rw [if_pos hzero]
        rw [Nat.mod_eq_of_lt hsmall] at hput ⊢
        rw [numeral_small hsmall]
        exact ⟨_, rfl, hput⟩
      · have hmore : ui' ≠ ⟨0, 0⟩ := by
          intro hzero
          have hval0 : ui'.val = 0 := by
            rw [hzero]
            rfl
          omega
        have hsplit := numeral_large (v := ui.val) (by omega)
        have hlen : (numeral ui.val).length = (numeral ui'.val).length + 1 := by
          rw [hsplit, hval, List.length_append]
          rfl
        rw [if_neg hmore]
        obtain ⟨o', hloop, hholds⟩ := ih ui' hput
          (by rw [List.length_cons]; omega) (by omega)
        refine ⟨o', hloop, ?_⟩
        rw [hsplit, ← hval, List.append_assoc]
        exact hholds

/-- `fputs` writes the characters up to the terminator. -/
theorem puts_holds {o : Out} (h : o.Holds t) (hchars : ∀ c ∈ t, c ≠ 0) {j : Nat}
    (hj : j ≤ t.length) :
    o.puts (t.length - j + 1) (BitVec.ofNat 32 (o.i.toNat + j)) = .ok (t.drop j) := by
  have hroom := h.room
  induction hleft : t.length - j generalizing j with
  | zero =>
      have hend : o.i.toNat + j = 20 := by omega
      rw [hend, List.drop_eq_nil_of_le (by omega)]
      unfold Out.puts
      rw [show BitVec.ofNat 32 20 = (20 : Word) from rfl, h.terminated]
      rfl
  | succ left ih =>
      have hlt : j < t.length := by omega
      unfold Out.puts
      rw [h.text j (by omega), List.getElem?_eq_getElem hlt, List.drop_eq_getElem_cons hlt]
      have hchar : t[j] ≠ 0 := hchars _ (List.getElem_mem hlt)
      have hnext : BitVec.ofNat 32 (o.i.toNat + j) + 1 = BitVec.ofNat 32 (o.i.toNat + (j + 1)) := by
        rw [← Nat.add_assoc]
        exact (BitVec.ofNat_add _ 1).symm
      have hrest := ih (j := j + 1) (by omega) (by omega)
      simp only [if_neg hchar, hnext, hrest]
      rfl

/-- A digit's character is not the terminator. -/
theorem numeral_chars {v : Nat} : ∀ c ∈ numeral v, c ≠ 0 := by
  induction v using Nat.strongRecOn with
  | ind v ih =>
      have hdigit : ∀ d, d < 10 → digitByte d ≠ 0 := by decide
      by_cases hsmall : v < 10
      · rw [numeral_small hsmall]
        intro c hc
        rw [List.mem_singleton.1 hc]
        exact hdigit v hsmall
      · rw [numeral_large (by omega)]
        intro c hc
        rcases List.mem_append.1 hc with hc | hc
        · exact ih (v / 10) (by omega) c hc
        · rw [List.mem_singleton.1 hc]
          exact hdigit _ (Nat.mod_lt _ (by decide))

/-- The buffer with the terminator alone. -/
def Out.opened : Out :=
  { buffer := fun j => if j = BitVec.ofNat 32 mutUint64MaxDecimalChars then some 0 else none
    i := BitVec.ofNat 32 mutUint64MaxDecimalChars
    used := [BitVec.ofNat 32 mutUint64MaxDecimalChars], digits := [] }

theorem opened_holds : Out.opened.Holds [] := by
  refine ⟨rfl, ?_, rfl, ?_, nofun, rfl⟩
  · intro j hj
    have hout : 20 + j < 20 := hj
    omega
  · intro i hi
    rw [List.mem_singleton.1 hi]
    decide

/-- The whole function. -/
theorem out_eq (eof : Bool) (v : Uint64) :
    mutUint64Out eof v = (mutUint64OutDigits 64 v .opened).bind fun o =>
      (o.puts (mutUint64MaxDecimalChars + 1 - o.i.toNat) o.i).bind fun text =>
        .ok { text, ok := !eof, used := o.used, digits := o.digits } := by
  unfold mutUint64Out
  rfl

/-- For every counter `mut_uint64_out` writes its decimal numeral and nothing else, after
one division for each digit and at most 20; no assertion fails, no digit is put beyond
index 19, and the only other index is that of the terminator. -/
theorem out_exact (eof : Bool) (v : Uint64) :
    ∃ w, mutUint64Out eof v = .ok w ∧ w.text = numeral v.val ∧ w.ok = !eof ∧
      (w.text.head? = some (digitByte 0) → v.val = 0) ∧
      w.digits.length = w.text.length ∧ w.digits.length ≤ 20 ∧
      (∀ i ∈ w.digits, i.toNat ≤ 19) ∧ ∀ i ∈ w.used, i.toNat ≤ 20 := by
  have hlen := numeral_length v.val_lt
  have hfits : (numeral v.val).length + ([] : List (BitVec 8)).length ≤ 20 := by
    rw [List.length_nil, Nat.add_zero]
    exact hlen
  have hrounds : (numeral v.val).length ≤ 64 := Nat.le_trans hlen (by decide)
  obtain ⟨o, hloop, hholds⟩ := outDigits_holds v opened_holds hfits hrounds
  rw [List.append_nil] at hholds
  have hroom := hholds.room
  have hputs := puts_holds hholds numeral_chars (Nat.zero_le _)
  have hfirst : BitVec.ofNat 32 (o.i.toNat + 0) = o.i :=
    (BitVec.ofNat_toNat 32 o.i).trans (BitVec.setWidth_eq o.i)
  rw [Nat.sub_zero, hfirst, List.drop_zero] at hputs
  have hleft : mutUint64MaxDecimalChars + 1 - o.i.toNat = (numeral v.val).length + 1 := by
    show 20 + 1 - o.i.toNat = _
    omega
  have hcount : o.digits.length ≤ 20 := by
    rw [hholds.count]
    exact hlen
  refine ⟨{ text := numeral v.val, ok := !eof, used := o.used, digits := o.digits }, ?_, rfl, rfl,
    numeral_head, hholds.count, hcount, hholds.below, hholds.used⟩
  rw [out_eq, hloop]
  show (o.puts (mutUint64MaxDecimalChars + 1 - o.i.toNat) o.i).bind _ = _
  rw [hleft, hputs]
  rfl

/-- The terminator is put at index 20. -/
theorem out_terminator :
    ∃ w, mutUint64Out false ⟨0, 0⟩ = .ok w ∧ w.digits = [19] ∧ ∃ i ∈ w.used, ¬ i.toNat ≤ 19 := by
  have hrun : (mutUint64Out false ⟨0, 0⟩).toOption = some ⟨[48], true, [20, 19], [19]⟩ := by
    decide +kernel
  cases h : mutUint64Out false ⟨0, 0⟩ with
  | error e =>
      rw [h] at hrun
      cases hrun
  | ok w =>
      rw [h] at hrun
      cases hrun
      exact ⟨_, rfl, rfl, 20, by decide, by decide⟩

end MutTracker.Source
