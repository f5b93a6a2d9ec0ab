import Mathlib.Data.BitVec
import Mathlib.Tactic.Abel
import MutTracker.Logic.Bytes

/-!
# Filling and copying ranges word by word

Words are stored in either byte order: `place i` is the byte of a word that is
stored `i` bytes above its address.  A range is filled or copied a word at a
time, and what is left over is put into the last word by masking: `merge v o n`
is `v` with the low `4 - n` bytes of the old word `o` or-ed into it.

Whole words are filled and copied exactly.  The last word is right only when
its bytes happen to be `Clean`.

## Main results

* `byteAt_readIn`, `writeIn_within`, `writeIn_without` — the bytes of a word.
* `fillWords_apply`, `copyWords_apply` — whole words.
* `writeIn_merge_iff` — the last word.
* `fillRange_iff`, `copyRange_iff` — whole ranges.
-/

namespace MutTracker.Logic

/-- The order in which the bytes of a word are stored. -/
inductive Endian where
  | little
  | big
  deriving DecidableEq, Repr

namespace Memory

variable {m : Memory} {a b x v o : BitVec 32} {e : Endian} {i n k : Nat}

/-! ## Words in either order -/

/-- The byte of a word, counted from the least significant, that is stored `i`
above its address. -/
def place (e : Endian) (i : Nat) : Nat :=
  match e with
  | .little => i
  | .big => 3 - i

/-- The word at `a`. -/
def readIn (e : Endian) (m : Memory) (a : BitVec 32) : BitVec 32 :=
  match e with
  | .little => m.readWord a
  | .big => readWord (fun x => m (a + 3 - x)) 0

/-- Replace the word at `a` by `v`. -/
def writeIn (e : Endian) (m : Memory) (a v : BitVec 32) : Memory := fun x =>
  if Within x a then byteAt v (place e (x - a).toNat) else m x

theorem writeIn_within (h : Within x a) :
    writeIn e m a v x = byteAt v (place e (x - a).toNat) := if_pos h

theorem writeIn_without (h : ¬ Within x a) : writeIn e m a v x = m x := if_neg h

/-- The bytes of the word at `a` are those stored from `a` on. -/
theorem byteAt_readIn (h : Within x a) : byteAt (readIn e m a) (place e (x - a).toNat) = m x := by
  cases e with
  | little => exact byteAt_readWord h
  | big =>
      have hthree : 3 - (x - a).toNat < 4 := by omega
      have hself : (BitVec.ofNat 32 (3 - (x - a).toNat) - 0).toNat = 3 - (x - a).toNat := by
        have hx := h
        unfold Within at hx
        bv_omega
      have hbyte := byteAt_readWord (m := fun y => m (a + 3 - y)) (a := 0)
        (x := BitVec.ofNat 32 (3 - (x - a).toNat)) (by
          unfold Within
          rw [hself]
          exact hthree)
      rw [hself] at hbyte
      refine Eq.trans hbyte (congrArg m ?_)
      have hx := h
      unfold Within at hx
      bv_omega

/-! ## The last word -/

/-- The low `4 - n` bytes of a word. -/
def lowMask (n : Nat) : BitVec 32 := (1 <<< ((4 - n) * 8)) - 1

/-- The word `v` with the low `4 - n` bytes of `o` or-ed into it. -/
def merge (v o : BitVec 32) (n : Nat) : BitVec 32 := v ||| (o &&& lowMask n)

theorem lowMask_getLsbD (hn : 0 < n) (hn' : n < 4) (i : Nat) :
    (lowMask n).getLsbD i = decide (i < (4 - n) * 8) := by
  obtain rfl | rfl | rfl : n = 1 ∨ n = 2 ∨ n = 3 := by omega
  all_goals
    by_cases hi : i < 32
    · revert i
      decide
    · rw [BitVec.getLsbD_of_ge _ _ (Nat.not_lt.1 hi)]
      exact (decide_eq_false (by omega)).symm

theorem byte_or_zero (b : BitVec 8) : b ||| 0 = b := BitVec.or_zero

theorem byteAt_merge (hn : 0 < n) (hn' : n < 4) (i : Nat) :
    byteAt (merge v o n) i = byteAt v i ||| if i < 4 - n then byteAt o i else 0 := by
  have hmask := lowMask_getLsbD hn hn'
  by_cases hlow : i < 4 - n
  · rw [if_pos hlow]
    ext j hj
    have hin : 8 * i + j < (4 - n) * 8 := by omega
    simp only [byteAt, merge, BitVec.getElem_or, BitVec.getElem_extractLsb', BitVec.getLsbD_or,
      BitVec.getLsbD_and, hmask, hin, decide_true, Bool.and_true]
  · rw [if_neg hlow, byte_or_zero]
    ext j hj
    have hout : ¬ 8 * i + j < (4 - n) * 8 := by omega
    simp only [byteAt, merge, BitVec.getElem_extractLsb', BitVec.getLsbD_or, BitVec.getLsbD_and,
      hmask, hout, decide_false, Bool.and_false, Bool.or_false]

/-- Merging the bytes `new` into the bytes `old` for the first `n` of them
happens to give the first `n` of `new` and the rest of `old`. -/
def Clean (e : Endian) (n : Nat) (new old : Nat → BitVec 8) : Prop :=
  ∀ i, i < 4 →
    if place e i < 4 - n then new i ||| old i = if i < n then new i else old i
    else i < n ∨ new i = old i

instance {new old : Nat → BitVec 8} : Decidable (Clean e n new old) :=
  inferInstanceAs (Decidable (∀ i, i < 4 → _))

/-- Only the four bytes matter. -/
theorem Clean.congr {new new' old old' : Nat → BitVec 8} (hnew : ∀ i, i < 4 → new i = new' i)
    (hold : ∀ i, i < 4 → old i = old' i) : Clean e n new old ↔ Clean e n new' old' := by
  refine forall_congr' fun i => imp_congr_right fun hi => ?_
  rw [hnew i hi, hold i hi]

/-- A last word of `n` bytes is merged into the old one as it should be exactly
when its bytes are clean. -/
theorem writeIn_merge_iff (hn : 0 < n) (hn' : n < 4) :
    (∀ x, Within x a → writeIn e m a (merge v (readIn e m a) n) x =
      if (x - a).toNat < n then byteAt v (place e (x - a).toNat) else m x) ↔
      Clean e n (fun i => byteAt v (place e i)) fun i => m (a + BitVec.ofNat 32 i) := by
  have hbyte : ∀ i, i < 4 → writeIn e m a (merge v (readIn e m a) n) (a + BitVec.ofNat 32 i) =
      byteAt v (place e i) |||
        if place e i < 4 - n then m (a + BitVec.ofNat 32 i) else 0 := by
    intro i hi
    have hwithin : Within (a + BitVec.ofNat 32 i) a := within_add hi
    have hoff : (a + BitVec.ofNat 32 i - a).toNat = i := by bv_omega
    have hold := byteAt_readIn (e := e) (m := m) hwithin
    rw [hoff] at hold
    rw [writeIn_within hwithin, hoff, byteAt_merge hn hn' (place e i), hold]
  constructor
  · intro h i hi
    have hi' := h _ (within_add hi)
    have hoff : (a + BitVec.ofNat 32 i - a).toNat = i := by bv_omega
    rw [hbyte i hi, hoff] at hi'
    by_cases hkept : place e i < 4 - n
    · rw [if_pos hkept] at hi' ⊢
      exact hi'
    · rw [if_neg hkept] at hi' ⊢
      by_cases hlow : i < n
      · exact .inl hlow
      · rw [if_neg hlow, byte_or_zero] at hi'
        exact .inr hi'
  · intro h x hx
    obtain ⟨i, hi, rfl⟩ : ∃ i, i < 4 ∧ x = a + BitVec.ofNat 32 i := by
      refine ⟨(x - a).toNat, hx, ?_⟩
      bv_omega
    have hoff : (a + BitVec.ofNat 32 i - a).toNat = i := by bv_omega
    have hclean := h i hi
    rw [hbyte i hi, hoff]
    by_cases hkept : place e i < 4 - n
    · rw [if_pos hkept] at hclean ⊢
      exact hclean
    · rw [if_neg hkept] at hclean ⊢
      rw [byte_or_zero]
      by_cases hlow : i < n
      · rw [if_pos hlow]
      · rw [if_neg hlow]
        exact hclean.resolve_left hlow

/-! ## Whole words -/

/-- Put `v` into `k` words from `a` on. -/
def fillWords (m : Memory) (v : BitVec 32) : Nat → BitVec 32 → Memory
  | 0, _ => m
  | k + 1, a => fillWords (m.writeWord a v) v k (a + 4)

/-- Copy `k` words from `src` on to `dest` on. -/
def copyWords (e : Endian) (m : Memory) : Nat → BitVec 32 → BitVec 32 → Memory
  | 0, _, _ => m
  | k + 1, dest, src => copyWords e (writeIn e m dest (readIn e m src)) k (dest + 4) (src + 4)

/-- A byte is so many bytes above the next word. -/
theorem sub_next (x a : BitVec 32) :
    (x - (a + 4)).toNat = (2 ^ 32 - 4 + (x - a).toNat) % 2 ^ 32 := by
  have h : x - (a + 4) = x - a - 4 := by abel
  rw [h, BitVec.toNat_sub]
  rfl

/-- `k` words that all have the byte `c` throughout. -/
theorem fillWords_apply {c : BitVec 8} (hc : ∀ i, i < 4 → byteAt v i = c) (k : Nat)
    (hk : 4 * k < 2 ^ 32) (a : BitVec 32) :
    fillWords m v k a x = if (x - a).toNat < 4 * k then c else m x := by
  induction k generalizing m a with
  | zero => exact (if_neg (Nat.not_lt_zero _)).symm
  | succ k ih =>
      rw [fillWords, ih (by omega)]
      have hnext := sub_next x a
      have hlt := (x - a).isLt
      by_cases hfirst : Within x a
      · have hin : (x - a).toNat < 4 * (k + 1) := by
          unfold Within at hfirst
          omega
        have hout : ¬ (x - (a + 4)).toNat < 4 * k := by
          unfold Within at hfirst
          omega
        rw [if_pos hin, if_neg hout, writeWord_within hfirst, hc _ hfirst]
      · rw [writeWord_without hfirst]
        have hiff : (x - (a + 4)).toNat < 4 * k ↔ (x - a).toNat < 4 * (k + 1) := by
          unfold Within at hfirst
          omega
        simp only [hiff]

/-- The `n` bytes from `a` on and those from `b` on have none in common. -/
def Disjoint (n : Nat) (a b : BitVec 32) : Prop := n ≤ (a - b).toNat ∧ n ≤ (b - a).toNat

/-- The byte at an offset from `src` is so many bytes above `dest`. -/
theorem sub_across (x dest src : BitVec 32) :
    (src + (x - dest) - dest).toNat = ((src - dest).toNat + (x - dest).toNat) % 2 ^ 32 := by
  have h : src + (x - dest) - dest = (src - dest) + (x - dest) := by abel
  rw [h, BitVec.toNat_add]

/-- The two offsets of disjoint ranges make up the whole memory. -/
theorem Disjoint.sum {n : Nat} (h : Disjoint n a b) (hn : 0 < n) :
    (a - b).toNat + (b - a).toNat = 2 ^ 32 := by
  have hab : a - b = -(b - a) := by abel
  obtain ⟨hfirst, hsecond⟩ := h
  have hlt := (b - a).isLt
  rw [hab, BitVec.toNat_neg]
  omega

theorem Disjoint.next (h : Disjoint (4 * (k + 1)) a b) : Disjoint (4 * k) (a + 4) (b + 4) := by
  have hab : a + 4 - (b + 4) = a - b := by abel
  have hba : b + 4 - (a + 4) = b - a := by abel
  obtain ⟨hfirst, hsecond⟩ := h
  rw [Disjoint, hab, hba]
  omega

/-- A byte of the words that are copied is in none that was written. -/
theorem Disjoint.across {n : Nat} (h : Disjoint n a b) (hx : (x - a).toNat < n) (k : Nat)
    (hk : k ≤ n) : k ≤ (b + (x - a) - a).toNat := by
  have hsum := h.sum (Nat.lt_of_le_of_lt (Nat.zero_le _) hx)
  obtain ⟨hfirst, hsecond⟩ := h
  rw [sub_across]
  omega

/-- `k` words that do not overlap those they are copied from. -/
theorem copyWords_apply (k : Nat) (dest src : BitVec 32) (h : Disjoint (4 * k) dest src) :
    copyWords e m k dest src x =
      if (x - dest).toNat < 4 * k then m (src + (x - dest)) else m x := by
  induction k generalizing m dest src with
  | zero => exact (if_neg (Nat.not_lt_zero _)).symm
  | succ k ih =>
      have hnext := sub_next x dest
      have hlt := (x - dest).isLt
      have hroom : 4 * (k + 1) < 2 ^ 32 := Nat.lt_of_le_of_lt h.1 (dest - src).isLt
      rw [copyWords, ih _ _ h.next]
      by_cases hfirst : Within x dest
      · have hin : (x - dest).toNat < 4 * (k + 1) := by
          unfold Within at hfirst
          omega
        have hout : ¬ (x - (dest + 4)).toNat < 4 * k := by
          unfold Within at hfirst
          omega
        have hoff : src + (x - dest) - src = x - dest := by abel
        have hread : Within (src + (x - dest)) src := by
          unfold Within
          rw [hoff]
          exact hfirst
        have hbyte := byteAt_readIn (e := e) (m := m) hread
        rw [hoff] at hbyte
        rw [if_pos hin, if_neg hout, writeIn_within hfirst, hbyte]
      · rw [writeIn_without hfirst]
        have hiff : (x - (dest + 4)).toNat < 4 * k ↔ (x - dest).toNat < 4 * (k + 1) := by
          unfold Within at hfirst
          omega
        by_cases hin : (x - dest).toNat < 4 * (k + 1)
        · have hsame : src + 4 + (x - (dest + 4)) = src + (x - dest) := by abel
          have hapart : ¬ Within (src + (x - dest)) dest :=
            Nat.not_lt.2 (h.across hin 4 (by omega))
          rw [if_pos (hiff.2 hin), if_pos hin, hsame, writeIn_without hapart]
        · rw [if_neg (mt hiff.1 hin), if_neg hin]

/-! ## Whole ranges -/

/-- Where the last word of a range of `n` bytes is. -/
def lastWord (a : BitVec 32) (n : Nat) : BitVec 32 := a + BitVec.ofNat 32 (4 * (n / 4))

theorem within_lastWord (hn : n < 2 ^ 32) (h : Within x (lastWord a n)) :
    (x - a).toNat = 4 * (n / 4) + (x - lastWord a n).toNat := by
  have hsum : x - a = BitVec.ofNat 32 (4 * (n / 4)) + (x - lastWord a n) := by
    rw [lastWord]
    abel
  unfold Within at h
  rw [hsum, BitVec.toNat_add, BitVec.toNat_ofNat]
  omega

theorem without_lastWord (h : ¬ Within x (lastWord a n)) :
    (x - a).toNat < 4 * (n / 4) ∨ 4 * (n / 4) + 4 ≤ (x - a).toNat := by
  have hsum : x - lastWord a n = x - a - BitVec.ofNat 32 (4 * (n / 4)) := by
    rw [lastWord]
    abel
  unfold Within at h
  rw [hsum, BitVec.toNat_sub, BitVec.toNat_ofNat] at h
  omega

/-- Once the whole words of a range are as they should be, the rest of it is
exactly when its last word is merged cleanly. -/
theorem range_iff {m₁ : Memory} {g : BitVec 32 → BitVec 8} (hn : n < 2 ^ 32) (hr : n % 4 ≠ 0)
    (hwords : ∀ x, m₁ x = if (x - a).toNat < 4 * (n / 4) then g x else m x)
    (hv : ∀ x, Within x (lastWord a n) → byteAt v (place e (x - lastWord a n).toNat) = g x) :
    (∀ x, writeIn e m₁ (lastWord a n) (merge v (readIn e m₁ (lastWord a n)) (n % 4)) x =
      if (x - a).toNat < n then g x else m x) ↔
      Clean e (n % 4) (fun i => byteAt v (place e i))
        fun i => m (lastWord a n + BitVec.ofNat 32 i) := by
  have hold : ∀ x, Within x (lastWord a n) → m₁ x = m x := fun x hx => by
    have hoff := within_lastWord hn hx
    rw [hwords, if_neg (by omega)]
  have hclean := writeIn_merge_iff (m := m₁) (a := lastWord a n) (v := v) (e := e)
    (Nat.pos_of_ne_zero hr) (Nat.mod_lt n (by omega))
  have hbytes : Clean e (n % 4) (fun i => byteAt v (place e i))
      (fun i => m₁ (lastWord a n + BitVec.ofNat 32 i)) ↔
      Clean e (n % 4) (fun i => byteAt v (place e i))
        fun i => m (lastWord a n + BitVec.ofNat 32 i) :=
    Clean.congr (fun _ _ => rfl) fun i hi => hold _ (within_add hi)
  rw [← hbytes, ← hclean]
  constructor
  · intro h x hx
    have hoff := within_lastWord hn hx
    have hiff : (x - a).toNat < n ↔ (x - lastWord a n).toNat < n % 4 := by omega
    rw [h x, hold x hx, hv x hx]
    simp only [hiff]
  · intro h x
    by_cases hx : Within x (lastWord a n)
    · have hoff := within_lastWord hn hx
      have hiff : (x - a).toNat < n ↔ (x - lastWord a n).toNat < n % 4 := by omega
      rw [h x hx, hold x hx, hv x hx]
      simp only [hiff]
    · have hiff : (x - a).toNat < 4 * (n / 4) ↔ (x - a).toNat < n := by
        rcases without_lastWord hx with h | h
        · omega
        · omega
      rw [writeIn_without hx, hwords]
      simp only [hiff]

/-- Fill `n` bytes from `a` on with those of `v`. -/
def fillRange (m : Memory) (a v : BitVec 32) (n : Nat) : Memory :=
  let m := fillWords m v (n / 4) a
  if n % 4 = 0 then m
  else m.writeWord (lastWord a n) (merge v (m.readWord (lastWord a n)) (n % 4))

/-- Copy `n` bytes from `src` on to `dest` on. -/
def copyRange (e : Endian) (m : Memory) (dest src : BitVec 32) (n : Nat) : Memory :=
  let m := copyWords e m (n / 4) dest src
  if n % 4 = 0 then m
  else
    writeIn e m (lastWord dest n)
      (merge (readIn e m (lastWord src n)) (readIn e m (lastWord dest n)) (n % 4))

/-- A range is filled exactly when it is one of whole words or its last word is
merged cleanly. -/
theorem fillRange_iff {c : BitVec 8} (hc : ∀ i, i < 4 → byteAt v i = c) (hn : n < 2 ^ 32) :
    (∀ x, fillRange m a v n x = if (x - a).toNat < n then c else m x) ↔
      n % 4 = 0 ∨ Clean .little (n % 4) (fun _ => c)
        fun i => m (lastWord a n + BitVec.ofNat 32 i) := by
  have hwords : ∀ x, fillWords m v (n / 4) a x =
      if (x - a).toNat < 4 * (n / 4) then c else m x := fun x =>
    fillWords_apply hc (n / 4) (by omega) a
  by_cases hr : n % 4 = 0
  · have hwhole : 4 * (n / 4) = n := by omega
    refine iff_of_true (fun x => ?_) (.inl hr)
    rw [fillRange, if_pos hr, hwords, hwhole]
  · have hiff := range_iff (e := .little) (v := v) (g := fun _ => c) hn hr hwords
      fun x hx => hc _ hx
    have hclean : Clean .little (n % 4) (fun i => byteAt v (place .little i))
        (fun i => m (lastWord a n + BitVec.ofNat 32 i)) ↔
        Clean .little (n % 4) (fun _ => c)
          fun i => m (lastWord a n + BitVec.ofNat 32 i) :=
      Clean.congr (fun i hi => hc i hi) fun _ _ => rfl
    rw [or_iff_right hr, ← hclean, ← hiff]
    refine forall_congr' fun x => ?_
    rw [fillRange, if_neg hr]
    rfl

/-- A range is copied exactly when it is one of whole words or its last word is
merged cleanly. -/
theorem copyRange_iff {dest src : BitVec 32} (hn : n < 2 ^ 32)
    (h : Disjoint (4 * ((n + 3) / 4)) dest src) :
    (∀ x, copyRange e m dest src n x =
      if (x - dest).toNat < n then m (src + (x - dest)) else m x) ↔
      n % 4 = 0 ∨ Clean e (n % 4) (fun i => m (lastWord src n + BitVec.ofNat 32 i))
        fun i => m (lastWord dest n + BitVec.ofNat 32 i) := by
  have hfront : Disjoint (4 * (n / 4)) dest src := by
    obtain ⟨hfirst, hsecond⟩ := h
    constructor <;> omega
  have hwords : ∀ x, copyWords e m (n / 4) dest src x =
      if (x - dest).toNat < 4 * (n / 4) then m (src + (x - dest)) else m x := fun x =>
    copyWords_apply (n / 4) dest src hfront
  by_cases hr : n % 4 = 0
  · have hwhole : 4 * (n / 4) = n := by omega
    refine iff_of_true (fun x => ?_) (.inl hr)
    rw [copyRange, if_pos hr, hwords, hwhole]
  · have hlast : ∀ x, Within x (lastWord dest n) → src + (x - dest) =
        lastWord src n + (x - lastWord dest n) := fun x _ => by
      rw [lastWord, lastWord]
      abel
    -- no word that was written is in the last word to be read
    have hkept : ∀ y, Within y (lastWord src n) → copyWords e m (n / 4) dest src y = m y := by
      intro y hy
      have hoff := within_lastWord hn hy
      have hacross := h.across (x := dest + (y - src)) (by
        rw [show dest + (y - src) - dest = y - src by abel]
        unfold Within at hy
        omega) (4 * ((n + 3) / 4)) (Nat.le_refl _)
      have hsame : src + (dest + (y - src) - dest) = y := by abel
      rw [hsame] at hacross
      rw [hwords, if_neg (by omega)]
    have hv : ∀ x, Within x (lastWord dest n) →
        byteAt (readIn e (copyWords e m (n / 4) dest src) (lastWord src n))
          (place e (x - lastWord dest n).toNat) = m (src + (x - dest)) := by
      intro x hx
      have hoff : lastWord src n + (x - lastWord dest n) - lastWord src n =
          x - lastWord dest n := by abel
      have hread : Within (lastWord src n + (x - lastWord dest n)) (lastWord src n) := by
        unfold Within
        rw [hoff]
        exact hx
      have hbyte := byteAt_readIn (e := e) (m := copyWords e m (n / 4) dest src) hread
      rw [hoff] at hbyte
      rw [hbyte, hlast x hx, hkept _ hread]
    have hiff := range_iff (e := e) hn hr hwords hv
    have hclean : Clean e (n % 4)
        (fun i => byteAt (readIn e (copyWords e m (n / 4) dest src) (lastWord src n)) (place e i))
        (fun i => m (lastWord dest n + BitVec.ofNat 32 i)) ↔
        Clean e (n % 4) (fun i => m (lastWord src n + BitVec.ofNat 32 i))
          fun i => m (lastWord dest n + BitVec.ofNat 32 i) := by
      refine Clean.congr (fun i hi => ?_) fun _ _ => rfl
      have hoff : (lastWord src n + BitVec.ofNat 32 i - lastWord src n).toNat = i := by
        rw [show lastWord src n + BitVec.ofNat 32 i - lastWord src n = BitVec.ofNat 32 i by abel,
          BitVec.toNat_ofNat]
        omega
      have hbyte := byteAt_readIn (e := e) (m := copyWords e m (n / 4) dest src)
        (within_add (a := lastWord src n) hi)
      rw [hoff] at hbyte
      rw [hbyte, hkept _ (within_add hi)]
    rw [or_iff_right hr, ← hclean, ← hiff]
    refine forall_congr' fun x => ?_
    rw [copyRange, if_neg hr]

end Memory

end MutTracker.Logic
