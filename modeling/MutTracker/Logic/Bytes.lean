/-!
# Little-endian words in a byte memory

A memory gives every 32-bit address a byte; a word is the four bytes from its
address on, the least significant first, with addresses wrapping round at the
top.  Everything is said through the offset `x - a` of a byte `x` from the
word at `a`: the byte belongs to the word exactly when the offset is below
four.

## Main results

* `readWord_writeWord_self`, `readWord_writeWord_apart` — a write is seen by
  reads of the same word and by no read of a word apart from it.
* `writeWord_readWord` — writing a word back changes nothing.
* `writeWord_comm` — writes of words apart from each other commute.
* `readWord_eq_iff` — a word is its four bytes.
* `readWord_cover`, `readWord_cover_self`, `writeWord_cover` — one word put at
  several addresses.
-/

namespace MutTracker.Logic

/-- A byte for every 32-bit address. -/
abbrev Memory := BitVec 32 → BitVec 8

namespace Memory

/-- Byte `i` of a word, counted from the least significant. -/
def byteAt (v : BitVec 32) (i : Nat) : BitVec 8 := v.extractLsb' (8 * i) 8

/-- The byte `x` belongs to the word at `a`. -/
abbrev Within (x a : BitVec 32) : Prop := (x - a).toNat < 4

/-- The word at `a`. -/
def readWord (m : Memory) (a : BitVec 32) : BitVec 32 :=
  m (a + 3) ++ m (a + 2) ++ m (a + 1) ++ m a

/-- Replace the word at `a` by `v`. -/
def writeWord (m : Memory) (a v : BitVec 32) : Memory := fun x =>
  if Within x a then byteAt v (x - a).toNat else m x

variable {m m' : Memory} {a b x v v' : BitVec 32}

/-! ## Bytes of a word -/

theorem eq_of_within (h : Within x a) : x = a ∨ x = a + 1 ∨ x = a + 2 ∨ x = a + 3 := by
  unfold Within at h
  bv_omega

private theorem byteAt_join (b₀ b₁ b₂ b₃ : BitVec 8) :
    byteAt (b₃ ++ b₂ ++ b₁ ++ b₀) 0 = b₀ ∧ byteAt (b₃ ++ b₂ ++ b₁ ++ b₀) 1 = b₁ ∧
      byteAt (b₃ ++ b₂ ++ b₁ ++ b₀) 2 = b₂ ∧ byteAt (b₃ ++ b₂ ++ b₁ ++ b₀) 3 = b₃ := by
  refine ⟨?_, ?_, ?_, ?_⟩ <;>
  · ext i hi
    simp only [byteAt, BitVec.getElem_extractLsb', BitVec.getLsbD_append]
    repeat' split
    all_goals first
      | (exfalso; omega)
      | (rw [BitVec.getLsbD_eq_getElem (by omega)]; congr 1; omega)

private theorem join_byteAt (v : BitVec 32) :
    byteAt v 3 ++ byteAt v 2 ++ byteAt v 1 ++ byteAt v 0 = v := by
  ext i hi
  simp only [byteAt, BitVec.getElem_append, BitVec.getElem_extractLsb']
  repeat' split
  all_goals
    rw [BitVec.getLsbD_eq_getElem (by omega)]
    congr 1
    omega

theorem byteAt_readWord (h : Within x a) : byteAt (readWord m a) (x - a).toNat = m x := by
  have hself : ∀ d : BitVec 32, a + d - a = d := fun d => by bv_omega
  obtain ⟨h₀, h₁, h₂, h₃⟩ := byteAt_join (m a) (m (a + 1)) (m (a + 2)) (m (a + 3))
  rcases eq_of_within h with rfl | rfl | rfl | rfl
  · rw [BitVec.sub_self]; exact h₀
  · rw [hself]; exact h₁
  · rw [hself]; exact h₂
  · rw [hself]; exact h₃

theorem within_add {i : Nat} (hi : i < 4) : Within (a + BitVec.ofNat 32 i) a := by
  unfold Within
  bv_omega

/-- A word is its four bytes. -/
theorem readWord_eq_iff :
    readWord m a = readWord m' b ↔
      ∀ i, i < 4 → m (a + BitVec.ofNat 32 i) = m' (b + BitVec.ofNat 32 i) := by
  have hoff : ∀ (c : BitVec 32) {i : Nat}, i < 4 → (c + BitVec.ofNat 32 i - c).toNat = i :=
    fun c i hi => by bv_omega
  constructor
  · intro h i hi
    rw [← byteAt_readWord (m := m) (within_add hi), ← byteAt_readWord (m := m') (within_add hi),
      hoff a hi, hoff b hi, h]
  · intro h
    have h₀ : m a = m' b := by simpa using h 0 (by omega)
    have h₁ : m (a + 1) = m' (b + 1) := h 1 (by omega)
    have h₂ : m (a + 2) = m' (b + 2) := h 2 (by omega)
    have h₃ : m (a + 3) = m' (b + 3) := h 3 (by omega)
    simp only [readWord, h₀, h₁, h₂, h₃]

/-- Memories that agree on the bytes of a word hold the same word there. -/
theorem readWord_congr (h : ∀ x, Within x a → m x = m' x) : readWord m a = readWord m' a :=
  readWord_eq_iff.2 fun _ hi => h _ (within_add hi)

theorem readWord_eq_iff_within :
    readWord m a = readWord m' a ↔ ∀ x, Within x a → m x = m' x := by
  refine ⟨fun h x hx => ?_, readWord_congr⟩
  rw [← byteAt_readWord (m := m) hx, ← byteAt_readWord (m := m') hx, h]

/-! ## Writing -/

theorem writeWord_within (h : Within x a) :
    writeWord m a v x = byteAt v (x - a).toNat := if_pos h

theorem writeWord_without (h : ¬ Within x a) : writeWord m a v x = m x := if_neg h

@[simp] theorem readWord_writeWord_self : readWord (writeWord m a v) a = v := by
  have hself : ∀ d : BitVec 32, a + d - a = d := fun d => by bv_omega
  have hbyte : ∀ d : BitVec 32, d.toNat < 4 →
      writeWord m a v (a + d) = byteAt v d.toNat := fun d hd => by
    rw [writeWord_within (by unfold Within; rw [hself]; exact hd), hself]
  have h₀ := hbyte 0 (by decide)
  have h₁ := hbyte 1 (by decide)
  have h₂ := hbyte 2 (by decide)
  have h₃ := hbyte 3 (by decide)
  rw [show a + 0 = a by bv_omega] at h₀
  simp only [readWord, h₀, h₁, h₂, h₃]
  exact join_byteAt v

/-- Writing a word back changes nothing. -/
@[simp] theorem writeWord_readWord : writeWord m a (readWord m a) = m := by
  funext x
  by_cases hx : Within x a
  · rw [writeWord_within hx, byteAt_readWord hx]
  · rw [writeWord_without hx]

@[simp] theorem writeWord_writeWord_self :
    writeWord (writeWord m a v) a v' = writeWord m a v' := by
  funext x
  by_cases hx : Within x a
  · rw [writeWord_within hx, writeWord_within hx]
  · rw [writeWord_without hx, writeWord_without hx, writeWord_without hx]

/-! ## Words apart -/

/-- The words at `a` and `b` share no byte. -/
def Apart (a b : BitVec 32) : Prop := 4 ≤ (a - b).toNat ∧ 4 ≤ (b - a).toNat

instance : Decidable (Apart a b) := inferInstanceAs (Decidable (_ ∧ _))

theorem Apart.symm (h : Apart a b) : Apart b a := ⟨h.2, h.1⟩

theorem Apart.irrefl : ¬ Apart a a := by
  rintro ⟨h, -⟩
  rw [BitVec.sub_self] at h
  exact absurd h (by decide)

theorem Apart.not_within (h : Apart a b) (hx : Within x a) : ¬ Within x b := by
  obtain ⟨h₁, h₂⟩ := h
  unfold Within at hx ⊢
  bv_omega

/-- Words that are not apart share a byte. -/
theorem exists_within_of_not_apart (h : ¬ Apart a b) : ∃ x, Within x a ∧ Within x b := by
  unfold Apart at h
  by_cases hab : 4 ≤ (a - b).toNat
  · refine ⟨b, ?_, ?_⟩ <;> unfold Within <;> bv_omega
  · refine ⟨a, ?_, ?_⟩ <;> unfold Within <;> bv_omega

theorem readWord_writeWord_apart (h : Apart a b) :
    readWord (writeWord m a v) b = readWord m b :=
  readWord_congr fun _ hx => writeWord_without (h.symm.not_within hx)

theorem writeWord_comm (h : Apart a b) :
    writeWord (writeWord m a v) b v' = writeWord (writeWord m b v') a v := by
  funext x
  by_cases ha : Within x a
  · rw [writeWord_without (h.not_within ha), writeWord_within ha, writeWord_within ha]
  · by_cases hb : Within x b
    · rw [writeWord_within hb, writeWord_without ha, writeWord_within hb]
    · rw [writeWord_without hb, writeWord_without ha, writeWord_without ha,
        writeWord_without hb]

/-! ## One word at several addresses -/

/-- Put `v` at each of the addresses, the last one first. -/
def cover (m : Memory) (v : BitVec 32) (addrs : List (BitVec 32)) : Memory :=
  addrs.foldr (fun a m => m.writeWord a v) m

variable {addrs : List (BitVec 32)}

theorem cover_cons : cover m v (a :: addrs) = (cover m v addrs).writeWord a v := rfl

/-- A byte of none of the words stays as it is. -/
theorem cover_without (h : ∀ a ∈ addrs, ¬ Within x a) : cover m v addrs x = m x := by
  induction addrs with
  | nil => rfl
  | cons a addrs ih =>
      rw [cover_cons, writeWord_without (h a List.mem_cons_self)]
      exact ih fun b hb => h b (List.mem_cons_of_mem a hb)

/-- A word apart from all of them stays as it is. -/
theorem readWord_cover (h : ∀ a ∈ addrs, Apart a b) :
    readWord (cover m v addrs) b = readWord m b :=
  readWord_congr fun _ hx => cover_without fun a ha => (h a ha).symm.not_within hx

/-- A word apart from all of them is written before them or after. -/
theorem writeWord_cover (h : ∀ a ∈ addrs, Apart a b) :
    writeWord (cover m v addrs) b v' = cover (writeWord m b v') v addrs := by
  induction addrs with
  | nil => rfl
  | cons a addrs ih =>
      rw [cover_cons, cover_cons, writeWord_comm (h a List.mem_cons_self)]
      rw [ih fun c hc => h c (List.mem_cons_of_mem a hc)]

/-- When no two of the words share a byte, each of them is `v`. -/
theorem readWord_cover_self (h : addrs.Pairwise Apart) (ha : a ∈ addrs) :
    readWord (cover m v addrs) a = v := by
  induction addrs with
  | nil => cases ha
  | cons b addrs ih =>
      obtain ⟨hhead, htail⟩ := List.pairwise_cons.1 h
      rw [cover_cons]
      rcases List.mem_cons.1 ha with rfl | ha
      · exact readWord_writeWord_self
      · rw [readWord_writeWord_apart (hhead a ha)]
        exact ih htail ha

/-- A byte that belongs to one of the words is a byte of `v`. -/
theorem cover_within (h : ∃ a ∈ addrs, Within x a) :
    ∃ i, i < 4 ∧ cover m v addrs x = byteAt v i := by
  induction addrs with
  | nil =>
      obtain ⟨a, ha, -⟩ := h
      cases ha
  | cons a addrs ih =>
      rw [cover_cons]
      by_cases hx : Within x a
      · exact ⟨(x - a).toNat, hx, writeWord_within hx⟩
      · rw [writeWord_without hx]
        refine ih ?_
        obtain ⟨b, hb, hxb⟩ := h
        rcases List.mem_cons.1 hb with rfl | hb
        · exact absurd hxb hx
        · exact ⟨b, hb, hxb⟩

end Memory

end MutTracker.Logic
