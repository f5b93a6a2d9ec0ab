import MutTracker.Source.Copy
import MutTracker.Verified.Actions
import MutTracker.Verified.Wait

/-!
# What memset and memcpy leave in the target

The tracker fills and copies the memory of the target a word at a time.  Whole
words come out right.  The bytes left over are merged into the last word under
`mutProcessByteMask`, which keeps its low bytes whatever the byte order of the
target is, and the word that is merged in is not masked at all.

So a range whose length is no multiple of the size of a word comes out right
only when its last word happens to be `Memory.Clean`.

## Main results

* `memset_iff` — when a range is filled, and the bytes outside it are kept.
* `memcpy_iff` — when a range is copied, in either byte order.
* `memset_outside`, `memcpy_wrong` — ranges of one byte that are not.
-/

namespace MutTracker.Source

open MutTracker.Logic MutTracker.Logic.Prog MutTracker.Logic.Memory

variable {p q : Process} {e : Endian} {c : BitVec 8} {a dest src n v : Word} {ok : Bool}

/-- A stopped process whose target holds `data`, and whose requests are all
granted. -/
def Process.holding (data : Memory) : Process where
  log := mutLogOpen
  child := 1
  status := .stopped
  pc := 0
  kernel :=
    { target := { eip := 0, eax := 0, ebp := 0, esp := 0, data }
      text := fun _ => 0
      faults := []
      waits := [] }
  resumed := []

/-! ## Single words -/

/-- The data of the target, when the operation went well. -/
abbrev DataIs (data : Memory) : Bool → Process → Prop :=
  fun ok q => ok = true → q.kernel.target.data = data

/-- A word was brought back from the data of the target, which is kept. -/
abbrev Brings (data : Memory) (v : Word) : Option Word → Process → Prop :=
  fun r q => ∀ w, r = some w → w = v ∧ q.kernel.target.data = data

theorem mutTraceReadDataIn_brings (e : Endian) (a : Word) :
    wp (mutTraceReadDataIn e a)
      (Brings p.kernel.target.data (readIn e p.kernel.target.data a)) Orderly p := by
  refine wp_mono (mutTracePeek_effect ..) ?_ fun _ he => he
  intro r q hq w hw
  refine ⟨hq.found w hw, ?_⟩
  rw [hq.kernel]
  rfl

theorem mutTraceWriteDataIn_data (e : Endian) (a v : Word) :
    wp (mutTraceWriteDataIn e a v) (DataIs (writeIn e p.kernel.target.data a v)) Orderly p := by
  refine wp_mono (mutTraceRequest_effect ..) ?_ fun _ he => he
  intro ok q hq hok
  rw [hq.kernel, if_pos hok]
  rfl

/-- On the x86 a word is read and written in little-endian order. -/
theorem mutTraceReadData_brings (a : Word) :
    wp (mutTraceReadData a)
      (Brings p.kernel.target.data (readIn .little p.kernel.target.data a)) Orderly p :=
  mutTraceReadDataIn_brings .little a

theorem mutTraceWriteData_data (a v : Word) :
    wp (mutTraceWriteData a v) (DataIs (writeIn .little p.kernel.target.data a v)) Orderly p :=
  mutTraceWriteDataIn_data .little a v

/-! ## Filling -/

theorem mutProcessMemsetWords_data (pattern : Word) (nwords : Nat) (a : Word) :
    wp (mutProcessMemsetWords pattern nwords a)
      (DataIs (fillWords p.kernel.target.data pattern nwords a)) Orderly p := by
  induction nwords generalizing a p with
  | zero =>
      intro _
      rfl
  | succ nwords ih =>
      rw [mutProcessMemsetWords, wp_bind]
      refine wp_mono (mutTraceWriteData_data a pattern) ?_ fun _ he => he
      intro ok q hq
      cases ok with
      | false => simp
      | true =>
          have hdata := hq rfl
          refine wp_mono (ih (a + 4)) ?_ fun _ he => he
          intro ok' q' hq' hok'
          rw [hq' hok', hdata]
          rfl

/-- The word that `mut_process_memset` fills with. -/
def pattern (c : Word) : Word := c ||| (c <<< 8) ||| (c <<< 16) ||| (c <<< 24)

theorem mutProcessMemset_data (a c n : Word) :
    wp (mutProcessMemset a c n)
      (DataIs (fillRange p.kernel.target.data a (pattern c) n.toNat)) (fun _ => True) p := by
  rw [mutProcessMemset, wp_bind, wp_mutAssertStatus]
  split
  next =>
      rw [wp_bind, wp_mutAssert]
      split
      next =>
          rw [wp_bind]
          refine wp_mono (mutProcessMemsetWords_data (pattern c) (n.toNat / 4) a) ?_
            fun _ _ => trivial
          intro ok q hq
          cases ok with
          | false => simp
          | true =>
              have hdata := hq rfl
              rw [fillRange, ← hdata]
              by_cases hbytes : n.toNat % 4 = 0
              · simp only [Bool.not_true, Bool.false_eq_true, if_false, if_pos hbytes]
                intro _
                rfl
              · simp only [Bool.not_true, Bool.false_eq_true, if_false, if_neg hbytes, wp_bind]
                refine wp_mono (mutTraceReadData_brings _) ?_ fun _ _ => trivial
                intro r q₁ hq₁
                cases r with
                | none => simp
                | some orig =>
                    obtain ⟨rfl, hsame⟩ := hq₁ orig rfl
                    refine wp_mono (mutTraceWriteData_data _ _) ?_ fun _ _ => trivial
                    intro ok' q₂ hq₂ hok'
                    rw [hq₂ hok', hsame]
                    rfl
      next => trivial
  next => trivial

/-- Every byte of the word is the byte that is filled in. -/
theorem byteAt_pattern (c : BitVec 8) {i : Nat} (hi : i < 4) :
    byteAt (pattern (c.setWidth 32)) i = c := by
  ext j hj
  simp only [byteAt, pattern, BitVec.getElem_extractLsb', BitVec.getLsbD_or,
    BitVec.getLsbD_shiftLeft, BitVec.getLsbD_setWidth]
  obtain rfl | rfl | rfl | rfl : i = 0 ∨ i = 1 ∨ i = 2 ∨ i = 3 := by omega
  all_goals simp (disch := omega) [decide_eq_true, decide_eq_false]

/-- The bytes from `a` on hold `c` and all others what they held. -/
def Filled (data data' : Memory) (a : Word) (c : BitVec 8) (n : Word) : Prop :=
  ∀ x, data' x = if (x - a).toNat < n.toNat then c else data x

/-- When all its accesses succeed, `mut_process_memset` fills the range and
leaves the rest alone exactly when it is one of whole words or its last word is
merged cleanly. -/
theorem memset_iff (h : mutProcessMemset a (c.setWidth 32) n p = .done true q) :
    Filled p.kernel.target.data q.kernel.target.data a c n ↔
      n.toNat % 4 = 0 ∨ Clean .little (n.toNat % 4) (fun _ => c)
        fun i => p.kernel.target.data (lastWord a n.toNat + BitVec.ofNat 32 i) := by
  rw [← fillRange_iff (fun i hi => byteAt_pattern c hi) n.isLt, Filled,
    wp_done (mutProcessMemset_data ..) h rfl]

/-- A memory that holds 0xff throughout. -/
def ones : Memory := fun _ => 0xff

/-- A memory that holds 0 below 0x1006 and 0xff from there on. -/
def brink : Memory := fun x => if x < 0x1006 then 0 else 0xff

/-- Six bytes are filled where the two after them hold the same already, and elsewhere they
are not. -/
theorem memset_iff_six :
    (∃ q, mutProcessMemset 0x1000 ((0xff : BitVec 8).setWidth 32) 6 (.holding brink) =
        .done true q ∧ Filled brink q.kernel.target.data 0x1000 0xff 6) ∧
      ∃ q, mutProcessMemset 0x1000 ((0 : BitVec 8).setWidth 32) 6 (.holding ones) =
        .done true q ∧ ¬ Filled ones q.kernel.target.data 0x1000 0 6 := by
  constructor
  · have hseen : (mutProcessMemset 0x1000 ((0xff : BitVec 8).setWidth 32) 6
        (.holding brink)).seen (fun _ => ()) = some (true, ()) := by decide +kernel
    obtain ⟨q, hq, -⟩ := Outcome.of_seen hseen
    exact ⟨q, hq, (memset_iff hq).2 (.inr (by decide +kernel))⟩
  · have hseen : (mutProcessMemset 0x1000 ((0 : BitVec 8).setWidth 32) 6
        (.holding ones)).seen (fun _ => ()) = some (true, ()) := by decide +kernel
    obtain ⟨q, hq, -⟩ := Outcome.of_seen hseen
    refine ⟨q, hq, fun hfilled => ?_⟩
    rcases (memset_iff hq).1 hfilled with hwords | hclean
    · exact absurd hwords (by decide)
    · exact absurd hclean (by decide +kernel)

/-- To zero the byte at 0x1000 leaves it as it is and zeroes the one at 0x1003. -/
theorem memset_outside : ∃ q,
    mutProcessMemset 0x1000 ((0 : BitVec 8).setWidth 32) 1 (.holding ones) = .done true q ∧
      q.kernel.target.data 0x1000 = 0xff ∧ q.kernel.target.data 0x1003 = 0 ∧
      ¬ Filled ones q.kernel.target.data 0x1000 0 1 := by
  have hseen : (mutProcessMemset 0x1000 ((0 : BitVec 8).setWidth 32) 1 (.holding ones)).seen
      (fun q => (q.kernel.target.data 0x1000, q.kernel.target.data 0x1003)) =
        some (true, 0xff, 0) := by decide +kernel
  obtain ⟨q, hq, hbytes⟩ := Outcome.of_seen hseen
  obtain ⟨hfirst, hlast⟩ := Prod.mk.inj hbytes
  refine ⟨q, hq, hfirst, hlast, fun hfilled => ?_⟩
  have hzero : q.kernel.target.data 0x1000 = 0 := hfilled 0x1000
  exact absurd (hfirst.symm.trans hzero) (by decide)

/-! ## Copying -/

theorem mutProcessMemcpyWordsIn_data (e : Endian) (nwords : Nat) (dest src : Word) :
    wp (mutProcessMemcpyWordsIn e nwords dest src)
      (DataIs (copyWords e p.kernel.target.data nwords dest src)) Orderly p := by
  induction nwords generalizing dest src p with
  | zero =>
      intro _
      rfl
  | succ nwords ih =>
      rw [mutProcessMemcpyWordsIn, wp_bind]
      refine wp_mono (mutTraceReadDataIn_brings e src) ?_ fun _ he => he
      intro r q hq
      cases r with
      | none => exact nofun
      | some data =>
          obtain ⟨rfl, hsame⟩ := hq data rfl
          simp only [wp_bind]
          refine wp_mono (mutTraceWriteDataIn_data e dest _) ?_ fun _ he => he
          intro ok q₁ hq₁
          cases ok with
          | false => exact nofun
          | true =>
              have hdata := hq₁ rfl
              refine wp_mono (ih (dest + 4) (src + 4)) ?_ fun _ he => he
              intro ok' q₂ hq₂ hok'
              rw [hq₂ hok', hdata, hsame]
              rfl

/-- What `mut_process_memcpy` needs of its arguments, and what it leaves. -/
theorem mutProcessMemcpyIn_data (e : Endian) (dest src n : Word) :
    wp (mutProcessMemcpyIn e dest src n)
      (fun ok q => mutExecAddrAligned dest = true ∧ mutExecAddrAligned src = true ∧
        DataIs (copyRange e p.kernel.target.data dest src n.toNat) ok q) (fun _ => True) p := by
  rw [mutProcessMemcpyIn, wp_bind, wp_mutAssertStatus]
  split
  next =>
      rw [wp_bind, wp_mutAssert]
      split
      next hdest =>
          rw [wp_bind, wp_mutAssert]
          split
          next hsrc =>
              rw [wp_bind]
              refine wp_mono (mutProcessMemcpyWordsIn_data e (n.toNat / 4) dest src) ?_
                fun _ _ => trivial
              intro ok q hq
              cases ok with
              | false => exact ⟨hdest, hsrc, nofun⟩
              | true =>
                  have hdata := hq rfl
                  rw [copyRange, ← hdata]
                  by_cases hbytes : n.toNat % 4 = 0
                  · simp only [Bool.not_true, Bool.false_eq_true, if_false, if_pos hbytes]
                    refine ⟨hdest, hsrc, ?_⟩
                    intro _
                    rfl
                  · simp only [Bool.not_true, Bool.false_eq_true, if_false, if_neg hbytes,
                      wp_bind]
                    refine wp_mono (mutTraceReadDataIn_brings e _) ?_ fun _ _ => trivial
                    intro r q₁ hq₁
                    cases r with
                    | none => exact ⟨hdest, hsrc, nofun⟩
                    | some orig =>
                        obtain ⟨rfl, hsame₁⟩ := hq₁ orig rfl
                        simp only [wp_bind]
                        refine wp_mono (mutTraceReadDataIn_brings e _) ?_ fun _ _ => trivial
                        intro r q₂ hq₂
                        cases r with
                        | none => exact ⟨hdest, hsrc, nofun⟩
                        | some data =>
                            obtain ⟨rfl, hsame₂⟩ := hq₂ data rfl
                            refine wp_mono (mutTraceWriteDataIn_data e _ _) ?_
                              fun _ _ => trivial
                            intro ok' q₃ hq₃
                            refine ⟨hdest, hsrc, ?_⟩
                            intro hok'
                            rw [hq₃ hok', hsame₂, hsame₁]
                            rfl
          next => trivial
      next => trivial
  next => trivial

/-- Aligned ranges that do not overlap do not when they are taken to the end of
their last words. -/
theorem disjoint_words {n : Nat} (ha : mutExecAddrAligned dest = true)
    (hb : mutExecAddrAligned src = true) (h : Disjoint n dest src) :
    Disjoint (4 * ((n + 3) / 4)) dest src := by
  have hab := (aligned_iff _).1 (aligned_sub ha hb)
  have hba := (aligned_iff _).1 (aligned_sub hb ha)
  obtain ⟨hfirst, hsecond⟩ := h
  constructor <;> omega

/-- The bytes from `dest` on hold what those from `src` on held, and all others
what they held. -/
def Copied (data data' : Memory) (dest src n : Word) : Prop :=
  ∀ x, data' x = if (x - dest).toNat < n.toNat then data (src + (x - dest)) else data x

/-- When all its accesses succeed, `mut_process_memcpy` copies a range to one
that does not overlap it, and leaves the rest alone, exactly when it is one of
whole words or its last word is merged cleanly. -/
theorem memcpy_iff (hapart : Disjoint n.toNat dest src)
    (h : mutProcessMemcpyIn e dest src n p = .done true q) :
    Copied p.kernel.target.data q.kernel.target.data dest src n ↔
      n.toNat % 4 = 0 ∨ Clean e (n.toNat % 4)
        (fun i => p.kernel.target.data (lastWord src n.toNat + BitVec.ofNat 32 i))
        fun i => p.kernel.target.data (lastWord dest n.toNat + BitVec.ofNat 32 i) := by
  obtain ⟨hdest, hsrc, hdata⟩ := wp_done (mutProcessMemcpyIn_data ..) h
  rw [← copyRange_iff n.isLt (disjoint_words hdest hsrc hapart), Copied, hdata rfl]

/-- A memory that holds 7 from 0x2000 on and 0 below. -/
def sevens : Memory := fun x => if x < 0x2000 then 0 else 7

/-- A memory that holds 7 in the six bytes from 0x2000 on and 0 in all others. -/
def sixSevens : Memory := fun x => if x - 0x2000 < 6 then 7 else 0

/-- Copying six bytes in the order `e` copies them from `data`. -/
def CopiesSix (e : Endian) (data : Memory) : Prop :=
  ∃ q, mutProcessMemcpyIn e 0x1000 0x2000 6 (.holding data) = .done true q ∧
    Copied data q.kernel.target.data 0x1000 0x2000 6

/-- Six bytes are copied where the two after them hold what is there already, and elsewhere
they are not, in either byte order. -/
theorem memcpy_iff_six :
    CopiesSix .little sixSevens ∧ CopiesSix .big sixSevens ∧ ¬ CopiesSix .little sevens ∧
      ¬ CopiesSix .big sevens := by
  refine ⟨?_, ?_, ?_, ?_⟩
  · have hseen : (mutProcessMemcpyIn .little 0x1000 0x2000 6 (.holding sixSevens)).seen
        (fun _ => ()) = some (true, ()) := by decide +kernel
    obtain ⟨q, hq, -⟩ := Outcome.of_seen hseen
    exact ⟨q, hq, (memcpy_iff ⟨by decide, by decide⟩ hq).2 (.inr (by decide +kernel))⟩
  · have hseen : (mutProcessMemcpyIn .big 0x1000 0x2000 6 (.holding sixSevens)).seen
        (fun _ => ()) = some (true, ()) := by decide +kernel
    obtain ⟨q, hq, -⟩ := Outcome.of_seen hseen
    exact ⟨q, hq, (memcpy_iff ⟨by decide, by decide⟩ hq).2 (.inr (by decide +kernel))⟩
  · rintro ⟨q, hq, hcopied⟩
    rcases (memcpy_iff ⟨by decide, by decide⟩ hq).1 hcopied with hwords | hclean
    · exact absurd hwords (by decide)
    · exact absurd hclean (by decide +kernel)
  · rintro ⟨q, hq, hcopied⟩
    rcases (memcpy_iff ⟨by decide, by decide⟩ hq).1 hcopied with hwords | hclean
    · exact absurd hwords (by decide)
    · exact absurd hclean (by decide +kernel)

/-- A process that copies the byte at 0x2000 to 0x1000 also writes the byte at
0x1001. -/
def CopiesBeyond (e : Endian) : Prop :=
  ∃ q, mutProcessMemcpyIn e 0x1000 0x2000 1 (.holding sevens) = .done true q ∧
    q.kernel.target.data 0x1001 = 7 ∧ ¬ Copied sevens q.kernel.target.data 0x1000 0x2000 1

theorem copies_beyond (hseen : (mutProcessMemcpyIn e 0x1000 0x2000 1 (.holding sevens)).seen
    (fun q => q.kernel.target.data 0x1001) = some (true, 7)) : CopiesBeyond e := by
  obtain ⟨q, hq, hbyte⟩ := Outcome.of_seen hseen
  refine ⟨q, hq, hbyte, fun hcopied => ?_⟩
  have hzero : q.kernel.target.data 0x1001 = 0 := hcopied 0x1001
  exact absurd (hbyte.symm.trans hzero) (by decide)

theorem memcpy_wrong : CopiesBeyond .little ∧ CopiesBeyond .big :=
  ⟨copies_beyond (by decide +kernel), copies_beyond (by decide +kernel)⟩

end MutTracker.Source
