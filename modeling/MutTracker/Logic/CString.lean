import Mathlib.Data.List.Induction

/-!
# Terminated strings in one table

A string table is one list of characters; the string at an offset runs to the
next terminator `z`, so strings may share their ends.  To cut the table at a
place is to put a terminator there, which shortens every string that runs
past it.

`truncate s` cuts the string at an offset where `s` first occurs in it;
`strip s` takes `s` off the end of a string.  The two are compared over a
whole list of offsets, each string cut in turn in the one table.

## Main results

* `cstr_cut` — what a cut does to every string of the table.
* `truncate_clear` — a clear truncation shortens strings by the rule only.
* `stripped_iff` — when the strings of a list end up stripped.
-/

namespace MutTracker.Logic.CString

variable {α : Type} [DecidableEq α] {z : α}

/-- The string at offset `o`. -/
def cstr (z : α) (d : List α) (o : Nat) : List α := (d.drop o).takeWhile (· ≠ z)

/-- The string at offset `o` ends inside the table. -/
def Terminated (z : α) (d : List α) (o : Nat) : Prop := z ∈ d.drop o

instance (d : List α) (o : Nat) : Decidable (Terminated z d o) :=
  inferInstanceAs (Decidable (z ∈ d.drop o))

/-- Where `s` first occurs in a string. -/
def find (s : List α) : List α → Option Nat
  | [] => if s = [] then some 0 else none
  | b :: bs => if s <+: b :: bs then some 0 else (find s bs).map (· + 1)

/-- A string without the suffix `s`, if it ends in it. -/
def strip (s n : List α) : List α := if s <:+ n then n.take (n.length - s.length) else n

/-- Cut the string at offset `o` where `s` first occurs in it. -/
def truncate (z : α) (s d : List α) (o : Nat) : List α :=
  match find s (cstr z d o) with
  | none => d
  | some k => d.set (o + k) z

/-! ## Searching -/

theorem find_some {s n : List α} {k : Nat} (h : find s n = some k) :
    s <+: n.drop k ∧ k + s.length ≤ n.length := by
  induction n generalizing k with
  | nil =>
      unfold find at h
      split at h
      · next hs =>
          cases h
          rw [hs]
          exact ⟨List.nil_prefix, Nat.le_refl 0⟩
      · cases h
  | cons b bs ih =>
      unfold find at h
      split at h
      · next hs =>
          cases h
          refine ⟨hs, ?_⟩
          have := hs.length_le
          omega
      · obtain ⟨j, hj, rfl⟩ := Option.map_eq_some_iff.1 h
        obtain ⟨hpre, hlen⟩ := ih hj
        refine ⟨hpre, ?_⟩
        rw [List.length_cons]
        omega

theorem find_isSome_of_suffix {s n : List α} (h : s <:+ n) : ∃ k, find s n = some k := by
  induction n with
  | nil => exact ⟨0, if_pos (List.suffix_nil.1 h)⟩
  | cons b bs ih =>
      unfold find
      by_cases hpre : s <+: b :: bs
      · exact ⟨0, if_pos hpre⟩
      · rw [if_neg hpre]
        rcases List.suffix_cons_iff.1 h with rfl | h
        · exact absurd (List.prefix_refl _) hpre
        · obtain ⟨k, hk⟩ := ih h
          exact ⟨k + 1, by rw [hk]; rfl⟩

/-! ## Stripping -/

@[simp] theorem strip_nil (n : List α) : strip [] n = n := by
  unfold strip
  rw [if_pos List.nil_suffix, List.length_nil, Nat.sub_zero, List.take_length]

theorem strip_append (s n : List α) : strip s (n ++ s) = n := by
  unfold strip
  rw [if_pos (List.suffix_append n s), List.length_append, Nat.add_sub_cancel,
    List.take_left]

/-! ## Strings of a table -/

private theorem takeWhile_drop (l : List α) {x : Nat} (h : x ≤ (l.takeWhile (· ≠ z)).length) :
    (l.drop x).takeWhile (· ≠ z) = (l.takeWhile (· ≠ z)).drop x := by
  induction l generalizing x with
  | nil => simp
  | cons b bs ih =>
      cases x with
      | zero => rfl
      | succ x =>
          by_cases hb : b = z
          · rw [List.takeWhile_cons_of_neg (by simpa using hb)] at h
            cases h
          · rw [List.takeWhile_cons_of_pos (by simpa using hb)] at h ⊢
            rw [List.drop_succ_cons, List.drop_succ_cons]
            exact ih (by simpa using h)

/-- A string that starts inside another one is its rest. -/
theorem cstr_inside {d : List α} {o x : Nat} (h : x ≤ (cstr z d o).length) :
    cstr z d (o + x) = (cstr z d o).drop x := by
  unfold cstr at h ⊢
  rw [← List.drop_drop]
  exact takeWhile_drop _ h

private theorem takeWhile_set (l : List α) (i : Nat) :
    (l.set i z).takeWhile (· ≠ z) = (l.takeWhile (· ≠ z)).take i := by
  induction l generalizing i with
  | nil => simp
  | cons b bs ih =>
      cases i with
      | zero =>
          rw [List.set_cons_zero, List.takeWhile_cons_of_neg (by simp), List.take_zero]
      | succ i =>
          rw [List.set_cons_succ]
          by_cases hb : b = z
          · rw [List.takeWhile_cons_of_neg (by simpa using hb),
              List.takeWhile_cons_of_neg (by simpa using hb), List.take_nil]
          · rw [List.takeWhile_cons_of_pos (by simpa using hb),
              List.takeWhile_cons_of_pos (by simpa using hb), List.take_succ_cons, ih]

/-- A cut shortens the strings that start before it and run past it. -/
theorem cstr_cut (d : List α) (p o : Nat) :
    cstr z (d.set p z) o = if o ≤ p then (cstr z d o).take (p - o) else cstr z d o := by
  unfold cstr
  by_cases h : o ≤ p
  · rw [if_pos h, List.drop_set, if_neg (by omega), takeWhile_set]
  · rw [if_neg h, List.drop_set, if_pos (by omega)]

theorem cstr_cut_self (d : List α) (o k : Nat) :
    cstr z (d.set (o + k) z) o = (cstr z d o).take k := by
  rw [cstr_cut, if_pos (Nat.le_add_right o k), Nat.add_sub_cancel_left]

theorem cstr_cut_shortens (d : List α) (p o : Nat) :
    cstr z (d.set p z) o <+: cstr z d o := by
  rw [cstr_cut]
  split
  · exact List.take_prefix _ _
  · exact List.prefix_refl _

/-! ## One truncation -/

variable {s d d' : List α} {o : Nat}

theorem truncate_none (h : find s (cstr z d o) = none) : truncate z s d o = d := by
  unfold truncate
  rw [h]

theorem truncate_some {k : Nat} (h : find s (cstr z d o) = some k) :
    truncate z s d o = d.set (o + k) z := by
  unfold truncate
  rw [h]

theorem truncate_shortens (s d : List α) (o i : Nat) :
    cstr z (truncate z s d o) i <+: cstr z d i := by
  cases h : find s (cstr z d o) with
  | none =>
      have hsame : truncate z s d o = d := truncate_none h
      exact ⟨[], by rw [List.append_nil, hsame]⟩
  | some k =>
      rw [truncate_some h]
      exact cstr_cut_shortens d (o + k) i

/-- Truncating the string at `o` takes off the suffix and nothing else: either
it is as it was in the original table `d`, where `s` occurs at its end or not at all,
or it was shortened before and `s` does not occur in what is left. -/
def Clear (z : α) (s d d' : List α) (o : Nat) : Prop :=
  if cstr z d' o = cstr z d o then
    ∀ k, find s (cstr z d o) = some k → k + s.length = (cstr z d o).length
  else find s (cstr z d' o) = none

omit [DecidableEq α] in
private theorem split_at_rest {l : List α} {j : Nat} (h : l.drop j = s) : l = l.take j ++ s := by
  rw [← h]
  exact (List.take_append_drop j l).symm

/-- Of two strings of which one runs past the last part `s` of the other, both
end there; if the other is the original one, so is this. -/
private theorem overlap {k i : Nat} (hpre : ∀ i, cstr z d' i <+: cstr z d i)
    (hsame : cstr z d' o = cstr z d o) (hs : (cstr z d o).drop k = s)
    (hk : k ≤ (cstr z d o).length) (hi : i ≤ o + k) (hlt : o + k - i < (cstr z d' i).length) :
    cstr z d' i = cstr z d i ∧
      cstr z d' i = (cstr z d' i).take (o + k - i) ++ s := by
  by_cases hio : i ≤ o
  · obtain ⟨x, rfl⟩ := Nat.exists_eq_add_of_le hio
    have hx' : x ≤ (cstr z d' i).length := by omega
    have hx : x ≤ (cstr z d i).length := Nat.le_trans hx' (hpre i).length_le
    have hdrop : (cstr z d' i).drop x = (cstr z d i).drop x := by
      rw [← cstr_inside hx', ← cstr_inside hx, hsame]
    have horig : cstr z d' i = cstr z d i := by
      refine (hpre i).eq_of_length ?_
      have hlen := congrArg List.length hdrop
      rw [List.length_drop, List.length_drop] at hlen
      omega
    refine ⟨horig, ?_⟩
    have hrest : (cstr z d' i).drop (i + x + k - i) = s := by
      rw [show i + x + k - i = x + k by omega, ← List.drop_drop, ← cstr_inside hx', hsame, hs]
    exact split_at_rest hrest
  · obtain ⟨x, rfl⟩ := Nat.exists_eq_add_of_le (Nat.le_of_not_le hio)
    have hx : x ≤ (cstr z d o).length := by omega
    have hd' : cstr z d' (o + x) = (cstr z d o).drop x := by
      rw [cstr_inside (by rw [hsame]; exact hx), hsame]
    refine ⟨by rw [hd', cstr_inside hx], ?_⟩
    have hrest : (cstr z d' (o + x)).drop (o + k - (o + x)) = s := by
      rw [hd', List.drop_drop, show x + (o + k - (o + x)) = k by omega, hs]
    exact split_at_rest hrest

/-- A string that was shortened is left alone by a clear truncation. -/
theorem Clear.shortened (h : Clear z s d d' o) (hne : cstr z d' o ≠ cstr z d o) :
    truncate z s d' o = d' := by
  unfold Clear at h
  rw [if_neg hne] at h
  exact truncate_none h

/-- What a clear truncation of a table `d'` with the original `d` does to any
string: it stays as it is, or it is the original one and loses the suffix. -/
theorem truncate_clear (hpre : ∀ i, cstr z d' i <+: cstr z d i) (h : Clear z s d d' o) (i : Nat) :
    cstr z (truncate z s d' o) i = cstr z d' i ∨
      (cstr z d' i = cstr z d i ∧ cstr z (truncate z s d' o) i = strip s (cstr z d i)) := by
  by_cases hsame : cstr z d' o = cstr z d o
  · unfold Clear at h
    rw [if_pos hsame] at h
    cases hk : find s (cstr z d' o) with
    | none => exact .inl (by rw [truncate_none hk])
    | some k =>
        have hend : k + s.length = (cstr z d o).length := h k (by rw [← hsame]; exact hk)
        have hs : (cstr z d o).drop k = s := by
          have hat := (find_some hk).1
          rw [hsame] at hat
          refine (hat.eq_of_length ?_).symm
          rw [List.length_drop]
          omega
        rw [truncate_some hk, cstr_cut]
        by_cases hi : i ≤ o + k
        · rw [if_pos hi]
          by_cases hlong : (cstr z d' i).length ≤ o + k - i
          · exact .inl (List.take_of_length_le hlong)
          · have hlt : o + k - i < (cstr z d' i).length := by omega
            -- the string runs past the cut, so it ends where the one at `o` does
            obtain ⟨horig, hsplit⟩ := overlap hpre hsame hs (by omega) hi hlt
            have hstrip := strip_append s ((cstr z d' i).take (o + k - i))
            rw [← hsplit] at hstrip
            exact .inr ⟨horig, by rw [← horig, hstrip]⟩
        · exact .inl (if_neg hi)
  · rw [h.shortened hsame]
    exact .inl rfl

/-! ## A list of truncations -/

/-- The table after truncating the strings at the offsets, one after another. -/
def truncated (z : α) (s d : List α) (os : List Nat) : List α := os.foldl (truncate z s) d

theorem truncated_snoc (s d : List α) (os : List Nat) (o : Nat) :
    truncated z s d (os ++ [o]) = truncate z s (truncated z s d os) o := by
  unfold truncated
  rw [List.foldl_append, List.foldl_cons, List.foldl_nil]

theorem truncated_shortens (s d : List α) (os : List Nat) (i : Nat) :
    cstr z (truncated z s d os) i <+: cstr z d i := by
  induction os generalizing d with
  | nil => exact List.prefix_refl _
  | cons o os ih => exact (ih (truncate z s d o)).trans (truncate_shortens s d o i)

/-- Each of the strings loses the suffix `s` when its turn comes and is the same
from then on, and no turn does anything else to any of them. -/
structure Stripped (z : α) (s d : List α) (os : List Nat) : Prop where
  /-- A string whose turn has come has lost the suffix. -/
  passed : ∀ pre post, os = pre ++ post → ∀ o ∈ pre,
    cstr z (truncated z s d pre) o = strip s (cstr z d o)
  /-- One turn strips a string or leaves it as it is. -/
  turn : ∀ pre o post, os = pre ++ o :: post → ∀ i ∈ os,
    cstr z (truncated z s d (pre ++ [o])) i = cstr z (truncated z s d pre) i ∨
      cstr z (truncated z s d (pre ++ [o])) i = strip s (cstr z (truncated z s d pre) i)

/-- Every turn is clear. -/
def AllClear (z : α) (s d : List α) (os : List Nat) : Prop :=
  ∀ pre o post, os = pre ++ o :: post → Clear z s d (truncated z s d pre) o

/-- Under the rule a string is the original one or has lost the suffix. -/
theorem AllClear.either {os : List Nat} (h : AllClear z s d os) :
    ∀ pre post, os = pre ++ post → ∀ i,
      cstr z (truncated z s d pre) i = cstr z d i ∨
        cstr z (truncated z s d pre) i = strip s (cstr z d i) := by
  intro pre
  induction pre using List.reverseRecOn with
  | nil =>
      intro post _ i
      exact .inl rfl
  | append_singleton pre o ih =>
      intro post hos i
      rw [List.append_assoc] at hos
      rw [truncated_snoc]
      rcases truncate_clear (truncated_shortens s d pre) (h pre o post hos) i with hi | ⟨_, hi⟩
      · rw [hi]
        exact ih _ hos i
      · exact .inr hi

/-- The string whose turn it is ends up stripped. -/
theorem Clear.stripped (h : Clear z s d d' o)
    (hor : cstr z d' o = cstr z d o ∨ cstr z d' o = strip s (cstr z d o)) :
    cstr z (truncate z s d' o) o = strip s (cstr z d o) := by
  by_cases hsame : cstr z d' o = cstr z d o
  · unfold Clear at h
    rw [if_pos hsame] at h
    cases hk : find s (cstr z d' o) with
    | none =>
        rw [truncate_none hk, hsame]
        unfold strip
        rw [if_neg]
        intro hsuffix
        obtain ⟨k, hk'⟩ := find_isSome_of_suffix hsuffix
        rw [hsame, hk'] at hk
        cases hk
    | some k =>
        rw [truncate_some hk, cstr_cut_self, hsame]
        rw [hsame] at hk
        have hend := h k hk
        have hat := (find_some hk).1.eq_of_length (by rw [List.length_drop]; omega)
        unfold strip
        rw [if_pos ⟨(cstr z d o).take k, (split_at_rest hat.symm).symm⟩, ← hend,
          Nat.add_sub_cancel]
  · rw [h.shortened hsame]
    exact hor.resolve_left hsame

private theorem AllClear.passed {os : List Nat} (h : AllClear z s d os) :
    ∀ pre post, os = pre ++ post → ∀ o ∈ pre,
      cstr z (truncated z s d pre) o = strip s (cstr z d o) := by
  intro pre
  induction pre using List.reverseRecOn with
  | nil =>
      intro post _ o ho
      cases ho
  | append_singleton pre o ih =>
      intro post hos i hi
      rw [List.append_assoc] at hos
      have hclear := h pre o post hos
      rw [truncated_snoc]
      rcases List.mem_append.1 hi with hi | hi
      · rcases truncate_clear (truncated_shortens s d pre) hclear i with hsame | ⟨_, hi'⟩
        · rw [hsame]
          exact ih _ hos i hi
        · exact hi'
      · rw [List.mem_singleton.1 hi]
        exact hclear.stripped (h.either pre _ hos o)

/-- Before its turn a string is the original one or no longer than without the suffix. -/
private theorem Stripped.shorter {os : List Nat} (h : Stripped z s d os) (hi : o ∈ os) :
    ∀ pre post, os = pre ++ post →
      cstr z (truncated z s d pre) o = cstr z d o ∨
        (cstr z (truncated z s d pre) o).length ≤ (strip s (cstr z d o)).length := by
  intro pre
  induction pre using List.reverseRecOn with
  | nil =>
      intro post _
      exact .inl rfl
  | append_singleton pre a ih =>
      intro post hos
      rw [List.append_assoc] at hos
      rcases ih _ hos with hsame | hshort
      · rcases h.turn pre a post hos o hi with ht | ht
        · exact .inl (ht.trans hsame)
        · refine .inr (Nat.le_of_eq ?_)
          rw [ht, hsame]
      · refine .inr (Nat.le_trans ?_ hshort)
        rw [truncated_snoc]
        exact (truncate_shortens s _ a o).length_le

/-- A truncation of the original string that strips it found `s` at its end. -/
private theorem find_end {n : List α} {k : Nat} (hk : find s n = some k)
    (h : n.take k = strip s n) : k + s.length = n.length := by
  have hle := (find_some hk).2
  unfold strip at h
  split at h
  · have hlen := congrArg List.length h
    rw [List.length_take, List.length_take] at hlen
    omega
  · next hsuffix =>
      have hlen := congrArg List.length h
      rw [List.length_take] at hlen
      omega

private theorem Stripped.clear {os : List Nat} (h : Stripped z s d os) (pre : List Nat)
    (post : List Nat) (hos : os = pre ++ o :: post) :
    Clear z s d (truncated z s d pre) o := by
  have hmem : o ∈ os := by
    rw [hos]
    exact List.mem_append_right pre List.mem_cons_self
  have hpassed := h.passed (pre ++ [o]) post (by rw [hos, List.append_assoc]; rfl) o
    (List.mem_append_right pre List.mem_cons_self)
  rw [truncated_snoc] at hpassed
  unfold Clear
  split
  · next hsame =>
      intro k hk
      rw [truncate_some (by rw [hsame]; exact hk), cstr_cut_self, hsame] at hpassed
      exact find_end hk hpassed
  · next hne =>
      have hshort := (h.shorter hmem pre _ hos).resolve_left hne
      cases hk : find s (cstr z (truncated z s d pre) o) with
      | none => rfl
      | some k =>
          exfalso
          rw [truncate_some hk, cstr_cut_self] at hpassed
          have hlen := congrArg List.length hpassed
          rw [List.length_take] at hlen
          have hend := (find_some hk).2
          -- nothing is left to cut, so `s` is empty and nothing was ever cut
          have hs : s = [] := List.eq_nil_of_length_eq_zero (by omega)
          subst hs
          rw [strip_nil] at hlen
          refine hne ((truncated_shortens [] d pre o).eq_of_length ?_)
          have hprefix := (truncated_shortens (z := z) [] d pre o).length_le
          omega

/-- The strings end up stripped exactly when every turn is clear. -/
theorem stripped_iff {os : List Nat} : Stripped z s d os ↔ AllClear z s d os := by
  constructor
  · intro h pre o post hos
    exact h.clear pre post hos
  · intro h
    refine ⟨h.passed, ?_⟩
    intro pre o post hos i _
    rw [truncated_snoc]
    rcases truncate_clear (truncated_shortens s d pre) (h pre o post hos) i with hi | ⟨hi, hi'⟩
    · exact .inl hi
    · exact .inr (by rw [hi', hi])

end MutTracker.Logic.CString
