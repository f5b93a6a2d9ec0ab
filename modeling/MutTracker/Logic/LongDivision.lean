import Mathlib.Algebra.Order.Ring.Nat

/-!
# Long division

Division by `d` digit by digit in base `b`, the most significant digit first.
With the quotient and the remainder of the digits so far, the next digit is
brought down to the remainder: that partial dividend is below `b * d`, its
quotient is the next digit of the quotient, and its remainder is kept.

## Main results

* `bringDown_quot`, `bringDown_rem` — one digit more.
* `partial_lt`, `digit_lt` — a partial dividend and its quotient are in range.
* `two_words` — the quotient and the remainder of a number of two words.
-/

namespace MutTracker.Logic.LongDivision

variable {b d : Nat}

/-- The partial dividend for the last digit of `n`. -/
def bringDown (b d n : Nat) : Nat := b * (n / b % d) + n % b

/-- Dividing the partial dividend divides `n`. -/
theorem bringDown_quot (hd : 0 < d) (n : Nat) :
    n / d = b * (n / b / d) + bringDown b d n / d := by
  have hn : n = b * (n / b) + n % b := (Nat.div_add_mod n b).symm
  have hq : n / b = d * (n / b / d) + n / b % d := (Nat.div_add_mod (n / b) d).symm
  have hsplit : n = bringDown b d n + d * (b * (n / b / d)) := by
    unfold bringDown
    calc n = b * (n / b) + n % b := hn
      _ = b * (d * (n / b / d) + n / b % d) + n % b := by rw [← hq]
      _ = b * (n / b % d) + n % b + d * (b * (n / b / d)) := by
          rw [Nat.mul_add, Nat.mul_left_comm b d]
          omega
  calc n / d = (bringDown b d n + d * (b * (n / b / d))) / d := by rw [← hsplit]
    _ = bringDown b d n / d + b * (n / b / d) := Nat.add_mul_div_left _ _ hd
    _ = b * (n / b / d) + bringDown b d n / d := Nat.add_comm _ _

theorem bringDown_rem (n : Nat) : n % d = bringDown b d n % d := by
  have hn : n = b * (n / b) + n % b := (Nat.div_add_mod n b).symm
  unfold bringDown
  calc n % d = (b * (n / b) + n % b) % d := by rw [← hn]
    _ = (b * (n / b % d) + n % b) % d := by
        rw [Nat.add_mod, Nat.mul_mod, Nat.add_mod (b * (n / b % d)), Nat.mul_mod b (n / b % d),
          Nat.mod_mod]

theorem partial_lt (hb : 0 < b) (hd : 0 < d) (n : Nat) : bringDown b d n < b * d := by
  have hr : n / b % d + 1 ≤ d := Nat.mod_lt _ hd
  have hc : n % b < b := Nat.mod_lt _ hb
  have hmul : b * (n / b % d + 1) ≤ b * d := Nat.mul_le_mul_left b hr
  rw [Nat.mul_add, Nat.mul_one] at hmul
  unfold bringDown
  omega

/-- What a partial dividend gives is a digit. -/
theorem digit_lt (hb : 0 < b) (hd : 0 < d) (n : Nat) : bringDown b d n / d < b := by
  rw [Nat.div_lt_iff_lt_mul hd]
  exact partial_lt hb hd n

/-- A number of two words is divided word by word, the remainder of the high word brought
down to the low one. -/
theorem two_words {w lo : Nat} (hi : Nat) (hd : 0 < d) (hlo : lo < w) :
    (hi * w + lo) / d = hi / d * w + (hi % d * w + lo) / d ∧
      (hi * w + lo) % d = (hi % d * w + lo) % d := by
  have hw : 0 < w := Nat.lt_of_le_of_lt (Nat.zero_le lo) hlo
  have hdiv : (hi * w + lo) / w = hi := by
    rw [Nat.mul_comm, Nat.mul_add_div hw, Nat.div_eq_of_lt hlo, Nat.add_zero]
  have hmod : (hi * w + lo) % w = lo := by
    rw [Nat.mul_comm, Nat.mul_add_mod, Nat.mod_eq_of_lt hlo]
  have hdown : bringDown w d (hi * w + lo) = hi % d * w + lo := by
    unfold bringDown
    rw [hdiv, hmod, Nat.mul_comm]
  constructor
  · have hquot := bringDown_quot (b := w) hd (hi * w + lo)
    rw [hdown, hdiv, Nat.mul_comm w] at hquot
    exact hquot
  · have hrem := bringDown_rem (b := w) (d := d) (hi * w + lo)
    rw [hdown] at hrem
    exact hrem

end MutTracker.Logic.LongDivision
