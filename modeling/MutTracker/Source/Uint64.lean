import MutTracker.Source.Machine

/-!
# 64-bit counters

`src/uint64/struct/mut_uint64.c` and `src/uint64/longlong/mut_uint64.h`, for
an `unsigned int` and an `unsigned long` of 32 bits.

The C functions of the structure declare their result without initialising
it.  Here `ans` is what it holds before it is assigned to.
-/

namespace MutTracker.Source

/-- `struct mut_uint64`. -/
structure Uint64 where
  hi : Word
  lo : Word
  deriving DecidableEq, Repr

/-- `ULONG_MAX`. -/
def ulongMax : Word := 0xFFFFFFFF

def mutUint64FromUint (ui : Word) : Uint64 := { hi := 0, lo := ui }

def mutUint64Inc (ans xui : Uint64) (ui : Word) : Uint64 :=
  if ulongMax - xui.lo < ui then
    let ans :=
      { ans with
        lo :=
          if xui.lo > ui then ui - (ulongMax - xui.lo) - 1
          else xui.lo - (ulongMax - ui) - 1 }
    { ans with hi := ans.hi + 1 }
  else
    { lo := xui.lo + ui, hi := xui.hi }

/-- `none` when the assertion against underflow fails. -/
def mutUint64Dec (ans xui : Uint64) (ui : Word) : Option Uint64 :=
  if xui.lo < ui then
    if xui.hi > 0 then
      let ans := { ans with hi := ans.hi - 1 }
      some { ans with lo := ulongMax - (ui - xui.lo) + 1 }
    else none
  else
    some { hi := xui.hi, lo := xui.lo - ui }

def mutUint64Lt (a b : Uint64) : Bool := decide (a.hi ≤ b.hi) && decide (a.lo < b.lo)

/-- `mut_uint64` where there is an `unsigned long long`. -/
abbrev LongLong := BitVec 64

/-- The macro `mut_uint64_inc`. -/
def longLongInc (ui : LongLong) (i : Word) : LongLong := ui + i.setWidth 64

/-- The macro `mut_uint64_dec`. -/
def longLongDec (ui : LongLong) (i : Word) : LongLong := ui - i.setWidth 64

/-- The macro `mut_uint64_lt`. -/
def longLongLt (a b : LongLong) : Bool := decide (a < b)

/-! ## Sequences of changes -/

inductive Change where
  | inc (ui : Word)
  | dec (ui : Word)
  deriving DecidableEq, Repr

def Uint64.change (ans xui : Uint64) : Change → Option Uint64
  | .inc ui => some (mutUint64Inc ans xui ui)
  | .dec ui => mutUint64Dec ans xui ui

def changeLongLong (n : LongLong) : Change → LongLong
  | .inc i => longLongInc n i
  | .dec i => longLongDec n i

/-- The changes in order, each with what its result holds before it is
assigned to. -/
def Uint64.changes : List (Uint64 × Change) → Uint64 → Option Uint64
  | [], xui => some xui
  | (ans, c) :: cs, xui => (Uint64.change ans xui c).bind (Uint64.changes cs)

/-! ## The maxima of the statistics -/

/-- A space and a count, as counters. -/
structure CounterStat where
  space : Uint64
  count : Uint64
  deriving DecidableEq, Repr

/-- `stats.max`: the statistics at the greatest space and at the greatest count. -/
structure CounterMax where
  space : CounterStat
  count : CounterStat
  deriving DecidableEq, Repr

def CounterStat.zero : CounterStat := ⟨mutUint64FromUint 0, mutUint64FromUint 0⟩

def CounterMax.zero : CounterMax := ⟨.zero, .zero⟩

/-- The two comparisons of `mut_collect_producer_stats`, once `stats.now` is
`now`. -/
def mutCollectMax (max : CounterMax) (now : CounterStat) : CounterMax :=
  { space := if mutUint64Lt max.space.space now.space then now else max.space
    count := if mutUint64Lt max.count.count now.count then now else max.count }

end MutTracker.Source
