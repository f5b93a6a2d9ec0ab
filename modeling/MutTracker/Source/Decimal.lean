import MutTracker.Source.Uint64

/-!
# Writing a counter in decimal

`mut_uint64_udiv10` and `mut_uint64_out` of `src/uint64/struct/mut_uint64.c`.

A shift by 32 or more is undefined in C: `none`.  `Udiv.partials` is a record of
the partial dividends, and `Out.digits` one of where a digit is put, which the
program does not keep.
-/

namespace MutTracker.Source

def mutUint64ChunkBits : Word := 4

def mutUint64ChunkMask : Word := ((1 : Word) <<< mutUint64ChunkBits) - 1

def mutUint64TwoChunkBits : Word := mutUint64ChunkBits * 2

def mutUint64TwoChunkMask : Word := ((1 : Word) <<< mutUint64TwoChunkBits) - 1

/-- An `unsigned int` has four bytes. -/
def mutUint64InitShift : Word := 4 * mutUint64TwoChunkBits - mutUint64ChunkBits

def mutUint64NShifts : Nat := ((4 * mutUint64TwoChunkBits) / mutUint64ChunkBits).toNat

/-- The locals of `mut_uint64_udiv10` while one of the two words is divided: the word, what
there is of its quotient, and `shift`, `mask` and `r`. -/
structure Udiv where
  n : Word
  ans : Word
  shift : Word
  mask : Word
  r : Word
  partials : List Word
  deriving DecidableEq, Repr

def Word.shl (n shift : Word) : Option Word := if shift < 32 then some (n <<< shift) else none

def Word.shr (n shift : Word) : Option Word := if shift < 32 then some (n >>> shift) else none

/-- One chunk is divided, with `x` the partial dividend. -/
def Udiv.chunk (s : Udiv) (x : Word) : Udiv :=
  { s with
    ans := (s.ans <<< mutUint64ChunkBits) ||| (x / 10), r := x % 10
    partials := s.partials ++ [x] }

/-- A chunk is divided and the next one is made ready, with the remainder before it. -/
def Udiv.next (s : Udiv) (x : Word) : Option Udiv := do
  let s := s.chunk x
  let mask :=
    if x = 0 then (s.mask <<< mutUint64ChunkBits) ||| s.mask else mutUint64TwoChunkMask
  let high ← Word.shl s.r s.shift
  let hole ← Word.shl mutUint64ChunkMask s.shift
  return { s with mask, n := high ||| (s.n &&& ~~~hole), shift := s.shift - mutUint64ChunkBits }

/-- The body of both loops. -/
def Udiv.round (s : Udiv) : Option Udiv := do
  let n ← Word.shr s.n s.shift
  s.next (n &&& s.mask)

/-- The loop over the high word, for at most so many rounds. -/
def mutUint64UdivHigh : Nat → Udiv → Option Udiv
  | 0, _ => none
  | rounds + 1, s => do
      let s ← s.round
      if s.shift ≠ 0 then mutUint64UdivHigh rounds s else return s

/-- The loop over the low word, with so many rounds left. -/
def mutUint64UdivLow : Nat → Udiv → Option Udiv
  | 0, s => some s
  | left + 1, s => do
      let s ← s.round
      mutUint64UdivLow left s

/-- What `mut_uint64_udiv10` returns and leaves in its argument. -/
structure Udiv10 where
  r : Word
  n : Uint64
  partials : List Word
  deriving DecidableEq, Repr

def mutUint64Udiv10 (n : Uint64) : Option Udiv10 := do
  let s ← mutUint64UdivHigh 32
    { n := n.hi, ans := 0, shift := mutUint64InitShift, mask := mutUint64ChunkMask, r := 0,
      partials := [] }
  -- least significant nibble of `n_hi`
  let high := s.chunk (s.n &&& s.mask)
  -- most significant nibble of `n_lo`
  let low : Udiv :=
    { high with
      n := n.lo, ans := 0, shift := mutUint64InitShift, mask := mutUint64TwoChunkMask }
  let first ← Word.shr n.lo low.shift
  let low ← low.next (((low.r <<< mutUint64ChunkBits) ||| first) &&& low.mask)
  let low ← mutUint64UdivLow (mutUint64NShifts - 1) low
  return { r := low.r, n := { hi := high.ans, lo := low.ans }, partials := low.partials }

/-! ## The numeral -/

def mutUint64MaxDecimalChars : Nat := 20

/-- Why `mut_uint64_out` does not return. -/
inductive OutHalt where
  | undefined
  | assertion
  | outside (i : Word)
  | endless
  deriving DecidableEq, Repr

/-- The buffer of `mut_uint64_out`, the index `i` and where a digit was put. -/
structure Out where
  buffer : Word → Option (BitVec 8)
  i : Word
  used : List Word
  digits : List Word

/-- `buffer[i]= c`, where there are `mutUint64MaxDecimalChars + 1` characters. -/
def Out.set (s : Out) (c : BitVec 8) : Except OutHalt Out :=
  if s.i.toNat < mutUint64MaxDecimalChars + 1 then
    .ok
      { s with
        buffer := fun j => if j = s.i then some c else s.buffer j, used := s.used ++ [s.i] }
  else .error (.outside s.i)

/-- The loop, for at most so many rounds. -/
def mutUint64OutDigits : Nat → Uint64 → Out → Except OutHalt Out
  | 0, _, _ => .error .endless
  | rounds + 1, ui, s =>
      match mutUint64Udiv10 ui with
      | none => .error .undefined
      | some answer =>
          if answer.r < 10 then do
            let s : Out := { s with i := s.i - 1, digits := s.digits ++ [s.i - 1] }
            let s ← s.set ((answer.r + 48).setWidth 8)
            if answer.n.hi ≠ 0 ∨ answer.n.lo ≠ 0 then
              mutUint64OutDigits rounds answer.n s
            else return s
          else .error .assertion

/-- What `fputs` writes of the buffer: the characters from `i` up to the first 0. -/
def Out.puts (s : Out) : Nat → Word → Except OutHalt (List (BitVec 8))
  | 0, i => .error (.outside i)
  | room + 1, i =>
      match s.buffer i with
      | none => .error .undefined
      | some c => if c = 0 then .ok [] else return c :: (← s.puts room (i + 1))

/-- What `mut_uint64_out` wrote, whether it could, and its indices. -/
structure Written where
  text : List (BitVec 8)
  ok : Bool
  used : List Word
  digits : List Word
  deriving DecidableEq, Repr

/-- `eof` says whether `fputs` fails.  The assertion `i >= 0` holds of every `size_t`. -/
def mutUint64Out (eof : Bool) (ui : Uint64) : Except OutHalt Written := do
  let s : Out :=
    { buffer := fun _ => none, i := BitVec.ofNat 32 mutUint64MaxDecimalChars, used := []
      digits := [] }
  let s ← s.set 0
  let s ← mutUint64OutDigits 64 ui s
  let text ← s.puts (mutUint64MaxDecimalChars + 1 - s.i.toNat) s.i
  return { text, ok := !eof, used := s.used, digits := s.digits }

end MutTracker.Source
