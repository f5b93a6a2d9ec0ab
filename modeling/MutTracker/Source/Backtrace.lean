import MutTracker.Source.State

/-!
# Backtraces

`src/backtrace/fixed/mut_backtrace.c`, and from the x86 part of the process
the walk along the frame pointers that fills a backtrace in.
-/

namespace MutTracker.Source

open MutTracker.Logic MutTracker.Logic.Prog

def mutBacktraceFramesMax : Nat := 20

/-- `mut_assert_pre (bt != (mut_backtrace *)0)`, and follow the pointer. -/
def Mut.backtrace (bt : Option Nat) : MutM (Nat × Backtrace) := do
  let some ptr := bt | stop (.assertion .backtraceNotNull)
  let some b := (← read).mem.backtraces ptr | stop .badPointer
  return (ptr, b)

/-- Store `b` at a backtrace pointer, or free it. -/
def Mut.setBacktrace (ptr : Nat) (b : Option Backtrace) : MutM Unit :=
  update fun m =>
    { m with mem := { m.mem with backtraces := Function.update m.mem.backtraces ptr b } }

/-- A new backtrace, or null. -/
def mutBacktraceOpen : MutM (Option Nat) := do
  match ← Mut.malloc with
  | .error errno =>
      mutLogMemFull errno
      return none
  | .ok ptr =>
      Mut.setBacktrace ptr (some { refCount := 1, frames := [] })
      return some ptr

/-- Whether there was still room for the return address. -/
def mutBacktraceEnter (bt : Nat) (ra : Word) : MutM Bool := do
  let (ptr, b) ← Mut.backtrace (some bt)
  if b.frames.length < mutBacktraceFramesMax then
    Mut.setBacktrace ptr (some { b with frames := b.frames ++ [ra] })
    return true
  else
    return false

def mutBacktraceShare (bt : Option Nat) : MutM (Option Nat) := do
  let (ptr, b) ← Mut.backtrace bt
  Mut.setBacktrace ptr (some { b with refCount := b.refCount + 1 })
  return bt

/-- One frame of `mut_log_backtrace`. -/
def mutLogFrame (e : Exec) (addr : Word) : LogM Unit := do
  match mutExecAddrName e addr with
  | some f =>
      mutLogString f.name
      mutLogExecAddr f.functionAddr
      mutLogExecAddr addr
      mutLogUint (addr - f.functionAddr)
      mutLogString (f.fileName.getD "?")
      mutLogUint f.line
  | none =>
      mutLogString "?"
      mutLogExecAddr addr

def mutLogFrames (e : Exec) : List Word → LogM Unit
  | [] => return ()
  | addr :: frames => do
      mutLogFrame e addr
      mutLogFrames e frames

def mutLogBacktrace (bt : Option Nat) : MutM Unit := do
  let (_, b) ← Mut.backtrace bt
  let exec := (← read).exec
  mutLogUint (BitVec.ofNat 32 b.frames.length)
  mutLogFrames exec b.frames

def mutBacktraceClose (bt : Option Nat) : MutM Unit := do
  let (ptr, b) ← Mut.backtrace bt
  mutAssert (b.refCount != 0) .refCountNotZero
  Mut.setBacktrace ptr (if b.refCount = 1 then none else some { b with refCount := b.refCount - 1 })

/-- The loop of `mut_process_function_backtrace`.  A frame is entered in each
round and the backtrace takes no more than `mutBacktraceFramesMax` of them, so
the rounds are counted down from one more than that; it takes no round more. -/
def mutProcessBacktraceFrom (bt : Nat) : Nat → Word → Word → MutM Bool
  | 0, _, _ => stop .endless
  | rounds + 1, ebp, base => do
      if ebp = 0 ∨ ebp ≤ base then
        return true
      let some returnAddr ← mutTraceReadData (ebp + mutArgSize) | return false
      if returnAddr = 0 then
        return true
      if !(← mutBacktraceEnter bt (returnAddr - 5)) then
        return true
      let some ebp' ← mutTraceReadData ebp | return false
      mutProcessBacktraceFrom bt rounds ebp' ebp

/-- The size of a call instruction is 5. -/
def mutProcessFunctionBacktrace (bt : Nat) : MutM Bool := do
  let some esp ← mutTraceReadReg .esp | return false
  let some returnAddr ← mutTraceReadData esp | return false
  if !(← mutBacktraceEnter bt (returnAddr - 5)) then
    return true
  let some ebp ← mutTraceReadReg .ebp | return false
  mutProcessBacktraceFrom bt (mutBacktraceFramesMax + 1) ebp esp

end MutTracker.Source
