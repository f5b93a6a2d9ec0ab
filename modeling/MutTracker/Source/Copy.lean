import MutTracker.Logic.Ranges
import MutTracker.Source.Process

/-!
# Copying on a target of either byte order

`mut_process_memcpy` is not specific to the x86: a word that `ptrace` brings
back is in the byte order of the target, and nothing else in the function
depends on it.  On a little-endian target it is `mutProcessMemcpy`.
-/

namespace MutTracker.Source

open MutTracker.Logic MutTracker.Logic.Prog

/-- `mut_trace_read_data` on a target of the given byte order. -/
def mutTraceReadDataIn (e : Endian) (addr : Word) : ProcessM (Option Word) :=
  mutTracePeek "ptrace.peek.data" (.execAddr addr) fun k => Memory.readIn e k.target.data addr

/-- `mut_trace_write_data` on a target of the given byte order. -/
def mutTraceWriteDataIn (e : Endian) (addr value : Word) : ProcessM Bool :=
  mutTraceRequest "ptrace.poke.data" (.execAddr addr) fun k =>
    { k with target := { k.target with data := Memory.writeIn e k.target.data addr value } }

/-- The whole words of `mut_process_memcpy`. -/
def mutProcessMemcpyWordsIn (e : Endian) : Nat → Word → Word → ProcessM Bool
  | 0, _, _ => return true
  | nwords + 1, dest, src => do
      let some data ← mutTraceReadDataIn e src | return false
      if !(← mutTraceWriteDataIn e dest data) then
        return false
      mutProcessMemcpyWordsIn e nwords (dest + 4) (src + 4)

/-- `mut_process_memcpy` on a target of the given byte order. -/
def mutProcessMemcpyIn (e : Endian) (dest src n : Word) : ProcessM Bool := do
  let nwords := n.toNat / 4
  let nbytes := n.toNat % 4
  mutAssertStatus .stopped .stopped
  mutAssert (mutExecAddrAligned dest) .aligned
  mutAssert (mutExecAddrAligned src) .aligned
  if !(← mutProcessMemcpyWordsIn e nwords dest src) then
    return false
  let dest := dest + BitVec.ofNat 32 (4 * nwords)
  let src := src + BitVec.ofNat 32 (4 * nwords)
  if nbytes = 0 then
    return true
  let some orig ← mutTraceReadDataIn e dest | return false
  let some data ← mutTraceReadDataIn e src | return false
  mutTraceWriteDataIn e dest (data ||| (orig &&& mutProcessByteMask nbytes))

theorem mutProcessMemcpyWordsIn_little (nwords : Nat) (dest src : Word) :
    mutProcessMemcpyWordsIn .little nwords dest src = mutProcessMemcpyWords nwords dest src := by
  induction nwords generalizing dest src with
  | zero => rfl
  | succ nwords ih =>
      unfold mutProcessMemcpyWordsIn mutProcessMemcpyWords
      simp only [ih]
      rfl

theorem mutProcessMemcpyIn_little (dest src n : Word) :
    mutProcessMemcpyIn .little dest src n = mutProcessMemcpy dest src n := by
  unfold mutProcessMemcpyIn mutProcessMemcpy
  simp only [mutProcessMemcpyWordsIn_little]
  rfl

end MutTracker.Source
