import MutTracker.Source.Trace

/-!
# The traced process

`src/proc/ptrace/mut_process.c` and its x86 part.  Arguments live on the
stack above the return address, the result in `eax`, and a breakpoint stop
reports the address after the breakpoint.

The C functions return a status and fill in what a pointer designates; here
`none` is the status 0 and `some` carries what was filled in.
-/

namespace MutTracker.Source

open MutTracker.Logic MutTracker.Logic.Prog

/-- `mut_instr_bp`, written as a whole word. -/
def mutInstrBp : Word := 0xcc

/-- `mut_pc_adjust`. -/
def mutPcAdjust (pc : Word) : Word := pc - 1

/-- `mut_arg_size`. -/
def mutArgSize : Word := 4

/-- `mut_exec_addr_aligned (a, sizeof (mut_reg))`. -/
def mutExecAddrAligned (a : Word) : Bool := a &&& 3 == 0

/-- `mut_assert_pre (p->status == ...)`. -/
def mutAssertStatus (status : ProcessStatus) (a : Assertion) : ProcessM Unit := do
  mutAssert (decide ((← read).status = status)) a

/-! ## Registers, arguments and results -/

def mutProcessReadPc : ProcessM (Option Word) := do
  mutAssertStatus .stopped .stopped
  mutTraceReadReg .eip

def mutProcessWritePc (pc : Word) : ProcessM Bool := do
  mutAssertStatus .stopped .stopped
  mutTraceWriteReg .eip pc

/-- Where argument `n` is, for a stack pointer on entry. -/
def argAddr (esp : Word) (n : Word) : Word := esp + mutArgSize + n * mutArgSize

def mutProcessReadArg (n : Word) : ProcessM (Option Word) := do
  mutAssertStatus .stopped .stopped
  let some esp ← mutTraceReadReg .esp | return none
  mutTraceReadData (argAddr esp n)

def mutProcessWriteArg (n arg : Word) : ProcessM Bool := do
  mutAssertStatus .stopped .stopped
  let some esp ← mutTraceReadReg .esp | return false
  mutTraceWriteData (argAddr esp n) arg

def mutProcessFunctionReturnAddr : ProcessM (Option Word) := do
  mutAssertStatus .stopped .stopped
  let some esp ← mutTraceReadReg .esp | return none
  mutTraceReadData esp

def mutProcessReadResult : ProcessM (Option Word) := do
  mutAssertStatus .stopped .stopped
  mutTraceReadReg .eax

def mutProcessWriteResult (result : Word) : ProcessM Bool := do
  mutAssertStatus .stopped .stopped
  mutTraceWriteReg .eax result

/-- Return from the function without running it. -/
def mutProcessSkipTo (pc : Word) : ProcessM Bool := do
  mutAssertStatus .stopped .stopped
  update ({ · with pc })
  let some esp ← mutTraceReadReg .esp | return false
  mutTraceWriteReg .esp (esp + mutArgSize)

/-! ## Breakpoints -/

/-- Sets a breakpoint; brings back the word that was there. -/
def mutProcessBreakpoint (pc : Word) : ProcessM (Option Word) := do
  mutAssertStatus .stopped .stopped
  let some instr ← mutTraceReadText pc | return none
  if ← mutTraceWriteText pc mutInstrBp then
    return some instr
  else
    return none

def mutProcessRestore (pc instr : Word) : ProcessM Bool := do
  mutAssertStatus .stopped .stopped
  mutTraceWriteText pc instr

/-! ## Running and waiting -/

def mutProcessResume : ProcessM Bool := do
  mutAssertStatus .stopped .stopped
  if !(← mutProcessWritePc (← read).pc) then
    return false
  if !(← mutTraceContinue 0) then
    return false
  update fun p =>
    { p with status := .running, resumed := p.kernel :: p.resumed }
  return true

/-- The status of `mut_process_wait`: negative, zero or positive. -/
inductive WaitStatus where
  | exited
  | failed
  | stopped (pc : Word)
  deriving DecidableEq, Repr

/-- The traced process ended: `name` and one number are logged. -/
def mutProcessExited (name : String) (n : Nat) : ProcessM WaitStatus := do
  mutLogInfo name
  mutLogInt n
  mutLogEnd
  update ({ · with status := .exited })
  return .exited

/-- The loop of `mut_process_wait` over what the coming `waitpid` calls
report.  `mut_process_read_pc` has no negative status on the x86. -/
def mutProcessWaitFor : List Stop → ProcessM WaitStatus
  | [] => stop .blocked
  | .failed errno status :: rest => do
      update fun p => { p with kernel := { p.kernel with waits := rest } }
      mutLogFatal "waitpid" errno
      mutLogInt status.toInt
      mutLogEnd
      return .failed
  | .exited status :: rest => do
      update fun p => { p with kernel := { p.kernel with waits := rest } }
      mutProcessExited "process.exited" status
  | .signaled signal :: rest => do
      update fun p => { p with kernel := { p.kernel with waits := rest } }
      mutProcessExited "process.signaled" signal
  | .stopped signal target :: rest => do
      update fun p => { p with kernel := { p.kernel with waits := rest, target } }
      if signal = sigtrap then
        update ({ · with status := .stopped })
        let some pc ← mutProcessReadPc | return .failed
        update ({ · with pc := mutPcAdjust pc })
        return .stopped (mutPcAdjust pc)
      else
        if !(← mutTraceContinue signal) then
          return .failed
        mutProcessWaitFor rest
  | .other status target :: rest => do
      update fun p => { p with kernel := { p.kernel with waits := rest, target } }
      mutLogInfo "process.unknown"
      mutLogUintHex (BitVec.ofNat 32 status)
      mutLogEnd
      if !(← mutTraceContinue 0) then
        return .failed
      mutProcessWaitFor rest

def mutProcessWait : ProcessM WaitStatus := do
  mutAssertStatus .running .running
  mutProcessWaitFor (← read).kernel.waits

/-! ## Data -/

def mutProcessReadWord (addr : Word) : ProcessM (Option Word) := do
  mutAssertStatus .stopped .stopped
  mutAssert (mutExecAddrAligned addr) .aligned
  mutTraceReadData addr

def mutProcessWriteWord (addr n : Word) : ProcessM Bool := do
  mutAssertStatus .stopped .stopped
  mutAssert (mutExecAddrAligned addr) .aligned
  mutTraceWriteData addr n

/-- `mut_process_byte_mask`. -/
def mutProcessByteMask (nbytes : Nat) : Word := (1 <<< ((4 - nbytes) * 8)) - 1

/-- The whole words of `mut_process_memcpy`. -/
def mutProcessMemcpyWords : Nat → Word → Word → ProcessM Bool
  | 0, _, _ => return true
  | nwords + 1, dest, src => do
      let some data ← mutTraceReadData src | return false
      if !(← mutTraceWriteData dest data) then
        return false
      mutProcessMemcpyWords nwords (dest + 4) (src + 4)

def mutProcessMemcpy (dest src n : Word) : ProcessM Bool := do
  let nwords := n.toNat / 4
  let nbytes := n.toNat % 4
  mutAssertStatus .stopped .stopped
  mutAssert (mutExecAddrAligned dest) .aligned
  mutAssert (mutExecAddrAligned src) .aligned
  if !(← mutProcessMemcpyWords nwords dest src) then
    return false
  let dest := dest + BitVec.ofNat 32 (4 * nwords)
  let src := src + BitVec.ofNat 32 (4 * nwords)
  if nbytes = 0 then
    return true
  let some orig ← mutTraceReadData dest | return false
  let some data ← mutTraceReadData src | return false
  mutTraceWriteData dest (data ||| (orig &&& mutProcessByteMask nbytes))

/-- The whole words of `mut_process_memset`. -/
def mutProcessMemsetWords (pattern : Word) : Nat → Word → ProcessM Bool
  | 0, _ => return true
  | nwords + 1, addr => do
      if !(← mutTraceWriteData addr pattern) then
        return false
      mutProcessMemsetWords pattern nwords (addr + 4)

def mutProcessMemset (addr c n : Word) : ProcessM Bool := do
  let nwords := n.toNat / 4
  let nbytes := n.toNat % 4
  let pattern := c ||| (c <<< 8) ||| (c <<< 16) ||| (c <<< 24)
  mutAssertStatus .stopped .stopped
  mutAssert (mutExecAddrAligned addr) .aligned
  if !(← mutProcessMemsetWords pattern nwords addr) then
    return false
  let addr := addr + BitVec.ofNat 32 (4 * nwords)
  if nbytes = 0 then
    return true
  let some orig ← mutTraceReadData addr | return false
  mutTraceWriteData addr (pattern ||| (orig &&& mutProcessByteMask nbytes))

end MutTracker.Source
