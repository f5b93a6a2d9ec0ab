import MutTracker.Source.Log

/-!
# Requests to the traced program

`src/proc/ptrace/mut_trace.c` and its x86 Linux part: a request each to read
or write a word of text, a word of data or a register, and one to let the
traced program go on.  A request that `ptrace` refuses logs a fatal error and
changes nothing.

`resumed` is not a field of the source.  It records the kernel, and the traced
program in it, each time `mut_process_resume` let it run, latest first, so that
a statement can speak about the arguments a function finally ran on and about
what the `waitpid` calls after it found.
-/

namespace MutTracker.Source

open MutTracker.Logic MutTracker.Logic.Prog

inductive ProcessStatus where
  | running
  | stopped
  | exited
  deriving DecidableEq, Repr

/-- `mut_process` and its `mut_trace`, with the kernel's side of them. -/
structure Process where
  log : Log
  child : Word
  status : ProcessStatus
  pc : Word
  kernel : Kernel
  resumed : List Kernel

abbrev ProcessM := Prog Process Halt

instance : MonadLift LogM ProcessM where
  monadLift := focus Process.log fun l p => { p with log := l }

/-- The registers `mut_trace` is asked for. -/
inductive Reg where
  | eip
  | eax
  | ebp
  | esp
  deriving DecidableEq, Repr

namespace Reg

/-- The register's number in `mut_process_arch_regs`. -/
def number : Reg → Word
  | .eip => 12
  | .eax => 6
  | .ebp => 5
  | .esp => 15

def get (t : Target) : Reg → Word
  | .eip => t.eip
  | .eax => t.eax
  | .ebp => t.ebp
  | .esp => t.esp

def set (v : Word) (t : Target) : Reg → Target
  | .eip => { t with eip := v }
  | .eax => { t with eax := v }
  | .ebp => { t with ebp := v }
  | .esp => { t with esp := v }

end Reg

/-- What the next `ptrace` call answers: the error number of a failure. -/
def ptrace : ProcessM (Option Nat) := do
  let p ← read
  update ({ · with kernel := { p.kernel with faults := p.kernel.faults.tail } })
  return p.kernel.faults.head?.join

/-- A `ptrace` call: `failure` with one argument when it is refused, and
`change` to the kernel's state when it is granted. -/
def mutTraceRequest (failure : String) (arg : Arg) (change : Kernel → Kernel) :
    ProcessM Bool := do
  match ← ptrace with
  | some errno =>
      mutLogFatal failure errno
      mutLogArg arg
      mutLogEnd
      return false
  | none =>
      update fun p => { p with kernel := change p.kernel }
      return true

/-- A `ptrace` call that brings back a word. -/
def mutTracePeek (failure : String) (arg : Arg) (look : Kernel → Word) :
    ProcessM (Option Word) := do
  if ← mutTraceRequest failure arg id then
    return some (look (← read).kernel)
  else
    return none

def mutTraceReadText (addr : Word) : ProcessM (Option Word) :=
  mutTracePeek "ptrace.peek.text" (.execAddr addr) fun k => k.text.readWord addr

def mutTraceReadData (addr : Word) : ProcessM (Option Word) :=
  mutTracePeek "ptrace.peek.data" (.execAddr addr) fun k => k.target.data.readWord addr

def mutTraceReadReg (reg : Reg) : ProcessM (Option Word) :=
  mutTracePeek "ptrace.peek.user" (.uint reg.number) fun k => reg.get k.target

def mutTraceWriteText (addr value : Word) : ProcessM Bool :=
  mutTraceRequest "ptrace.poke.text" (.execAddr addr) fun k =>
    { k with text := k.text.writeWord addr value }

def mutTraceWriteData (addr value : Word) : ProcessM Bool :=
  mutTraceRequest "ptrace.poke.data" (.execAddr addr) fun k =>
    { k with target := { k.target with data := k.target.data.writeWord addr value } }

def mutTraceWriteReg (reg : Reg) (value : Word) : ProcessM Bool :=
  mutTraceRequest "ptrace.poke.reg" (.uint reg.number) fun k =>
    { k with target := reg.set value k.target }

/-- The traced program runs from here to its next stop. -/
def mutTraceContinue (signalNumber : Nat) : ProcessM Bool :=
  mutTraceRequest "ptrace.cont" (.uint (BitVec.ofNat 32 signalNumber)) id

end MutTracker.Source
