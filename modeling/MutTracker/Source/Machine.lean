import Mathlib.Algebra.Order.Ring.Nat
import MutTracker.Logic.Bytes

/-!
# The traced program and the kernel

What the tracker sees of the program it traces, on a 32-bit x86: four
registers, its data memory and its text.  Addresses, registers, function
arguments and `size_t` are all `Word`.  The text is kept apart from the data:
the tracker reaches it through its own pair of `ptrace` requests, and the
traced program does not write it.

The kernel's answers are inputs of a run.  `faults` lists what the coming
`ptrace` calls answer, `none` for success, and an exhausted list answers
success; `waits` lists what the coming `waitpid` calls report, and a call
past its end never returns.  While the traced program runs it may change all
its registers and data, so every stop brings the whole `Target` it stopped
with.
-/

namespace MutTracker.Source

open MutTracker.Logic

/-- `mut_reg`, `mut_arg`, `mut_instr`, `mut_exec_addr` and `size_t`. -/
abbrev Word := BitVec 32

/-- The registers and the data memory of the traced program. -/
structure Target where
  eip : Word
  eax : Word
  ebp : Word
  esp : Word
  data : Memory

/-- The `WSTOPSIG` of a breakpoint. -/
def sigtrap : Nat := 5

/-- What a `waitpid` call reports.  A call that fails assigns nothing to
`status`, so the word that happens to be there comes with it. -/
inductive Stop where
  | failed (errno : Nat) (status : Word)
  | exited (status : Nat)
  | signaled (signal : Nat)
  | stopped (signal : Nat) (target : Target)
  | other (status : Nat) (target : Target)

structure Kernel where
  target : Target
  text : Memory
  faults : List (Option Nat)
  waits : List Stop

/-- The conditions the tracker asserts, by what they say. -/
inductive Assertion where
  /-- `mut_log_*`: no fatal error was logged. -/
  | noFatalError
  /-- `mut_log_*`: no message is open. -/
  | notLogging
  /-- `mut_log_*`: no write to the sink failed. -/
  | noInternalError
  /-- `mut_log_*`: a message is open. -/
  | logging
  /-- `mut_process_*`: the process is stopped. -/
  | stopped
  /-- `mut_process_wait`: the process is running. -/
  | running
  /-- `mut_process_close`: the process is not running. -/
  | notRunning
  /-- `mut_process_*`: the address is aligned to a word. -/
  | aligned
  /-- `mut_backtrace_*`: the backtrace is not null. -/
  | backtraceNotNull
  /-- `mut_backtrace_close`: the backtrace is referred to. -/
  | refCountNotZero
  /-- `mut_resources_*`: the resource has no consumer yet. -/
  | noConsumer
  /-- `mut_resources_*`: some resource is active. -/
  | someActive
  /-- `mut_resources_really_delete_resource`: the address is in the list. -/
  | inList
  /-- The handlers: without backtraces there is no backtrace. -/
  | noBacktrace
  /-- `mut_log_ffm`: memory is not really freed. -/
  | notFreeing
  /-- `mut_realloc_realloc`: memory is really freed. -/
  | freeing
  /-- `mut_log_wum`: zones are checked. -/
  | checking
  /-- `mut_log_ffm`: the resource has a consumer. -/
  | deleted
  /-- `mut_realloc_realloc`: the resource has no consumer. -/
  | notDeleted
  /-- `mut_realloc_realloc_no_free`: the object has moved. -/
  | moved
  /-- `mut_realloc_*`: the resource is new. -/
  | isNew
  deriving DecidableEq, Repr

/-- Why a run of the tracker stops without returning. -/
inductive Halt where
  /-- A failed `mut_assert_pre` or `mut_assert_check`. -/
  | assertion (a : Assertion)
  /-- A null pointer or a pointer to freed storage was followed. -/
  | badPointer
  /-- `waitpid` never returns. -/
  | blocked
  /-- A loop went through more rounds than its bound allows for. -/
  | endless
  deriving DecidableEq, Repr

end MutTracker.Source
