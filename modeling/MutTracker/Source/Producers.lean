import MutTracker.Source.Actions

/-!
# malloc and calloc

The producers of `src/mut.c`.  A result of 0 is logged as a warning; any other
result becomes a resource.
-/

namespace MutTracker.Source

open MutTracker.Logic MutTracker.Logic.Prog

/-- The trace that `mut_malloc_failure` and its like log: the action, the
sizes and the result, with a backtrace. -/
def mutTraceCall (flags : Control) (action : Routine) (args : List Arg)
    (bt : Option Nat) : MutM Unit :=
  whenever flags.trace do
    mutLogInfo "trace"
    mutLogString ((← read).actions action).name
    mutLogArgs args
    whenever flags.backtrace (mutLogBacktrace bt)
    mutLogEnd

/-- The failure of a producer: a trace, the warning, and the backtrace is
closed. -/
def mutProducerFailure (flags : Control) (warning : String) (action : Routine)
    (traced warned : List Arg) (bt : Option Nat) : MutM Unit := do
  mutTraceCall flags action traced bt
  mutLogWarning warning
  mutLogString ((← read).actions action).name
  mutLogArgs warned
  whenever flags.backtrace (mutLogBacktrace bt)
  mutLogEnd
  whenever flags.backtrace (mutBacktraceClose bt)

/-- The success of `malloc` and `calloc`: a resource of `size`, unless there
is one at the address already. -/
def mutProducerSuccess (flags : Control) (again : String) (action : Routine)
    (traced : List Arg) (size objAddr : Word) (bt : Option Nat) : MutM Bool := do
  whenever flags.stats (mutCollectProducerStats size)
  let some obj ← mutResourcesCreateResource objAddr | return false
  let r ← Mut.resource obj
  if !mutResourceIsNew r then
    mutLogError again
    mutLogString ((← read).actions action).name
    mutLogString (← mutResourceProducerName r)
    mutLogExecAddr objAddr
    mutLogEnd
    return false
  mutResourceMakeProducer obj action size bt
  mutTraceCall flags action (traced ++ [.execAddr objAddr]) bt
  whenever flags.usage (mutReportUsage flags)
  return true

def mutMallocFailure (flags : Control) (size : Word) (bt : Option Nat) : MutM Unit :=
  mutProducerFailure flags "MR0" .malloc [.uint size, .execAddr 0] [.uint size] bt

def mutMallocSuccess (flags : Control) (size objAddr : Word) (bt : Option Nat) :
    MutM Bool := do
  mutAssert (flags.backtrace || bt.isNone) .noBacktrace
  mutProducerSuccess flags "MMM" .malloc [.uint size] size objAddr bt

/-- What `mut_do_malloc` and `mut_do_calloc` share once the arguments are read
and the backtrace is made.  `adjust` rewrites the arguments in check mode, for
a block of `adjustedSize`. -/
def mutProduce (flags : Control) (action : Routine) (adjust : MutM Bool)
    (adjustedSize : Word) (failure : Option Nat → MutM Unit)
    (success : Word → Option Nat → MutM Bool) (bt : Option Nat) : MutM Bool := do
  let some returnAddr ← mutProcessFunctionReturnAddr | freeBacktrace flags bt
  if !(← unlessFails flags.check adjust) then
    return ← freeBacktrace flags bt
  if !(← mutDoAction returnAddr action) then
    return ← freeBacktrace flags bt
  let some objAddrArg ← mutProcessReadResult | freeBacktrace flags bt
  whenever flags.stats (Mut.hit action)
  if objAddrArg = 0 then
    failure bt
    return true
  let some objAddr ← installZonesIfChecking flags objAddrArg adjustedSize
    | freeBacktrace flags bt
  success objAddr bt

def mutDoMalloc (flags : Control) (action : Routine) : MutM Bool := do
  let some size ← mutProcessReadArg 0 | return false
  let some bt ← mutProduceBacktrace flags | return false
  let adjustedSize := mutRoundUp size
  mutProduce flags action (mutProcessWriteArg 0 adjustedSize) adjustedSize
    (mutMallocFailure flags size) (mutMallocSuccess flags size) bt

def mutCallocFailure (flags : Control) (nElems elemSize : Word) (bt : Option Nat) :
    MutM Unit :=
  mutProducerFailure flags "CR0" .calloc [.uint nElems, .uint elemSize, .execAddr 0]
    [.uint nElems, .uint elemSize] bt

def mutCallocSuccess (flags : Control) (nElems elemSize objAddr : Word)
    (bt : Option Nat) : MutM Bool :=
  mutProducerSuccess flags "CMM" .calloc [.uint nElems, .uint elemSize]
    (nElems * elemSize) objAddr bt

/-- In check mode the call asks for whole zones: those of the object, one more
for the rest, and two for the marks. -/
def mutCallocZones (nElems elemSize : Word) : Word :=
  (nElems * elemSize).udiv mutZoneSize + 1 + 2

def mutDoCalloc (flags : Control) (action : Routine) : MutM Bool := do
  let some nElems ← mutProcessReadArg 0 | return false
  let some elemSize ← mutProcessReadArg 1 | return false
  let some bt ← mutProduceBacktrace flags | return false
  let nZones := mutCallocZones nElems elemSize
  let adjust : MutM Bool := do
    if !(← mutProcessWriteArg 0 nZones) then
      return false
    mutProcessWriteArg 1 mutZoneSize
  mutProduce flags action adjust (nZones * mutZoneSize)
    (mutCallocFailure flags nElems elemSize) (mutCallocSuccess flags nElems elemSize) bt

end MutTracker.Source
