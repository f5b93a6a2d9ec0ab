import MutTracker.Source.Producers
import MutTracker.Source.Consumers

/-!
# realloc

The four ways a `realloc` ends in `src/mut.c`: of a null pointer, of a live
object when memory is really freed and when it is not, and of an address that
was never allocated.
-/

namespace MutTracker.Source

open MutTracker.Logic MutTracker.Logic.Prog

def mutReallocFailure (flags : Control) (newSize oldAddr oldSize : Word)
    (bt : Option Nat) : MutM Unit := do
  mutAssert (flags.backtrace || bt.isNone) .noBacktrace
  mutProducerFailure flags "RR0" .realloc
    [.execAddr oldAddr, .uint oldSize, .uint newSize, .execAddr 0]
    [.execAddr oldAddr, .uint oldSize, .uint newSize] bt

/-- The trace of a `realloc` that succeeded. -/
def mutTraceRealloc (flags : Control) (oldAddr oldSize newSize newAddr : Word)
    (bt : Option Nat) : MutM Unit :=
  mutTraceCall flags .realloc
    [.execAddr oldAddr, .ulong oldSize, .ulong newSize, .execAddr newAddr] bt

/-- `realloc (0, n)`. -/
def mutReallocMalloc (flags : Control) (objSize : Word) (bt : Option Nat) :
    MutM Bool := do
  mutAssert (flags.backtrace || bt.isNone) .noBacktrace
  let some objAddrArg ← mutProcessReadResult | freeBacktrace flags bt
  whenever flags.stats (Mut.hit .realloc)
  if objAddrArg = 0 then
    mutReallocFailure flags objSize 0 0 bt
    return false
  let some objAddr ← installZonesIfChecking flags objAddrArg (mutRoundUp objSize)
    | freeBacktrace flags bt
  let some obj ← mutResourcesCreateResource objAddr | freeBacktrace flags bt
  mutAssert (mutResourceIsNew (← Mut.resource obj)) .isNew
  whenever flags.stats (mutCollectProducerStats objSize)
  Mut.assign obj fun r =>
    { r with
      producer :=
        { action := some .realloc
          backtrace := if flags.backtrace then bt else r.producer.backtrace }
      size := objSize }
  mutTraceRealloc flags 0 0 objSize objAddr bt
  whenever flags.usage (mutReportUsage flags)
  return true

/-- The backtraces of an object that `mut_realloc_realloc` re-addressed: the
old ones are closed and `bt` takes the producer's place. -/
def mutReallocBacktraces (obj : Nat) (bt : Option Nat) : MutM Unit := do
  let r ← Mut.resource obj
  whenever r.consumer.backtrace.isSome (mutBacktraceClose r.consumer.backtrace)
  Mut.assign obj fun r => { r with consumer := { r.consumer with backtrace := none } }
  mutBacktraceClose r.producer.backtrace
  Mut.assign obj fun r => { r with producer := { r.producer with backtrace := bt } }

/-- Give the object the address its `realloc` returned, and zero the place it
left. -/
def mutReallocMove (flags : Control) (obj : Nat) (old : Resource) (newObjAddr : Word) :
    MutM Bool := do
  if old.addr = newObjAddr then
    mutAssert (!mutResourcesResourceDeleted old) .notDeleted
    return true
  else
    if !(← unlessFails flags.zero (mutProcessMemset old.addr 0 old.size)) then
      return false
    Mut.assign obj fun r => { r with addr := newObjAddr }
    return true

/-- `realloc` of an object when memory is really freed. -/
def mutReallocRealloc (flags : Control) (obj : Nat) (newObjSize : Word)
    (bt : Option Nat) : MutM Bool := do
  mutAssert flags.free .freeing
  mutAssert (flags.backtrace || bt.isNone) .noBacktrace
  let some newObjAddr ← mutProcessReadResult | return false
  whenever flags.stats (Mut.hit .realloc)
  let old ← Mut.resource obj
  if newObjAddr = 0 then
    mutReallocFailure flags newObjSize old.addr old.size bt
    return false
  whenever flags.stats (Mut.updateStats fun s => s.consumed old.size)
  if !(← mutReallocMove flags obj old newObjAddr) then
    return false
  whenever flags.stats (mutCollectProducerStats newObjSize)
  Mut.assign obj fun r =>
    { r with
      producer := { r.producer with action := some .realloc }
      size := newObjSize
      consumer := { r.consumer with action := none } }
  whenever flags.backtrace (mutReallocBacktraces obj bt)
  mutTraceRealloc flags old.addr old.size newObjSize newObjAddr bt
  whenever flags.usage (mutReportUsage flags)
  return true

/-- `realloc` of an object when memory is not freed. -/
def mutReallocReallocNoFree (flags : Control) (oldObj : Nat) (newSize : Word)
    (bt : Option Nat) : MutM Bool := do
  let old ← Mut.resource oldObj
  mutAssert (flags.backtrace || bt.isNone) .noBacktrace
  let some objAddr ← mutProcessReadResult | freeBacktrace flags bt
  mutAssert (old.addr != objAddr) .moved
  if objAddr = 0 then
    mutReallocFailure flags newSize old.addr old.size bt
    return false
  whenever flags.stats (Mut.updateStats fun s => s.consumed old.size)
  mutResourcesDeleteResource oldObj .realloc bt
  let some obj ← mutResourcesCreateResource objAddr | freeBacktrace flags bt
  mutAssert (mutResourceIsNew (← Mut.resource obj)) .isNew
  mutResourceMakeProducer obj .realloc newSize bt
  let sz := if old.size < newSize then old.size else newSize
  if !(← mutProcessMemcpy (← Mut.resource obj).addr old.addr sz) then
    return false
  if !(← unlessFails flags.zero (mutProcessMemset old.addr 0 old.size)) then
    return false
  whenever flags.stats do
    Mut.hit .realloc
    mutCollectProducerStats newSize
  mutTraceRealloc flags old.addr old.size newSize (← Mut.resource obj).addr bt
  whenever flags.usage (mutReportUsage flags)
  return true

/-- `realloc` of an address never allocated, when memory is not freed: the
target ran `realloc (0, n)`. -/
def mutReallocMallocNoFree (flags : Control) (newSize : Word) (bt : Option Nat) :
    MutM Bool := do
  mutAssert (flags.backtrace || bt.isNone) .noBacktrace
  let some objAddrArg ← mutProcessReadResult | freeBacktrace flags bt
  if objAddrArg = 0 then
    mutReallocFailure flags newSize 0 0 bt
    return false
  let some objAddr ← installZonesIfChecking flags objAddrArg (mutRoundUp newSize)
    | freeBacktrace flags bt
  let some obj ← mutResourcesCreateResource objAddr | freeBacktrace flags bt
  mutAssert (mutResourceIsNew (← Mut.resource obj)) .isNew
  mutResourceMakeProducer obj .realloc newSize bt
  let r ← Mut.resource obj
  whenever flags.stats do
    Mut.hit .realloc
    mutCollectProducerStats r.size
  mutTraceRealloc flags 0 0 r.size r.addr bt
  return true

def mutReallocFumTrace (flags : Control) (action : Routine) (objAddr newSize : Word) :
    MutM Unit :=
  mutTraceConsumer flags action [.execAddr objAddr, .uint newSize, .int 0]

/-- `realloc` of an address never allocated. -/
def mutReallocUnknown (flags : Control) (action : Routine)
    (objAddr newSize returnAddr : Word) (bt : Option Nat) : MutM Bool := do
  whenever flags.stats (Mut.hit action)
  mutLogFum flags objAddr action bt
  if flags.free then
    mutReallocFumTrace flags action objAddr newSize
    whenever flags.backtrace (mutBacktraceClose bt)
    mutDoAction returnAddr action
  else
    if !(← mutProcessWriteArg 0 0) then
      return ← freeBacktrace flags bt
    if !(← unlessFails flags.check (mutProcessWriteArg 1 (mutRoundUp newSize))) then
      return ← freeBacktrace flags bt
    if !(← mutDoAction returnAddr action) then
      return ← freeBacktrace flags bt
    mutReallocMallocNoFree flags newSize bt

/-- `realloc` of an address in the list. -/
def mutReallocKnown (flags : Control) (action : Routine)
    (objAddr newSize returnAddr : Word) (obj : Nat) (bt : Option Nat) : MutM Bool := do
  whenever (mutResourcesResourceDeleted (← Mut.resource obj))
    (mutLogFfm flags objAddr action obj bt)
  if !(← unlessFails (!flags.free) (mutProcessWriteArg 0 0)) then
    return ← freeBacktrace flags bt
  if !(← unlessFails flags.check (mutProcessWriteArg 1 (mutRoundUp newSize))) then
    return ← freeBacktrace flags bt
  if !(← mutDoAction returnAddr action) then
    return ← freeBacktrace flags bt
  if flags.free then
    mutReallocRealloc flags obj newSize bt
  else
    mutReallocReallocNoFree flags obj newSize bt

def mutDoRealloc (flags : Control) (action : Routine) : MutM Bool := do
  let some objAddr ← mutProcessReadArg 0 | return false
  let some newSize ← mutProcessReadArg 1 | return false
  let some returnAddr ← mutProcessFunctionReturnAddr | return false
  let some bt ← mutProduceBacktrace flags | return false
  if objAddr = 0 then
    if !(← unlessFails flags.check (mutProcessWriteArg 1 (mutRoundUp newSize))) then
      return ← freeBacktrace flags bt
    if !(← mutDoAction returnAddr action) then
      return ← freeBacktrace flags bt
    return ← mutReallocMalloc flags newSize bt
  match ← mutResourcesLookup objAddr with
  | none => mutReallocUnknown flags action objAddr newSize returnAddr bt
  | some obj => mutReallocKnown flags action objAddr newSize returnAddr obj bt

end MutTracker.Source
