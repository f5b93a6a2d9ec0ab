import MutTracker.Source.Actions

/-!
# free and cfree

The consumers of `src/mut.c`, with the messages about misused memory.
-/

namespace MutTracker.Source

open MutTracker.Logic MutTracker.Logic.Prog

def mutLogFum (flags : Control) (objAddr : Word) (consumer : Routine)
    (bt : Option Nat) : MutM Unit := do
  mutLogError "FUM"
  mutLogString ((← read).actions consumer).name
  mutLogExecAddr objAddr
  whenever flags.backtrace (mutLogBacktrace bt)
  mutLogEnd

def mutLogFfm (flags : Control) (objAddr : Word) (consumer : Routine) (obj : Nat)
    (bt : Option Nat) : MutM Unit := do
  mutAssert (!flags.free) .notFreeing
  let r ← Mut.resource obj
  mutAssert (mutResourcesResourceDeleted r) .deleted
  mutLogError "FFM"
  mutLogString ((← read).actions consumer).name
  mutLogExecAddr objAddr
  whenever flags.backtrace (mutLogBacktrace bt)
  mutLogString (← mutResourceConsumerName r)
  whenever flags.backtrace (mutLogBacktrace r.consumer.backtrace)
  mutLogEnd

def mutLogWum (flags : Control) (objAddr zoneAddr zoneValue : Word)
    (consumer : Routine) (obj : Nat) (bt : Option Nat) : MutM Unit := do
  mutAssert flags.check .checking
  let r ← Mut.resource obj
  mutLogError "WUM"
  mutLogString ((← read).actions consumer).name
  mutLogExecAddr objAddr
  mutLogUlong r.size
  mutLogExecAddr zoneAddr
  mutLogUintHex zoneValue
  whenever flags.backtrace (mutLogBacktrace bt)
  mutLogString (← mutResourceProducerName r)
  whenever flags.backtrace (mutLogBacktrace r.producer.backtrace)
  mutLogEnd

/-- Where `mut_zone_check` looks for the mark before an object. -/
def preZoneAddr (objAddr : Word) : Word := objAddr - mutZoneSize

/-- Where `mut_zone_check` looks for the mark after an object of `size`. -/
def postZoneAddr (objAddr size : Word) : Word :=
  preZoneAddr objAddr + mutRoundUp size - mutZoneSize

def mutZoneCheck (flags : Control) (objAddr : Word) (obj : Nat) (consumer : Routine)
    (bt : Option Nat) : MutM Bool := do
  let r ← Mut.resource obj
  let some preZone ← mutProcessReadWord (preZoneAddr objAddr) | return false
  if preZone ≠ mutZoneValue then
    mutLogWum flags objAddr (preZoneAddr objAddr) preZone consumer obj bt
    return false
  let some postZone ← mutProcessReadWord (postZoneAddr objAddr r.size) | return false
  if postZone ≠ mutZoneValue then
    mutLogWum flags objAddr (postZoneAddr objAddr r.size) postZone consumer obj bt
    return false
  return true

/-- The trace of a `[c]free`. -/
def mutTraceConsumer (flags : Control) (consumer : Routine) (args : List Arg) :
    MutM Unit :=
  whenever flags.trace do
    mutLogInfo "trace"
    mutLogString ((← read).actions consumer).name
    mutLogArgs args
    mutLogEnd

/-- Run the target's function, or skip it when memory is not really freed. -/
def mutFinishConsumer (flags : Control) (returnAddr : Word) (consumer : Routine) :
    MutM Bool :=
  if flags.free then mutDoAction returnAddr consumer else mutProcessSkipTo returnAddr

/-- `.free.addr.alloc.avail`: the object at `objAddr` is live. -/
def mutConsumeLive (flags : Control) (objAddr returnAddr : Word) (consumer : Routine)
    (obj : Nat) (bt : Option Nat) : MutM Bool := do
  let size := (← Mut.resource obj).size
  whenever flags.stats (Mut.updateStats fun s => s.consumed size)
  if !(← unlessFails flags.check (mutZoneCheck flags objAddr obj consumer bt)) then
    return ← freeBacktrace flags bt
  if !(← unlessFails flags.zero (mutProcessMemset objAddr 0 size)) then
    return ← freeBacktrace flags bt
  mutResourcesDeleteResource obj consumer bt
  whenever flags.backtrace (mutBacktraceClose bt)
  whenever flags.usage (mutReportUsage flags)
  mutFinishConsumer flags returnAddr consumer

def mutDoConsumer (flags : Control) (consumer : Routine) : MutM Bool := do
  whenever flags.stats (Mut.hit consumer)
  let some objAddr ← mutProcessReadArg 0 | return false
  let some returnAddr ← mutProcessFunctionReturnAddr | return false
  let some bt ← mutProduceBacktrace flags | return false
  if objAddr = 0 then
    mutTraceConsumer flags consumer [.execAddr objAddr]
    whenever flags.backtrace (mutBacktraceClose bt)
    return ← mutDoAction returnAddr consumer
  match ← mutResourcesLookup objAddr with
  | none =>
      mutTraceConsumer flags consumer [.execAddr objAddr, .int 0]
      mutLogFum flags objAddr consumer bt
      whenever flags.backtrace (mutBacktraceClose bt)
      mutFinishConsumer flags returnAddr consumer
  | some obj =>
      let r ← Mut.resource obj
      mutTraceConsumer flags consumer [.execAddr objAddr, .ulong r.size]
      if mutResourcesResourceDeleted r then
        mutLogFfm flags objAddr consumer obj bt
        whenever flags.backtrace (mutBacktraceClose bt)
        mutFinishConsumer flags returnAddr consumer
      else
        mutConsumeLive flags objAddr returnAddr consumer obj bt

end MutTracker.Source
