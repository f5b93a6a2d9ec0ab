import MutTracker.Source.Backtrace

/-!
# The resource list

`src/resources/list/mut_resources.c`: the objects of the traced program, in a
linked list with the latest first.  An object that is freed is unlinked when
memory is really freed, and marked with its consumer when it is not.
-/

namespace MutTracker.Source

open MutTracker.Logic MutTracker.Logic.Prog

/-- `mut_resource_is_new`. -/
def mutResourceIsNew (obj : Resource) : Bool := obj.producer.backtrace.isNone

/-- `mut_resources_resource_deleted`. -/
def mutResourcesResourceDeleted (obj : Resource) : Bool := obj.consumer.action.isSome

/-- `mut_resource_producer_name`. -/
def mutResourceProducerName (obj : Resource) : MutM String :=
  Mut.actionName obj.producer.action

/-- `mut_resource_consumer_name`. -/
def mutResourceConsumerName (obj : Resource) : MutM String :=
  Mut.actionName obj.consumer.action

/-- Assign to the fields of `m->resources`. -/
def Mut.updateResources (f : Resources → Resources) : MutM Unit :=
  update fun m => { m with resources := f m.resources }

def mutResourceMakeProducer (obj : Nat) (producer : Routine) (objSize : Word)
    (bt : Option Nat) : MutM Unit :=
  Mut.assign obj fun r =>
    { r with producer := { action := some producer, backtrace := bt }, size := objSize }

def mutResourcesReallyDeleteResource (obj : Nat) (_consumer : Routine)
    (_bt : Option Nat) : MutM Unit := do
  let o ← Mut.resource obj
  let rs := (← read).resources
  mutAssert o.consumer.action.isNone .noConsumer
  mutAssert (rs.nActiveElems > 0) .someActive
  let some r := Keyed.get Resource.addr o.addr rs.elems | stop (.assertion .inList)
  Mut.updateResources fun rs => { rs with elems := Keyed.remove Resource.addr o.addr rs.elems }
  whenever r.producer.backtrace.isSome (mutBacktraceClose r.producer.backtrace)
  Mut.updateResources fun rs => { rs with nActiveElems := rs.nActiveElems - 1 }

def mutResourcesMarkAsFree (obj : Nat) (consumer : Routine) (bt : Option Nat) :
    MutM Unit := do
  let o ← Mut.resource obj
  let rs := (← read).resources
  mutAssert o.consumer.action.isNone .noConsumer
  mutAssert (rs.nActiveElems > 0) .someActive
  Mut.assign obj fun r => { r with consumer := { r.consumer with action := some consumer } }
  whenever bt.isSome do
    let shared ← mutBacktraceShare bt
    Mut.assign obj fun r => { r with consumer := { r.consumer with backtrace := shared } }
  Mut.updateResources fun rs =>
    { rs with nActiveElems := rs.nActiveElems - 1, nConsumedElems := rs.nConsumedElems + 1 }

/-- `mut_resources_delete_resource`. -/
def mutResourcesDeleteResource (obj : Nat) (consumer : Routine) (bt : Option Nat) :
    MutM Unit := do
  if (← read).resources.reallyFree then
    mutResourcesReallyDeleteResource obj consumer bt
  else
    mutResourcesMarkAsFree obj consumer bt

def mutResourcesOpen (reallyFree : Bool) : Resources :=
  { elems := [], nActiveElems := 0, nConsumedElems := 0, reallyFree }

/-- The resource at `addr`, made if there is none; null when memory is full.
The size of a new resource is assigned by its producer. -/
def mutResourcesCreateResource (addr : Word) : MutM (Option Nat) := do
  match Keyed.get Resource.addr addr (← read).resources.elems with
  | some r => return some r.ptr
  | none =>
      match ← Mut.malloc with
      | .error errno =>
          mutLogMemFull errno
          return none
      | .ok ptr =>
          let r : Resource :=
            { ptr, addr, size := 0, producer := ⟨none, none⟩, consumer := ⟨none, none⟩ }
          Mut.updateResources fun rs =>
            { rs with elems := r :: rs.elems, nActiveElems := rs.nActiveElems + 1 }
          return some ptr

def mutResourcesLookup (addr : Word) : MutM (Option Nat) := do
  return (Keyed.get Resource.addr addr (← read).resources.elems).map (·.ptr)

/-! ## Iterating -/

/-- `mut_resources_iter`: the resources still to come. -/
structure ResourcesIter where
  elem : List Resource
  all : Bool

def mutResourcesIterOpen (all : Bool) : MutM (Nat × ResourcesIter) := do
  let rs := (← read).resources
  return (rs.nActiveElems + (if all then rs.nConsumedElems else 0), { elem := rs.elems, all })

/-- The loop of `mut_resources_iter_read`. -/
def mutResourcesIterReadFrom (all : Bool) : List Resource → Option (Resource × ResourcesIter)
  | [] => none
  | item :: next =>
      if !all && item.consumer.action.isSome then
        mutResourcesIterReadFrom all next
      else
        some (item, { elem := next, all })

/-- The next resource and the iterator after it, or null at the end. -/
def mutResourcesIterRead (iter : ResourcesIter) : Option (Resource × ResourcesIter) :=
  mutResourcesIterReadFrom iter.all iter.elem

/-- `while ((r = mut_resources_iter_read (&iter)) != 0) body`, from the list
`iter.elem` on. -/
def forEachResource (all : Bool) (body : Resource → MutM Unit) : List Resource → MutM Unit
  | [] => return ()
  | item :: next => do
      whenever (all || item.consumer.action.isNone) (body item)
      forEachResource all body next

/-- One round of `mut_resources_close`. -/
def mutResourceClose (r : Resource) : MutM Unit := do
  whenever r.producer.backtrace.isSome (mutBacktraceClose r.producer.backtrace)
  whenever r.consumer.backtrace.isSome (mutBacktraceClose r.consumer.backtrace)
  Mut.updateResources fun rs => { rs with elems := Keyed.remove Resource.ptr r.ptr rs.elems }

def mutResourcesClose : MutM Unit := do
  forEachResource true mutResourceClose (← read).resources.elems

end MutTracker.Source
