import MutTracker.Source.Log

/-!
# The symbol table of the executable

`src/exec/mut_exec_symtab.c` and the part of `src/exec/elf/mut_exec.c` that
asks it questions.  One linked list, ordered by start address, answers both
"which function covers this address" and "where does this function start".

The list is `head`; `full` lists what the coming `mut_mem_malloc` calls
answer, `none` for success.  `mut_exec_symtab_fun_open` does not assign
`file_name`: `leftover` is what fresh storage holds in its place.
-/

namespace MutTracker.Source

open MutTracker.Logic MutTracker.Logic.Prog

/-- `mut_exec_symtab_fun_line`. -/
structure SymtabFunLine where
  lineAddr : Word
  lineNumber : Word
  deriving DecidableEq, Repr

/-- `mut_exec_symtab_fun`, less `dir_name`, which nothing reads. -/
structure SymtabFun where
  funName : String
  funStartAddr : Word
  fileName : Option String
  funLines : List SymtabFunLine
  deriving DecidableEq, Repr

structure Symtab where
  head : List SymtabFun
  log : Log
  full : List (Option Nat)
  leftover : Option String
  deriving DecidableEq, Repr

abbrev SymtabM := Prog Symtab Halt

instance : MonadLift LogM SymtabM where
  monadLift := focus Symtab.log fun l s => { s with log := l }

/-- `mut_mem_malloc`: the error number of a failure. -/
def Symtab.malloc : SymtabM (Option Nat) := do
  let s ← read
  update ({ · with full := s.full.tail })
  return s.full.head?.join

/-- A node for the function, without its successor. -/
def mutExecSymtabFunOpen (name : String) (startAddr : Word) :
    SymtabM (Option SymtabFun) := do
  match ← Symtab.malloc with
  | some errno =>
      mutLogFatal "mem.full" errno
      mutLogEnd
      return none
  | none =>
      return some
        { funName := name, funStartAddr := startAddr, fileName := (← read).leftover,
          funLines := [] }

/-- The loop of `mut_exec_symtab_add_fun` from the node `*fp` on: the list
with the function in its place, or `none` when memory is full. -/
def mutExecSymtabAddFunFrom (n : String) (a : Word) :
    List SymtabFun → SymtabM (Option (List SymtabFun))
  | [] => do
      let some nf ← mutExecSymtabFunOpen n a | return none
      return some [nf]
  | f :: next => do
      if a < f.funStartAddr then
        let some nf ← mutExecSymtabFunOpen n a | return none
        return some (nf :: f :: next)
      else if a = f.funStartAddr then
        return some (f :: next)
      else
        let some next' ← mutExecSymtabAddFunFrom n a next | return none
        return some (f :: next')

def mutExecSymtabAddFun (n : String) (a : Word) : SymtabM Bool := do
  let some head ← mutExecSymtabAddFunFrom n a (← read).head | return false
  update ({ · with head })
  return true

/-- A node for the line, without its successor.  A line number is a short. -/
def mutExecSymtabFunLineOpen (a l : Word) : SymtabM (Option SymtabFunLine) := do
  match ← Symtab.malloc with
  | some errno =>
      mutLogFatal "mem.full" errno
      mutLogEnd
      return none
  | none => return some { lineAddr := a, lineNumber := l &&& 0xffff }

/-- `mut_exec_symtab_add_xxx`: the lines of a function with one more in its
place. -/
def mutExecSymtabAddXxx (a l : Word) : List SymtabFunLine → SymtabM (Option (List SymtabFunLine))
  | [] => do
      let some nfl ← mutExecSymtabFunLineOpen a l | return none
      return some [nfl]
  | fl :: next => do
      if a < fl.lineAddr then
        let some nfl ← mutExecSymtabFunLineOpen a l | return none
        return some (nfl :: fl :: next)
      else
        let some next' ← mutExecSymtabAddXxx a l next | return none
        return some (fl :: next')

/-- The functions before and after the one that `mut_exec_symtab_add_range`
finds for `a`. -/
def mutExecSymtabRangeOf (a : Word) :
    List SymtabFun → Option (List SymtabFun × SymtabFun × List SymtabFun)
  | [] => none
  | f :: next =>
      if f.funStartAddr ≤ a ∧ ∀ g ∈ next.head?, a < g.funStartAddr then some ([], f, next)
      else (mutExecSymtabRangeOf a next).map fun (before, g, after) => (f :: before, g, after)

def mutExecSymtabAddRange (a l : Word) (fn : Option String) : SymtabM Bool := do
  match mutExecSymtabRangeOf a (← read).head with
  | none =>
      mutLogWarning "elf.xxx"
      mutLogEnd
      return true
  | some (before, f, after) =>
      update ({ · with head := before ++ { f with fileName := fn } :: after })
      let some funLines ← mutExecSymtabAddXxx a l f.funLines | return false
      update ({ · with head := before ++ { f with fileName := fn, funLines } :: after })
      return true

/-- The line number of the first entry not below `a`, or 0. -/
def SymtabFun.line (f : SymtabFun) (a : Word) : Word :=
  ((f.funLines.find? fun fl => a ≤ fl.lineAddr).map (·.lineNumber)).getD 0

/-- What `mut_exec_addr_name` finds out about an address. -/
structure AddrName where
  functionAddr : Word
  name : String
  fileName : Option String
  line : Word
  deriving DecidableEq, Repr

def mutExecSymtabLookupAddr (a : Word) : List SymtabFun → Option AddrName
  | [] => none
  | f :: next =>
      if f.funStartAddr ≤ a ∧ ∀ g ∈ next.head?, a < g.funStartAddr then
        some
          { functionAddr := f.funStartAddr, name := f.funName, fileName := f.fileName,
            line := f.line a }
      else mutExecSymtabLookupAddr a next

/-- The start address of the function, or 0. -/
def mutExecSymtabLookupName (n : String) : List SymtabFun → Word
  | [] => 0
  | f :: next => if n = f.funName then f.funStartAddr else mutExecSymtabLookupName n next

/-- What the tracker keeps of the executable. -/
structure Exec where
  symtab : List SymtabFun
  hasFullSymbols : Bool
  deriving DecidableEq, Repr

/-- `mut_exec_function`, filled in by `mut_exec_functions_addr`. -/
structure ExecFunction where
  name : String
  addr : Word
  flags : Bool
  deriving DecidableEq, Repr

def mutExecFunctionsAddr (exec : Exec) (names : List String) : List ExecFunction :=
  names.map fun name =>
    let sa := mutExecSymtabLookupName name exec.symtab
    { name, addr := sa, flags := sa != 0 }

def mutExecAddrName (e : Exec) (a : Word) : Option AddrName :=
  if e.hasFullSymbols then mutExecSymtabLookupAddr a e.symtab else none

end MutTracker.Source
