import MutTracker.Logic.Prog
import MutTracker.Logic.Within
import MutTracker.Logic.Runs
import MutTracker.Logic.Typestate
import MutTracker.Logic.Bytes
import MutTracker.Logic.CString
import MutTracker.Logic.Keyed
import MutTracker.Logic.RefCount
import MutTracker.Source.Machine
import MutTracker.Source.Log
import MutTracker.Source.Symtab
import MutTracker.Source.Uint64
import MutTracker.Source.Trace
import MutTracker.Source.Process
import MutTracker.Source.State
import MutTracker.Source.Backtrace
import MutTracker.Source.Resources
import MutTracker.Source.Actions
import MutTracker.Source.Producers
import MutTracker.Source.Consumers
import MutTracker.Source.Realloc
import MutTracker.Source.Run
import MutTracker.Source.Session
import MutTracker.Verified.Log
import MutTracker.Verified.Symtab
import MutTracker.Verified.Process
import MutTracker.Verified.Backtrace
import MutTracker.Verified.Resources
import MutTracker.Verified.Actions
import MutTracker.Verified.Book
import MutTracker.Verified.Midway
import MutTracker.Verified.Uint64
import MutTracker.Verified.Steady
import MutTracker.Verified.Wait
import MutTracker.Verified.Acts
import MutTracker.Verified.Messages
import MutTracker.Verified.Producers
import MutTracker.Verified.Consumers
import MutTracker.Verified.Realloc
import MutTracker.Verified.Handlers
import MutTracker.Verified.Runs
import MutTracker.Verified.Leaks
import MutTracker.Verified.Ledger
import MutTracker.Verified.Statistics
import MutTracker.Verified.Warnings
import MutTracker.Verified.Modes
import MutTracker.Verified.Breakpoints
import MutTracker.Verified.Rounds
import MutTracker.Verified.Session
import MutTracker.Verified.Nested
import MutTracker.Verified.Zones
import MutTracker.Logic.Peak
import MutTracker.Logic.Ranges
import MutTracker.Source.Copy
import MutTracker.Source.Elf
import MutTracker.Verified.Elf
import MutTracker.Verified.Grammar
import MutTracker.Verified.Protocol
import MutTracker.Verified.Names
import MutTracker.Verified.Slots
import MutTracker.Verified.Stack
import MutTracker.Logic.Floor
import MutTracker.Verified.Lookup
import MutTracker.Verified.Sections
import MutTracker.Verified.Selection
import MutTracker.Verified.Maxima
import MutTracker.Verified.Layout
import MutTracker.Verified.Ranges
import MutTracker.Verified.Handed
import MutTracker.Verified.Asked
import MutTracker.Verified.Newness
import MutTracker.Logic.LongDivision
import MutTracker.Source.Decimal
import MutTracker.Verified.Decimal
import MutTracker.Logic.SearchTree
import MutTracker.Source.Avl
import MutTracker.Verified.Avl
import MutTracker.Verified.Inserted
import MutTracker.Logic.Allocator
import MutTracker.Source.Mem
import MutTracker.Verified.Mem
import MutTracker.Verified.Elements
import MutTracker.Verified.Stabs
import MutTracker.Verified.Aborts
import MutTracker.Verified.Taken
import MutTracker.Verified.Whole
import MutTracker.Source.Ui
import MutTracker.Verified.Options
import MutTracker.Verified.Unnoticed
import MutTracker.Logic.Lines
import MutTracker.Source.Tty
import MutTracker.Verified.Tty
import MutTracker.Logic.Holding
import MutTracker.Verified.Phases
import MutTracker.Verified.Release
import MutTracker.Verified.Program
