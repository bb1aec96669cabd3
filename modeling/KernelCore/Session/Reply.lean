import KernelCore.Heap.Blocks
import KernelCore.Task.Table

namespace KernelCore.Session

inductive Reply where
  | done
  | number (n : Nat)
  /-- A number that may be missing: an address, a pid or a slot. -/
  | number? (n : Option Nat)
  | flag (b : Bool)
  | numbers (ns : List Nat)
  | bytes (bs : List UInt8)
  | digest (d : UInt64)
  | blocks (bs : List Block)
  | task? (task : Option Task)
  | tasks (tasks : List Task)
  | state? (state : Option TaskState)
  /-- Whether the table is initialized, empty and full, and how many tasks it has. -/
  | occupancy (initialized empty full : Bool) (size : Nat)
  /-- A slot that was picked, and the stack pointer that was switched to, if any was. -/
  | dispatched (slot : Nat) (next : Option Nat)
  /-- The bytes asked for do not lie in the memory. -/
  | outside
  | heapRefused (cause : HeapError)
  | taskRefused (cause : TaskError)
  /-- Size and alignment are no layout. -/
  | layoutRefused
  /-- The running context stopped for good. -/
  | halted

/-- The address to bind a name to: zero where the answer has none. -/
def Reply.address : Reply → Nat
  | .number n => n
  | .number? n => n.getD 0
  | _ => 0

/-- The answer of the heap: a result or a refusal. -/
def Reply.ofHeap {α : Type} (render : α → Reply) : Except HeapError α → Reply
  | .ok a => render a
  | .error cause => .heapRefused cause

/-- The answer of the task table: a result or a refusal. -/
def Reply.ofTable {α : Type} (render : α → Reply) : Except TaskError α → Reply
  | .ok a => render a
  | .error cause => .taskRefused cause

end KernelCore.Session
