import KernelCore.Heap.Aligned
import KernelCore.Heap.Audit
import KernelCore.Heap.Resize
import KernelCore.Memory.Digest
import KernelCore.Session.Reply

namespace KernelCore.Session

inductive HeapRequest where
  | establish (start size : Nat)
  | allocate (size : Nat)
  | allocateZeroed (count size : Nat)
  | resize (size : Nat)
  | release
  | allocateAligned (size align : Nat)
  | releaseAligned
  | allocatePages (size : Nat)
  | releasePages
  | capacity
  | contains
  | extent
  | isEstablished
  | total
  | used
  | freeBytes
  | statistics
  | check
  | describe
  | blocks
  | peek (size : Nat)
  | digest (size : Nat)
  | poke (bytes : List UInt8)
  | fill (size : Nat) (value : UInt8)
deriving DecidableEq, Repr

/-- The counters in the order in which they are told. -/
def counters (s : Heap.Statistics) : List Nat :=
  [s.total, s.used, s.free, s.freeBlocks, s.largestFree]

namespace HeapRequest

/-- Runs a heap operation and answers with its result or its refusal. -/
def answer {α : Type} (action : HeapAction α) (render : α → Reply) : Machine Arena Reply := do
  return Reply.ofHeap render (← action.run)

/-- Does something with the `size` bytes from an address on, if they lie in the memory. -/
def onBytes (ptr size : Nat) (action : Machine Arena Reply) : Machine Arena Reply := do
  if (← get).memory.Covers ptr size then action else return .outside

/-- Carries out a request that concerns the address `ptr`. -/
def perform (ptr : Nat) : HeapRequest → Machine Arena Reply
  | establish start size => answer (Arena.establish start size) fun _ => .done
  | allocate size => answer (Arena.allocate size) .number
  | allocateZeroed count size => answer (Arena.allocateZeroed count size) .number
  | resize size => answer (Arena.resize ptr size) .number?
  | release => answer (Arena.release ptr) fun _ => .done
  | allocateAligned size align => answer (Arena.allocateAligned size align) .number
  | releaseAligned => answer (Arena.releaseAligned ptr) fun _ => .done
  | allocatePages size => answer (Arena.allocatePages size) .number
  | releasePages => answer (Arena.releasePages ptr) fun _ => .done
  | capacity => return .number? ((← get).capacity? ptr)
  | contains => return .flag ((← get).heap.contains ptr)
  | extent => do
    let (start, size) := (← get).heap.extent
    return .numbers [start, size]
  | isEstablished => return .flag (← get).heap.region.isSome
  | total => return .number (← get).heap.total
  | used => return .number (← get).heap.used
  | freeBytes => do
    let a ← get
    return .number (← a.statistics).free
  | statistics => do
    let a ← get
    return .numbers (counters (← a.statistics))
  | check => answer Arena.check fun _ => .done
  | describe => do
    Arena.describe
    return .done
  | blocks => return .blocks (← get).blocks
  | peek size => onBytes ptr size do return .bytes ((← get).memory.slice ptr size)
  | digest size => onBytes ptr size do return .digest ((← get).memory.digest ptr size)
  | poke bytes => onBytes ptr bytes.length do
    Arena.onMemory fun m => m.writeBytes ptr bytes
    return .done
  | fill size value => onBytes ptr size do
    Arena.onMemory fun m => m.fill ptr value size
    return .done

end HeapRequest
end KernelCore.Session
