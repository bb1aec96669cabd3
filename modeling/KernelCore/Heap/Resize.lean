import KernelCore.Heap.Release

namespace KernelCore.Arena

/-- Cuts an allocated block down to `need` bytes. -/
def shrink (r : Region) (off : Nat) (h : Header) (need : Nat) : Machine Arena Unit := do
  trim r off need
  let now ← header r off
  let freed ← Word.sub h.size now.size
  let used ← Word.sub (← get).heap.used freed
  setUsed used

/-- Moves the contents of the allocated block at `ptr` to a fresh block of `size` bytes. -/
def relocate (ptr : Nat) (h : Header) (size : Nat) : HeapAction Nat := do
  let fresh ← allocate size
  onMemory fun m => m.copy ptr fresh (min h.size size)
  release ptr
  pure fresh

/-- Changes the size of the block at an address, and gives its address afterwards. The address zero
asks for a fresh block; the size zero gives the block back, and there is no address then. -/
def resize (ptr size : Nat) : HeapAction (Option Nat) := do
  if ptr = 0 then
    return some (← allocate size)
  if size = 0 then
    release ptr
    return none
  match (← get).heap.region with
  | none =>
    report (.invalidResize ptr .uninitialized)
    throw .uninitialized
  | some r =>
    match ← judge r ptr with
    | .live off h =>
      match Word.roundUp? size Config.heapAlignment with
      | none => throw .overflow
      | some need =>
        if need ≤ h.size then
          shrink r off h need
          return some (r.payload off)
        else
          return some (← relocate ptr h size)
    | .free =>
      report (.resizeOfFree ptr)
      throw .notAllocated
    | .stray cause =>
      report (.invalidResize ptr cause)
      throw cause

end KernelCore.Arena
