import KernelCore.Heap.FreeList

namespace KernelCore.Arena

/-- The managed range, or a refusal as long as there is none. -/
def region : HeapAction Region := do
  match (← get).heap.region with
  | some r => pure r
  | none => throw .uninitialized

/-- The first free block with at least `need` bytes. -/
def findFit (r : Region) (need : Nat) : HeapAction Nat := do
  let a ← get
  match ← r.firstFit a.memory need r.hopLimit a.heap.first with
  | .found off => pure off
  | .exhausted => throw .outOfMemory
  | .wildLink off =>
    report (.wildLink off)
    throw .corrupted
  | .badHeader off =>
    report (.badFreeBlock (r.start + off))
    throw .corrupted

/-- Takes the free block at `off` out of the list and gives its first `need` bytes to a client. -/
def carve (r : Region) (off need : Nat) : Machine Arena Nat := do
  detach r off
  let h ← header r off
  setHeader r off { h with tag := 0 }
  trim r off need
  let h ← header r off
  let used ← Word.add (← get).heap.used h.size
  setUsed used
  pure (r.payload off)

/-- The address of a fresh block with at least `size` bytes of payload. -/
def allocate (size : Nat) : HeapAction Nat := do
  let r ← region
  if size = 0 then throw .zeroSize
  match Word.roundUp? size Config.heapAlignment with
  | none => throw .overflow
  | some need =>
    let off ← findFit r need
    carve r off need

/-- The address of a fresh block for `count` items of `size` bytes, all zero. -/
def allocateZeroed (count size : Nat) : HeapAction Nat := do
  if wordLimit ≤ count * size then throw .overflow
  let ptr ← allocate (count * size)
  onMemory fun m => m.fill ptr 0 (count * size)
  pure ptr

end KernelCore.Arena
