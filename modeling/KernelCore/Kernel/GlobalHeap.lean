import KernelCore.Kernel.Scheduling

namespace KernelCore

/-- Size and alignment of a piece of memory. -/
structure Layout where
  size : Nat
  align : Nat
deriving DecidableEq, Repr

namespace Layout

/-- One more than the largest size that a layout may have, rounded up to its alignment. -/
def sizeLimit : Nat := 9223372036854775808

/-- A layout, where the alignment is a power of two and the size is not too large for it. -/
def of? (size align : Nat) : Option Layout :=
  if Word.isPowerOfTwo align ∧ align ≤ sizeLimit ∧ size + align ≤ sizeLimit then some ⟨size, align⟩
  else none

/-- Whether every block of the heap has the alignment. -/
def isPlain (layout : Layout) : Bool := layout.align ≤ Config.heapAlignment

end Layout

namespace System
variable {ω : Type}

/-- The address in an answer of the heap, and zero for a refusal. -/
def addressOf : Except HeapError Nat → Nat
  | .ok ptr => ptr
  | .error _ => 0

/-- Asks for memory. -/
def globalAllocate (layout : Layout) : Machine (System ω) Nat := do
  if layout.isPlain then
    return addressOf (← onHeap (Arena.allocate layout.size))
  else
    return addressOf (← onHeap (Arena.allocateAligned layout.size layout.align))

/-- Asks for memory that is all zero. -/
def globalAllocateZeroed (layout : Layout) : Machine (System ω) Nat := do
  let ptr ← globalAllocate layout
  if ptr ≠ 0 then
    onKernel (Kernel.onArena (Arena.onMemory fun m => m.fill ptr 0 layout.size))
  return ptr

/-- Gives memory back. A refusal is not reported to the caller. -/
def globalRelease (ptr : Nat) (layout : Layout) : Machine (System ω) Unit := do
  if layout.isPlain then
    let _ ← onHeap (Arena.release ptr)
  else
    let _ ← onHeap (Arena.releaseAligned ptr)

/-- Changes the size of a piece of memory. Memory with an alignment of its own is always moved. -/
def globalResize (ptr : Nat) (layout : Layout) (size : Nat) : Machine (System ω) Nat := do
  if layout.isPlain then
    match ← onHeap (Arena.resize ptr size) with
    | .ok (some fresh) => return fresh
    | .ok none => return 0
    | .error _ => return 0
  else
    let fresh ← globalAllocate { layout with size }
    if fresh ≠ 0 then
      onKernel (Kernel.onArena (Arena.onMemory fun m => m.copy ptr fresh (min layout.size size)))
      globalRelease ptr layout
    return fresh

end System
end KernelCore
