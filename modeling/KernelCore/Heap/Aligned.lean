import KernelCore.Heap.Release

namespace KernelCore.Arena

/-- Bytes of the word that leads back from an aligned address to its block. -/
def backLinkWidth : Nat := 8

/-- An address that is a multiple of `align`, with `size` bytes behind it. -/
def allocateAligned (size align : Nat) : HeapAction Nat := do
  if Word.isPowerOfTwo align = false then throw .badAlignment
  if size = 0 then throw .zeroSize
  let padded := size + align + backLinkWidth
  if wordLimit ≤ padded then throw .overflow
  let raw ← allocate padded
  let least ← Word.add raw backLinkWidth
  let aligned ← Word.alignUp least align
  onMemory fun m => m.writeNat (aligned - backLinkWidth) 8 raw
  pure aligned

/-- Gives back a block that was asked for with an alignment. -/
def releaseAligned (ptr : Nat) : HeapAction Unit := do
  if ptr ≠ 0 then
    let a ← get
    let low := a.heap.extent.1 + Header.width + backLinkWidth
    if a.heap.contains ptr ∧ low ≤ ptr then
      release (a.memory.readNat (ptr - backLinkWidth) 8)
    else
      report (.invalidAlignedFree ptr)
      throw .outOfRange

/-- An address at the start of a page, with `size` bytes behind it. -/
def allocatePages (size : Nat) : HeapAction Nat := allocateAligned size Config.pageSize

/-- Gives back a block that was asked for at the start of a page. -/
def releasePages (ptr : Nat) : HeapAction Unit := releaseAligned ptr

end KernelCore.Arena
