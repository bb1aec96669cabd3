namespace KernelCore

/-- Why the heap refuses a request. -/
inductive HeapError where
  /-- No region has been handed to the heap yet. -/
  | uninitialized
  /-- A region has been handed to the heap already. -/
  | alreadyInitialized
  /-- The region cannot hold a single block. -/
  | regionTooSmall
  | zeroSize
  /-- No free block is large enough. -/
  | outOfMemory
  /-- The amount of memory asked for is no word. -/
  | overflow
  /-- The alignment is not a power of two. -/
  | badAlignment
  /-- The address does not belong to the region. -/
  | outOfRange
  /-- The header of the block is damaged. -/
  | corrupted
  /-- The block is free already. -/
  | doubleFree
  /-- The block is free, where an allocated one is needed. -/
  | notAllocated
deriving DecidableEq, Repr

/-- The wording of a refusal. -/
def HeapError.message : HeapError → String
  | .uninitialized => "heap not initialized"
  | .alreadyInitialized => "heap already initialized"
  | .regionTooSmall => "heap region too small"
  | .zeroSize => "zero-sized allocation"
  | .outOfMemory => "out of memory"
  | .overflow => "allocation size overflow"
  | .badAlignment => "alignment is not a power of two"
  | .outOfRange => "pointer outside the heap"
  | .corrupted => "heap corruption detected"
  | .doubleFree => "double free"
  | .notAllocated => "block is not allocated"

end KernelCore
