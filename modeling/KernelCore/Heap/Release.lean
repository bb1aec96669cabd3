import KernelCore.Heap.Allocation

namespace KernelCore

namespace Region

/-- The offset of the block whose payload starts at an address. -/
def blockOf (r : Region) (m : Memory) (ptr : Nat) : Except HeapError Nat :=
  if ptr < r.start + Header.width ∨ r.stop ≤ ptr then .error .outOfRange else
  let off := ptr - r.start - Header.width
  if r.HoldsHeader off then
    if (Header.read m (r.start + off)).isIntact then .ok off else .error .corrupted
  else .error .outOfRange

end Region

/-- What an address given back by a client turns out to be. -/
inductive Standing where
  /-- The payload of the allocated block at `off`. -/
  | live (off : Nat) (header : Header)
  /-- The payload of a free block, or of a block that has been joined to one. -/
  | free
  /-- No payload at all. -/
  | stray (cause : HeapError)
deriving DecidableEq, Repr

namespace Arena

/-- Judges an address by the header in front of it. -/
def judge (r : Region) (ptr : Nat) : Machine Arena Standing := do
  let a ← get
  match r.blockOf a.memory ptr with
  | .ok off =>
    let h ← header r off
    pure (if h.isFree then .free else .live off h)
  | .error .corrupted =>
    let off := ptr - r.start - Header.width
    if ← r.swallows a.memory off (r.size / Header.width) a.heap.first then pure .free
    else pure (.stray .corrupted)
  | .error cause => pure (.stray cause)

/-- Makes an allocated block free, and joins it with its free neighbours. -/
def reclaim (r : Region) (off : Nat) (h : Header) : Machine Arena Unit := do
  let used ← Word.sub (← get).heap.used h.size
  setUsed used
  setHeader r off { h with tag := 1 }
  attach r off
  join r off

/-- Gives the block at an address back. The address zero names no block and is accepted. -/
def release (ptr : Nat) : HeapAction Unit := do
  if ptr ≠ 0 then
    let r ← region
    match ← judge r ptr with
    | .live off h => reclaim r off h
    | .free =>
      report (.doubleFree ptr)
      throw .doubleFree
    | .stray cause =>
      report (.invalidFree ptr cause)
      throw cause

/-- The payload size of the block at an address. -/
def capacity? (a : Arena) (ptr : Nat) : Option Nat :=
  match a.heap.region with
  | none => none
  | some r =>
    match r.blockOf a.memory ptr with
    | .ok off => some (Header.read a.memory (r.start + off)).size
    | .error _ => none

end Arena
end KernelCore
