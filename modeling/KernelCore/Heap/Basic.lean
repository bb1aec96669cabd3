import KernelCore.Heap.Region
import KernelCore.Heap.Report
import KernelCore.Machine

namespace KernelCore

/-- What the heap keeps outside the managed memory. -/
structure Heap where
  /-- The managed range, once there is one. -/
  region : Option Region
  /-- Offset of the lowest free block. -/
  first : Option Nat
  /-- Payload bytes of all allocated blocks. -/
  used : Nat

namespace Heap

/-- A heap that has no region yet. -/
def empty : Heap := ⟨none, none, 0⟩

/-- Start and size of the managed range. -/
def extent (h : Heap) : Nat × Nat :=
  match h.region with
  | none => (0, 0)
  | some r => (r.start, r.size)

/-- Payload of the heap when it is one free block. -/
def total (h : Heap) : Nat :=
  match h.region with
  | none => 0
  | some r => r.capacity

/-- Whether an address lies in the managed range. -/
def contains (h : Heap) (addr : Nat) : Bool :=
  match h.region with
  | none => false
  | some r => decide (r.Contains addr)

end Heap

/-- What a heap operation works on. -/
structure Arena where
  heap : Heap
  memory : Memory
  /-- What was reported, the oldest first. -/
  notices : Array Heap.Notice

/-- A heap operation that can be refused. -/
abbrev HeapAction := ExceptT HeapError (Machine Arena)

namespace Arena

/-- A heap without a region over some memory. -/
def ofMemory (m : Memory) : Arena := ⟨Heap.empty, m, #[]⟩

/-- Reports a notice. -/
def report (notice : Heap.Notice) : Machine Arena Unit :=
  modify fun a => { a with notices := a.notices.push notice }

/-- The header at an offset. -/
def header (r : Region) (off : Nat) : Machine Arena Header := do
  r.header (← get).memory off

/-- Replaces the header at an offset. -/
def setHeader (r : Region) (off : Nat) (h : Header) : Machine Arena Unit :=
  if r.HoldsHeader off then
    modify fun a => { a with memory := h.write a.memory (r.start + off) }
  else throw .headerOutOfBounds

def setNext (r : Region) (off : Nat) (next : Option Nat) : Machine Arena Unit := do
  let h ← header r off
  setHeader r off { h with next }

def setPrev (r : Region) (off : Nat) (prev : Option Nat) : Machine Arena Unit := do
  let h ← header r off
  setHeader r off { h with prev }

def setFirst (first : Option Nat) : Machine Arena Unit :=
  modify fun a => { a with heap.first := first }

def setUsed (used : Nat) : Machine Arena Unit :=
  modify fun a => { a with heap.used := used }

/-- Replaces the memory. -/
def onMemory (change : Memory → Memory) : Machine Arena Unit :=
  modify fun a => { a with memory := change a.memory }

/-- Hands a range of memory to the heap, which becomes one free block. -/
def establish (start size : Nat) : HeapAction Unit := do
  if (← get).heap.region.isSome then throw .alreadyInitialized
  let r ← match Region.ofRange start size with
    | .ok r => pure r
    | .error cause => throw cause
  modify fun a => { a with heap.region := some r }
  setHeader r 0 (Header.free r.capacity)
  setFirst (some 0)
  setUsed 0
  report (.established r.start r.stop r.capacity)

end Arena
end KernelCore
