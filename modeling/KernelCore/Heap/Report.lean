import KernelCore.Heap.Error
import KernelCore.Log.Record
import KernelCore.Word.Basic

namespace KernelCore.Heap

/-- The counters of a heap. -/
structure Statistics where
  /-- Payload of the heap when it is one free block. -/
  total : Nat
  /-- Payload of the allocated blocks. -/
  used : Nat
  /-- Payload of the free blocks. -/
  free : Nat
  freeBlocks : Nat
  /-- The largest payload of a free block. -/
  largestFree : Nat
deriving DecidableEq, Repr

/-- What can be wrong with the blocks or with the list of free blocks. -/
inductive DefectKind where
  | headerPastEnd
  | badMagic
  | unalignedSize
  | overrun
  | adjacentFree
  | wildLink
  | allocatedInList
  | outOfOrder
  | missingFromList
deriving DecidableEq, Repr

def DefectKind.wording : DefectKind → String
  | .headerPastEnd => "block header past region end"
  | .badMagic => "bad magic"
  | .unalignedSize => "unaligned size"
  | .overrun => "block overruns region"
  | .adjacentFree => "adjacent free blocks"
  | .wildLink => "free list link out of range"
  | .allocatedInList => "allocated block in free list"
  | .outOfOrder => "free list out of order"
  | .missingFromList => "free block missing from free list"

/-- A defect and the link or offset at which it shows. -/
structure Defect where
  kind : DefectKind
  place : Option Nat
deriving DecidableEq, Repr

/-- What an operation of the heap leaves in the log. -/
inductive Notice where
  /-- The heap took over a region. -/
  | established (start stop total : Nat)
  | doubleFree (ptr : Nat)
  | invalidFree (ptr : Nat) (cause : HeapError)
  | resizeOfFree (ptr : Nat)
  | invalidResize (ptr : Nat) (cause : HeapError)
  | invalidAlignedFree (ptr : Nat)
  /-- A link of the list of free blocks leads to no possible header. -/
  | wildLink (off : Nat)
  /-- A block in the list of free blocks has a damaged header. -/
  | badFreeBlock (addr : Nat)
  | defect (addr : Nat) (kind : DefectKind)
  | extent (start stop : Nat)
  | counters (statistics : Statistics)
  | freeBlock (addr size : Nat)
deriving DecidableEq, Repr

namespace Notice
open Log (hex)

def level : Notice → Log.Level
  | established .. | extent .. | counters .. | freeBlock .. => .debug
  | doubleFree .. | invalidFree .. | resizeOfFree .. | invalidAlignedFree .. => .warn
  | invalidResize .. | wildLink .. | badFreeBlock .. | defect .. => .error

def text : Notice → String
  | established start stop total =>
    "heap: " ++ hex start ++ ".." ++ hex stop ++ " (" ++ toString total ++ " bytes usable)"
  | doubleFree ptr => "heap: double free of " ++ hex ptr
  | invalidFree ptr cause => "heap: invalid free(" ++ hex ptr ++ "): " ++ cause.message
  | resizeOfFree ptr => "heap: realloc(" ++ hex ptr ++ ") on a free block"
  | invalidResize ptr cause => "heap: realloc(" ++ hex ptr ++ "): " ++ cause.message
  | invalidAlignedFree ptr => "heap: invalid aligned free(" ++ hex ptr ++ ")"
  | wildLink off => "heap: free list link " ++ hex off ++ " out of range"
  | badFreeBlock addr => "heap: corrupted free block at " ++ hex addr
  | defect addr kind => "heap: " ++ kind.wording ++ " at " ++ hex addr
  | extent start stop => "heap: start " ++ hex start ++ " end " ++ hex stop
  | counters s =>
    "heap: total " ++ toString s.total ++ " used " ++ toString s.used ++ " free " ++ toString s.free ++
      " (" ++ toString s.freeBlocks ++ " blocks, largest " ++ toString s.largestFree ++ ")"
  | freeBlock addr size => "heap:   free " ++ hex addr ++ " +" ++ toString size

/-- The log record of a notice. -/
def record (n : Notice) : Log.Record := ⟨n.level, "cinder::mm::heap", n.text⟩

end Notice
end KernelCore.Heap
