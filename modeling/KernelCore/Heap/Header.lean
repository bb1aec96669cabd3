import KernelCore.Config
import KernelCore.Memory.Basic

namespace KernelCore

/-- The word that stands for a link. -/
def linkWord : Option Nat → Nat
  | none => wordLimit - 1
  | some off => off

/-- The link that a word stands for. -/
def linkOfWord (word : Nat) : Option Nat :=
  if word = wordLimit - 1 then none else some word

/-- The fields in front of a block's payload. -/
structure Header where
  /-- Tells an intact header from arbitrary bytes. -/
  magic : Nat
  /-- Not zero while the block is free. -/
  tag : Nat
  /-- Bytes of payload. -/
  size : Nat
  /-- The free block after this one in the list of free blocks. -/
  next : Option Nat
  /-- The free block before this one in the list of free blocks. -/
  prev : Option Nat
deriving DecidableEq, Repr

namespace Header

/-- Bytes that a header takes in front of the payload. -/
def width : Nat := 32

/-- The header of a free block that is in no list yet. -/
def free (size : Nat) : Header := ⟨Config.heapMagic, 1, size, none, none⟩

def isIntact (h : Header) : Bool := h.magic == Config.heapMagic

def isFree (h : Header) : Bool := h.tag != 0

/-- The header stored at an address. -/
def read (m : Memory) (addr : Nat) : Header where
  magic := m.readNat addr 4
  tag := m.readNat (addr + 4) 4
  size := m.readNat (addr + 8) 8
  next := linkOfWord (m.readNat (addr + 16) 8)
  prev := linkOfWord (m.readNat (addr + 24) 8)

/-- Stores a header at an address. -/
def write (h : Header) (m : Memory) (addr : Nat) : Memory :=
  let m := m.writeNat addr 4 h.magic
  let m := m.writeNat (addr + 4) 4 h.tag
  let m := m.writeNat (addr + 8) 8 h.size
  let m := m.writeNat (addr + 16) 8 (linkWord h.next)
  m.writeNat (addr + 24) 8 (linkWord h.prev)

end Header
end KernelCore
