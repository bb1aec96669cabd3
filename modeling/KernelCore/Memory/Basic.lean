import KernelCore.Word.Basic

namespace KernelCore

/-- The bytes from the address `base` on. -/
structure Memory where
  base : Nat
  bytes : ByteArray

namespace Memory

/-- A window of `size` zero bytes. -/
def zeroed (base size : Nat) : Memory := ⟨base, ⟨Array.replicate size 0⟩⟩

/-- Whether the `size` bytes from `addr` on lie inside the window. -/
def Covers (m : Memory) (addr size : Nat) : Prop :=
  m.base ≤ addr ∧ addr + size ≤ m.base + m.bytes.size

instance (m : Memory) (addr size : Nat) : Decidable (m.Covers addr size) :=
  inferInstanceAs (Decidable (_ ∧ _))

/-- The byte at an address. -/
def byte (m : Memory) (addr : Nat) : UInt8 :=
  if h : m.base ≤ addr ∧ addr - m.base < m.bytes.size then m.bytes.get (addr - m.base) h.2 else 0

/-- Replaces the byte at an address. -/
def setByte (m : Memory) (addr : Nat) (value : UInt8) : Memory :=
  if h : m.base ≤ addr ∧ addr - m.base < m.bytes.size then
    { m with bytes := m.bytes.set (addr - m.base) value h.2 }
  else m

/-- The number held by the `width` bytes from `addr` on. -/
def readNat (m : Memory) (addr : Nat) : (width : Nat) → Nat
  | 0 => 0
  | width + 1 => (m.byte addr).toNat + 256 * m.readNat (addr + 1) width

/-- Stores a number in the `width` bytes from `addr` on. -/
def writeNat (m : Memory) (addr : Nat) : (width value : Nat) → Memory
  | 0, _ => m
  | width + 1, value => (m.setByte addr (UInt8.ofNat value)).writeNat (addr + 1) width (value / 256)

/-- The `size` bytes from `addr` on. -/
def slice (m : Memory) (addr size : Nat) : List UInt8 :=
  (List.range size).map fun i => m.byte (addr + i)

/-- Stores bytes one after the other from `addr` on. -/
def writeBytes (m : Memory) (addr : Nat) : List UInt8 → Memory
  | [] => m
  | b :: rest => (m.setByte addr b).writeBytes (addr + 1) rest

/-- Stores the same byte `size` times from `addr` on. -/
def fill (m : Memory) (addr : Nat) (value : UInt8) : (size : Nat) → Memory
  | 0 => m
  | size + 1 => (m.setByte addr value).fill (addr + 1) value size

/-- Copies `size` bytes from one place to another. -/
def copy (m : Memory) (source target size : Nat) : Memory :=
  m.writeBytes target (m.slice source size)

/-- The words from `addr` on. -/
def words (m : Memory) (addr count : Nat) : List Nat :=
  (List.range count).map fun i => m.readNat (addr + 8 * i) 8

/-- Stores words one after the other from `addr` on. -/
def writeWords (m : Memory) (addr : Nat) : List Nat → Memory
  | [] => m
  | word :: rest => (m.writeNat addr 8 word).writeWords (addr + 8) rest

end Memory
end KernelCore
