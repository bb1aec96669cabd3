import KernelCore.Memory.Basic

namespace KernelCore.Memory

/-- Mixes one more byte into a digest. -/
def digestStep (digest : UInt64) (byte : UInt8) : UInt64 :=
  (digest ^^^ byte.toUInt64) * 1099511628211

/-- The digest of the `size` bytes from `addr` on, after those already mixed in. -/
def digestFrom (m : Memory) (digest : UInt64) (addr : Nat) : (size : Nat) → UInt64
  | 0 => digest
  | size + 1 => m.digestFrom (digestStep digest (m.byte addr)) (addr + 1) size

/-- The digest of the `size` bytes from `addr` on. -/
def digest (m : Memory) (addr size : Nat) : UInt64 :=
  m.digestFrom 14695981039346656037 addr size

end KernelCore.Memory
