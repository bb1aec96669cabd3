import KernelCore.Heap.Error
import KernelCore.Heap.Header
import KernelCore.Word.Rounding

namespace KernelCore

/-- A range of addresses that a heap can manage. -/
structure Region where
  start : Nat
  size : Nat
  /-- No payload has the address zero. -/
  start_pos : 0 < start
  start_aligned : start % Config.heapAlignment = 0
  size_aligned : size % Config.heapAlignment = 0
  /-- There is room for one block. -/
  holds_block : Header.width + Config.heapMinPayload ≤ size
  /-- Every address of the range, and the one behind it, is a word. -/
  fits : start + size < wordLimit

namespace Region

/-- The usable part of a range: its start rounded up and its size rounded down. -/
def ofRange (start size : Nat) : Except HeapError Region :=
  if zero : start = 0 then .error .outOfRange else
  match rounded : Word.roundUp? start Config.heapAlignment with
  | none => .error .overflow
  | some base =>
    if size < base - start then .error .regionTooSmall else
    let usable := Word.roundDown (size - (base - start)) Config.heapAlignment
    if room : Header.width + Config.heapMinPayload ≤ usable ∧ base + usable < wordLimit then
      have up := Word.roundUp?_eight_eq_some_iff.mp rounded
      .ok {
        start := base
        size := usable
        start_pos := by omega
        start_aligned := up.2.1
        size_aligned := Word.roundDown_eight_mod _
        holds_block := room.1
        fits := room.2
      }
    else .error .regionTooSmall

/-- The address behind the region. -/
def stop (r : Region) : Nat := r.start + r.size

/-- Whether an address lies in the region. -/
def Contains (r : Region) (addr : Nat) : Prop := r.start ≤ addr ∧ addr < r.stop

instance (r : Region) (addr : Nat) : Decidable (r.Contains addr) :=
  inferInstanceAs (Decidable (_ ∧ _))

/-- Whether a header at this offset is aligned and lies inside the region. -/
def HoldsHeader (r : Region) (off : Nat) : Prop :=
  off % Config.heapAlignment = 0 ∧ off + Header.width ≤ r.size

instance (r : Region) (off : Nat) : Decidable (r.HoldsHeader off) :=
  inferInstanceAs (Decidable (_ ∧ _))

/-- Payload of the region as a single block. -/
def capacity (r : Region) : Nat := r.size - Header.width

/-- The address of the payload of the block at an offset. -/
def payload (r : Region) (off : Nat) : Nat := r.start + off + Header.width

/-- More hops than a list of distinct headers in the region can have. -/
def hopLimit (r : Region) : Nat := r.size / Config.heapAlignment + 1

/-- The header at an offset. -/
def header (r : Region) (m : Memory) (off : Nat) : Except Fault Header :=
  if r.HoldsHeader off then .ok (Header.read m (r.start + off)) else .error .headerOutOfBounds

end Region

/-- The offset behind a block. -/
def blockEnd (off size : Nat) : Except Fault Nat := Word.add (off + Header.width) size

end KernelCore
