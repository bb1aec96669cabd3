import KernelCore.Heap.Basic

namespace KernelCore

/-- A block by its offset and its header. -/
structure Block where
  off : Nat
  header : Header
deriving DecidableEq, Repr

/-- The blocks from the offset `off` on. Behind a block whose size is no size of a block in this region
nothing more can be told. -/
def Region.blocks (r : Region) (m : Memory) (off : Nat) : List Block :=
  if _room : off + Header.width ≤ r.size then
    let h := Header.read m (r.start + off)
    ⟨off, h⟩ ::
      if h.size % Config.heapAlignment ≠ 0 ∨ r.size < h.size then []
      else r.blocks m (off + Header.width + h.size)
  else []
termination_by r.size - off
decreasing_by simp only [Header.width] at *; omega

/-- All blocks of the heap. -/
def Arena.blocks (a : Arena) : List Block :=
  match a.heap.region with
  | none => []
  | some r => r.blocks a.memory 0

end KernelCore
