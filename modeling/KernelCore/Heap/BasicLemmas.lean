import KernelCore.Heap.Basic

namespace KernelCore

theorem Region.header_of_holds {r : Region} {off : Nat} (m : Memory) (holds : r.HoldsHeader off) :
    r.header m off = .ok (Header.read m (r.start + off)) :=
  if_pos holds

theorem Region.header_of_not_holds {r : Region} {off : Nat} (m : Memory)
    (wild : ¬r.HoldsHeader off) : r.header m off = .error .headerOutOfBounds :=
  if_neg wild

/-- A region has room for a header at its start. -/
theorem Region.holdsHeader_zero (r : Region) : r.HoldsHeader 0 := by
  have room := r.holds_block
  simp only [Header.width, Config.heapMinPayload] at room
  exact ⟨rfl, by simp only [Header.width]; omega⟩

namespace Arena
open Machine
variable {r : Region} {off : Nat}

@[simp] theorem runFrom_report (notice : Heap.Notice) (a : Arena) :
    (report notice).runFrom a = (.ok (), { a with notices := a.notices.push notice }) := rfl

@[simp] theorem runFrom_setFirst (first : Option Nat) (a : Arena) :
    (setFirst first).runFrom a = (.ok (), { a with heap.first := first }) := rfl

@[simp] theorem runFrom_setUsed (used : Nat) (a : Arena) :
    (setUsed used).runFrom a = (.ok (), { a with heap.used := used }) := rfl

@[simp] theorem runFrom_onMemory (change : Memory → Memory) (a : Arena) :
    (onMemory change).runFrom a = (.ok (), { a with memory := change a.memory }) := rfl

@[simp] theorem runFrom_header (r : Region) (off : Nat) (a : Arena) :
    (header r off).runFrom a = (r.header a.memory off, a) := rfl

theorem runFrom_setHeader_of_holds (h : Header) (a : Arena) (holds : r.HoldsHeader off) :
    (setHeader r off h).runFrom a =
      (.ok (), { a with memory := h.write a.memory (r.start + off) }) := by
  simp only [setHeader, if_pos holds, runFrom_modify]

/-- A heap takes over one usable range; then it holds one free block. -/
theorem attempt_establish (a : Arena) (start size : Nat) :
    attempt (establish start size) a =
      if a.heap.region.isSome then (.ok (.error .alreadyInitialized), a) else
      match Region.ofRange start size with
      | .error cause => (.ok (.error cause), a)
      | .ok r => (.ok (.ok ()), {
          heap := ⟨some r, some 0, 0⟩
          memory := (Header.free r.capacity).write a.memory r.start
          notices := a.notices.push (.established r.start r.stop r.capacity) }) := by
  unfold establish
  cases present : a.heap.region.isSome <;> cases usable : Region.ofRange start size with
  | error cause => simp [attempt_bind, present]
  | ok r =>
    simp [attempt_bind, present, runFrom_setHeader_of_holds _ _ r.holdsHeader_zero, Except.map]

end Arena
end KernelCore
