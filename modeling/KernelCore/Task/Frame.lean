import KernelCore.Memory.Basic
import KernelCore.Word.Rounding

namespace KernelCore.Frame

/-- Words in a frame. -/
def wordCount : Nat := 7

/-- The multiple that the stack pointer has when a task starts. -/
def stackAlignment : Nat := 16

/-- The code that a new task runs, and its argument. -/
structure Start where
  entry : Nat
  arg : Nat
  /-- Where the task goes when its entry returns. -/
  onReturn : Nat
  /-- Where a new task starts. -/
  trampoline : Nat

/-- The words of a frame from its lowest address on: r15, r14, r13, r12, rbx, rbp and the address at
which the task starts. -/
def Start.words (start : Start) : List Nat :=
  [0, start.onReturn, start.arg, start.entry, 0, 0, start.trampoline]

/-- The stack pointer of a new task, whose frame ends at the last aligned address of its stack. -/
def pointer (stack size : Nat) : Except Fault Nat := do
  let stop ← Word.add stack size
  Word.sub (Word.roundDown stop stackAlignment) (8 * wordCount)

/-- Lays out the frame of a new task, and gives its stack pointer. -/
def lay (m : Memory) (stack size : Nat) (start : Start) : Except Fault (Nat × Memory) := do
  let sp ← pointer stack size
  pure (sp, m.writeWords sp start.words)

end KernelCore.Frame
