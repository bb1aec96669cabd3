namespace KernelCore

/-- Why a computation did not return. -/
inductive Fault where
  /-- A sum does not fit into a word. -/
  | addOverflow
  /-- A difference would be negative. -/
  | subOverflow
  | divideByZero
  /-- A block header was asked for at an offset that cannot hold one. -/
  | headerOutOfBounds
  /-- A task slot beyond the capacity of the table was asked for. -/
  | slotOutOfRange (capacity index : Nat)
  /-- A task slot that has not been handed out was asked for. -/
  | emptySlot
  /-- The processor was parked more often than its limit allows. -/
  | waitLimit
  /-- The computation follows a cycle and comes to no end. -/
  | endless
deriving DecidableEq, Repr

/-- The report of a fault. -/
def Fault.message : Fault → String
  | .addOverflow => "attempt to add with overflow"
  | .subOverflow => "attempt to subtract with overflow"
  | .divideByZero => "attempt to divide by zero"
  | .headerOutOfBounds => "assertion failed: self.in_bounds(off)"
  | .slotOutOfRange capacity index =>
    "index out of bounds: the len is " ++ toString capacity ++ " but the index is " ++ toString index
  | .emptySlot => "internal error: entered unreachable code: ring links only populated slots"
  | .waitLimit => "scheduler never found a runnable task"
  | .endless => "never ends"

end KernelCore
