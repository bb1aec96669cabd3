namespace KernelCore

inductive TaskState where
  | ready
  | running
  /-- Asleep until the tick `wake`. -/
  | blocked (wake : Nat)
  | terminated
deriving DecidableEq, Repr

namespace TaskState

/-- Whether a task in this state may be picked. -/
def isRunnable : TaskState → Bool
  | ready | running => true
  | blocked _ | terminated => false

/-- Whether a task in this state has not exited. -/
def isAlive : TaskState → Bool
  | terminated => false
  | ready | running | blocked _ => true

/-- The deadline of a sleeping task. -/
def wake? : TaskState → Option Nat
  | blocked wake => some wake
  | ready | running | terminated => none

def name : TaskState → String
  | ready => "Ready"
  | running => "Running"
  | blocked _ => "Blocked"
  | terminated => "Terminated"

/-- The number that stands for a state. -/
def code : TaskState → Nat
  | ready => 0
  | running => 1
  | blocked _ => 2
  | terminated => 3

end TaskState
end KernelCore
