import KernelCore.Heap.Error

namespace KernelCore

/-- Why the task table refuses a request. -/
inductive TaskError where
  /-- There is no running task yet. -/
  | notInitialized
  /-- There is a running task already. -/
  | alreadyInitialized
  /-- Every slot has been handed out. -/
  | tableFull
  /-- The heap refused the stack. -/
  | stackAllocation (cause : HeapError)
deriving DecidableEq, Repr

/-- The wording of a refusal. -/
def TaskError.message : TaskError → String
  | .notInitialized => "task table not initialized"
  | .alreadyInitialized => "task table already initialized"
  | .tableFull => "task table full"
  | .stackAllocation cause => "task stack allocation failed: " ++ cause.message

end KernelCore
