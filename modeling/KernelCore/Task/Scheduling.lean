import KernelCore.Task.Table

namespace KernelCore

/-- What the processor needs in order to go from one task to another. -/
structure Handover where
  /-- The slot of the task whose stack pointer is to be saved. -/
  outgoing : Nat
  /-- The slot of the task that goes on. -/
  incoming : Nat
  /-- The stack pointer of the task that goes on. -/
  next : Nat
deriving DecidableEq, Repr

namespace Table

/-- Goes along the ring from the slot `i` until it is back at `current`, for `steps` tasks at most.
The result is the first ready task that is not idle, and the last ready idle task met before. -/
def seek (t : Table) (current : Nat) :
    (steps i : Nat) → (idle : Option Nat) → Except Fault (Option Nat × Option Nat)
  | 0, _, idle => .ok (none, idle)
  | steps + 1, i, idle =>
    if i = current then .ok (none, idle) else do
      let task ← t.slot i
      if task.state = .ready then
        if task.isIdle then t.seek current steps task.next (some i) else pure (some i, idle)
      else t.seek current steps task.next idle

/-- The slot of the task to run next, if any task can run. -/
def pick (t : Table) : Except Fault (Option Nat) :=
  match t.current with
  | none => .ok none
  | some current => do
    let running ← t.slot current
    let (ready, idle) ← t.seek current t.tasks.size running.next none
    match ready with
    | some i => pure (some i)
    | none => pure (if running.state.isRunnable then some current else idle)

/-- Makes the task in a slot the running one. There is no handover where it is the running task
already. A task that is still running becomes ready; one that sleeps or has exited stays as it is. -/
def dispatch (i : Nat) : Machine Table (Option Handover) := do
  match (← get).current with
  | none => pure none
  | some outgoing =>
    if i = outgoing then
      update i fun task => { task with state := .running }
      pure none
    else
      update outgoing fun task =>
        { task with state := if task.state = .running then .ready else task.state }
      let incoming ← (← get).slot i
      update i fun task => { task with state := .running, scheduled := task.scheduled + 1 }
      modify fun t => { t with current := some i }
      pure (some ⟨outgoing, i, incoming.sp⟩)

/-- Stores the stack pointer of the task in a slot. -/
def saveStackPointer (i sp : Nat) : Machine Table Unit :=
  update i fun task => { task with sp }

/-- Puts the running task to sleep until a tick, if there is one. -/
def blockCurrent (wake : Nat) : Machine Table Bool := do
  match (← get).current with
  | none => pure false
  | some i =>
    update i fun task => { task with state := .blocked wake }
    pure true

/-- Ends the running task, and gives the stack that it no longer needs. -/
def terminateCurrent : Machine Table (Option Nat) := do
  match (← get).current with
  | none => pure none
  | some i =>
    let task ← (← get).slot i
    update i fun task => { task with state := .terminated, stack := none }
    pure task.stack

/-- Whether a task sleeps and its deadline is not after a tick. -/
def isDue (now : Nat) (task : Task) : Bool :=
  match task.state with
  | .blocked wake => wake ≤ now
  | .ready | .running | .terminated => false

/-- Makes every task ready whose deadline has passed, and gives their number. -/
def wakeDue (now : Nat) : Machine Table Nat := do
  let t ← get
  let woken := t.tasks.map fun task => if isDue now task then { task with state := .ready } else task
  set { t with tasks := woken }
  pure (t.tasks.countP (isDue now))

end Table
end KernelCore
