import KernelCore.Task.Scheduling
import KernelCore.Word.Basic

namespace KernelCore

/-- What a task does, without the deadline of one that sleeps. -/
inductive TaskStatus where
  | ready
  | running
  | blocked
  | terminated
deriving DecidableEq, Repr

/-- Whether a task may be picked. -/
def TaskStatus.isRunnable : TaskStatus → Bool
  | ready | running => true
  | blocked | terminated => false

/-- A task as it is stored. -/
structure TaskRecord where
  pid : Nat
  status : TaskStatus
  flags : TaskFlags
  /-- The saved stack pointer, of use only while the task is not running. -/
  sp : Nat
  /-- The block of the heap that holds the stack. -/
  stack : Option Nat
  /-- The deadline, of use only while the task is blocked. -/
  wakeTick : Nat
  /-- The slot of the next task in the ring. -/
  next : Nat
  /-- How often the task has taken the place of another one. -/
  scheduled : Nat
deriving DecidableEq, Repr

namespace TaskRecord

def new (pid : Nat) (flags : TaskFlags) (stack : Option Nat) (sp : Nat) : TaskRecord :=
  ⟨pid, .ready, flags, sp, stack, 0, 0, 0⟩

/-- Whether the task is picked only when no other task can run. -/
def isIdle (task : TaskRecord) : Bool := task.flags.contains TaskFlags.idle

/-- The deadline of a task that sleeps. -/
def wake? (task : TaskRecord) : Option Nat := if task.status = .blocked then some task.wakeTick else none

end TaskRecord

/-- One more than the largest pid. -/
def pidLimit : Nat := 4294967296

/-- The task table as it is stored: a fixed number of slots, each empty or with a task, and counters of what has been
handed out. Nothing in it says that the slots and the counters agree. -/
structure Roster where
  slots : Vector (Option TaskRecord) Config.maxTasks
  /-- The number of slots that have been handed out. -/
  count : Nat
  /-- The slot of the running task. -/
  current : Option Nat
  /-- The slot of the task to fall back to. -/
  idle : Option Nat
  /-- The last slot of the ring. -/
  tail : Option Nat
  /-- The pid of the next task. -/
  nextPid : Nat
deriving DecidableEq, Repr

/-- A computation on the stored table that can be refused. -/
abbrev RosterAction := ExceptT TaskError (Machine Roster)

namespace Roster

/-- A table without tasks. -/
def new : Roster := ⟨Vector.replicate Config.maxTasks none, 0, none, none, none, 1⟩

def isInitialized (r : Roster) : Bool := r.current.isSome

def isFull (r : Roster) : Bool := Config.maxTasks ≤ r.count

def isEmpty (r : Roster) : Bool := r.count == 0

/-- The task in a slot. -/
def slot (r : Roster) (i : Nat) : Except Fault TaskRecord :=
  match r.slots[i]? with
  | some (some task) => .ok task
  | some none => .error .emptySlot
  | none => .error (.slotOutOfRange Config.maxTasks i)

/-- The tasks in the order of their slots. -/
def tasks (r : Roster) : List TaskRecord := r.slots.toList.filterMap id

/-- The task with a pid. -/
def task? (r : Roster) (pid : Nat) : Option TaskRecord := r.tasks.find? fun task => task.pid == pid

/-- What the task with a pid does. -/
def statusOf? (r : Roster) (pid : Nat) : Option TaskStatus := (r.task? pid).map TaskRecord.status

/-- The task in a slot that may be missing. -/
def slot? (r : Roster) : Option Nat → Except Fault (Option TaskRecord)
  | none => .ok none
  | some i => do pure (some (← r.slot i))

/-- The running task. -/
def currentTask (r : Roster) : Except Fault (Option TaskRecord) := r.slot? r.current

def currentPid (r : Roster) : Except Fault (Option Nat) := do
  pure ((← r.slot? r.current).map TaskRecord.pid)

def idlePid (r : Roster) : Except Fault (Option Nat) := do
  pure ((← r.slot? r.idle).map TaskRecord.pid)

/-- Puts a task into a slot. -/
def store (i : Nat) (task : TaskRecord) : Machine Roster Unit :=
  if i < Config.maxTasks then modify fun r => { r with slots := r.slots.setIfInBounds i (some task) }
  else throw (.slotOutOfRange Config.maxTasks i)

/-- Changes the task in a slot. -/
def update (i : Nat) (change : TaskRecord → TaskRecord) : Machine Roster Unit := do
  let task ← (← get).slot i
  store i (change task)

/-- Puts the task in a slot at the end of the ring. -/
def link (i : Nat) : Machine Roster Unit := do
  let r ← get
  match r.tail with
  | none => update i fun task => { task with next := i }
  | some tail =>
    let last ← r.slot tail
    update i fun task => { task with next := last.next }
    update tail fun task => { task with next := i }
  modify fun r => { r with tail := some i }

/-- Hands out the next slot and the next pid. -/
def claim : Machine Roster Unit := do
  let count ← Word.add (← get).count 1
  modify fun r => { r with count }
  let pid := (← get).nextPid + 1
  if pidLimit ≤ pid then throw .addOverflow
  modify fun r => { r with nextPid := pid }

/-- Puts a ready task into the next slot. -/
def insert (stack : Option Nat) (sp : Nat) (flags : TaskFlags) : RosterAction Nat := do
  let r ← get
  if r.isFull then throw .tableFull
  let i := r.count
  store i (.new r.nextPid flags stack sp)
  claim
  link i
  pure i

/-- Makes what runs already the first task, and gives its pid. -/
def adoptBoot : RosterAction Nat := do
  if (← get).isEmpty = false then throw .alreadyInitialized
  let i ← insert none 0 TaskFlags.boot
  update i fun task => { task with status := .running, scheduled := 1 }
  let task ← (← get).slot i
  modify fun r => { r with current := some i }
  pure task.pid

/-- Adds a ready task whose saved stack pointer is `sp`, and gives its pid. -/
def add (stack : Option Nat) (sp : Nat) (flags : TaskFlags) : RosterAction Nat := do
  if (← get).current.isNone then throw .notInitialized
  let i ← insert stack sp flags
  if flags.contains TaskFlags.idle then
    modify fun r => { r with idle := some i }
  let task ← (← get).slot i
  pure task.pid

/-- Goes along the ring from the slot `i` until it is back at `current`, for `steps` tasks at most. The result is the
first ready task that is not idle, and the last ready idle task met before. -/
def seek (r : Roster) (current : Nat) :
    (steps i : Nat) → (idle : Option Nat) → Except Fault (Option Nat × Option Nat)
  | 0, _, idle => .ok (none, idle)
  | steps + 1, i, idle =>
    if i = current then .ok (none, idle) else do
      let task ← r.slot i
      if task.status = .ready then
        if task.isIdle then r.seek current steps task.next (some i) else pure (some i, idle)
      else r.seek current steps task.next idle

/-- The slot of the task to run next, if any task can run. -/
def pick (r : Roster) : Except Fault (Option Nat) :=
  match r.current with
  | none => .ok none
  | some current => do
    let running ← r.slot current
    let (ready, idle) ← r.seek current r.count running.next none
    match ready with
    | some i => pure (some i)
    | none => pure (if running.status.isRunnable then some current else idle)

/-- Gives the processor to the task in a slot. There is no handover where it is the running task already. A task that
is still running becomes ready; one that sleeps or has exited stays as it is. The count of the task that goes on may
have no room for one more. -/
def dispatch (i : Nat) : Machine Roster (Option Handover) := do
  match (← get).current with
  | none => pure none
  | some outgoing =>
    if i = outgoing then
      update i fun task => { task with status := .running }
      pure none
    else
      update outgoing fun task =>
        { task with status := if task.status = .running then .ready else task.status }
      update i fun task => { task with status := .running }
      let incoming ← (← get).slot i
      let scheduled ← Word.add incoming.scheduled 1
      update i fun task => { task with scheduled }
      modify fun r => { r with current := some i }
      pure (some ⟨outgoing, i, incoming.sp⟩)

/-- Stores the stack pointer of the task in a slot. -/
def saveStackPointer (i sp : Nat) : Machine Roster Unit :=
  update i fun task => { task with sp }

/-- Puts the running task to sleep until a tick, if there is one. -/
def blockCurrent (wake : Nat) : Machine Roster Bool := do
  match (← get).current with
  | none => pure false
  | some i =>
    update i fun task => { task with status := .blocked, wakeTick := wake }
    pure true

/-- Ends the running task, and gives the stack that it no longer needs. -/
def terminateCurrent : Machine Roster (Option Nat) := do
  match (← get).current with
  | none => pure none
  | some i =>
    let task ← (← get).slot i
    update i fun task => { task with status := .terminated, stack := none }
    pure task.stack

/-- Whether a task sleeps and its deadline is not after a tick. -/
def isDue (now : Nat) (task : TaskRecord) : Bool := task.status == .blocked && decide (task.wakeTick ≤ now)

/-- Makes every task ready whose deadline has passed, and gives their number. -/
def wakeDue (now : Nat) : Machine Roster Nat := do
  let r ← get
  let wakes (task : TaskRecord) : TaskRecord := if isDue now task then { task with status := .ready } else task
  set { r with slots := r.slots.map (Option.map wakes) }
  pure (r.tasks.countP (isDue now))

end Roster
end KernelCore
