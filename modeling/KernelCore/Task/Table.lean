import KernelCore.Config
import KernelCore.Machine
import KernelCore.Task.Error
import KernelCore.Task.Flags
import KernelCore.Task.State

namespace KernelCore

structure Task where
  pid : Nat
  state : TaskState
  flags : TaskFlags
  /-- The saved stack pointer, of use only while the task is not running. -/
  sp : Nat
  /-- The block of the heap that holds the stack; the boot task and an exited task have none. -/
  stack : Option Nat
  /-- The slot of the next task in the ring. -/
  next : Nat
  /-- How often the task has taken the place of another one. No operation adds more than one, so a word has room for it
  through as many operations as a word can count. -/
  scheduled : Nat
deriving DecidableEq, Repr

namespace Task

/-- Whether the task is picked only when no other task can run. -/
def isIdle (task : Task) : Bool := task.flags.contains TaskFlags.idle

/-- A short description: the pid, the state with its deadline, and how often the task was picked. -/
def summary (task : Task) : String :=
  let deadline := match task.state.wake? with
    | none => ""
    | some wake => "@" ++ toString wake
  toString task.pid ++ ":" ++ task.state.name ++ deadline ++ ":" ++ toString task.scheduled

end Task

/-- The tasks and the roles that some of them have, by slot. Slots are handed out in order and never again. -/
structure Table where
  tasks : Array Task
  /-- The running task. -/
  current : Option Nat
  /-- The task to fall back to. -/
  idle : Option Nat
  /-- The last task of the ring. -/
  tail : Option Nat
deriving DecidableEq, Repr

/-- A computation on the task table that can be refused. -/
abbrev TableAction := ExceptT TaskError (Machine Table)

namespace Table

/-- A table without tasks. -/
def empty : Table := ⟨#[], none, none, none⟩

def isInitialized (t : Table) : Bool := t.current.isSome

def isFull (t : Table) : Bool := Config.maxTasks ≤ t.tasks.size

/-- The task in a slot. -/
def slot (t : Table) (i : Nat) : Except Fault Task :=
  if h : i < t.tasks.size then .ok t.tasks[i]
  else if i < Config.maxTasks then .error .emptySlot
  else .error (.slotOutOfRange Config.maxTasks i)

/-- The task with a pid. -/
def task? (t : Table) (pid : Nat) : Option Task := t.tasks.find? fun task => task.pid == pid

/-- The state of the task with a pid. -/
def stateOf? (t : Table) (pid : Nat) : Option TaskState := (t.task? pid).map Task.state

/-- The task in a slot that may be missing. -/
def slot? (t : Table) : Option Nat → Except Fault (Option Task)
  | none => .ok none
  | some i => do pure (some (← t.slot i))

/-- The running task. -/
def currentTask (t : Table) : Except Fault (Option Task) := t.slot? t.current

def currentPid (t : Table) : Except Fault (Option Nat) := do
  pure ((← t.slot? t.current).map Task.pid)

def idlePid (t : Table) : Except Fault (Option Nat) := do
  pure ((← t.slot? t.idle).map Task.pid)

/-- Changes the task in a slot. -/
def update (i : Nat) (change : Task → Task) : Machine Table Unit := do
  let task ← (← get).slot i
  modify fun t => { t with tasks := t.tasks.setIfInBounds i (change task) }

/-- Puts the task in a slot at the end of the ring. -/
def link (i : Nat) : Machine Table Unit := do
  let t ← get
  match t.tail with
  | none => update i fun task => { task with next := i }
  | some tail =>
    let last ← t.slot tail
    update i fun task => { task with next := last.next }
    update tail fun task => { task with next := i }
  modify fun t => { t with tail := some i }

/-- Hands out the next slot to a ready task. -/
def insert (stack : Option Nat) (sp : Nat) (flags : TaskFlags) : TableAction Nat := do
  let t ← get
  if t.isFull then throw .tableFull
  let i := t.tasks.size
  let task : Task := ⟨i + 1, .ready, flags, sp, stack, 0, 0⟩
  modify fun t => { t with tasks := t.tasks.push task }
  link i
  pure i

/-- Makes what runs already the first task, and gives its pid. -/
def adoptBoot : TableAction Nat := do
  if 0 < (← get).tasks.size then throw .alreadyInitialized
  let i ← insert none 0 TaskFlags.boot
  update i fun task => { task with state := .running, scheduled := 1 }
  let task ← (← get).slot i
  modify fun t => { t with current := some i }
  pure task.pid

/-- Adds a ready task whose saved stack pointer is `sp`, and gives its pid. -/
def add (stack : Option Nat) (sp : Nat) (flags : TaskFlags) : TableAction Nat := do
  if (← get).current.isNone then throw .notInitialized
  let i ← insert stack sp flags
  if flags.contains TaskFlags.idle then
    modify fun t => { t with idle := some i }
  let task ← (← get).slot i
  pure task.pid

end Table
end KernelCore
