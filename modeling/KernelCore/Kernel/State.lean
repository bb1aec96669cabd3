import KernelCore.Heap.Resize
import KernelCore.Heap.Aligned
import KernelCore.Heap.Audit
import KernelCore.Kernel.Notice
import KernelCore.Kernel.Processor
import KernelCore.Task.Frame
import KernelCore.Task.Scheduling

namespace KernelCore

structure Kernel where
  /-- The heap and the memory. -/
  arena : Arena
  table : Table
  /-- Timer ticks so far. -/
  ticks : Nat
  /-- Whether the scheduler is waiting for an interrupt. -/
  parked : Bool
  cpu : Processor
  /-- The notices for the log and the ticks at which they were made, the oldest first. -/
  journal : Array (Nat × Kernel.Notice)

namespace Kernel

/-- A kernel without heap and tasks. -/
def initial (m : Memory) (cpu : Processor) : Kernel :=
  ⟨Arena.ofMemory m, Table.empty, 0, false, cpu, #[]⟩

/-- Notes something for the log. -/
def report (notice : Notice) : Machine Kernel Unit :=
  modify fun k => { k with journal := k.journal.push (k.ticks, notice) }

/-- Has the processor do something. -/
def onProcessor (change : Processor → Processor) : Machine Kernel Unit :=
  modify fun k => { k with cpu := change k.cpu }

/-- Works on the task table. What becomes of it is noted. -/
def onTable {α : Type} (action : Machine Table α) : Machine Kernel α := ExceptT.mk do
  let k ← get
  let (outcome, table) := action.runFrom k.table
  set { k with table, cpu := k.cpu.note (.table table) }
  pure outcome

/-- Works on the heap. Its notices go to the journal. -/
def onArena {α : Type} (action : Machine Arena α) : Machine Kernel α := ExceptT.mk do
  let k ← get
  let (outcome, arena) := action.runFrom k.arena
  let journal := k.journal ++ arena.notices.map fun notice => (k.ticks, Notice.heap notice)
  set { k with arena := { arena with notices := #[] }, journal }
  pure outcome

/-- Works on the heap; a refusal is an answer like any other. -/
def tryHeap {α : Type} (action : HeapAction α) : Machine Kernel (Except HeapError α) :=
  onArena action.run

/-- Works on the task table; a refusal is an answer like any other. -/
def tryTable {α : Type} (action : TableAction α) : Machine Kernel (Except TaskError α) :=
  onTable action.run

/-- The pid of the running task. -/
def currentPid : Machine Kernel (Option Nat) := do (← get).table.currentPid

/-- Lays out the frame of a new task on its stack, and gives its stack pointer. -/
def prepareStack (stack size entry arg : Nat) : Machine Kernel Nat := do
  let k ← get
  let start : Frame.Start := ⟨entry, arg, k.cpu.landmarks.onReturn, k.cpu.landmarks.trampoline⟩
  let (sp, laidOut) ← Frame.lay k.arena.memory stack size start
  onProcessor (·.note (.prepare sp entry arg))
  onArena (Arena.onMemory fun _ => laidOut)
  pure sp

/-- Allocates the stack of a new task and lays out its frame; gives the stack and the stack pointer. -/
def newStack (entry arg : Nat) : Machine Kernel (Except TaskError (Nat × Nat)) := do
  match ← tryHeap (Arena.allocate Config.taskStackSize) with
  | .error cause =>
    report (.stackRefused cause)
    pure (.error (.stackAllocation cause))
  | .ok stack =>
    let sp ← prepareStack stack Config.taskStackSize entry arg
    pure (.ok (stack, sp))

/-- Gives back a stack that no task was started on. -/
def releaseStack (stack : Nat) : Machine Kernel Unit := do
  match ← tryHeap (Arena.release stack) with
  | .ok () => pure ()
  | .error cause => report (.stackNotReleased stack cause)

/-- Adopts the boot task and adds the idle task with its stack. -/
def adopt (stack sp : Nat) : TableAction (Nat × Nat) := do
  let boot ← Table.adoptBoot
  let idle ← Table.add (some stack) sp TaskFlags.idle
  pure (boot, idle)

/-- Makes what runs already the first task, and creates the idle task. The stack comes first, so that
a refusal leaves the table as it is. -/
def boot : Machine Kernel (Except TaskError Nat) := do
  let k ← get
  if 0 < k.table.tasks.size then return .error .alreadyInitialized
  match ← newStack k.cpu.landmarks.idleEntry 0 with
  | .error cause => pure (.error cause)
  | .ok (stack, sp) =>
    match ← tryTable (adopt stack sp) with
    | .ok (boot, idle) =>
      report (.booted boot idle)
      pure (.ok boot)
    | .error cause =>
      releaseStack stack
      pure (.error cause)

/-- Creates a ready task on a stack of its own. -/
def create (entry arg : Nat) : Machine Kernel (Except TaskError Nat) := do
  let k ← get
  if k.table.isInitialized = false then return .error .notInitialized
  if k.table.isFull then
    report .tableFull
    return .error .tableFull
  match ← newStack entry arg with
  | .error cause => pure (.error cause)
  | .ok (stack, sp) =>
    match ← tryTable (Table.add (some stack) sp TaskFlags.none) with
    | .ok pid =>
      report (.created pid stack sp)
      pure (.ok pid)
    | .error cause =>
      releaseStack stack
      pure (.error cause)

/-- Ends the running task. Its stack goes back to the heap at once: with interrupts masked nothing
else is allocated before another task runs. -/
def retire : Machine Kernel Unit := do
  let pid ← currentPid
  match ← onTable Table.terminateCurrent with
  | none => pure ()
  | some stack =>
    match ← tryHeap (Arena.release stack) with
    | .ok () => pure ()
    | .error cause => report (.exitStackNotReleased pid cause)
  report (.exited pid)

/-- Notes every task for the log. -/
def describeTasks : Machine Kernel Unit := do
  let k ← get
  k.table.tasks.toList.forM fun task => report (.task task)

end Kernel
end KernelCore
