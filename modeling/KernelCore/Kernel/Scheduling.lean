import KernelCore.Kernel.State
import KernelCore.Ticks

namespace KernelCore

/-- The kernel together with what lies outside it. -/
structure System (ω : Type) where
  kernel : Kernel
  outside : ω

/-- What happens outside the kernel. -/
structure Surroundings (ω : Type) where
  /-- What the interrupts do that arrive while the processor is parked. -/
  whileParked : Machine (System ω) Unit
  /-- What the other tasks do while a context is switched away from. -/
  whileAway : Machine (System ω) Unit
  /-- How often something happens before nothing but the passing of time is left. -/
  events : ω → Nat
  /-- The stack pointer that the processor saves for a context that it switches away from. -/
  savedPointer : System ω → Nat
  /-- It points to a stack, and no stack lies at the first address. -/
  savedPointer_ne_zero : ∀ s, savedPointer s ≠ 0

namespace System
variable {ω : Type}

/-- Runs what works on the kernel alone. -/
def onKernel {α : Type} (action : Machine Kernel α) : Machine (System ω) α := ExceptT.mk do
  let s ← get
  let (outcome, kernel) := action.runFrom s.kernel
  set { s with kernel }
  pure outcome

/-- Runs something with interrupts masked, and unmasks them afterwards if they were unmasked before. -/
def masked {α : Type} (body : Machine (System ω) α) : Machine (System ω) α := do
  let enabled := (← get).kernel.cpu.enabled
  if enabled then onKernel (Kernel.onProcessor Processor.mask)
  let result ← body
  if enabled then onKernel (Kernel.onProcessor Processor.unmask)
  pure result

/-- Sets the interrupt flag without an instruction of the kernel. -/
def setEnabled (enabled : Bool) : Machine (System ω) Unit :=
  onKernel (Kernel.onProcessor fun cpu => { cpu with enabled })

/-- Notes that this context goes on. -/
def resume : Machine (System ω) Unit := onKernel (Kernel.onProcessor (·.note .resume))

/-- Parks the processor until an interrupt has been served. -/
def park (env : Surroundings ω) : Machine (System ω) Unit := do
  onKernel (Kernel.onProcessor Processor.wait)
  let cpu := (← get).kernel.cpu
  if cpu.waitLimit ≤ cpu.waits then throw .waitLimit
  setEnabled true
  env.whileParked
  setEnabled false
  resume

/-- Sets the mark that tells the clock that the scheduler is waiting. -/
def setParked (parked : Bool) : Machine (System ω) Unit :=
  onKernel (modify fun k => { k with parked })

/-- Goes to another task, and comes back when some task goes to this one. -/
def switch (env : Surroundings ω) (handover : Handover) : Machine (System ω) Unit := do
  let saved := env.savedPointer (← get)
  onKernel (Kernel.onProcessor (·.switch handover saved))
  onKernel (Kernel.onTable (Table.saveStackPointer handover.outgoing saved))
  env.whileAway
  resume

/-- Goes to the task to run next. As long as no task can run, the processor is parked. -/
def rescheduleFor (env : Surroundings ω) : (rounds : Nat) → Machine (System ω) Unit
  | 0 => throw .endless
  | rounds + 1 => do
    let table := (← get).kernel.table
    if table.isInitialized then
      match ← table.pick with
      | some slot =>
        match ← onKernel (Kernel.onTable (Table.dispatch slot)) with
        | some handover => switch env handover
        | none => pure ()
      | none =>
        setParked true
        park env
        setParked false
        rescheduleFor env rounds

/-- Goes to the task to run next. Each round but the last parks the processor, which its limit allows
only so often. -/
def reschedule (env : Surroundings ω) : Machine (System ω) Unit := do
  let cpu := (← get).kernel.cpu
  rescheduleFor env (cpu.waitLimit - cpu.waits + 1)

/-- Lets the next ready task run. -/
def yield (env : Surroundings ω) : Machine (System ω) Unit := masked (reschedule env)

/-- A timer interrupt: the clock goes on, sleepers whose time has come become ready, and the next
ready task runs. While the scheduler waits it makes the choice itself. -/
def tick (env : Surroundings ω) : Machine (System ω) Unit := do
  onKernel (Kernel.onProcessor (·.note .tick))
  let before := (← get).kernel.ticks
  onKernel (modify fun k => { k with ticks := Word.wrappingAdd k.ticks 1 })
  let now ← Word.add before 1
  masked do
    if (← get).kernel.table.isInitialized then
      let woken ← onKernel (Kernel.onTable (Table.wakeDue now))
      if 0 < woken then onKernel (Kernel.report (.woke now woken))
      if (← get).kernel.parked = false then reschedule env
  onKernel (Kernel.onProcessor (·.note .served))

/-- Puts the running task to sleep for a time. No time at all lets the next ready task run. -/
def sleep (env : Surroundings ω) (ms : Nat) : Machine (System ω) Unit :=
  if ms = 0 then yield env else masked do
    let deadline := Ticks.saturate ((← get).kernel.ticks + Ticks.ofMs ms)
    if ← onKernel (Kernel.onTable (Table.blockCurrent deadline)) then
      onKernel (Kernel.onProcessor (·.note (.sleep ms)))
      reschedule env

/-- The pid of the running task. -/
def currentPid : Machine (System ω) (Option Nat) := masked (onKernel Kernel.currentPid)

/-- The state of the task with a pid. -/
def taskState (pid : Nat) : Machine (System ω) (Option TaskState) := masked do
  pure ((← get).kernel.table.stateOf? pid)

/-- Sleeps again and again until the task with a pid has exited. -/
def waitForRounds (env : Surroundings ω) (pid : Nat) : (rounds : Nat) → Machine (System ω) Unit
  | 0 => throw .endless
  | rounds + 1 => do
    if (← taskState pid).any TaskState.isAlive then
      sleep env Config.waitPollMs
      waitForRounds env pid rounds

/-- More rounds than a task that waits for another can make. Each round takes the running task out of
the ready ones, so after as many rounds as there are tasks the processor is parked or something happens
outside, and neither can happen more often than its limit allows. -/
def waitRounds (env : Surroundings ω) (s : System ω) : Nat :=
  (Config.maxTasks + 2) * (s.kernel.cpu.waitLimit - s.kernel.cpu.waits + env.events s.outside + 2)

/-- Waits until the task with a pid has exited. A task does not wait for itself, nor for a task that
does not exist. -/
def waitFor (env : Surroundings ω) (pid : Nat) : Machine (System ω) Unit := do
  if (← currentPid) = some pid then
    onKernel (Kernel.report (.selfWait pid))
  else
    waitForRounds env pid (waitRounds env (← get))

/-- Ends the running task. What called it does not go on. -/
def exit (env : Surroundings ω) : Machine (System ω) Unit := do
  onKernel (Kernel.onProcessor Processor.mask)
  onKernel Kernel.retire
  reschedule env
  onKernel (Kernel.onProcessor Processor.halt)

/-- Makes what runs already the first task, and creates the idle task. -/
def boot : Machine (System ω) (Except TaskError Nat) := masked (onKernel Kernel.boot)

/-- Creates a ready task. -/
def create (entry arg : Nat) : Machine (System ω) (Except TaskError Nat) :=
  masked (onKernel (Kernel.create entry arg))

/-- Notes every task for the log. -/
def describeTasks : Machine (System ω) Unit := masked (onKernel Kernel.describeTasks)

/-- Works on the heap; a refusal is an answer like any other. -/
def onHeap {α : Type} (action : HeapAction α) : Machine (System ω) (Except HeapError α) :=
  masked (onKernel (Kernel.tryHeap action))

end System
end KernelCore
