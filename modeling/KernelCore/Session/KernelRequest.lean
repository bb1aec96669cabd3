import KernelCore.Kernel.GlobalHeap
import KernelCore.Session.HeapRequest
import KernelCore.Session.Operand

namespace KernelCore.Session

inductive KernelRequest where
  /-- A request to the heap, with interrupts masked. -/
  | heap (request : HeapRequest)
  | globalAllocate (size align : Nat)
  | globalAllocateZeroed (size align : Nat)
  | globalRelease (size align : Nat)
  | globalResize (size align newSize : Nat)
  | boot
  | create (entry arg : Nat)
  | yield
  | sleep (ms : Nat)
  | waitFor (pid : Nat)
  | exit
  | tick (count : Nat)
  | taskState (pid : Nat)
  | currentPid
  | idlePid
  | ticks
  | tasks
  | describeTasks
  | mask
  | unmask
deriving DecidableEq, Repr

/-- A request with the address that it concerns, and the name that its result gets. -/
structure Command where
  /-- What the command is called in a record. -/
  label : String
  request : KernelRequest
  operand : Operand
  bind : Option String
deriving DecidableEq, Repr

abbrev Script := List Command

/-- Where a script runs. -/
inductive Place where
  | wait
  | switch
deriving DecidableEq, Repr

/-- The record of a command in a script, with the running task and the clock just after it. -/
structure Nested where
  place : Place
  label : String
  reply : Reply
  current : Option Nat
  ticks : Nat

/-- What lies outside the kernel. -/
structure Desk where
  names : Names
  /-- What the next interrupts do. -/
  whileParked : List Script
  /-- What the other tasks do. -/
  whileAway : List Script
  /-- The commands of scripts that have come to their end, the oldest first. -/
  nested : Array Nested

/-- How many scripts are left. -/
def Desk.scripts (desk : Desk) : Nat := desk.whileParked.length + desk.whileAway.length

namespace KernelRequest
variable {ω : Type}

/-- A tick of the clock, one or more times. -/
def ticking (env : Surroundings ω) : (count : Nat) → Machine (System ω) Unit
  | 0 => pure ()
  | count + 1 => do
    System.tick env
    ticking env count

/-- Does something for a layout, if size and alignment are one. -/
def onLayout (size align : Nat) (action : Layout → Machine (System ω) Reply) :
    Machine (System ω) Reply :=
  match Layout.of? size align with
  | none => return .layoutRefused
  | some layout => action layout

/-- Carries out a request that concerns the address `ptr`. -/
def perform (env : Surroundings ω) (ptr : Nat) : KernelRequest → Machine (System ω) Reply
  | heap request => System.masked (System.onKernel (Kernel.onArena (request.perform ptr)))
  | globalAllocate size align => onLayout size align fun layout => do
    return .number (← System.globalAllocate layout)
  | globalAllocateZeroed size align => onLayout size align fun layout => do
    return .number (← System.globalAllocateZeroed layout)
  | globalRelease size align => onLayout size align fun layout => do
    System.globalRelease ptr layout
    return .done
  | globalResize size align newSize => onLayout size align fun layout => do
    return .number (← System.globalResize ptr layout newSize)
  | boot => return Reply.ofTable .number (← System.boot)
  | create entry arg => do
    let idleEntry := (← get).kernel.cpu.landmarks.idleEntry
    return Reply.ofTable .number (← System.create (if entry = 0 then idleEntry else entry) arg)
  | yield => do
    System.yield env
    return .done
  | sleep ms => do
    System.sleep env ms
    return .done
  | waitFor pid => do
    System.waitFor env pid
    return .done
  | exit => do
    System.exit env
    return .halted
  | tick count => do
    ticking env (max count 1)
    return .done
  | taskState pid => return .state? (← System.taskState pid)
  | currentPid => return .number? (← System.currentPid)
  | idlePid => System.masked do
    let s ← get
    return .number? (← s.kernel.table.idlePid)
  | ticks => return .number (← get).kernel.ticks
  | tasks => System.masked do return .tasks (← get).kernel.table.tasks.toList
  | describeTasks => do
    System.describeTasks
    return .done
  | mask => do
    System.onKernel (Kernel.onProcessor Processor.mask)
    return .done
  | unmask => do
    System.onKernel (Kernel.onProcessor Processor.unmask)
    return .done

end KernelRequest

namespace Desk

/-- Changes what lies outside the kernel. -/
def modifyDesk (change : Desk → Desk) : Machine (System Desk) Unit :=
  modify fun s => { s with outside := change s.outside }

/-- Carries out a command: its address is looked up first, and its result gets the name last. -/
def perform (env : Surroundings Desk) (command : Command) : Machine (System Desk) Reply := do
  let ptr := command.operand.resolve (← get).outside.names
  let reply ← command.request.perform env ptr
  match command.bind, reply with
  | none, _ => pure ()
  | some _, .layoutRefused => pure ()
  | some name, reply =>
    modifyDesk fun desk => { desk with names := (name, reply.address) :: desk.names }
  return reply

/-- Carries out the commands of a script, and records each when it has come to its end. -/
def runScript (env : Surroundings Desk) (place : Place) (script : Script) :
    Machine (System Desk) Unit :=
  script.forM fun command => do
    let reply ← perform env command
    let s ← get
    let current ← s.kernel.table.currentPid
    let record : Nested := ⟨place, command.label, reply, current, s.kernel.ticks⟩
    modifyDesk fun desk => { desk with nested := desk.nested.push record }

/-- The stack pointers that the switches of a session save: each is the next one of a row. -/
def savedPointer (s : System Desk) : Nat := 0xC0000000 + 16 * (s.kernel.cpu.switches + 1)

theorem savedPointer_ne_zero (s : System Desk) : savedPointer s ≠ 0 := by
  unfold savedPointer
  omega

/-- What happens outside the kernel, where scripts run inside one another up to a depth. A script is
taken from the desk before it runs, so more scripts than there are cannot run inside one another. -/
def surroundings : (depth : Nat) → Surroundings Desk
  | 0 => ⟨throw .endless, throw .endless, scripts, savedPointer, savedPointer_ne_zero⟩
  | depth + 1 =>
    let inner := surroundings depth
    { whileParked := do
        match (← get).outside.whileParked with
        | [] => System.tick inner
        | script :: rest =>
          modifyDesk fun desk => { desk with whileParked := rest }
          runScript inner .wait script
      whileAway := do
        match (← get).outside.whileAway with
        | [] => pure ()
        | script :: rest =>
          modifyDesk fun desk => { desk with whileAway := rest }
          runScript inner .switch script
      events := scripts
      savedPointer
      savedPointer_ne_zero }

/-- Carries out a command, with the scripts on the desk for what happens outside the kernel. -/
def run (command : Command) : Machine (System Desk) Reply := do
  perform (surroundings ((← get).outside.scripts + 2)) command

end Desk

/-- A kernel with scripts for what happens outside it. -/
def start (m : Memory) (cpu : Processor) (whileParked whileAway : List Script) : System Desk :=
  ⟨Kernel.initial m cpu, ⟨[], whileParked, whileAway, #[]⟩⟩

/-- Forgets the records of earlier commands. -/
def fresh (s : System Desk) : System Desk :=
  { s with
    kernel.cpu.trace := #[]
    kernel.journal := #[]
    outside.nested := #[] }

end KernelCore.Session
