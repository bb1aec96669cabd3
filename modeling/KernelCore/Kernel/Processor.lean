import KernelCore.Task.Scheduling

namespace KernelCore

/-- What the processor carries out for the kernel. -/
inductive Instruction where
  /-- Interrupts are masked. -/
  | mask
  /-- Interrupts are unmasked. -/
  | unmask
  /-- The frame of a new task, which starts with `entry` and `arg`, is laid out at `sp`. -/
  | prepare (sp entry arg : Nat)
  /-- The outgoing task's stack pointer is saved, as `saved`, and the next one takes its place. -/
  | switch (enabled : Bool) (handover : Handover) (saved : Nat)
  /-- The processor is parked until an interrupt arrives. -/
  | wait
  /-- The context that was switched away from, or parked, goes on. -/
  | resume
  /-- The running context stops for good. -/
  | halt
  /-- The task table has been worked on, and is now `table`. -/
  | table (table : Table)
  /-- The running task has been put to sleep for `ms` milliseconds. -/
  | sleep (ms : Nat)
  /-- A timer interrupt arrives. -/
  | tick
  /-- The timer interrupt has been served. -/
  | served
deriving DecidableEq, Repr

/-- The mark of an instruction in a trace. What only tells how things go on leaves none. -/
def Instruction.mark : Instruction → Option Char
  | mask => some 'd'
  | unmask => some 'e'
  | prepare .. => some 'p'
  | switch false _ _ => some 's'
  | switch true _ _ => some 'S'
  | wait => some 'w'
  | resume => none
  | halt => some 'h'
  | table _ => none
  | sleep _ => none
  | tick => none
  | served => none

/-- Where the code lies that the kernel starts tasks with. -/
structure Landmarks where
  /-- The body of the idle task. -/
  idleEntry : Nat
  /-- Where a task goes when its entry returns. -/
  onReturn : Nat
  /-- Where a new task starts. -/
  trampoline : Nat
deriving DecidableEq, Repr

structure Processor where
  /-- Whether interrupts are unmasked. -/
  enabled : Bool
  /-- What was carried out, the oldest first. -/
  trace : Array Instruction
  switches : Nat
  waits : Nat
  halts : Nat
  /-- The stack pointer that was switched to last. -/
  lastSwitch : Option Nat
  /-- The processor may be parked fewer times than this. -/
  waitLimit : Nat
  landmarks : Landmarks

namespace Processor

/-- A processor that has done nothing yet and has interrupts masked. -/
def initial (waitLimit : Nat) (landmarks : Landmarks) : Processor :=
  ⟨false, #[], 0, 0, 0, none, waitLimit, landmarks⟩

/-- Notes an instruction. -/
def note (cpu : Processor) (instruction : Instruction) : Processor :=
  { cpu with trace := cpu.trace.push instruction }

def mask (cpu : Processor) : Processor := { cpu.note .mask with enabled := false }

def unmask (cpu : Processor) : Processor := { cpu.note .unmask with enabled := true }

/-- Goes from one task to another. The outgoing one's stack pointer is `saved`. -/
def switch (cpu : Processor) (handover : Handover) (saved : Nat) : Processor :=
  { cpu.note (.switch cpu.enabled handover saved) with
    switches := cpu.switches + 1
    lastSwitch := some handover.next }

/-- Parks the processor. -/
def wait (cpu : Processor) : Processor := { cpu.note .wait with waits := cpu.waits + 1 }

/-- Stops the running context. -/
def halt (cpu : Processor) : Processor := { cpu.note .halt with halts := cpu.halts + 1 }

end Processor
end KernelCore
