import KernelCore.Log.Serial
import KernelCore.Device.Pic
import KernelCore.Device.Pit
import KernelCore.Task.Frame

namespace KernelCore.Session

inductive UartRequest where
  | configure
  | byte (value : UInt8)
  | text (text : String)
  | describe

/-- The answers of the hardware. -/
inductive DeviceReply where
  | done
  | flag (b : Bool)
  | text (t : String)
  /-- A stack pointer, and the words from there on. -/
  | prepared (sp : Nat) (words : List Nat)

def UartRequest.perform (uart : Uart) : UartRequest → Machine Bus DeviceReply
  | configure => do
    uart.configure
    return .done
  | byte value => do
    uart.writeByte value
    return .done
  | text t => do
    uart.writeText t
    return .flag true
  | describe => return .text uart.text

inductive LogRequest where
  | write (record : Log.Record) (ticks : Nat)
  | emergency (text : String)
  | flush
  | configure

def LogRequest.perform : LogRequest → Machine Bus Unit
  | write record ticks => Log.write record ticks
  | emergency text => Log.writeEmergency text
  | flush => pure ()
  | configure => Log.configure

inductive InterruptRequest where
  | enabled
  | enable
  | disable
  | wait
  /-- Requests with interrupts masked, inside as many layers of masking. -/
  | masked (depth : Nat) (inner : List InterruptRequest)
  | halt
  /-- The frame of a new task on a stack in a fresh memory. -/
  | prepare (m : Memory) (stack size : Nat) (start : Frame.Start)

/-- The context stopped for good. -/
structure Halted where

namespace InterruptRequest

/-- Masks interrupts and halts, again and again; the last halt is not left. -/
def haltFor : (halts : Nat) → Machine Bus Unit
  | 0 => pure ()
  | halts + 1 => do
    Bus.mask
    Bus.halt
    haltFor halts

/-- Runs something inside layers of masking. -/
def layered {α : Type} (body : ExceptT Halted (Machine Bus) α) :
    (depth : Nat) → ExceptT Halted (Machine Bus) α
  | 0 => body
  | depth + 1 => Bus.masked (layered body depth)

mutual

/-- Carries out a request on a processor that is watched for as many halts. -/
def perform (halts : Nat) : InterruptRequest → ExceptT Halted (Machine Bus) DeviceReply
  | enabled => do
    let bus ← (get : Machine Bus Bus)
    return .flag bus.enabled
  | enable => do
    Bus.unmask
    return .done
  | disable => do
    Bus.mask
    return .done
  | wait => do
    Bus.unmaskAndHalt
    Bus.mask
    return .done
  | masked depth inner => do
    layered (performAll halts inner) (max depth 1)
    return .done
  | halt => do
    haltFor (max halts 1)
    throw ⟨⟩
  | prepare m stack size start => do
    let (sp, m) ← Frame.lay m stack size start
    return .prepared sp (m.words sp Frame.wordCount)

/-- Carries out requests one after the other. -/
def performAll (halts : Nat) : List InterruptRequest → ExceptT Halted (Machine Bus) Unit
  | [] => pure ()
  | request :: rest => do
    let _ ← perform halts request
    performAll halts rest

end

end InterruptRequest
end KernelCore.Session
