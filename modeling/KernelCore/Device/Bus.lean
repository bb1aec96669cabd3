import KernelCore.Machine

namespace KernelCore

/-- What was done to the hardware. -/
inductive Bus.Event where
  | write (addr : Nat) (value : UInt8)
  | read (addr : Nat) (value : UInt8)
  | mask
  | unmask
  | halt
  /-- Interrupts are unmasked and the processor halted in one step. -/
  | unmaskAndHalt
deriving DecidableEq, Repr

structure Bus where
  /-- Whether interrupts are unmasked. -/
  enabled : Bool
  /-- The values that the next reads give. -/
  pending : List UInt8
  /-- What was done, the oldest first. -/
  events : Array Bus.Event

namespace Bus

def initial (enabled : Bool) (pending : List UInt8) : Bus := ⟨enabled, pending, #[]⟩

/-- Notes an event. -/
def note (event : Event) : Machine Bus Unit :=
  modify fun b => { b with events := b.events.push event }

/-- Writes a value to the register at an address. -/
def write (addr : Nat) (value : UInt8) : Machine Bus Unit := note (.write addr value)

/-- Writes values to registers, one after the other. -/
def writeAll (writes : List (Nat × UInt8)) : Machine Bus Unit :=
  writes.forM fun (addr, value) => write addr value

def setEnabled (enabled : Bool) : Machine Bus Unit := modify fun b => { b with enabled }

def mask : Machine Bus Unit := do
  note .mask
  setEnabled false

def unmask : Machine Bus Unit := do
  note .unmask
  setEnabled true

def halt : Machine Bus Unit := note .halt

def unmaskAndHalt : Machine Bus Unit := do
  note .unmaskAndHalt
  setEnabled true

/-- Runs something with interrupts masked, and unmasks them afterwards if they were unmasked before. -/
def masked {m : Type → Type} [Monad m] [MonadLiftT (Machine Bus) m] {α : Type} (body : m α) : m α := do
  let bus ← (get : Machine Bus Bus)
  if bus.enabled then mask
  let result ← body
  if bus.enabled then unmask
  pure result

/-- The bytes written to the register at an address, in order. -/
def written (addr : Nat) (events : List Event) : List UInt8 :=
  events.filterMap fun
    | .write a value => if a = addr then some value else none
    | _ => none

end Bus
end KernelCore
