import KernelCore.Device.Bus

namespace KernelCore

/-- A serial line by the address of its first register. -/
structure Uart where
  base : Nat
deriving DecidableEq, Repr

namespace Uart

/-- The first serial line of the machine. -/
def com1 : Uart := ⟨0x3F8⟩

/-- The registers by their distance from the first one. -/
def transmitRegister : Nat := 0
def interruptRegister : Nat := 1
def fifoRegister : Nat := 2
def lineRegister : Nat := 3
def modemRegister : Nat := 4
def statusRegister : Nat := 5

/-- The bit of the status that tells that a byte can be written. -/
def readyBit : UInt8 := 0x20

/-- Whether a status tells that a byte can be written. -/
def isReady (status : UInt8) : Bool := status &&& readyBit != 0

/-- One more than the largest address of a register. -/
def addressLimit : Nat := 65536

/-- The address of a register. -/
def address (uart : Uart) (register : Nat) : Except Fault Nat :=
  if uart.base + register < addressLimit then .ok (uart.base + register) else .error .addOverflow

def writeRegister (uart : Uart) (register : Nat) (value : UInt8) : Machine Bus Unit := do
  let addr ← uart.address register
  Bus.write addr value

/-- The settings of a line: no interrupts, 115200 baud, eight data bits, no parity, one stop bit, and
empty queues in use. The rate is set while the line register gives access to it. -/
def settings : List (Nat × UInt8) :=
  [(interruptRegister, 0), (lineRegister, 0x80), (transmitRegister, 1), (interruptRegister, 0),
    (lineRegister, 0x03), (fifoRegister, 0x07), (modemRegister, 0x03)]

/-- Sets the line up. -/
def configure (uart : Uart) : Machine Bus Unit :=
  settings.forM fun (register, value) => uart.writeRegister register value

/-- The statuses up to and including the first that is ready, and those that are left. A line whose
statuses are used up is ready. -/
def takeReady : List UInt8 → List UInt8 × List UInt8
  | [] => ([readyBit], [])
  | status :: rest =>
    if isReady status then ([status], rest)
    else
      let (seen, left) := takeReady rest
      (status :: seen, left)

/-- Reads the status at an address until the line is ready. -/
def poll (addr : Nat) : Machine Bus Unit :=
  modify fun b =>
    let (seen, left) := takeReady b.pending
    { b with pending := left, events := b.events ++ seen.map (Bus.Event.read addr) }

/-- Writes one byte as soon as the line is ready. -/
def writeByte (uart : Uart) (value : UInt8) : Machine Bus Unit := do
  let status ← uart.address statusRegister
  poll status
  uart.writeRegister transmitRegister value

def carriageReturn : UInt8 := 13
def lineFeed : UInt8 := 10

/-- Writes bytes, each line feed behind a carriage return. -/
def writeBytes (uart : Uart) (bytes : List UInt8) : Machine Bus Unit :=
  bytes.forM fun value => do
    if value = lineFeed then uart.writeByte carriageReturn
    uart.writeByte value

/-- Writes a text. -/
def writeText (uart : Uart) (text : String) : Machine Bus Unit :=
  uart.writeBytes text.toUTF8.toList

/-- How a line is written for debugging. -/
def text (uart : Uart) : String := "Uart16550 \x7b base: " ++ toString uart.base ++ " \x7d"

end Uart
end KernelCore
