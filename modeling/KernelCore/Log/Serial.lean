import KernelCore.Log.Record
import KernelCore.Device.Uart

namespace KernelCore.Log

/-- Sets the serial line up. -/
def configure : Machine Bus Unit := Bus.masked Uart.com1.configure

/-- Writes a record, if it is grave enough. -/
def write (record : Record) (ticks : Nat) : Machine Bus Unit := do
  if record.level.passes serialLimit then
    Bus.masked (Uart.com1.writeText (record.line ticks ++ "\n"))

/-- Writes a text when the machine is about to stop; interrupts stay masked. -/
def writeEmergency (text : String) : Machine Bus Unit := do
  Bus.mask
  Uart.com1.writeText text

/-- The lines that a log keeps of its records, where only records up to a level are made at all. -/
def lines (limit : Level) (records : List (Nat × Record)) : List String :=
  (records.filter fun (_, record) => record.level.passes limit && record.level.passes serialLimit).map
    fun (ticks, record) => record.line ticks

end KernelCore.Log
