import KernelCore.Device.Bus

namespace KernelCore.Pic

def command1 : Nat := 0x20
def data1 : Nat := 0x21
def command2 : Nat := 0xA0
def data2 : Nat := 0xA1

/-- The first vector of each controller. -/
def offset1 : Nat := 0x20
def offset2 : Nat := 0x28

/-- The line of the timer. -/
def timerLine : Nat := 0

/-- The vector of the timer. -/
def timerVector : Nat := offset1 + timerLine

def endOfInterrupt : UInt8 := 0x20

/-- Sets both controllers up: their vectors, the line that connects them, and their mode. All lines
but that of the timer are masked. -/
def configure : Machine Bus Unit :=
  Bus.writeAll [(command1, 0x11), (command2, 0x11), (data1, UInt8.ofNat offset1),
    (data2, UInt8.ofNat offset2), (data1, 4), (data2, 2), (data1, 1), (data2, 1), (data1, 0xFE),
    (data2, 0xFF)]

/-- Acknowledges an interrupt; one of the second controller came through the first. -/
def acknowledge (line : Nat) : Machine Bus Unit := do
  if 8 ≤ line then Bus.write command2 endOfInterrupt
  Bus.write command1 endOfInterrupt

end KernelCore.Pic
