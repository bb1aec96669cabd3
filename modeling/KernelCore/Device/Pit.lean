import KernelCore.Device.Bus

namespace KernelCore.Pit

/-- Beats of the input clock in a second. -/
def frequency : Nat := 1193182

/-- The divisor that gives about `hz` interrupts in a second, as far as it fits into its register. -/
def divisor (hz : Nat) : Except Fault Nat :=
  if hz = 0 then .error .divideByZero else .ok (max 1 (min (frequency / hz) 65535))

def channelAddress : Nat := 0x40
def commandAddress : Nat := 0x43

/-- The channel is loaded with the low byte and then the high byte, and gives a square wave. -/
def squareWave : UInt8 := 0x36

/-- Has the timer raise about `hz` interrupts in a second. -/
def configure (hz : Nat) : Machine Bus Unit := do
  let d ← divisor hz
  Bus.writeAll [(commandAddress, squareWave), (channelAddress, UInt8.ofNat d),
    (channelAddress, UInt8.ofNat (d / 256))]

end KernelCore.Pit
