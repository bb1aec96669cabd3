namespace KernelCore.Config

/-- Timer interrupts in a second. -/
def timerHz : Nat := 100

/-- Slots of the task table. -/
def maxTasks : Nat := 16

/-- Bytes of a task's stack. -/
def taskStackSize : Nat := 16384

/-- Payload sizes are multiples of this many bytes. -/
def heapAlignment : Nat := 8

/-- The smallest payload that a block split off may carry. -/
def heapMinPayload : Nat := 16

/-- Marks an intact block header. -/
def heapMagic : Nat := 0xDEADBEEF

def pageSize : Nat := 4096

/-- How long a task that waits for another sleeps between two looks, in milliseconds. -/
def waitPollMs : Nat := 10

end KernelCore.Config
