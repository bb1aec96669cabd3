import KernelCore.Log.Record

namespace KernelCore

structure TaskFlags where
  bits : UInt8
deriving DecidableEq, Repr

namespace TaskFlags

def none : TaskFlags := ⟨0⟩

/-- The task runs on the boot stack, which is no block of the heap. -/
def boot : TaskFlags := ⟨1⟩

/-- The task is picked only when no other task can run. -/
def idle : TaskFlags := ⟨2⟩

/-- Whether all bits of `other` are set. -/
def contains (flags other : TaskFlags) : Bool := flags.bits &&& other.bits == other.bits

def isEmpty (flags : TaskFlags) : Bool := flags.bits == 0

/-- The bits that have a meaning. -/
def known (flags : TaskFlags) : TaskFlags := ⟨flags.bits &&& 3⟩

/-- The bits that have none. -/
def unknown (flags : TaskFlags) : TaskFlags := ⟨flags.bits &&& 252⟩

/-- The set bits by name, and those without one as a single number. -/
def parts (flags : TaskFlags) : List String :=
  (if flags.contains boot then ["BOOT"] else []) ++ (if flags.contains idle then ["IDLE"] else []) ++
    (if flags.unknown.isEmpty then [] else [Log.hex flags.unknown.bits.toNat])

/-- How flags are written. -/
def text (flags : TaskFlags) : String :=
  let body := if flags.isEmpty then "0x0" else " | ".intercalate flags.parts
  "TaskFlags(" ++ body ++ ")"

end TaskFlags
end KernelCore
