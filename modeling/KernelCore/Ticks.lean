import KernelCore.Config
import KernelCore.Word.Basic

namespace KernelCore.Ticks

/-- Milliseconds from one tick to the next. -/
def lengthMs : Nat := 1000 / Config.timerHz

/-- The largest word, where a product or a sum has no word of its own. -/
def saturate (n : Nat) : Nat := min n (wordLimit - 1)

/-- How many ticks a time lasts, rounded up and at least one. -/
def ofMs (ms : Nat) : Nat := max 1 ((saturate (ms * Config.timerHz) + 999) / 1000)

end KernelCore.Ticks
