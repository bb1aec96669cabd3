import KernelCore.Heap.Report
import KernelCore.Task.Table

namespace KernelCore.Kernel

inductive Notice where
  | heap (notice : Heap.Notice)
  /-- The task table was set up. -/
  | booted (boot idle : Nat)
  | stackRefused (cause : HeapError)
  | stackNotReleased (stack : Nat) (cause : HeapError)
  | tableFull
  | created (pid stack sp : Nat)
  | exitStackNotReleased (pid : Option Nat) (cause : HeapError)
  | exited (pid : Option Nat)
  /-- A task asked to wait for itself. -/
  | selfWait (pid : Nat)
  | task (task : Task)
  /-- A tick made sleeping tasks ready. -/
  | woke (tick count : Nat)
deriving DecidableEq, Repr

namespace Notice
open Log (hex)

/-- How a pid is written that may be missing. -/
def pidText : Option Nat → String
  | none => "None"
  | some pid => "Some(" ++ toString pid ++ ")"

/-- A number in at least three columns, flush right. -/
def column (n : Nat) : String :=
  let digits := toString n
  String.ofList (List.replicate (3 - digits.length) ' ') ++ digits

/-- The log record of a notice. -/
def record : Notice → Log.Record
  | heap notice => notice.record
  | booted boot idle =>
    ⟨.info, "cinder::kernel", "sched: boot task " ++ toString boot ++ " idle task " ++ toString idle⟩
  | stackRefused cause =>
    ⟨.warn, "cinder::kernel", "sched: task stack allocation failed: " ++ cause.message⟩
  | stackNotReleased stack cause =>
    ⟨.error, "cinder::kernel", "sched: failed to release stack " ++ hex stack ++ ": " ++ cause.message⟩
  | tableFull => ⟨.warn, "cinder::kernel", "sched: task table full"⟩
  | created pid stack sp =>
    ⟨.debug, "cinder::kernel",
      "sched: created task " ++ toString pid ++ " stack " ++ hex stack ++ " sp " ++ hex sp⟩
  | exitStackNotReleased pid cause =>
    ⟨.error, "cinder::kernel",
      "sched: failed to release stack of task " ++ pidText pid ++ ": " ++ cause.message⟩
  | exited pid => ⟨.debug, "cinder::kernel", "sched: task " ++ pidText pid ++ " exited"⟩
  | selfWait pid =>
    ⟨.warn, "cinder::kernel", "sched: task " ++ toString pid ++ " cannot wait for itself"⟩
  | task t =>
    ⟨.debug, "cinder::kernel",
      "task " ++ column t.pid ++ " " ++ t.state.name ++ " " ++ t.flags.text ++ " scheduled " ++
        toString t.scheduled⟩
  | woke tick count =>
    ⟨.trace, "cinder::timer",
      "timer: tick " ++ toString tick ++ " woke " ++ toString count ++ " task(s)"⟩

end Notice
end KernelCore.Kernel
