import KernelCore.Session.Reply
import KernelCore.Task.Scheduling

namespace KernelCore.Session

inductive TableRequest where
  | adopt
  | add (sp : Nat) (flags : TaskFlags) (stack : Option Nat)
  | pick
  | dispatch (slot : Nat) (saved : Option Nat)
  /-- Picks a task and dispatches it. -/
  | run (saved : Option Nat)
  | block (deadline : Nat)
  | terminate
  | wake (now : Nat)
  | task (pid : Nat)
  | stateOf (pid : Nat)
  | current
  | tasks
  | occupancy
deriving DecidableEq, Repr

namespace TableRequest

/-- Dispatches the task in a slot; the stack pointer of the outgoing task is saved if one is given. -/
def handOver (slot : Nat) (saved : Option Nat) : Machine Table (Option Nat) := do
  match ← Table.dispatch slot with
  | none => pure none
  | some handover =>
    match saved with
    | none => pure ()
    | some sp => Table.saveStackPointer handover.outgoing sp
    pure (some handover.next)

def perform : TableRequest → Machine Table Reply
  | adopt => return Reply.ofTable .number (← Table.adoptBoot.run)
  | add sp flags stack => return Reply.ofTable .number (← (Table.add stack sp flags).run)
  | pick => do
    let t ← get
    return .number? (← t.pick)
  | dispatch slot saved => return .number? (← handOver slot saved)
  | run saved => do
    let t ← get
    match ← t.pick with
    | none => return .number? none
    | some slot => return .dispatched slot (← handOver slot saved)
  | block deadline => return .flag (← Table.blockCurrent deadline)
  | terminate => return .number? (← Table.terminateCurrent)
  | wake now => return .number (← Table.wakeDue now)
  | task pid => return .task? ((← get).task? pid)
  | stateOf pid => return .state? ((← get).stateOf? pid)
  | current => do
    let t ← get
    return .task? (← t.currentTask)
  | tasks => return .tasks (← get).tasks.toList
  | occupancy => do
    let t ← get
    return .occupancy t.isInitialized t.tasks.isEmpty t.isFull t.tasks.size

end TableRequest
end KernelCore.Session
