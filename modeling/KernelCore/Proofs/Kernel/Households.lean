import KernelCore.Proofs.Kernel.Deeds
import KernelCore.Proofs.Kernel.Upkeep
import KernelCore.Proofs.Task.Stacks

namespace KernelCore
open Machine Kernel

/-- What clients hold, what was seen of the kernel and of that so far, and what else there is outside. -/
structure Ledger (ω : Type) where
  holdings : List Holding
  sightings : List (Kernel × List Holding)
  world : ω

namespace System
variable {ω : Type}

/-- Looks at the kernel and at what clients hold. -/
def look : Machine (System (Ledger ω)) PUnit :=
  modify fun s => { s with outside.sightings := (s.kernel, s.outside.holdings) :: s.outside.sightings }

/-- A call of a client, with an address that clients hold, or with none. Any other call is not made. -/
def transact (call : Call) : Machine (System (Ledger ω)) (Option (Except HeapError (Option Nat))) := do
  if call.Legal (← get).outside.holdings then
    let result ← onHeap call.perform
    modify fun s => { s with outside.holdings := call.settle s.outside.holdings result }
    pure (some result)
  else
    pure none

/-- Writes onto the stack of a task, or into what clients hold. Any other write is not made. -/
def store (addr : Nat) (bytes : List UInt8) : Machine (System (Ledger ω)) Unit := do
  let s ← get
  if ∃ h ∈ s.kernel.table.ownedStacks ++ s.outside.holdings, h.addr ≤ addr ∧ addr + bytes.length ≤ h.addr + h.size then
    onKernel (onArena (Arena.onMemory fun m => m.writeBytes addr bytes))

/-- Sets up the heap in a range of the memory that there is. -/
def found (start size : Nat) : Machine (System (Ledger ω)) (Option (Except HeapError Unit)) := do
  if (← get).kernel.arena.memory.Covers start size then
    pure (some (← onHeap (Arena.establish start size)))
  else
    pure none

end System

/-- Nothing has changed, but for what was noted for the log, and no loss was noted. -/
structure Kernel.Stays (k k' : Kernel) : Prop where
  heap : k'.arena.heap = k.arena.heap
  memory : k'.arena.memory = k.arena.memory
  table : k'.table = k.table
  ticks : k'.ticks = k.ticks
  parked : k'.parked = k.parked
  cpu : k'.cpu = k.cpu
  journal : ∀ entry ∈ k'.journal, entry ∈ k.journal ∨ ¬entry.2.IsLoss

/-- Work that only looks. -/
def Kernel.Inspects {α : Type} (action : Machine Kernel α) : Prop :=
  ∀ k : Kernel, action.Meets k (fun _ => k.Stays) fun _ => True

/-- Work that only looks, also where a fault stops it. -/
def Kernel.Looks {α : Type} (action : Machine Kernel α) : Prop :=
  ∀ k : Kernel, action.Meets k (fun _ => k.Stays) k.Stays

/-- Programs whose clients give back only what they hold, and write only into it; tasks may also write onto
their stacks. While the processor is parked no task runs, so nothing gives it away, but all else may happen. -/
inductive Household {ω : Type} : (parked : Bool) → {α : Type} → Machine (System (Ledger ω)) α → Prop where
  | pure {parked : Bool} {α : Type} (a : α) : Household parked (pure a)
  | throw {parked : Bool} {α : Type} (fault : Fault) :
    Household parked (throw fault : Machine (System (Ledger ω)) α)
  | bind {parked : Bool} {α β : Type} {action : Machine (System (Ledger ω)) α}
    {next : α → Machine (System (Ledger ω)) β} (first : Household parked action)
    (rest : ∀ a, Household parked (next a)) : Household parked (action >>= next)
  | get {parked : Bool} : Household parked (get : Machine (System (Ledger ω)) (System (Ledger ω)))
  | world {parked : Bool} (change : ω → ω) : Household parked
    (modify fun s => { s with outside.world := change s.outside.world } : Machine (System (Ledger ω)) PUnit)
  | look {parked : Bool} : Household parked System.look
  | mask {parked : Bool} : Household parked (System.onKernel (onProcessor Processor.mask))
  | unmask {parked : Bool} : Household parked (System.onKernel (onProcessor Processor.unmask))
  | found {parked : Bool} (start size : Nat) : Household parked (System.found start size)
  | transact {parked : Bool} (call : Call) : Household parked (System.transact call)
  | store {parked : Bool} (addr : Nat) (bytes : List UInt8) : Household parked (System.store addr bytes)
  | inspect {parked : Bool} {α : Type} {action : Machine Kernel α} (inspects : Inspects action) :
    Household parked (System.onKernel action)
  | create {parked : Bool} (entry arg : Nat) : Household parked (System.create entry arg)
  | boot : Household false System.boot
  | adopt : Household false (System.onKernel (tryTable Table.adoptBoot))
  | tick (env : Surroundings (Ledger ω)) : Household true (System.tick env)
  | turn (env : Surroundings (Ledger ω)) (turn : Turn) (parked : Household true env.whileParked)
    (away : Household false env.whileAway) : Household false (turn.perform env)

namespace Kernel
variable {k k' l : Kernel} {α β : Type}

theorem Stays.refl (k : Kernel) : k.Stays k := ⟨rfl, rfl, rfl, rfl, rfl, rfl, fun _ => Or.inl⟩

theorem Stays.trans (first : k.Stays l) (second : l.Stays k') : k.Stays k' where
  heap := second.heap.trans first.heap
  memory := second.memory.trans first.memory
  table := second.table.trans first.table
  ticks := second.ticks.trans first.ticks
  parked := second.parked.trans first.parked
  cpu := second.cpu.trans first.cpu
  journal entry member := (second.journal entry member).elim (first.journal entry) Or.inr

theorem Looks.inspects {action : Machine Kernel α} (looks : Looks action) : Inspects action :=
  fun k => (looks k).mono (fun _ _ => id) fun _ _ => trivial

theorem Looks.bind {action : Machine Kernel α} {next : α → Machine Kernel β} (first : Looks action)
    (rest : ∀ a, Looks (next a)) : Looks (action >>= next) :=
  fun k => (first k).bind fun a l stays => (rest a l).mono (fun _ _ => stays.trans) fun _ => stays.trans

theorem looks_report {notice : Notice} (kept : ¬notice.IsLoss) : Looks (report notice) := by
  intro k
  refine ⟨rfl, rfl, rfl, rfl, rfl, rfl, ?_⟩
  intro entry member
  rcases Array.mem_push.mp member with old | rfl
  · exact Or.inl old
  · exact Or.inr kept

theorem looks_currentPid : Looks currentPid := by
  intro k
  unfold currentPid
  rw [meets_bind, meets_get]
  cases k.table.currentPid with
  | error fault => exact .refl k
  | ok pid => exact .refl k

theorem looks_describeTasks : Looks describeTasks := by
  have each : ∀ tasks : List Task, Looks (tasks.forM fun task => report (.task task)) := by
    intro tasks
    induction tasks with
    | nil => exact Stays.refl
    | cons task rest ih => exact (looks_report id).bind fun _ => ih
  intro k
  unfold describeTasks
  rw [meets_bind, meets_get]
  exact each _ k

/-- What the heap has to say goes to the log. -/
theorem looks_onArena {action : Machine Arena α}
    (looks : ∀ a : Arena, action.Meets a (fun _ b => b.heap = a.heap ∧ b.memory = a.memory)
      fun b => b.heap = a.heap ∧ b.memory = a.memory) : Looks (onArena action) := by
  intro k
  have stays : ∀ b : Arena, b.heap = k.arena.heap ∧ b.memory = k.arena.memory → k.Stays (k.withArena b) :=
    fun b same => ⟨same.1, same.2, rfl, rfl, rfl, rfl, fun _ => mem_journal_withArena⟩
  exact meets_onArena.mpr ((looks k.arena).mono (fun _ => stays) stays)

theorem looks_check : Looks (tryHeap Arena.check) := by
  refine looks_onArena ?_
  intro a
  unfold Arena.check
  rw [meets_run_bind, meets_run_get]
  dsimp only
  rw [meets_run_bind, meets_run_lift_outcome]
  cases a.verdict with
  | error fault => exact ⟨rfl, rfl⟩
  | ok verdict =>
    rcases verdict with cause | none | defect
    · exact ⟨rfl, rfl⟩
    · exact ⟨rfl, rfl⟩
    · exact ⟨rfl, rfl⟩

end Kernel

namespace Household
variable {ω α : Type} {parked : Bool}

/-- What looks at the system may also do so with interrupts masked. -/
theorem masked {body : Machine (System (Ledger ω)) α} (household : Household parked body) :
    Household parked (System.masked body) :=
  System.masked_induction .pure .bind .get .mask .unmask household

theorem currentPid : Household parked (System.currentPid : Machine (System (Ledger ω)) _) :=
  (Household.inspect looks_currentPid.inspects).masked

theorem taskState (pid : Nat) : Household parked (System.taskState pid : Machine (System (Ledger ω)) _) :=
  (Household.get.bind fun _ => .pure _).masked

theorem describeTasks : Household parked (System.describeTasks : Machine (System (Ledger ω)) _) :=
  (Household.inspect looks_describeTasks.inspects).masked

theorem check : Household parked (System.onHeap Arena.check : Machine (System (Ledger ω)) _) :=
  (Household.inspect looks_check.inspects).masked

end Household
end KernelCore
