import KernelCore.Proofs.Kernel.Households
import KernelCore.Proofs.Kernel.Housing

namespace KernelCore
open Machine Kernel

/-- Everything that was seen was in order. -/
def Ledger.Seen {ω : Type} (ledger : Ledger ω) : Prop := ∀ sight ∈ ledger.sightings, sight.1.Owns sight.2

/-- The kernel owns what it should, and whenever it was looked at it did so too. -/
structure Kept {ω : Type} (s : System (Ledger ω)) : Prop where
  owns : s.kernel.Owns s.outside.holdings
  seen : s.outside.Seen

namespace Kept
variable {ω α : Type} {s : System (Ledger ω)}

theorem onKernel {action : Machine Kernel α} (kept : Kept s)
    (owns : action.Meets s.kernel (fun _ k => k.Owns s.outside.holdings) fun _ => True) :
    (System.onKernel action).Meets s (fun _ => Kept) fun t => t.outside.Seen :=
  System.meets_onKernel.mpr (owns.mono (fun _ _ owns => ⟨owns, kept.seen⟩) fun _ _ => kept.seen)

end Kept

/-- The stacks of the tasks and what clients hold are all that is allocated. -/
def stewardship (ω : Type) : Upkeep (Ledger ω) where
  keeps := Kept
  rings := Kept
  stopped s := s.outside.Seen
  excuse _ kept := kept.seen
  passes _ _ kept passes := ⟨kept.owns.passes passes, kept.seen⟩
  dispatches s i kept orderly eligible := (Table.meets_dispatch_view Task.lasting_title.toSteady orderly eligible).mono
    (fun _ _ ⟨same, _⟩ => ⟨kept.owns.withTable (Table.lodges_of_view same), kept.seen⟩) fun _ => id
  saves s i sp kept := (Table.meets_saveStackPointer_view Task.lasting_title i sp).mono
    (fun _ _ ⟨same, _⟩ => ⟨kept.owns.withTable (Table.lodges_of_view same), kept.seen⟩) fun _ _ => kept.seen
  sleeps s ms _ kept _ busy := (Table.meets_blockCurrent_lodges busy _).mono
    (fun done _ lodges => by
      have owns := kept.owns.withTable lodges
      cases done with
      | false => exact ⟨owns, kept.seen⟩
      | true => exact ⟨owns.congr rfl rfl rfl fun _ => Or.inl, kept.seen⟩) fun _ => id
  retires s kept _ busy := kept.onKernel (meets_retire_owns kept.owns busy)
  ticks s kept := by
    split
    · exact ⟨kept.owns.congr rfl rfl rfl fun _ => Or.inl, kept.seen⟩
    · exact kept.seen
  masks s kept := ⟨kept.owns.passes (.mask _), kept.seen⟩
  wakes s kept := (Table.meets_wakeDue_lodges _).mono
    (fun _ _ lodges => ⟨kept.owns.withTable lodges, kept.seen⟩) fun _ => id
  nobody _ kept _ := kept

namespace stewardship
open Upkeep
variable {ω α : Type} {ongoing : List Activity} {parked : Bool} {busy : Prop} {s : System (Ledger ω)}

/-- Between two operations. -/
abbrev Orders (ongoing : List Activity) (parked : Bool) (busy : Prop) (s : System (Ledger ω)) : Prop :=
  (stewardship ω).Holds ongoing parked busy s

/-- After work on the heap clients hold what it gave. -/
theorem meets_onHeap {action : HeapAction α} {given : Except HeapError α → List Holding}
    (orders : Orders ongoing parked busy s) (backs : action.run.Meets s.kernel.arena
      (fun result b => b.Backs (s.kernel.table.ownedStacks ++ given result)) fun _ => True) :
    (System.onHeap action).Meets s (fun result t => Stands ongoing parked busy t.kernel ∧
      t.kernel.Owns (given result) ∧ t.outside = s.outside) fun t => t.outside.Seen := by
  obtain ⟨stands, kept⟩ := orders
  have works : ∀ k : Kernel, Stands ongoing parked busy k → s.kernel.Passes k →
      (System.onKernel (tryHeap action)).Meets { s with kernel := k } (fun result t =>
        Stands ongoing parked busy t.kernel ∧ t.kernel.Owns (given result) ∧ t.outside = s.outside)
        fun t => t.outside.Seen := by
    intro k stands passes
    have owns : k.Owns s.outside.holdings := kept.owns.passes passes
    rw [← passes.arena, ← passes.table] at backs
    have gives : (tryHeap action).Meets k (fun result k' => k'.Owns (given result)) fun _ => True :=
      meets_onArena.mpr (backs.mono (fun _ _ backs => owns.withArena backs) fun _ => id)
    refine System.meets_onKernel.mpr (((meets_onArena_of_stands stands _).both gives).mono ?_ fun _ _ => kept.seen)
    intro result k' both
    exact ⟨both.1, both.2, rfl⟩
  refine System.meets_masked ?_ (works s.kernel stands ⟨.refl _, rfl, fun _ => Or.inl⟩)
    (works _ stands.mask (.mask _))
  intro result t after
  exact ⟨after.1.unmask, after.2.1.passes (.unmask _), after.2.2⟩

theorem carries_look : (stewardship ω).Carries System.look (Orders ongoing parked busy) (Orders ongoing parked busy) := by
  intro s orders
  refine ⟨orders.stands, orders.keeps.owns, ?_⟩
  intro sight member
  rcases List.mem_cons.mp member with rfl | before
  · exact orders.keeps.owns
  · exact orders.keeps.seen sight before

theorem carries_transact (call : Call) : (stewardship ω).Carries (System.transact call)
    (Orders ongoing parked busy) (Orders ongoing parked busy) := by
  intro s orders
  unfold System.transact
  rw [meets_bind, meets_get]
  by_cases legal : call.Legal s.outside.holdings
  · rw [if_pos legal]
    have backs := orders.keeps.owns.backs
    have performs := (backs.performs (Call.legal_append legal)).mono
      (fun result _ after => backs.settle_append legal result ▸ after) fun _ => id
    refine (meets_onHeap orders performs).bind ?_
    rintro result ⟨k, outside⟩ ⟨stands, owns, rfl⟩
    exact ⟨stands, owns, orders.keeps.seen⟩
  · rw [if_neg legal]
    exact orders

theorem carries_found (start size : Nat) : (stewardship ω).Carries (System.found start size)
    (Orders ongoing parked busy) (Orders ongoing parked busy) := by
  intro s orders
  unfold System.found
  rw [meets_bind, meets_get]
  by_cases window : s.kernel.arena.memory.Covers start size
  · rw [if_pos window]
    refine (meets_onHeap orders (orders.keeps.owns.backs.establish window)).bind ?_
    rintro result ⟨k, outside⟩ ⟨stands, owns, rfl⟩
    exact ⟨stands, owns, orders.keeps.seen⟩
  · rw [if_neg window]
    exact orders

theorem carries_inspect {action : Machine Kernel α} (inspects : Inspects action) :
    (stewardship ω).Carries (System.onKernel action) (Orders ongoing parked busy) (Orders ongoing parked busy) := by
  intro s orders
  refine System.meets_onKernel.mpr ((inspects s.kernel).mono ?_ fun _ _ => orders.keeps.seen)
  intro _ k stays
  have story : k.story = s.kernel.story := by rw [Kernel.story, stays.cpu, Kernel.story]
  have owns := orders.keeps.owns.congr stays.heap stays.memory stays.table stays.journal
  exact ⟨orders.stands.congr story stays.table stays.parked, owns, orders.keeps.seen⟩

theorem carries_store (addr : Nat) (bytes : List UInt8) : (stewardship ω).Carries (System.store addr bytes)
    (Orders ongoing parked busy) (Orders ongoing parked busy) := by
  intro s orders
  unfold System.store
  rw [meets_bind, meets_get]
  by_cases inside : ∃ h ∈ s.kernel.table.ownedStacks ++ s.outside.holdings,
    h.addr ≤ addr ∧ addr + bytes.length ≤ h.addr + h.size
  · rw [if_pos inside]
    obtain ⟨h, member, lower, upper⟩ := inside
    have stored := orders.keeps.owns.backs.stored (m := s.kernel.arena.memory.writeBytes addr bytes) member
      (fun _ _ => Memory.covers_writeBytes ..) fun a outside => Memory.byte_writeBytes_of_outside _ bytes (by omega)
    rw [System.meets_onKernel, meets_onArena, Arena.onMemory, meets_modify]
    exact ⟨orders.stands.congr rfl rfl rfl, orders.keeps.owns.withArena stored, orders.keeps.seen⟩
  · rw [if_neg inside]
    exact orders

/-- Of what works on the kernel alone it is known what it means for the tasks. -/
theorem carries_of_owns {action : Machine Kernel α}
    (stands : (System.onKernel action : Machine (System (Ledger ω)) α).Carries (Stands ongoing parked busy)
      (Stands ongoing parked busy))
    (owns : ∀ (k : Kernel) holdings, k.Owns holdings → action.Meets k (fun _ k' => k'.Owns holdings) fun _ => True) :
    (stewardship ω).Carries (System.onKernel action) (Orders ongoing parked busy) (Orders ongoing parked busy) :=
  carries_of_stands stands fun s orders => orders.keeps.onKernel (owns s.kernel _ orders.keeps.owns)

theorem carries_create (entry arg : Nat) : (stewardship ω).Carries (System.create entry arg)
    (Orders ongoing parked busy) (Orders ongoing parked busy) :=
  carries_masked Holds.mask Holds.unmask <|
    carries_of_owns (carries_onKernel fun _ stands => Kernel.meets_create stands entry arg) fun _ _ owns =>
      meets_create_owns owns entry arg

theorem carries_boot : (stewardship ω).Carries System.boot (Orders ongoing parked True) (Orders ongoing parked True) :=
  carries_masked Holds.mask Holds.unmask <|
    carries_of_owns (carries_onKernel fun _ stands => Kernel.meets_boot stands) fun _ _ => meets_boot_owns

theorem carries_adopt : (stewardship ω).Carries (System.onKernel (tryTable Table.adoptBoot))
    (Orders ongoing false True) (Orders ongoing false True) :=
  carries_of_owns (Program.adopt.carries ongoing) fun _ _ => meets_adoptBoot_owns

end stewardship

/-- Whoever keeps house keeps it. -/
theorem Household.carries {ω α : Type} {parked : Bool} {program : Machine (System (Ledger ω)) α}
    (household : Household parked program) (ongoing : List Activity) :
    (stewardship ω).Carries program ((stewardship ω).Holds ongoing parked (parked = false))
      ((stewardship ω).Holds ongoing parked (parked = false)) := by
  induction household generalizing ongoing with
  | pure a => exact fun s orders => orders
  | throw fault => exact fun s orders => orders.excuse
  | bind _ _ first rest => exact (first ongoing).bind fun a => rest a ongoing
  | get => exact fun s orders => orders
  | world change => exact fun s orders => ⟨orders.stands, orders.keeps.owns, orders.keeps.seen⟩
  | look => exact stewardship.carries_look
  | mask => exact fun s orders => orders.mask
  | unmask => exact fun s orders => orders.unmask
  | found start size => exact stewardship.carries_found start size
  | transact call => exact stewardship.carries_transact call
  | store addr bytes => exact stewardship.carries_store addr bytes
  | inspect inspects => exact stewardship.carries_inspect inspects
  | create entry arg => exact stewardship.carries_create entry arg
  | boot => exact stewardship.carries_boot.congr (by simp)
  | adopt => exact stewardship.carries_adopt.congr (by simp)
  | tick env => exact fun s orders => Upkeep.carries_tick (by simp) s orders
  | turn env turn parked away whileParked whileAway =>
    have faithful : (stewardship _).Faithful env :=
      ⟨fun ongoing => (whileParked _).congr (by simp), fun ongoing => (whileAway _).congr (by simp)⟩
    exact (Upkeep.carries_turn faithful turn).congr (by simp)

theorem owns_initial (m : Memory) (cpu : Processor) : (Kernel.initial m cpu).Owns [] where
  backs := .bare rfl
  housed i task here := by simp [Kernel.initial, Table.empty] at here
  clean entry member := by simp [Kernel.initial] at member

/-- The allocated blocks of the heap are the stacks of the tasks and what clients hold, one block for each. Each
task but the boot task has a stack until it exits. No stack was refused when it was given back. -/
structure Kernel.Accounts (k : Kernel) (holdings : List Holding) : Prop where
  housed : ∀ (i : Nat) (task : Task), k.table.tasks[i]? = some task →
    (task.stack.isSome = true ↔ task.flags.contains TaskFlags.boot = false ∧ task.state ≠ .terminated) ∧
      (task.flags.contains TaskFlags.boot = true → i = 0)
  lodged : ∀ task ∈ k.table.tasks, ∀ stack, task.stack = some stack → ∃ r, k.arena.heap.region = some r ∧
    ∃ b ∈ k.arena.allocated, r.payload b.off = stack ∧ Config.taskStackSize ≤ b.header.size
  pairing : ∃ pairs : List (Holding × Block), (pairs.map Prod.fst).Perm (k.table.ownedStacks ++ holdings) ∧
    (pairs.map Prod.snd).Perm k.arena.allocated ∧
      ∀ pair ∈ pairs, ∃ r, k.arena.heap.region = some r ∧ pair.2.Backs r pair.1
  isolates : ∀ r, k.arena.heap.region = some r → k.arena.Isolates r
  disjoint : (k.table.ownedStacks ++ holdings).Pairwise Holding.Apart
  clean : ∀ entry ∈ k.journal, ¬entry.2.IsLoss

theorem Kernel.Owns.lodged {k : Kernel} {holdings : List Holding} {task : Task} {stack : Nat} (owns : k.Owns holdings)
    (member : task ∈ k.table.tasks) (has : task.stack = some stack) : ∃ r, k.arena.heap.region = some r ∧
      ∃ b ∈ k.arena.allocated, r.payload b.off = stack ∧ Config.taskStackSize ≤ b.header.size := by
  have owned : Holding.ofStack stack ∈ k.table.ownedStacks :=
    List.mem_filterMap.mpr ⟨task, Array.mem_toList_iff.mpr member, by rw [Task.lodging, has, Option.map_some]⟩
  obtain ⟨pairs, deeds, blocks, backed⟩ := owns.backs.pairing
  obtain ⟨⟨_, b⟩, inPairs, rfl⟩ := List.mem_map.mp (deeds.mem_iff.mpr (List.mem_append_left holdings owned))
  obtain ⟨r, region, lower, upper, plain⟩ := backed _ inPairs
  have start : stack = r.payload b.off := plain rfl
  refine ⟨r, region, b, blocks.mem_iff.mp (List.mem_map_of_mem inPairs), start.symm, ?_⟩
  exact Nat.le_of_add_le_add_left (start ▸ upper)

theorem Kernel.Owns.accounts {k : Kernel} {holdings : List Holding} (owns : k.Owns holdings) : k.Accounts holdings where
  housed := owns.housed
  lodged _ member _ has := owns.lodged member has
  pairing := owns.backs.pairing
  isolates _ region := owns.backs.isolates region
  disjoint := owns.backs.disjoint
  clean := owns.clean

/-- Along every run from the start all is in order, whenever the kernel is looked at and in the end. -/
theorem Household.kept {ω α : Type} {program : Machine (System (Ledger ω)) α} (household : Household false program)
    {m : Memory} {cpu : Processor} (unused : cpu.trace = #[]) {world : ω} {outcome : Except Fault α}
    {s : System (Ledger ω)} (ran : program.runFrom ⟨Kernel.initial m cpu, ⟨[], [], world⟩⟩ = (outcome, s)) :
    s.outside.Seen ∧ ∀ a, outcome = .ok a → Kept s := by
  have kept : Kept (⟨Kernel.initial m cpu, ⟨[], [], world⟩⟩ : System (Ledger ω)) :=
    ⟨owns_initial m cpu, fun sight member => absurd member List.not_mem_nil⟩
  have stands := (stands_initial m unused).weaken fun _ : false = false => trivial
  have carries := household.carries [] _ ⟨stands, kept⟩
  cases outcome with
  | error fault => exact ⟨carries.fault ran, by simp⟩
  | ok a => exact ⟨(carries.result ran).excuse, fun _ _ => (carries.result ran).keeps⟩

/-- Along every run of a program whose clients give back only what they hold and write only into it, whenever
the kernel is looked at and in the end, the heap and the task table account for one another: the allocated
blocks are the stacks of the tasks and what the clients hold. -/
theorem Household.stacks_accounted {ω α : Type} {program : Machine (System (Ledger ω)) α}
    (household : Household false program) {m : Memory} {cpu : Processor} (unused : cpu.trace = #[]) {world : ω}
    {outcome : Except Fault α} {s : System (Ledger ω)}
    (ran : program.runFrom ⟨Kernel.initial m cpu, ⟨[], [], world⟩⟩ = (outcome, s)) :
    (∀ sight ∈ s.outside.sightings, sight.1.Accounts sight.2) ∧
      ∀ a, outcome = .ok a → s.kernel.Accounts s.outside.holdings := by
  obtain ⟨seen, kept⟩ := household.kept unused ran
  exact ⟨fun sight member => (seen sight member).accounts, fun a returned => (kept a returned).owns.accounts⟩

/-- A task is created next to the boot task, and a client is given some memory. -/
def createBesideHolding : Machine (System (Ledger Unit)) Unit := do
  let _ ← System.found 4096 16472
  let _ ← System.onKernel (tryTable Table.adoptBoot)
  let _ ← System.transact (.allocate 24)
  let _ ← System.create 7 8
  System.look

set_option maxRecDepth 100000 in
theorem accounted_of_creation :
    ∃ s, createBesideHolding.runFrom ⟨freshKernel, ⟨[], [], ()⟩⟩ = (.ok (), s) ∧
      s.kernel.table.ownedStacks = [.ofStack 4184] ∧
      s.outside.holdings = [⟨4128, 24, false⟩] ∧ s.kernel.Accounts s.outside.holdings := by
  have household : Household false createBesideHolding :=
    (Household.found 4096 16472).bind fun _ => Household.adopt.bind fun _ =>
      (Household.transact (.allocate 24)).bind fun _ => (Household.create 7 8).bind fun _ => .look
  obtain ⟨comes, lodged, held⟩ : (createBesideHolding.runFrom ⟨freshKernel, ⟨[], [], ()⟩⟩).1.toBool = true ∧
      (createBesideHolding.runFrom ⟨freshKernel, ⟨[], [], ()⟩⟩).2.kernel.table.ownedStacks = [.ofStack 4184] ∧
      (createBesideHolding.runFrom ⟨freshKernel, ⟨[], [], ()⟩⟩).2.outside.holdings = [⟨4128, 24, false⟩] := by
    decide +kernel
  obtain ⟨⟨⟩, ran⟩ := exists_of_toBool comes
  exact ⟨_, ran, lodged, held, (household.stacks_accounted rfl ran).2 () rfl⟩

end KernelCore
