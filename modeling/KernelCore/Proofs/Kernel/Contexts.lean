import KernelCore.Proofs.Kernel.Continuity

namespace KernelCore
open Machine Kernel

/-- The stack of the running task. -/
def Table.ownStack (t : Table) : Option Holding := do
  let c ← t.current
  let task ← t.tasks[c]?
  task.lodging

/-- Writes onto the stack of the running task, or into what clients hold. Any other write is not made. -/
def System.storeOwn {ω : Type} (addr : Nat) (bytes : List UInt8) : Machine (System (Ledger ω)) Unit := do
  let s ← get
  if ∃ h ∈ s.kernel.table.ownStack.toList ++ s.outside.holdings,
      h.addr ≤ addr ∧ addr + bytes.length ≤ h.addr + h.size then
    onKernel (onArena (Arena.onMemory fun m => m.writeBytes addr bytes))

/-- Programs whose clients give back only what they hold, and write only into it; besides, the running task may write
onto its own stack. Whenever the processor has come to a task, the kernel is looked at before anything else happens.
While the processor is parked no task runs, so nothing gives it away, but all else may happen. -/
inductive Neighbourly {ω : Type} : (parked : Bool) → {α : Type} → Machine (System (Ledger ω)) α → Prop where
  | pure {parked : Bool} {α : Type} (a : α) : Neighbourly parked (pure a)
  | throw {parked : Bool} {α : Type} (fault : Fault) :
    Neighbourly parked (throw fault : Machine (System (Ledger ω)) α)
  | bind {parked : Bool} {α β : Type} {action : Machine (System (Ledger ω)) α}
    {next : α → Machine (System (Ledger ω)) β} (first : Neighbourly parked action)
    (rest : ∀ a, Neighbourly parked (next a)) : Neighbourly parked (action >>= next)
  | get {parked : Bool} : Neighbourly parked (get : Machine (System (Ledger ω)) (System (Ledger ω)))
  | world {parked : Bool} (change : ω → ω) : Neighbourly parked
    (modify fun s => { s with outside.world := change s.outside.world } : Machine (System (Ledger ω)) PUnit)
  | look {parked : Bool} : Neighbourly parked System.look
  | mask {parked : Bool} : Neighbourly parked (System.onKernel (onProcessor Processor.mask))
  | unmask {parked : Bool} : Neighbourly parked (System.onKernel (onProcessor Processor.unmask))
  | found {parked : Bool} (start size : Nat) : Neighbourly parked (System.found start size)
  | transact {parked : Bool} (call : Call) : Neighbourly parked (System.transact call)
  | store {parked : Bool} (addr : Nat) (bytes : List UInt8) : Neighbourly parked (System.storeOwn addr bytes)
  | inspect {parked : Bool} {α : Type} {action : Machine Kernel α} (looks : Looks action) :
    Neighbourly parked (System.onKernel action)
  | create {parked : Bool} (entry arg : Nat) : Neighbourly parked (System.create entry arg)
  | boot : Neighbourly false System.boot
  | adopt : Neighbourly false (System.onKernel (tryTable Table.adoptBoot))
  | tick (env : Surroundings (Ledger ω)) : Neighbourly true (System.tick env)
  | turn (env : Surroundings (Ledger ω)) (turn : Turn) {away : Machine (System (Ledger ω)) Unit}
    (parked : Neighbourly true env.whileParked) (arrives : env.whileAway = do System.look; away)
    (away : Neighbourly false away) : Neighbourly false (turn.perform env)

namespace Kernel
variable {k : Kernel} {marks : Landmarks} {sightings : List (Kernel × List Holding)} {holdings : List Holding}
  {h : Holding} {i stack addr : Nat} {task : Task} {bytes : List UInt8}

/-- No task that waits has its stack where the running task and the clients may write. -/
theorem Owns.apart (owns : k.Owns holdings) (here : k.table.tasks[i]? = some task) (waits : k.table.current ≠ some i)
    (own : task.stack = some stack) (member : h ∈ k.table.ownStack.toList ++ holdings) :
    Holding.Apart (.ofStack stack) h := by
  have lodging : task.lodging = some (.ofStack stack) := by rw [Task.lodging, own, Option.map_some]
  have disjoint := List.pairwise_append.mp owns.backs.disjoint
  rw [← Array.getElem?_toList] at here
  rcases List.mem_append.mp member with running | held
  · obtain ⟨c, now, atC⟩ := Option.bind_eq_some_iff.mp (Option.mem_toList.mp running)
    obtain ⟨runner, there, has⟩ := Option.bind_eq_some_iff.mp atC
    rw [← Array.getElem?_toList] at there
    obtain ⟨insideI, atI⟩ := List.getElem?_eq_some_iff.mp here
    obtain ⟨insideC, atC⟩ := List.getElem?_eq_some_iff.mp there
    have pairs := List.pairwise_iff_getElem.mp (List.pairwise_filterMap.mp disjoint.1)
    rw [← atI] at lodging
    rw [← atC] at has
    rcases Nat.lt_trichotomy i c with before | same | behind
    · exact pairs i c insideI insideC before _ lodging _ has
    · exact absurd (same ▸ now) waits
    · exact (pairs c i insideC insideI behind _ has _ lodging).symm
  · refine disjoint.2.2 _ (List.mem_filterMap.mpr ⟨task, List.mem_of_getElem? here, lodging⟩) h held

theorem mem_ownedStacks_of_ownStack {t : Table} (own : t.ownStack = some h) : h ∈ t.ownedStacks := by
  obtain ⟨c, -, atC⟩ := Option.bind_eq_some_iff.mp own
  obtain ⟨task, here, lodging⟩ := Option.bind_eq_some_iff.mp atC
  exact List.mem_filterMap.mpr ⟨task, Array.mem_toList_iff.mpr (Array.mem_of_getElem? here), lodging⟩

/-- What the running task and the clients write is of no concern to the tasks that wait. -/
theorem Continuous.stored (continuous : k.Continuous marks sightings holdings)
    (member : h ∈ k.table.ownStack.toList ++ holdings) (lower : h.addr ≤ addr)
    (upper : addr + bytes.length ≤ h.addr + h.size) :
    (k.withArena { k.arena with memory := k.arena.memory.writeBytes addr bytes }).Continuous marks sightings
      holdings := by
  have owns := continuous.threads.owns
  have outside : ∀ a, a < h.addr ∨ h.addr + h.size ≤ a →
      (k.arena.memory.writeBytes addr bytes).byte a = k.arena.memory.byte a :=
    fun a outside => Memory.byte_writeBytes_of_outside _ bytes (by omega)
  have owned : h ∈ k.table.ownedStacks ++ holdings := by
    rcases List.mem_append.mp member with running | held
    · exact List.mem_append_left _ (mem_ownedStacks_of_ownStack (Option.mem_toList.mp running))
    · exact List.mem_append_right _ held
  have stored := owns.backs.stored owned (fun _ _ => Memory.covers_writeBytes ..) outside
  refine continuous.keep ⟨rfl, ⟨[], (List.append_nil _).symm, Story.still_nil⟩, ?_⟩ (owns.withArena stored) rfl rfl
  intro i task stack here waits own a above below
  have apart : stack + Config.taskStackSize ≤ h.addr ∨ h.addr + h.size ≤ stack := owns.apart here waits own member
  exact outside a (by omega)

theorem Stays.tends {c : Option Nat} {k' : Kernel} (stays : k.Stays k') : k.Tends c k' := by
  have story : k'.story = k.story := by rw [story, stays.cpu, story]
  refine tends_of_retains (by rw [stays.cpu]) ⟨[], by rw [story, List.append_nil], Story.still_nil⟩ ?_
  intro h _ addr _ _
  rw [stays.memory]

end Kernel

/-- Every task can go on, and every switch so far was seen. -/
def continuity (ω : Type) (marks : Landmarks) : Regimen (Ledger ω) where
  keeps s := s.kernel.Continuous marks s.outside.sightings s.outside.holdings
  torn handover s := s.kernel.Torn marks handover s.outside.holdings ∧
    s.kernel.story.Witnessed marks s.outside.sightings
  lands s := s.kernel.Landed marks s.outside.sightings s.outside.holdings
  rings s := s.kernel.Continuous marks s.outside.sightings s.outside.holdings
  stopped s := s.kernel.story.Witnessed marks s.outside.sightings
  excuse _ continuous := continuous.witnessed
  idles _ _ continuous idles := continuous.idles idles
  dispatches _ _ continuous told eligible := continuous.meets_dispatch told eligible
  switches _ _ _ somewhere torn told prepares := (torn.1.meets_saveStackPointer somewhere torn.2 told prepares).excused
  sleeps _ ms _ continuous _ busy := continuous.meets_blockCurrent busy ms _
  retires _ continuous _ busy := System.meets_onKernel.mpr (continuous.meets_retire busy)
  ticks _ continuous := by
    split
    · exact continuous.rung
    · exact continuous.rung.witnessed
  masks _ continuous := continuous.idles (.mask _)
  wakes _ continuous := continuous.meets_wakeDue _
  nobody _ continuous _ := continuous

namespace continuity
open Regimen
variable {ω α : Type} {marks : Landmarks} {ongoing : List Activity} {parked : Bool} {busy : Prop}
  {s : System (Ledger ω)}

/-- Between two operations. -/
abbrev Abides (marks : Landmarks) (ongoing : List Activity) (parked : Bool) (busy : Prop) (s : System (Ledger ω)) :
    Prop :=
  (continuity ω marks).Holds ongoing parked busy s

theorem meets_onHeap {action : HeapAction α} {given : Except HeapError α → List Holding}
    (abides : Abides marks ongoing parked busy s)
    (backs : action.run.Meets s.kernel.arena
      (fun result b => b.Backs (s.kernel.table.ownedStacks ++ given result)) fun _ => True)
    (retains : action.run.Meets s.kernel.arena (fun _ b => s.kernel.arena.Retains s.kernel.table.ownedStacks b)
      fun _ => True) :
    (System.onHeap action).Meets s (fun result t => Stands ongoing parked busy t.kernel ∧
      t.kernel.Continuous marks s.outside.sightings (given result) ∧ t.outside = s.outside)
      fun t => t.kernel.story.Witnessed marks t.outside.sightings := by
  -- The action does the same whether interrupts are masked already or are masked for it.
  have works : ∀ k : Kernel, Stands ongoing parked busy k → k.Continuous marks s.outside.sightings s.outside.holdings →
      k.arena = s.kernel.arena → k.table = s.kernel.table →
      (System.onKernel (tryHeap action)).Meets { s with kernel := k } (fun result t =>
        Stands ongoing parked busy t.kernel ∧ t.kernel.Continuous marks s.outside.sightings (given result) ∧
          t.outside = s.outside) fun t => t.kernel.story.Witnessed marks t.outside.sightings := by
    intro k stands continuous arena table
    rw [← arena, ← table] at backs retains
    have gives := continuous.meets_tryHeap backs retains
    refine System.meets_onKernel.mpr (((meets_onArena_of_stands stands _).both gives).mono ?_ fun _ => And.right)
    intro result k' both
    exact ⟨both.1, both.2.1, rfl⟩
  refine System.meets_masked ?_ (works s.kernel abides.stands abides.keeps rfl rfl)
    (works _ abides.stands.mask (abides.keeps.idles (.mask _)) rfl rfl)
  intro result t after
  exact ⟨after.1.unmask, after.2.1.idles (.unmask _), after.2.2⟩

theorem carries_look : (continuity ω marks).Carries System.look (Abides marks ongoing parked busy)
    (Abides marks ongoing parked busy) := by
  intro s abides
  have witnessed := abides.keeps.witnessed.look_again s.outside.holdings
  exact ⟨abides.stands, abides.keeps.threads, witnessed⟩

/-- What comes first when the processor has come to a task. -/
theorem carries_arrival : (continuity ω marks).Carries System.look
    (Stage (continuity ω marks).lands ongoing parked busy) (Abides marks ongoing parked busy) := by
  intro s landed
  obtain ⟨stands, threads, before, enabled, handover, saved, witnessed, arrives⟩ := landed
  exact ⟨stands, threads, witnessed.look arrives s.outside.holdings⟩

theorem carries_transact (call : Call) : (continuity ω marks).Carries (System.transact call)
    (Abides marks ongoing parked busy) (Abides marks ongoing parked busy) := by
  intro s abides
  unfold System.transact
  rw [meets_bind, meets_get]
  by_cases legal : call.Legal s.outside.holdings
  · rw [if_pos legal]
    have backs := abides.keeps.threads.owns.backs
    have performs := (backs.performs (Call.legal_append legal)).mono
      (fun result _ after => backs.settle_append legal result ▸ after) fun _ => id
    refine (meets_onHeap abides performs (backs.performs_retains legal)).bind ?_
    intro result t after
    obtain ⟨k, outside⟩ := t
    obtain ⟨stands, continuous, rfl⟩ := after
    exact ⟨stands, continuous⟩
  · rw [if_neg legal]
    exact abides

theorem carries_found (start size : Nat) : (continuity ω marks).Carries (System.found start size)
    (Abides marks ongoing parked busy) (Abides marks ongoing parked busy) := by
  intro s abides
  unfold System.found
  rw [meets_bind, meets_get]
  by_cases window : s.kernel.arena.memory.Covers start size
  · rw [if_pos window]
    have backs := abides.keeps.threads.owns.backs
    have retains : (Arena.establish start size).run.Meets s.kernel.arena
        (fun _ b => s.kernel.arena.Retains s.kernel.table.ownedStacks b) fun _ => True :=
      backs.establish_retains.mono (fun _ _ retains h member => retains h (List.mem_append_left _ member)) fun _ => id
    refine (meets_onHeap abides (backs.establish window) retains).bind ?_
    intro result t after
    obtain ⟨k, outside⟩ := t
    obtain ⟨stands, continuous, rfl⟩ := after
    exact ⟨stands, continuous⟩
  · rw [if_neg window]
    exact abides

theorem carries_inspect {action : Machine Kernel α} (looks : Looks action) :
    (continuity ω marks).Carries (System.onKernel action) (Abides marks ongoing parked busy)
      (Abides marks ongoing parked busy) := by
  intro s abides
  have after : ∀ k, s.kernel.Stays k → k.story = s.kernel.story ∧
      k.Continuous marks s.outside.sightings s.outside.holdings := by
    intro k stays
    have owns := abides.keeps.threads.owns.congr stays.heap stays.memory stays.table stays.journal
    have continuous := abides.keeps.keep stays.tends owns (by rw [stays.table]) (by rw [stays.table])
    exact ⟨by rw [Kernel.story, stays.cpu, Kernel.story], continuous⟩
  refine System.meets_onKernel.mpr ((looks s.kernel).mono ?_ fun k stays => (after k stays).2.witnessed)
  intro _ k stays
  exact ⟨abides.stands.congr (after k stays).1 stays.table stays.parked, (after k stays).2⟩

theorem carries_store (addr : Nat) (bytes : List UInt8) : (continuity ω marks).Carries (System.storeOwn addr bytes)
    (Abides marks ongoing parked busy) (Abides marks ongoing parked busy) := by
  intro s abides
  unfold System.storeOwn
  rw [meets_bind, meets_get]
  by_cases inside : ∃ h ∈ s.kernel.table.ownStack.toList ++ s.outside.holdings,
    h.addr ≤ addr ∧ addr + bytes.length ≤ h.addr + h.size
  · rw [if_pos inside]
    obtain ⟨h, member, lower, upper⟩ := inside
    rw [System.meets_onKernel, meets_onArena, Arena.onMemory, meets_modify]
    exact ⟨abides.stands.congr rfl rfl rfl, abides.keeps.stored member lower upper⟩
  · rw [if_neg inside]
    exact abides

/-- Of what works on the kernel alone it is known what it means for the tasks. -/
theorem carries_of_continuous {action : Machine Kernel α}
    (stands : (System.onKernel action : Machine (System (Ledger ω)) α).Carries (Stands ongoing parked busy)
      (Stands ongoing parked busy))
    (keeps : ∀ (k : Kernel) sightings holdings, k.Told → k.Continuous marks sightings holdings →
      action.Meets k (fun _ k' => k'.Continuous marks sightings holdings)
        fun k' => k'.story.Witnessed marks sightings) :
    (continuity ω marks).Carries (System.onKernel action) (Abides marks ongoing parked busy)
      (Abides marks ongoing parked busy) :=
  carries_of_stands stands fun s abides =>
    System.meets_onKernel.mpr (keeps s.kernel _ _ abides.stands.told abides.keeps)

theorem carries_create (entry arg : Nat) : (continuity ω marks).Carries (System.create entry arg)
    (Abides marks ongoing parked busy) (Abides marks ongoing parked busy) :=
  carries_masked Holds.mask Holds.unmask <|
    carries_of_continuous (carries_onKernel fun _ stands => Kernel.meets_create stands entry arg)
      fun _ _ _ told continuous => continuous.meets_create told.version told.orderly entry arg

theorem carries_boot : (continuity ω marks).Carries System.boot (Abides marks ongoing parked True)
    (Abides marks ongoing parked True) :=
  carries_masked Holds.mask Holds.unmask <|
    carries_of_continuous (carries_onKernel fun _ stands => Kernel.meets_boot stands)
      fun _ _ _ told continuous => continuous.meets_boot told.version

theorem carries_adopt : (continuity ω marks).Carries (System.onKernel (tryTable Table.adoptBoot))
    (Abides marks ongoing false True) (Abides marks ongoing false True) :=
  carries_of_continuous (Program.adopt.carries ongoing) fun _ _ _ _ continuous => continuous.meets_adoptBoot

end continuity

namespace Neighbourly
variable {ω α : Type} {parked : Bool}

/-- What looks at the system may also do so with interrupts masked. -/
theorem masked {body : Machine (System (Ledger ω)) α} (neighbourly : Neighbourly parked body) :
    Neighbourly parked (System.masked body) :=
  System.masked_induction .pure .bind .get .mask .unmask neighbourly

theorem currentPid : Neighbourly parked (System.currentPid : Machine (System (Ledger ω)) _) :=
  (Neighbourly.inspect looks_currentPid).masked

theorem taskState (pid : Nat) : Neighbourly parked (System.taskState pid : Machine (System (Ledger ω)) _) :=
  (Neighbourly.get.bind fun _ => .pure _).masked

theorem describeTasks : Neighbourly parked (System.describeTasks : Machine (System (Ledger ω)) _) :=
  (Neighbourly.inspect looks_describeTasks).masked

theorem check : Neighbourly parked (System.onHeap Arena.check : Machine (System (Ledger ω)) _) :=
  (Neighbourly.inspect looks_check).masked

end Neighbourly

/-- Along with the tasks that go on, every switch is seen. -/
theorem Neighbourly.carries {ω α : Type} {parked : Bool} {program : Machine (System (Ledger ω)) α}
    (neighbourly : Neighbourly parked program) (marks : Landmarks) (ongoing : List Activity) :
    (continuity ω marks).Carries program ((continuity ω marks).Holds ongoing parked (parked = false))
      ((continuity ω marks).Holds ongoing parked (parked = false)) := by
  induction neighbourly generalizing ongoing with
  | pure a => exact fun s abides => abides
  | throw fault => exact fun s abides => abides.excuse
  | bind _ _ first rest => exact (first ongoing).bind fun a => rest a ongoing
  | get => exact fun s abides => abides
  | world change => exact fun s abides => ⟨abides.stands, abides.keeps⟩
  | look => exact continuity.carries_look
  | mask => exact fun s abides => abides.mask
  | unmask => exact fun s abides => abides.unmask
  | found start size => exact continuity.carries_found start size
  | transact call => exact continuity.carries_transact call
  | store addr bytes => exact continuity.carries_store addr bytes
  | inspect looks => exact continuity.carries_inspect looks
  | create entry arg => exact continuity.carries_create entry arg
  | boot => exact continuity.carries_boot.congr (by simp)
  | adopt => exact continuity.carries_adopt.congr (by simp)
  | tick env => exact fun s abides => Regimen.carries_tick (by simp) s abides
  | turn env turn _ arrives _ whileParked whileAway =>
    -- Who comes back looks first: with that a landing becomes an arrival that was seen.
    have faithful : (continuity _ marks).Faithful env := by
      refine ⟨fun ongoing => (whileParked _).congr (by simp), fun ongoing => ?_⟩
      rw [arrives]
      exact continuity.carries_arrival.bind fun _ => (whileAway _).congr (by simp)
    exact (Regimen.carries_turn faithful turn).congr (by simp)

end KernelCore
