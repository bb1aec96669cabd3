import KernelCore.Proofs.Kernel.Lending
import KernelCore.Proofs.Kernel.Scheduling

namespace KernelCore
open Machine Kernel

/-- What gives the processor away. -/
inductive Turn where
  | yield
  | sleep (ms : Nat)
  | waitFor (pid : Nat)
  | exit
  | tick

/-- Carries out what gives the processor away. -/
def Turn.perform {ω : Type} (env : Surroundings ω) : Turn → Machine (System ω) Unit
  | yield => System.yield env
  | sleep ms => System.sleep env ms
  | waitFor pid => System.waitFor env pid
  | exit => System.exit env
  | tick => System.tick env

/-- What interrupts do while the processor is parked: the clock ticks. -/
inductive Clockwork {ω : Type} : {α : Type} → Machine (System ω) α → Prop where
  | pure {α : Type} (a : α) : Clockwork (pure a)
  | throw {α : Type} (fault : Fault) : Clockwork (throw fault : Machine (System ω) α)
  | bind {α β : Type} {action : Machine (System ω) α} {next : α → Machine (System ω) β} (first : Clockwork action)
    (rest : ∀ a, Clockwork (next a)) : Clockwork (action >>= next)
  | get : Clockwork (get : Machine (System ω) (System ω))
  | outside (change : ω → ω) :
    Clockwork (modify fun s => { s with outside := change s.outside } : Machine (System ω) PUnit)
  | tick (env : Surroundings ω) : Clockwork (System.tick env)

/-- What tasks do: any operations of the kernel, one after the other, each chosen with regard to all that
was seen before. What gives the processor away does so to other such programs, and to the clock. -/
inductive Program {ω : Type} : {α : Type} → Machine (System ω) α → Prop where
  | pure {α : Type} (a : α) : Program (pure a)
  | throw {α : Type} (fault : Fault) : Program (throw fault : Machine (System ω) α)
  | bind {α β : Type} {action : Machine (System ω) α} {next : α → Machine (System ω) β} (first : Program action)
    (rest : ∀ a, Program (next a)) : Program (action >>= next)
  | get : Program (get : Machine (System ω) (System ω))
  | outside (change : ω → ω) :
    Program (modify fun s => { s with outside := change s.outside } : Machine (System ω) PUnit)
  | mask : Program (System.onKernel (onProcessor Processor.mask))
  | unmask : Program (System.onKernel (onProcessor Processor.unmask))
  | report (notice : Notice) : Program (System.onKernel (report notice))
  | heap {α : Type} (action : Machine Arena α) : Program (System.onKernel (onArena action))
  | boot : Program System.boot
  | adopt : Program (System.onKernel (tryTable Table.adoptBoot))
  | create (entry arg : Nat) : Program (System.create entry arg)
  | turn (env : Surroundings ω) (turn : Turn) (parked : Clockwork env.whileParked) (away : Program env.whileAway) :
    Program (turn.perform env)

variable {ω α : Type}

/-- While the processor is parked, the clock switches to no task. -/
theorem Clockwork.carries {action : Machine (System ω) α} (clockwork : Clockwork action) (ongoing : List Activity) :
    action.Carries (Stands ongoing true False) (Stands ongoing true False) := by
  induction clockwork with
  | pure a => exact carries_pure a fun _ => id
  | throw fault => exact fun _ stands => stands.told
  | bind _ _ first rest => exact first.bind rest
  | get => exact fun _ stands => stands
  | outside change => exact fun _ stands => stands
  | tick env =>
    exact fun s stands => (System.carries_tick (by simp) s stands).mono
      (fun _ _ standsT => standsT.weaken False.elim) fun _ => id

/-- Every program starts and ends with the current task running. -/
theorem Program.carries {program : Machine (System ω) α} (isProgram : Program program) (ongoing : List Activity) :
    program.Carries (Stands ongoing false True) (Stands ongoing false True) := by
  induction isProgram generalizing ongoing with
  | pure a => exact carries_pure a fun _ => id
  | throw fault => exact fun _ stands => stands.told
  | bind _ _ first rest => exact (first ongoing).bind fun a => rest a ongoing
  | get => exact fun _ stands => stands
  | outside change => exact fun _ stands => stands
  | mask =>
    exact carries_onKernel fun _ stands => meets_onProcessor.mpr ((stands.note .mask trivial rfl).congr rfl rfl rfl)
  | unmask =>
    exact carries_onKernel fun _ stands => meets_onProcessor.mpr ((stands.note .unmask trivial rfl).congr rfl rfl rfl)
  | report notice => exact carries_onKernel fun _ stands => meets_report_of_stands stands notice
  | heap action => exact carries_onKernel fun _ stands => meets_onArena_of_stands stands action
  | boot => exact System.carries_boot
  | adopt =>
    refine carries_onKernel ?_
    intro k stands
    have adopts : Table.adoptBoot.run.Meets k.table
        (fun _ t => (Table.Becomes (ongoing.head? = some .serving) k.table t ∧ t.Orderly) ∧ t.Busy)
        fun t => Table.Becomes (ongoing.head? = some .serving) k.table t ∧ t.Orderly :=
      (Table.meets_adoptBoot stands.told.orderly (stands.busy trivial)).mono
        (fun _ _ ⟨becomes, orderly, runs⟩ => ⟨⟨becomes, orderly⟩, runs⟩) fun _ => id
    exact (meets_onTable_of_stands stands adopts).mono (fun _ _ ⟨standsK, runs⟩ => standsK.settle runs) fun _ => id
  | create entry arg => exact System.carries_create entry arg
  | turn env turn parked _ away =>
    -- What other tasks do in the meantime are programs too, so the induction hypothesis is about them.
    have faithful : env.Faithful := ⟨fun ongoing => parked.carries _, fun ongoing => away _⟩
    cases turn with
    | yield => exact System.carries_yield faithful
    | sleep ms => exact System.carries_sleep faithful ms
    | waitFor pid => exact System.carries_waitFor faithful pid
    | exit => exact System.carries_exit faithful
    | tick =>
      exact fun s stands => (System.carries_tick (fun _ => faithful) s stands).mono
        (fun _ _ standsT => standsT.weaken fun _ => rfl) fun _ => id

/-- Interrupts are masked with a look at the system and an instruction, and unmasked with another one. -/
theorem System.masked_induction {ω α : Type} {Holds : {α : Type} → Machine (System ω) α → Prop}
    (pure : ∀ {α : Type} (a : α), Holds (Pure.pure a))
    (bind : ∀ {α β : Type} {action : Machine (System ω) α} {next : α → Machine (System ω) β},
      Holds action → (∀ a, Holds (next a)) → Holds (action >>= next))
    (get : Holds (get : Machine (System ω) (System ω)))
    (mask : Holds (onKernel (onProcessor Processor.mask) : Machine (System ω) Unit))
    (unmask : Holds (onKernel (onProcessor Processor.unmask) : Machine (System ω) Unit))
    {body : Machine (System ω) α} (holds : Holds body) : Holds (masked body) := by
  unfold masked
  refine bind get ?_
  intro s
  cases s.kernel.cpu.enabled with
  | false => exact bind holds fun a => pure a
  | true => exact bind mask fun _ => bind holds fun a => bind unmask fun _ => pure a

/-- Heap calls are programs, and so is whatever else programs do with interrupts masked. -/
theorem Program.masked {body : Machine (System ω) α} (isProgram : Program body) : Program (System.masked body) :=
  System.masked_induction .pure .bind .get .mask .unmask isProgram

theorem Program.onHeap (action : HeapAction α) : Program (System.onHeap action : Machine (System ω) _) :=
  (Program.heap action.run).masked

/-- What is asked of the kernel as the allocator is put together from heap calls and work on the memory. -/
theorem Request.perform_induction {ω : Type} {Holds : {α : Type} → Machine (System ω) α → Prop}
    (pure : ∀ {α : Type} (a : α), Holds (Pure.pure a))
    (bind : ∀ {α β : Type} {action : Machine (System ω) α} {next : α → Machine (System ω) β},
      Holds action → (∀ a, Holds (next a)) → Holds (action >>= next))
    (heap : ∀ {α : Type} (action : HeapAction α), Holds (System.onHeap action))
    (store : ∀ change : Memory → Memory, Holds (System.onKernel (onArena (Arena.onMemory change)))) (request : Request) :
    Holds request.perform := by
  have allocates : ∀ layout, Holds (System.globalAllocate layout) := by
    intro layout
    unfold System.globalAllocate
    split <;> exact bind (heap _) fun _ => pure _
  have releases : ∀ ptr layout, Holds (System.globalRelease ptr layout) := by
    intro ptr layout
    unfold System.globalRelease
    split <;> exact bind (heap _) fun _ => pure _
  cases request with
  | allocate layout => exact allocates layout
  | allocateZeroed layout =>
    refine bind (allocates layout) ?_
    intro ptr
    split
    · exact bind (store _) fun _ => pure ptr
    · exact pure ptr
  | resize loan size =>
    simp only [Request.perform, System.globalResize]
    split
    · refine bind (heap _) ?_
      rintro (cause | none | fresh) <;> exact pure _
    · refine bind (allocates _) ?_
      intro fresh
      split
      · exact bind (store _) fun _ => bind (releases ..) fun _ => pure fresh
      · exact pure fresh
  | release loan => exact bind (releases ..) fun _ => pure 0

/-- What is asked of the kernel as the allocator is a program. -/
theorem Program.request (request : Request) : Program (request.perform : Machine (System ω) Nat) :=
  request.perform_induction .pure .bind .onHeap fun _ => .heap _

theorem stands_initial (m : Memory) {cpu : Processor} (unused : cpu.trace = #[]) :
    Stands [] false True (Kernel.initial m cpu) := by
  have story : (Kernel.initial m cpu).story = [] := by rw [Kernel.story, Kernel.initial, unused]
  refine ⟨⟨?_, ?_, ⟨by simp [Kernel.initial, Table.empty], ?_⟩⟩, ?_, rfl, by simp, ?_⟩
  · rw [story]
    exact Story.lawful_nil
  · rw [story]
    rfl
  · intro i runs
    simp [Kernel.initial, Table.empty, Table.stateAt] at runs
  · rw [story]
    rfl
  · exact fun _ c now => by simp [Kernel.initial, Table.empty] at now

/-- Along every run of a program the tasks change their states as they may, sleepers become ready only while
a timer interrupt is served, no other task runs than the current one, and the processor goes only to another
task that was ready, and never while it is parked. A task that has exited stays so to the end. Whenever a
program comes to its end the current task is running, if there are tasks at all. -/
theorem Program.story_lawful {program : Machine (System ω) α} (isProgram : Program program) {m : Memory} {cpu : Processor}
    (unused : cpu.trace = #[]) {outside : ω} {outcome : Except Fault α} {s : System ω}
    (ran : program.runFrom ⟨Kernel.initial m cpu, outside⟩ = (outcome, s)) :
    s.kernel.story.Lawful ∧ s.kernel.story.version = s.kernel.table ∧
      (∀ before after i, s.kernel.story = before ++ after → (Story.version before).stateAt i = some .terminated →
        s.kernel.table.stateAt i = some .terminated) ∧
      ∀ a, outcome = .ok a → ∀ c, s.kernel.table.current = some c → s.kernel.table.stateAt c = some .running := by
  have carries := isProgram.carries [] ⟨Kernel.initial m cpu, outside⟩ (stands_initial m unused)
  have told : s.kernel.Told := by
    cases outcome with
    | error fault => exact carries.fault ran
    | ok a => exact (carries.result ran).told
  refine ⟨told.lawful, told.version, ?_, ?_⟩
  · intro before after i split exited
    rw [← told.version, split]
    exact Story.Lawful.stateAt_of_terminated (split ▸ told.lawful) exited
  · intro a returned
    subst returned
    exact (carries.result ran).busy trivial

/-- What happens outside the kernel where each switch saves the same stack pointer. -/
def Surroundings.doing {ω : Type} (whileParked whileAway : Machine (System ω) Unit) : Surroundings ω :=
  ⟨whileParked, whileAway, fun _ => 0, fun _ => 4096, by simp⟩

/-- Outside the kernel nothing happens but that time passes. -/
def Surroundings.still : Surroundings Unit := .doing (System.tick (.doing (pure ()) (pure ()))) (pure ())

/-- A kernel that has done nothing yet, with memory for a stack and a small block. Interrupts are masked, and the
processor may be parked fewer than five times. -/
def freshKernel : Kernel := Kernel.initial (Memory.zeroed 4096 16472) (Processor.initial 5 ⟨0, 5, 6⟩)

/-- Then what runs already has become the boot task. -/
def bootedSystem : System Unit := ((System.onKernel (tryTable Table.adoptBoot)).runFrom ⟨freshKernel, ()⟩).2

/-- The boot task sleeps, and the processor is parked until it goes on. -/
def bootSleeps : Machine (System Unit) Unit := do
  let _ ← System.onKernel (tryTable Table.adoptBoot)
  System.sleep .still 25

theorem program_bootSleeps : Program bootSleeps :=
  Program.adopt.bind fun _ => Program.turn .still (.sleep 25) (.tick _) (.pure ())

/-- The boot task creates another task and sleeps. The other one runs until the clock wakes the boot task, which then
exits. -/
def bootSleepsBesideAnother : Machine (System Unit) Unit := do
  let _ ← System.onHeap (Arena.establish 4096 16440)
  let _ ← System.onKernel (tryTable Table.adoptBoot)
  let _ ← System.create 7 8
  System.sleep (.doing (pure ()) (System.tick .still)) 10
  System.exit .still

set_option maxRecDepth 100000 in
/-- The processor goes to the other task, comes back once the boot task is woken, and goes to the other one for good. -/
theorem lawful_of_sleep_and_exit : ∃ s, bootSleepsBesideAnother.runFrom ⟨freshKernel, ()⟩ = (.ok (), s) ∧
    s.kernel.story.Lawful ∧ s.kernel.cpu.switches = 3 ∧ s.kernel.table.stateAt 0 = some .terminated ∧
    s.kernel.table.stateAt 1 = some .running := by
  have ticks : Program (System.tick .still) := .turn .still .tick (.tick _) (.pure ())
  have isProgram : Program bootSleepsBesideAnother :=
    (Program.onHeap _).bind fun _ => Program.adopt.bind fun _ => (Program.create 7 8).bind fun _ =>
      (Program.turn (.doing (pure ()) (System.tick .still)) (.sleep 10) (.pure ()) ticks).bind fun _ =>
        .turn .still .exit (.tick _) (.pure ())
  obtain ⟨comes, switched, current, exited⟩ : (bootSleepsBesideAnother.runFrom ⟨freshKernel, ()⟩).1.toBool = true ∧
      (bootSleepsBesideAnother.runFrom ⟨freshKernel, ()⟩).2.kernel.cpu.switches = 3 ∧
      (bootSleepsBesideAnother.runFrom ⟨freshKernel, ()⟩).2.kernel.table.current = some 1 ∧
      (bootSleepsBesideAnother.runFrom ⟨freshKernel, ()⟩).2.kernel.table.stateAt 0 = some .terminated := by decide +kernel
  obtain ⟨⟨⟩, ran⟩ := exists_of_toBool comes
  obtain ⟨lawful, -, -, runs⟩ := Program.story_lawful isProgram rfl ran
  exact ⟨_, ran, lawful, switched, exited, runs () rfl 1 current⟩

end KernelCore
