import KernelCore.Proofs.Kernel.Masking
import KernelCore.Proofs.Kernel.Punctuality
import KernelCore.Proofs.Kernel.Regimen

namespace KernelCore
open Machine Kernel

variable {ω α : Type}

theorem Clockwork.steers {action : Machine (System ω) α} (clockwork : Clockwork action) (free : Bool) :
    Steers free (Marked true) action (Marked true) := by
  induction clockwork with
  | pure a => exact steers_pure a fun _ => id
  | throw fault => exact steers_throw fault
  | bind _ _ first rest => exact first.bind rest
  | get => exact fun _ s marked => ⟨marked, .refl s.kernel⟩
  | outside change => exact fun _ s marked => ⟨marked, .refl s.kernel⟩
  | tick env => exact System.steers_tick (by simp)

/-- Programs keep the course of those who may mask and unmask interrupts as they like. -/
theorem Program.steers {program : Machine (System ω) α} (isProgram : Program program) :
    Steers true (Marked false) program (Marked false) := by
  induction isProgram with
  | pure a => exact steers_pure a fun _ => id
  | throw fault => exact steers_throw fault
  | bind _ _ first rest => exact first.bind rest
  | get => exact fun _ s marked => ⟨marked, .refl s.kernel⟩
  | outside change => exact fun _ s marked => ⟨marked, .refl s.kernel⟩
  | mask => exact fun _ s marked => ⟨marked, .toggle (story_note s.kernel .mask).symm trivial rfl⟩
  | unmask => exact fun _ s marked => ⟨marked, .toggle (story_note s.kernel .unmask).symm trivial rfl⟩
  | report notice => exact System.steers_report notice
  | heap action =>
    intro base s marked
    refine System.meets_onKernel.mpr (meets_onArena.mpr ?_)
    unfold Meets
    rcases action.runFrom s.kernel.arena with ⟨_ | a, b⟩
    · exact (Leads.of_eq rfl rfl).strays
    · exact ⟨marked, .of_eq rfl rfl⟩
  | boot => exact System.steers_masked_acting isActing_boot
  | adopt =>
    intro base s marked
    have leads : ∀ t, Leads true base s.kernel (s.kernel.withTable t) :=
      fun t => .note rfl (story_withTable s.kernel t) trivial False.elim
    refine System.meets_onKernel.mpr (meets_onTable.mpr ?_)
    unfold Meets
    rcases Table.adoptBoot.run.runFrom s.kernel.table with ⟨_ | a, t⟩
    · exact (leads t).strays
    · exact ⟨marked, leads t⟩
  | create entry arg => exact System.steers_masked_acting (isActing_create entry arg)
  | turn env turn parked _ away => exact System.steers_turn ⟨parked.steers true, away⟩ turn fun _ => rfl

/-- From `k` to `l` the task in the slot `c` has been put to sleep for `ms` milliseconds before anything else happened:
interrupts are masked, if they were not, and the task sleeps until its deadline, which is noted. -/
def Kernel.FallsAsleep (c ms : Nat) (k l : Kernel) : Prop :=
  ∃ (masks : Story) (t : Table) (later : Story),
    l.story = k.story ++ masks ++ .table t :: .sleep ms :: later ∧
      (∀ instruction ∈ masks, instruction = Instruction.mask) ∧ t.current = some c ∧
      t.stateAt c = some (.blocked (Ticks.saturate (k.ticks + Ticks.ofMs ms)))

/-- From `s` to `t` the task in the slot `c` calls for `ms` milliseconds of sleep. In the meantime the other tasks run
programs, the clock ticks while the processor is parked, and some of that may be stopped before the call returns. -/
structure System.Sleeps (env : Surroundings ω) (ms c : Nat) (s t : System ω) : Prop where
  parked : Clockwork env.whileParked
  away : Program env.whileAway
  positive : 1 ≤ ms
  current : s.kernel.table.current = some c
  inside : c < s.kernel.table.tasks.size
  ran : ((System.sleep env ms).runFrom s).2 = t

namespace Kernel
variable {k l l' : Kernel} {c ms : Nat}

theorem FallsAsleep.append {more : Story} (falls : k.FallsAsleep c ms l) (story : l'.story = l.story ++ more) :
    k.FallsAsleep c ms l' := by
  obtain ⟨masks, t, later, told, isMask, current, asleep⟩ := falls
  exact ⟨masks, t, later ++ more, by simp [story, told], isMask, current, asleep⟩

theorem FallsAsleep.of_mask (falls : FallsAsleep c ms { k with cpu := k.cpu.mask } l) : k.FallsAsleep c ms l := by
  obtain ⟨masks, t, later, told, isMask, current, asleep⟩ := falls
  have story : Kernel.story { k with cpu := k.cpu.mask } = k.story ++ [.mask] := (story_note k _).symm
  exact ⟨.mask :: masks, t, later, by simp [told, story], by simpa using isMask, current, asleep⟩

/-- The mark that is left tells which task fell asleep, and at which tick it did. -/
theorem FallsAsleep.marked {story : Story} (falls : k.FallsAsleep c ms l) (part : l.story <+: story) :
    ∃ (before after : Story), story = before ++ .sleep ms :: after ∧ k.story <+: before ∧
      before.clock = k.story.clock ∧ before.version.current = some c := by
  obtain ⟨masks, t, later, told, isMask, current, -⟩ := falls
  obtain ⟨more, rfl⟩ := part
  refine ⟨k.story ++ masks ++ [.table t], later ++ more, by simp [told], ?_, ?_, ?_⟩
  · rw [List.append_assoc]
    exact List.prefix_append ..
  · have none : Story.clock masks = 0 := List.count_eq_zero.mpr fun member => by simpa using isMask _ member
    rw [Story.clock_append, Story.clock_append, none]
    rfl
  · rw [Story.version_concat]
    exact current

end Kernel

namespace System
variable {env : Surroundings ω} {ms c : Nat} {s t : System ω}

/-- The running task goes to sleep. -/
def fallAsleep (env : Surroundings ω) (ms : Nat) : Machine (System ω) Unit := do
  let deadline := Ticks.saturate ((← get).kernel.ticks + Ticks.ofMs ms)
  if ← onKernel (onTable (Table.blockCurrent deadline)) then
    onKernel (onProcessor (·.note (.sleep ms)))
    reschedule env

theorem sleep_eq (some : ms ≠ 0) : sleep env ms = masked (fallAsleep env ms) := if_neg some

/-- With interrupts masked the running task is put to sleep at once, whatever happens until it goes on. -/
theorem meets_fallAsleep (disciplined : env.Disciplined true) (now : s.kernel.table.current = some c)
    (inside : c < s.kernel.table.tasks.size) (masked : s.kernel.cpu.enabled = false) :
    (fallAsleep env ms).Meets s (fun _ t => s.kernel.FallsAsleep c ms t.kernel)
      fun t => s.kernel.FallsAsleep c ms t.kernel := by
  have here := Array.getElem?_eq_getElem inside
  generalize s.kernel.table.tasks[c] = task at here
  have blocked := Table.runFrom_blockCurrent now here (Ticks.saturate (s.kernel.ticks + Ticks.ofMs ms))
  have asleep := Table.stateAt_put here
    { task with state := .blocked (Ticks.saturate (s.kernel.ticks + Ticks.ofMs ms)) } c
  rw [if_pos rfl] at asleep
  rw [fallAsleep, meets_bind, meets_get, meets_bind, meets_onKernel, meets_onTable]
  refine .of_runFrom blocked ?_
  rw [if_pos rfl, meets_bind, meets_onKernel, meets_onProcessor]
  generalize slept : s.kernel.table.put c _ = table at asleep
  have current : table.current = some c := by
    rw [← slept]
    exact now
  -- All that comes later is the other tasks' and the clock's, and adds to the story.
  have falls : s.kernel.FallsAsleep c ms (s.kernel.asleep ms table) := by
    refine ⟨[], table, [], ?_, by simp, current, asleep⟩
    rw [Kernel.story, Kernel.asleep, ← story_note, ← Kernel.story, story_withTable]
    simp
  refine (steers_reschedule disciplined [] { s with kernel := s.kernel.asleep ms table } ⟨masked, marked_false _⟩).mono
    ?_ ?_
  · rintro _ t ⟨-, -, more, later, -⟩
    exact falls.append later
  · rintro t ⟨more, -, later, -⟩
    exact falls.append later

/-- Whoever calls `sleep` is put to sleep, whatever the state of the system is. -/
theorem Sleeps.fallsAsleep (sleeps : Sleeps env ms c s t) : s.kernel.FallsAsleep c ms t.kernel := by
  obtain ⟨parked, away, positive, now, inside, rfl⟩ := sleeps
  have disciplined : env.Disciplined true := ⟨parked.steers true, away.steers⟩
  have falls : (sleep env ms).Meets s (fun _ t => s.kernel.FallsAsleep c ms t.kernel)
      fun t => s.kernel.FallsAsleep c ms t.kernel := by
    rw [sleep_eq (by omega)]
    cases enabled : s.kernel.cpu.enabled with
    | false => exact (meets_masked_of_disabled enabled).mpr (meets_fallAsleep disciplined now inside enabled)
    | true =>
      refine (meets_masked_of_enabled enabled).mpr ?_
      refine (meets_fallAsleep (s := { s with kernel.cpu := s.kernel.cpu.mask }) disciplined now inside rfl).mono ?_ ?_
      · exact fun _ t fallsT => fallsT.of_mask.append (story_note t.kernel .unmask).symm
      · exact fun _ => FallsAsleep.of_mask
  unfold Meets at falls
  rcases ran : (sleep env ms).runFrom s with ⟨_ | _, t⟩
  · rwa [ran] at falls
  · rwa [ran] at falls

end System

theorem sleeps_bootSleeps : ∃ s, bootSleeps.runFrom ⟨freshKernel, ()⟩ = (.ok (), s) ∧
    System.Sleeps .still 25 0 bootedSystem s := by
  obtain ⟨adopts, comes, current, inside⟩ :
      ((System.onKernel (tryTable Table.adoptBoot)).runFrom (⟨freshKernel, ()⟩ : System Unit)).1.toBool = true ∧
        (bootSleeps.runFrom ⟨freshKernel, ()⟩).1.toBool = true ∧ bootedSystem.kernel.table.current = some 0 ∧
        0 < bootedSystem.kernel.table.tasks.size := by decide +kernel
  obtain ⟨pid, adopted⟩ := exists_of_toBool adopts
  obtain ⟨⟨⟩, ran⟩ := exists_of_toBool comes
  refine ⟨_, ran, .tick _, .pure (), by decide, current, inside, ?_⟩
  rw [bootSleeps, runFrom_bind, adopted]
  rfl

end KernelCore
