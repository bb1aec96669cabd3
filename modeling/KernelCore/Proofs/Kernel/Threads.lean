import KernelCore.Proofs.Kernel.Regimen
import KernelCore.Proofs.Kernel.Succession
import KernelCore.Proofs.Task.Bearings

namespace KernelCore
open Machine

namespace Kernel
open Table
variable {marks : Landmarks} {c c' : Option Nat} {holdings given : List Holding} {k k' : Kernel} {i : Nat}
  {task task' : Task} {t : Table}

/-- The task never had the processor, and its frame lies on its stack. -/
structure Fresh (marks : Landmarks) (k : Kernel) (i : Nat) (task : Task) : Prop where
  never : ¬k.story.Entered i
  unsaved : k.story.lastSaved i = none
  other : task.flags.contains TaskFlags.boot = false
  frame : ∃ stack entry arg, task.stack = some stack ∧ k.story.Prepared i task.sp entry arg ∧
    Frame.LiesAt k.arena.memory stack Config.taskStackSize task.sp ⟨entry, arg, marks.onReturn, marks.trampoline⟩

/-- The task had the processor before. If it does not have it now, its stack pointer is the one that was saved. -/
structure Worn (c : Option Nat) (k : Kernel) (i : Nat) (task : Task) : Prop where
  ran : k.story.Entered i ∨ task.flags.contains TaskFlags.boot = true
  saved : c = some i ∨ k.story.lastSaved i = some task.sp ∧ task.sp ≠ 0

/-- The task in a slot can go on once the one that has the processor, if any, gives it away. -/
def Ready (marks : Landmarks) (c : Option Nat) (k : Kernel) (i : Nat) (task : Task) : Prop :=
  c ≠ some i ∧ k.Fresh marks i task ∨ k.Worn c i task

/-- Every task can go on. -/
structure Threads (marks : Landmarks) (c : Option Nat) (holdings : List Holding) (k : Kernel) : Prop where
  owns : k.Owns holdings
  landmarks : k.cpu.landmarks = marks
  ready : ∀ (i : Nat) (task : Task), k.table.tasks[i]? = some task → Ready marks c k i task
  unborn : ∀ i, k.table.tasks.size ≤ i → ¬k.story.Entered i ∧ k.story.lastSaved i = none

/-- Nobody got the processor, and the stacks of the tasks that do not have it hold what they held. -/
structure Tends (c : Option Nat) (k k' : Kernel) : Prop where
  landmarks : k'.cpu.landmarks = k.cpu.landmarks
  story : ∃ more : Story, k'.story = k.story ++ more ∧ more.Still
  bytes : ∀ (i : Nat) (task : Task) (stack : Nat), k.table.tasks[i]? = some task → c ≠ some i →
    task.stack = some stack → ∀ addr, stack ≤ addr → addr < stack + Config.taskStackSize →
    k'.arena.memory.byte addr = k.arena.memory.byte addr

theorem tends_of_retains (landmarks : k'.cpu.landmarks = k.cpu.landmarks)
    (story : ∃ more : Story, k'.story = k.story ++ more ∧ more.Still)
    (retains : k.arena.Retains k.table.ownedStacks k'.arena) : k.Tends c k' := by
  refine ⟨landmarks, story, ?_⟩
  intro i task stack here _ own
  refine retains (.ofStack stack) (List.mem_filterMap.mpr ⟨task, ?_, ?_⟩)
  · exact Array.mem_toList_iff.mpr (Array.mem_of_getElem? here)
  · rw [Task.lodging, own, Option.map_some]

theorem tends_of_arena (landmarks : k'.cpu.landmarks = k.cpu.landmarks)
    (story : ∃ more : Story, k'.story = k.story ++ more ∧ more.Still) (arena : k'.arena = k.arena) : k.Tends c k' :=
  tends_of_retains landmarks story fun _ _ _ _ _ => by rw [arena]

theorem Idles.tends (idles : k.Idles k') : k.Tends c k' := by
  obtain ⟨more, story, idle⟩ := idles.story
  exact tends_of_arena idles.landmarks ⟨more, story, Story.still_of_idle idle⟩ idles.arena

theorem tends_withTable (k : Kernel) (t : Table) : k.Tends c (k.withTable t) :=
  tends_of_arena rfl ⟨[.table t], story_withTable k t, Story.still_singleton id⟩ rfl

/-- A task can still go on if nobody else touched what it needs. -/
theorem Ready.tends (ready : Ready marks c k i task) (tends : k.Tends c k') (here : k.table.tasks[i]? = some task)
    (sp : task'.sp = task.sp) (flags : task'.flags = task.flags) (stack : c ≠ some i → task'.stack = task.stack) :
    Ready marks c k' i task' := by
  obtain ⟨more, story, still⟩ := tends.story
  have entered : k'.story.Entered i ↔ k.story.Entered i := by
    rw [story]
    exact Story.entered_append still
  have saved : k'.story.lastSaved i = k.story.lastSaved i := by rw [story, Story.lastSaved_append still]
  rcases ready with ⟨apart, never, unsaved, other, stackAddr, entry, arg, own, prepared, frame⟩ | ⟨ran, kept⟩
  · refine Or.inl ⟨apart, mt entered.mp never, saved.trans unsaved, flags ▸ other, stackAddr, entry, arg,
      (stack apart).trans own, ?_, ?_⟩
    · rw [story, sp]
      exact prepared.append more
    · rw [sp]
      exact frame.congr (tends.bytes i task stackAddr here apart own)
  · refine Or.inr ⟨ran.imp entered.mpr fun boot => flags ▸ boot, kept.imp_right fun ⟨value, positive⟩ => ?_⟩
    rw [saved, sp]
    exact ⟨value, positive⟩

/-- Each task is as it was, but for one that may have lost its stack while it has the processor, or is new. -/
theorem Threads.become (threads : k.Threads marks c holdings) (tends : k.Tends c k') (owns : k'.Owns given)
    (sizes : k.table.tasks.size ≤ k'.table.tasks.size)
    (current : ∀ i, i < k.table.tasks.size → (c' = some i ↔ c = some i))
    (old : ∀ (i : Nat) (task' : Task), i < k.table.tasks.size → k'.table.tasks[i]? = some task' → ∃ task : Task,
      k.table.tasks[i]? = some task ∧ task'.sp = task.sp ∧ task'.flags = task.flags ∧
        (c ≠ some i → task'.stack = task.stack))
    (new : ∀ (i : Nat) (task : Task), k.table.tasks.size ≤ i → k'.table.tasks[i]? = some task →
      Ready marks c' k' i task) : k'.Threads marks c' given where
  owns := owns
  landmarks := tends.landmarks.trans threads.landmarks
  ready i task' there := by
    rcases Nat.lt_or_ge i k.table.tasks.size with inside | behind
    · obtain ⟨task, here, sp, flags, stack⟩ := old i task' inside there
      have ready := (threads.ready i task here).tends tends here sp flags stack
      have same := current i inside
      refine ready.imp (fun ⟨apart, fresh⟩ => ⟨mt same.mp apart, fresh⟩) fun ⟨ran, kept⟩ => ?_
      exact ⟨ran, kept.imp_left same.mpr⟩
    · exact new i task' behind there
  unborn i behind := by
    obtain ⟨more, story, still⟩ := tends.story
    obtain ⟨never, unsaved⟩ := threads.unborn i (Nat.le_trans sizes behind)
    rw [story, Story.entered_append still, Story.lastSaved_append still]
    exact ⟨never, unsaved⟩

/-- The tasks that there are show what they showed, and others are new. -/
theorem Threads.grow {extra : List (Nat × TaskFlags × Option Nat)} (threads : k.Threads marks c holdings)
    (tends : k.Tends c k') (owns : k'.Owns given)
    (view : k'.table.view Task.bearing = k.table.view Task.bearing ++ extra)
    (current : ∀ i, i < k.table.tasks.size → (c' = some i ↔ c = some i))
    (new : ∀ (i : Nat) (task : Task), extra[i]? = some task.bearing →
      Ready marks c' k' (k.table.tasks.size + i) task) : k'.Threads marks c' given := by
  have sizes := congrArg List.length view
  rw [List.length_append, size_view, size_view] at sizes
  have shown : ∀ (i : Nat) (task : Task), k'.table.tasks[i]? = some task →
      (k.table.view Task.bearing ++ extra)[i]? = some task.bearing := by
    intro i task there
    rw [← view, getElem?_view, there, Option.map_some]
  refine threads.become tends owns (by omega) current ?_ ?_
  · intro i task' inside there
    have bearing := shown i task' there
    rw [List.getElem?_append_left (by rwa [size_view]), getElem?_view] at bearing
    obtain ⟨task, here, same⟩ := Option.map_eq_some_iff.mp bearing
    obtain ⟨sp, both⟩ := Prod.mk.inj same
    obtain ⟨flags, stack⟩ := Prod.mk.inj both
    exact ⟨task, here, sp.symm, flags.symm, fun _ => stack.symm⟩
  · intro i task behind there
    have bearing := shown i task there
    rw [List.getElem?_append_right (by rwa [size_view]), size_view] at bearing
    have isNew := new (i - k.table.tasks.size) task bearing
    rwa [Nat.add_sub_cancel' behind] at isNew

/-- No task is new, and none has changed as far as it counts. -/
theorem Threads.keep (threads : k.Threads marks c holdings) (tends : k.Tends c k') (owns : k'.Owns given)
    (view : k'.table.view Task.bearing = k.table.view Task.bearing) : k'.Threads marks c given := by
  have nobody : k'.table.view Task.bearing = k.table.view Task.bearing ++ [] := by rw [view, List.append_nil]
  exact threads.grow tends owns nobody (fun _ _ => Iff.rfl) (by simp)

end Kernel
end KernelCore
