import KernelCore.Kernel.State
import KernelCore.Proofs.Heap.Tenancy
import KernelCore.Proofs.Task.Aspects

namespace KernelCore

/-- The memory that a stack is. -/
def Holding.ofStack (addr : Nat) : Holding := ⟨addr, Config.taskStackSize, false⟩

namespace Task

/-- The stack of a task, whether it is the boot task, and whether it has not exited. -/
def title (task : Task) : Option Nat × Bool × Bool :=
  (task.stack, task.flags.contains TaskFlags.boot, task.state.isAlive)

/-- The memory that the stack of a task is. -/
def lodging (task : Task) : Option Holding := task.stack.map Holding.ofStack

/-- The task in a slot has a stack of its own exactly if it is not the boot task and has not exited. No other
task than the first is the boot task. -/
def HousedAt (i : Nat) (task : Task) : Prop :=
  (task.stack.isSome = true ↔ task.flags.contains TaskFlags.boot = false ∧ task.state ≠ .terminated) ∧
    (task.flags.contains TaskFlags.boot = true → i = 0)

theorem lasting_title : Lasting title where
  linked _ _ := rfl
  saved _ _ := rfl
  turned task state scheduled before after := by
    have alive : ∀ state : TaskState, state.isRunnable = true → state.isAlive = true := by
      intro state runnable
      cases state <;> simp_all [TaskState.isRunnable, TaskState.isAlive]
    simp only [title, alive task.state before, alive state after]

theorem housedAt_iff (i : Nat) (task : Task) : task.HousedAt i ↔ (task.title.1.isSome = true ↔
    task.title.2.1 = false ∧ task.title.2.2 = true) ∧ (task.title.2.1 = true → i = 0) := by
  have alive : task.state ≠ .terminated ↔ task.state.isAlive = true := by
    cases task.state <;> simp [TaskState.isAlive]
  rw [HousedAt, alive]
  rfl

end Task

namespace Table
open Machine KernelCore.Task
variable {t t' u : Table} {c : Nat} {task new : Task} {stack sp : Nat} {flags : TaskFlags}

/-- The stacks of all tasks. -/
def ownedStacks (t : Table) : List Holding := t.tasks.toList.filterMap lodging

/-- Every task has the stack that it needs, and no other one. -/
def Housed (t : Table) : Prop := ∀ (i : Nat) (task : Task), t.tasks[i]? = some task → task.HousedAt i

theorem ownedStacks_eq (t : Table) :
    t.ownedStacks = (t.view title).filterMap fun shown => shown.1.map Holding.ofStack := by
  rw [ownedStacks, view, List.filterMap_map]
  rfl

theorem housed_iff (t : Table) : t.Housed ↔ ∀ i shown, (t.view title)[i]? = some shown →
    (shown.1.isSome = true ↔ shown.2.1 = false ∧ shown.2.2 = true) ∧ (shown.2.1 = true → i = 0) := by
  constructor
  · intro housed i shown there
    rw [getElem?_view] at there
    obtain ⟨task, here, rfl⟩ := Option.map_eq_some_iff.mp there
    exact (housedAt_iff i task).mp (housed i task here)
  · intro housed i task here
    refine (housedAt_iff i task).mpr (housed i _ ?_)
    rw [getElem?_view, here, Option.map_some]

/-- Stacks were given to tasks that are new, and all others have what they had. -/
structure Lodges (t : Table) (fresh : List Holding) (t' : Table) : Prop where
  given : t'.ownedStacks = t.ownedStacks ++ fresh
  housed : t.Housed → t'.Housed

theorem Lodges.refl (t : Table) : t.Lodges [] t := ⟨(List.append_nil _).symm, id⟩

theorem Lodges.trans {some more : List Holding} (first : t.Lodges some u) (second : u.Lodges more t') :
    t.Lodges (some ++ more) t' where
  given := by rw [second.given, first.given, List.append_assoc]
  housed housed := second.housed (first.housed housed)

theorem lodges_of_view (same : t'.view title = t.view title) : t.Lodges [] t' where
  given := by rw [List.append_nil, ownedStacks_eq, ownedStacks_eq, same]
  housed := by
    rw [housed_iff, housed_iff, same]
    exact id

theorem lodges_of_adds (adds : Adds title t new t') (housed : new.HousedAt t.tasks.size) :
    t.Lodges new.lodging.toList t' where
  given := by
    rw [ownedStacks_eq, ownedStacks_eq, adds, List.filterMap_append]
    cases stack : new.stack <;> simp [title, lodging, stack]
  housed all := by
    have slots := size_view title t
    rw [Table.housed_iff, adds]
    intro i shown there
    rcases Nat.lt_or_ge i t.tasks.size with old | behind
    · rw [List.getElem?_append_left (by omega)] at there
      exact (Table.housed_iff t).mp all i shown there
    · rw [List.getElem?_append_right (by omega), List.getElem?_singleton] at there
      split at there
      · obtain rfl : i = t.tasks.size := by omega
        exact Option.some.inj there ▸ (housedAt_iff _ new).mp housed
      · simp at there

/-- The boot task is the first one, and is housed in no stack. -/
theorem meets_adoptBoot_lodges : adoptBoot.run.Meets t (fun _ => t.Lodges []) fun _ => True := by
  refine (meets_adoptBoot_view lasting_title.toSteady).mono ?_ fun _ _ => trivial
  intro result t' post
  cases result with
  | error cause =>
    obtain rfl : t' = t := post
    exact .refl t'
  | ok pid =>
    obtain ⟨first, adds, -⟩ := post
    exact lodges_of_adds adds (by simp [HousedAt, fresh, TaskFlags.contains, TaskFlags.boot, first])

/-- A new task is housed in the stack that is handed in, or it is refused. -/
def Lodged {α : Type} (t : Table) (stack : Nat) (result : Except TaskError α) (t' : Table) : Prop :=
  match result with
  | .ok _ => t.Lodges [Holding.ofStack stack] t'
  | .error _ => t.Lodges [] t'

theorem meets_add_lodges (stack sp : Nat) (other : flags.contains TaskFlags.boot = false) :
    (add (some stack) sp flags).run.Meets t (t.Lodged stack) fun _ => True := by
  refine (meets_add_view lasting_title.toSteady (some stack) sp flags).mono ?_ fun _ _ => trivial
  intro result t' post
  cases result with
  | error cause =>
    obtain rfl : t' = t := post
    exact .refl t'
  | ok pid => exact lodges_of_adds post.1 (by simp [HousedAt, fresh, other])

theorem meets_adopt_lodges (stack sp : Nat) :
    (Kernel.adopt stack sp).run.Meets t (t.Lodged stack) fun _ => True := by
  unfold Kernel.adopt
  refine meets_adoptBoot_lodges.run_bind ?_ fun _ _ lodges => lodges
  intro boot u first
  refine (meets_add_lodges stack sp rfl).run_bind ?_ fun _ _ second => first.trans second
  intro idle v second
  exact first.trans second

theorem meets_blockCurrent_lodges (busy : t.Busy) (wake : Nat) :
    (blockCurrent wake).Meets t (fun _ => t.Lodges []) fun _ => False := by
  unfold blockCurrent
  rw [meets_bind, meets_get]
  cases now : t.current with
  | none => exact .refl t
  | some c =>
    obtain ⟨task, here, runs⟩ := exists_of_stateAt (busy c now)
    dsimp only
    rw [meets_bind]
    refine meets_update_of here (lodges_of_view (view_put here ?_))
    simp [title, runs, TaskState.isAlive]

theorem meets_wakeDue_lodges (now : Nat) : (wakeDue now).Meets t (fun _ => t.Lodges []) fun _ => False := by
  unfold wakeDue
  rw [meets_bind, meets_get, meets_bind, meets_set, meets_pure]
  refine lodges_of_view ?_
  have same : ∀ task, title (woken now task) = title task := by
    intro task
    unfold woken
    split
    · rename_i due
      cases is : task.state <;> simp_all [isDue, title, TaskState.isAlive]
    · rfl
  unfold view
  rw [Array.toList_map, List.map_map]
  exact List.map_congr_left fun task _ => same task

theorem Housed.put (housed : t.Housed) (here : t.tasks[i]? = some task) (fits : new.HousedAt i) : (t.put i new).Housed := by
  intro j other there
  rw [getElem?_put here] at there
  split at there
  · rename_i same
    exact same ▸ Option.some.inj there ▸ fits
  · exact housed j other there

/-- A task that gives up its stack is the only one that loses anything. -/
theorem perm_ownedStacks_put (here : t.tasks[i]? = some task) (gone : new.stack = none) :
    t.ownedStacks.Perm ((t.put i new).ownedStacks ++ task.lodging.toList) := by
  rw [← Array.getElem?_toList] at here
  obtain ⟨inside, same⟩ := List.getElem?_eq_some_iff.mp here
  have before : t.ownedStacks =
      (t.tasks.toList.take i ++ task :: t.tasks.toList.drop (i + 1)).filterMap lodging := by
    rw [← same, ← List.drop_eq_getElem_cons inside, List.take_append_drop]
    rfl
  have after : (t.put i new).ownedStacks =
      (t.tasks.toList.take i ++ new :: t.tasks.toList.drop (i + 1)).filterMap lodging := by
    rw [ownedStacks, Table.put, Array.toList_setIfInBounds, List.set_eq_take_append_cons_drop, if_pos inside]
  have nothing : lodging new = none := by rw [lodging, gone, Option.map_none]
  rw [before, after, List.filterMap_append, List.filterMap_append, List.filterMap_cons_none nothing]
  cases had : task.lodging with
  | none =>
    rw [List.filterMap_cons_none had, Option.toList_none, List.append_nil]
  | some stack =>
    rw [List.filterMap_cons_some had]
    exact List.perm_middle.trans (List.perm_append_singleton ..).symm

/-- The running task exits, and gives up its stack. -/
theorem meets_terminateCurrent_lodges (busy : t.Busy) :
    terminateCurrent.Meets t (fun stack t' => (t.Housed → t'.Housed) ∧
      t.ownedStacks.Perm (t'.ownedStacks ++ (stack.map Holding.ofStack).toList)) fun _ => False := by
  unfold terminateCurrent
  rw [meets_bind, meets_get]
  cases now : t.current with
  | none => exact ⟨id, by simp⟩
  | some c =>
    obtain ⟨task, here, -⟩ := exists_of_stateAt (busy c now)
    dsimp only
    rw [meets_bind, meets_get, meets_bind, slot_eq_ok_iff.mpr here, meets_lift_ok, meets_bind]
    refine meets_update_of here ?_
    rw [meets_pure]
    exact ⟨fun housed => housed.put here ⟨by simp, (housed c task here).2⟩, perm_ownedStacks_put here rfl⟩

end Table
end KernelCore
