import KernelCore.Kernel.State
import KernelCore.Proofs.Task.Aspects

namespace KernelCore

/-- What counts of a task when it is to go on. -/
def Task.bearing (task : Task) : Nat × TaskFlags × Option Nat := (task.sp, task.flags, task.stack)

theorem Task.steady_bearing : Task.Steady Task.bearing := ⟨fun _ _ => rfl, fun _ _ _ _ _ => rfl⟩

namespace Table
open Machine
variable {t t' : Table}

theorem meets_blockCurrent_bearing (busy : t.Busy) (wake : Nat) :
    (blockCurrent wake).Meets t (fun _ t' => t'.view Task.bearing = t.view Task.bearing ∧ t'.current = t.current)
      fun _ => False := by
  unfold blockCurrent
  rw [meets_bind, meets_get]
  cases now : t.current with
  | none => exact ⟨rfl, now⟩
  | some c =>
    obtain ⟨task, here, -⟩ := exists_of_stateAt (busy c now)
    dsimp only
    rw [meets_bind]
    exact meets_update_of here ⟨view_put here rfl, now⟩

theorem meets_wakeDue_bearing (now : Nat) :
    (wakeDue now).Meets t (fun _ t' => t'.view Task.bearing = t.view Task.bearing ∧ t'.current = t.current)
      fun _ => False := by
  have same : ∀ task, Task.bearing (woken now task) = task.bearing := by
    intro task
    unfold woken
    split <;> rfl
  unfold wakeDue
  rw [meets_bind, meets_get, meets_bind, meets_set, meets_pure]
  refine ⟨?_, rfl⟩
  unfold view
  rw [Array.toList_map, List.map_map]
  exact List.map_congr_left fun task _ => same task

/-- The running task exits, and gives up its stack. -/
theorem meets_terminateCurrent_bearing (busy : t.Busy) :
    terminateCurrent.Meets t (fun _ t' => t'.current = t.current ∧ t'.tasks.size = t.tasks.size ∧
      ∀ (i : Nat) (task' : Task), t'.tasks[i]? = some task' → ∃ task : Task, t.tasks[i]? = some task ∧
        task'.sp = task.sp ∧ task'.flags = task.flags ∧ (t.current ≠ some i → task'.stack = task.stack))
      fun _ => False := by
  unfold terminateCurrent
  rw [meets_bind, meets_get]
  cases now : t.current with
  | none => exact ⟨now, rfl, fun i task here => ⟨task, here, rfl, rfl, fun _ => rfl⟩⟩
  | some c =>
    obtain ⟨task, here, -⟩ := exists_of_stateAt (busy c now)
    dsimp only
    rw [meets_bind, meets_get, meets_bind, slot_eq_ok_iff.mpr here, meets_lift_ok, meets_bind]
    refine meets_update_of here ⟨now, size_put .., ?_⟩
    intro i task' there
    rw [getElem?_put here] at there
    by_cases isCurrent : i = c
    · rw [if_pos isCurrent] at there
      obtain rfl := Option.some.inj there
      exact ⟨task, isCurrent ▸ here, rfl, rfl, fun other => absurd (congrArg some isCurrent.symm) other⟩
    · rw [if_neg isCurrent] at there
      exact ⟨task', there, rfl, rfl, fun _ => rfl⟩

/-- The boot task and the idle task are the first two tasks. -/
theorem meets_adopt_bearing (stack sp : Nat) :
    (Kernel.adopt stack sp).run.Meets t (fun result t' =>
      match result with
      | .ok _ => t.tasks.size = 0 ∧ t'.view Task.bearing = [(0, .boot, none), (sp, .idle, some stack)] ∧
          t'.current = some 0
      | .error _ => t' = t ∨ t.tasks.size = 0 ∧ t'.view Task.bearing = [(0, .boot, none)] ∧ t'.current = some 0)
      fun _ => True := by
  unfold Kernel.adopt
  refine ((meets_adoptBoot_view Task.steady_bearing).mono (fun _ _ => id) fun _ _ => trivial).run_bind ?_
    fun _ _ => Or.inl
  rintro boot u ⟨empty, adds, now⟩
  have nobody : t.view Task.bearing = [] := List.eq_nil_of_length_eq_zero ((size_view ..).trans empty)
  have first : u.view Task.bearing = [(0, .boot, none)] := by rw [adds, nobody]; rfl
  refine ((meets_add_view Task.steady_bearing (some stack) sp .idle).mono (fun _ _ => id) fun _ _ => trivial).run_bind
    ?_ ?_
  · rintro idle v ⟨second, same⟩
    refine ⟨empty, ?_, same.trans now⟩
    rw [second, first]
    rfl
  · rintro cause v refused
    obtain rfl : v = u := refused
    exact Or.inr ⟨empty, first, now⟩

end Table
end KernelCore
