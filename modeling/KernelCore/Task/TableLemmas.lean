import KernelCore.Task.Table

namespace KernelCore.Table
open Machine

theorem slot_of_lt {t : Table} {i : Nat} (inside : i < t.tasks.size) : t.slot i = .ok t.tasks[i] :=
  dif_pos inside

/-- A slot gives its task exactly if it has been handed out. -/
theorem slot_eq_ok_iff {t : Table} {i : Nat} {task : Task} :
    t.slot i = .ok task ↔ t.tasks[i]? = some task := by
  unfold slot
  split
  · simp [*]
  · split <;> simp_all

end KernelCore.Table
