import KernelCore.Kernel.State
import KernelCore.Proofs.Task.Steps

namespace KernelCore
open Machine

namespace Table
variable {t u : Table} {i : Nat} {task new : Task} {stack : Option Nat} {sp : Nat} {flags : TaskFlags}

/-- The table with one more task, which follows the last one of the ring. -/
def joined (t : Table) (new : Task) : Table :=
  { t with tasks := (t.tasks.mapIdx (relinked t.tasks.size)).push new, tail := some t.tasks.size }

theorem Grown.eq_joined (grown : t.Grown new u) (idle : u.idle = t.idle) : u = t.joined new := by
  have tasks : u.tasks = (t.tasks.mapIdx (relinked t.tasks.size)).push new := by
    refine Array.ext_getElem? fun j => ?_
    rw [grown.slots, Array.getElem?_push, Array.size_mapIdx, Array.getElem?_mapIdx]
  obtain ⟨tasks', current, idle', tail⟩ := u
  obtain rfl : tasks' = _ := tasks
  obtain rfl : current = t.current := grown.current
  obtain rfl : idle' = t.idle := idle
  obtain rfl : tail = some t.tasks.size := grown.tail
  rfl

theorem meets_update_idle (i : Nat) (change : Task → Task) :
    (update i change).Meets t (fun _ u => u.idle = t.idle) fun u => u.idle = t.idle :=
  meets_update (fun _ _ => rfl) rfl

theorem meets_link_idle (i : Nat) : (link i).Meets t (fun _ u => u.idle = t.idle) fun u => u.idle = t.idle := by
  unfold link
  rw [meets_bind, meets_get]
  cases t.tail with
  | none => exact (meets_update_idle i _).bind fun _ _ same => same
  | some tail =>
    dsimp only
    rw [meets_bind]
    cases t.slot tail with
    | error fault => exact rfl
    | ok last =>
      rw [meets_lift_ok]
      refine (meets_update_idle i _).bind ?_
      intro _ u same
      have again := (meets_update_idle (t := u) tail fun task => { task with next := i }).mono
        (fun _ _ kept => kept.trans same) fun _ kept => kept.trans same
      exact again.bind fun _ _ kept => kept

/-- Where there is a running task and a slot is left, a task is not refused. -/
theorem meets_add_accepted (somebody : t.current ≠ none) (room : t.isFull = false)
    (plain : flags.contains .idle = false) :
    (add stack sp flags).run.Meets t (fun result u => (∃ pid, result = .ok pid) ∧ u.idle = t.idle) fun _ => True := by
  unfold add insert
  rw [meets_run_bind, meets_run_get]
  dsimp only
  rw [if_neg (by simpa using somebody), meets_run_bind, meets_run_bind, meets_run_get]
  dsimp only
  rw [if_neg (by simp [room]), meets_run_bind_of_attempt (attempt_modify ..), meets_run_bind, meets_run_lift]
  refine (meets_link_idle _).mono ?_ fun _ _ => trivial
  intro _ u same
  rw [meets_run_pure, plain]
  dsimp only
  rw [if_neg (by simp), meets_run_bind, meets_run_get]
  dsimp only
  rw [meets_run_bind, meets_run_lift_outcome]
  cases u.slot t.tasks.size with
  | error fault => trivial
  | ok task => exact ⟨⟨task.pid, rfl⟩, same⟩

/-- It does not concern the tasks that there are, but that the last one of the ring is followed by it. -/
theorem Regular.runFrom_add (regular : t.Regular) (somebody : t.current ≠ none) (room : t.isFull = false)
    (plain : flags.contains .idle = false) : (add stack sp flags).run.runFrom t =
      (.ok (.ok (t.tasks.size + 1)), t.joined (t.fresh stack sp flags)) := by
  obtain ⟨result, u, ran, grown, ⟨pid, rfl⟩, idle⟩ := Meets.returns (((meets_add_grown regular.ringed stack sp flags).both
    (meets_add_accepted somebody room plain)).mono (fun _ _ => id) fun _ => And.left) fun _ => id
  obtain ⟨grown, -, -, rfl⟩ := grown
  rw [ran, grown.eq_joined idle]

/-- The task that runs already when the first tasks are made. -/
def bootTask : Task := ⟨1, .running, .boot, 0, none, 1, 1⟩

/-- The first task to fall back to. -/
def idleTask (stack sp : Nat) : Task := ⟨2, .ready, .idle, sp, some stack, 0, 0⟩

/-- The table with the boot task and the idle task. -/
def founded (stack sp : Nat) : Table := ⟨#[bootTask, idleTask stack sp], some 0, some 1, some 1⟩

/-- A table without tasks has nothing else in it, but perhaps the role of a task to fall back to. -/
theorem Regular.eq_of_vacant (regular : t.Regular) (vacant : t.tasks.size = 0) : t = ⟨#[], none, t.idle, none⟩ := by
  obtain ⟨tasks, current, idle, tail⟩ := t
  obtain rfl : tasks = #[] := Array.eq_empty_of_size_eq_zero vacant
  have nobody : current = none := by
    cases now : current with
    | none => rfl
    | some c => exact absurd (regular.manned.current c now) (Nat.not_lt_zero c)
  have last : tail = none := regular.ringed.tail
  rw [nobody, last]

theorem Regular.runFrom_adoptBoot (regular : t.Regular) (vacant : t.tasks.size = 0) :
    adoptBoot.run.runFrom t = (.ok (.ok 1), ⟨#[{ bootTask with next := 0 }], some 0, t.idle, some 0⟩) := by
  rw [regular.eq_of_vacant vacant]
  rfl

end Table

/-- The boot task and the idle task are the first two tasks. -/
theorem Table.Regular.runFrom_adopt {t : Table} (regular : t.Regular) (vacant : t.tasks.size = 0) (stack sp : Nat) :
    (Kernel.adopt stack sp).run.runFrom t = (.ok (.ok (1, 2)), founded stack sp) := by
  have boots : attempt Table.adoptBoot t = _ := regular.runFrom_adoptBoot vacant
  have idles : attempt (Table.add (some stack) sp .idle) ⟨#[{ bootTask with next := 0 }], some 0, t.idle, some 0⟩ =
      (.ok (.ok 2), founded stack sp) := rfl
  rw [runFrom_run, Kernel.adopt, attempt_bind, boots]
  dsimp only
  rw [attempt_bind, idles]
  rfl

end KernelCore
