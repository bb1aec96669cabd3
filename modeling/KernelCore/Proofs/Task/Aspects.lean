import KernelCore.Proofs.Task.Changes

namespace KernelCore

/-- An aspect of a task that stays when the task is linked into the ring, or given the processor, or has to
give it up. -/
structure Task.Steady {β : Type} (aspect : Task → β) : Prop where
  linked : ∀ (task : Task) (next : Nat), aspect { task with next } = aspect task
  turned : ∀ (task : Task) (state : TaskState) (scheduled : Nat), task.state.isRunnable = true →
    state.isRunnable = true → aspect { task with state, scheduled } = aspect task

/-- A steady aspect that does not show the saved stack pointer. -/
structure Task.Lasting {β : Type} (aspect : Task → β) : Prop extends Task.Steady aspect where
  saved : ∀ (task : Task) (sp : Nat), aspect { task with sp } = aspect task

/-- A task that has to give up the processor becomes ready if it was running. -/
theorem Task.Steady.replaced {β : Type} {aspect : Task → β} (steady : Task.Steady aspect) (task : Task) :
    aspect { task with state := if task.state = .running then .ready else task.state } = aspect task := by
  by_cases ran : task.state = .running
  · have runnable : task.state.isRunnable = true := by rw [ran]; rfl
    rw [if_pos ran]
    exact steady.turned task .ready task.scheduled runnable rfl
  · rw [if_neg ran]

namespace Table
open Machine TaskState
variable {β : Type} {aspect : Task → β} {t t' u : Table} {i c : Nat} {task new : Task} {stack : Option Nat}
  {sp : Nat} {flags : TaskFlags}

/-- What the tasks show of an aspect, by slot. -/
def view (aspect : Task → β) (t : Table) : List β := t.tasks.toList.map aspect

theorem getElem?_view (aspect : Task → β) (t : Table) (i : Nat) :
    (t.view aspect)[i]? = t.tasks[i]?.map aspect := by
  rw [view, List.getElem?_map, Array.getElem?_toList]

theorem size_view (aspect : Task → β) (t : Table) : (t.view aspect).length = t.tasks.size := by
  rw [view, List.length_map, Array.length_toList]

theorem view_put (here : t.tasks[i]? = some task) (same : aspect new = aspect task) :
    (t.put i new).view aspect = t.view aspect := by
  refine List.ext_getElem? ?_
  intro j
  rw [getElem?_view, getElem?_view, getElem?_put here]
  by_cases isSlot : j = i
  · rw [if_pos isSlot, isSlot, here, Option.map_some, Option.map_some, same]
  · rw [if_neg isSlot]

theorem meets_update_view {change : Task → Task} (same : ∀ task, aspect (change task) = aspect task) :
    (update i change).Meets t (fun _ t' => t'.view aspect = t.view aspect ∧ t'.current = t.current)
      fun t' => t'.view aspect = t.view aspect :=
  meets_update (fun task here => ⟨view_put here (same task), rfl⟩) rfl

theorem meets_saveStackPointer_view (lasting : Task.Lasting aspect) (i sp : Nat) :
    (saveStackPointer i sp).Meets t (fun _ t' => t'.view aspect = t.view aspect ∧ t'.current = t.current)
      fun t' => t'.view aspect = t.view aspect :=
  meets_update_view fun task => lasting.saved task sp

theorem meets_dispatch_view (steady : Task.Steady aspect) (orderly : t.Orderly) (eligible : t.Eligible i) :
    (dispatch i).Meets t (fun _ t' => t'.view aspect = t.view aspect ∧ t'.current = some i) fun _ => False := by
  unfold dispatch
  rw [meets_bind, meets_get]
  rcases eligible with ⟨now, state, here, runnable⟩ | ⟨c, now, other, ready⟩
  · obtain ⟨task, atI, rfl⟩ := exists_of_stateAt here
    simp only [now, if_true]
    rw [meets_bind]
    exact meets_update_of atI ⟨view_put atI (steady.turned task .running task.scheduled runnable rfl), now⟩
  · obtain ⟨outgoing, atC⟩ := orderly.exists_task now
    obtain ⟨incoming, atI, isReady⟩ := exists_of_stateAt ready
    simp only [now, other, if_false]
    rw [meets_bind]
    refine meets_update_of atC ?_
    have still := getElem?_put atC { outgoing with
      state := if outgoing.state = .running then .ready else outgoing.state } i
    rw [if_neg other, atI] at still
    rw [meets_bind, meets_get, meets_bind, slot_eq_ok_iff.mpr still, meets_lift_ok, meets_bind]
    refine meets_update_of still ?_
    have runnable : incoming.state.isRunnable = true := by rw [isReady]; rfl
    have taken := view_put still (steady.turned incoming .running (incoming.scheduled + 1) runnable rfl)
    rw [meets_bind, meets_modify, meets_pure]
    exact ⟨taken.trans (view_put atC (steady.replaced outgoing)), rfl⟩

theorem meets_link_view (steady : Task.Steady aspect) (i : Nat) :
    (link i).Meets t (fun _ t' => t'.view aspect = t.view aspect ∧ t'.current = t.current)
      fun t' => t'.view aspect = t.view aspect := by
  have linked : ∀ (u : Table) (i next : Nat), u.view aspect = t.view aspect ∧ u.current = t.current →
      (update i fun task => { task with next }).Meets u
        (fun _ t' => t'.view aspect = t.view aspect ∧ t'.current = t.current)
        fun t' => t'.view aspect = t.view aspect := by
    intro u i next same
    have sets := meets_update_view (t := u) (i := i) fun task => steady.linked task next
    exact sets.mono (fun _ _ kept => ⟨kept.1.trans same.1, kept.2.trans same.2⟩) fun _ kept => kept.trans same.1
  unfold link
  rw [meets_bind, meets_get]
  cases t.tail with
  | none => exact (linked t i i ⟨rfl, rfl⟩).bind fun _ _ kept => kept
  | some tail =>
    dsimp only
    rw [meets_bind]
    cases t.slot tail with
    | error fault => exact rfl
    | ok last =>
      rw [meets_lift_ok]
      refine (linked t i last.next ⟨rfl, rfl⟩).bind ?_
      intro _ u kept
      exact (linked u tail i kept).bind fun _ _ both => both

/-- A task whose slot has just been handed out. -/
def fresh (t : Table) (stack : Option Nat) (sp : Nat) (flags : TaskFlags) : Task :=
  ⟨t.tasks.size + 1, .ready, flags, sp, stack, 0, 0⟩

/-- A table has one more task than another, and that one is new; all others are as they were. -/
def Adds (aspect : Task → β) (t : Table) (new : Task) (t' : Table) : Prop :=
  t'.view aspect = t.view aspect ++ [aspect new]

theorem meets_insert_view (steady : Task.Steady aspect) (stack : Option Nat) (sp : Nat) (flags : TaskFlags) :
    (insert stack sp flags).run.Meets t (fun result t' =>
      match result with
      | .ok i => i = t.tasks.size ∧ Adds aspect t (t.fresh stack sp flags) t' ∧ t'.current = t.current
      | .error _ => t' = t) (Adds aspect t (t.fresh stack sp flags)) := by
  unfold insert
  rw [meets_run_bind, meets_run_get]
  dsimp only
  by_cases full : t.isFull = true
  · rw [if_pos full]
    exact rfl
  rw [if_neg full]
  have pushed : Adds aspect t (t.fresh stack sp flags) { t with tasks := t.tasks.push (t.fresh stack sp flags) } := by
    simp [Adds, view]
  rw [meets_run_bind_of_attempt (attempt_modify ..), meets_run_bind, meets_run_lift]
  refine (meets_link_view steady _).mono ?_ fun _ same => same.trans pushed
  intro _ t' same
  exact ⟨rfl, same.1.trans pushed, same.2⟩

theorem Adds.exists_task (adds : Adds aspect t new t') : ∃ task, t'.tasks[t.tasks.size]? = some task := by
  have longer := congrArg List.length adds
  rw [List.length_append, List.length_singleton, size_view, size_view] at longer
  exact ⟨_, Array.getElem?_eq_getElem (by omega)⟩

theorem meets_add_view (steady : Task.Steady aspect) (stack : Option Nat) (sp : Nat) (flags : TaskFlags) :
    (add stack sp flags).run.Meets t (fun result t' =>
      match result with
      | .ok _ => Adds aspect t (t.fresh stack sp flags) t' ∧ t'.current = t.current
      | .error _ => t' = t) fun t' => t'.view aspect = t.view aspect ∨ Adds aspect t (t.fresh stack sp flags) t' := by
  unfold add
  rw [meets_run_bind, meets_run_get]
  dsimp only
  by_cases uninitialized : t.current.isNone = true
  · rw [if_pos uninitialized]
    exact rfl
  rw [if_neg uninitialized]
  refine ((meets_insert_view steady stack sp flags).mono (fun _ _ => id) fun _ => Or.inr).run_bind ?_
    fun _ _ refused => refused
  rintro i u ⟨-, added, current⟩
  have finish : ∀ v : Table, v.view aspect = u.view aspect → v.current = u.current →
      (do let v ← get; let task ← liftM (v.slot i); pure task.pid : TableAction Nat).run.Meets v (fun result t' =>
        match result with
        | .ok _ => Adds aspect t (t.fresh stack sp flags) t' ∧ t'.current = t.current
        | .error _ => t' = t) fun t' => t'.view aspect = t.view aspect ∨ Adds aspect t (t.fresh stack sp flags) t' := by
    intro v same sameCurrent
    rw [meets_run_bind, meets_run_get]
    dsimp only
    rw [meets_run_bind, meets_run_lift_outcome]
    cases v.slot i with
    | error fault => exact Or.inr (same.trans added)
    | ok task => exact ⟨same.trans added, sameCurrent.trans current⟩
  split
  · rw [meets_run_bind_of_attempt (attempt_modify ..)]
    exact finish _ rfl rfl
  · exact finish u rfl rfl

theorem meets_adoptBoot_view (steady : Task.Steady aspect) :
    adoptBoot.run.Meets t (fun result t' =>
      match result with
      | .ok _ => t.tasks.size = 0 ∧ Adds aspect t (t.fresh none 0 .boot) t' ∧ t'.current = some 0
      | .error _ => t' = t) fun t' => t'.view aspect = t.view aspect ∨ Adds aspect t (t.fresh none 0 .boot) t' := by
  unfold adoptBoot
  rw [meets_run_bind, meets_run_get]
  dsimp only
  by_cases used : 0 < t.tasks.size
  · rw [if_pos used]
    exact rfl
  rw [if_neg used]
  have empty : t.tasks.size = 0 := Nat.eq_zero_of_not_pos used
  refine (((meets_insert_view steady none 0 .boot).both (meets_insert none 0 .boot)).mono (fun _ _ => id)
    fun _ stopped => Or.inr stopped.1).run_bind ?_ fun _ _ refused => refused.1
  rintro i u ⟨⟨rfl, added, -⟩, grows, -⟩
  obtain ⟨task, here⟩ := added.exists_task
  have isReady : task.state = .ready := grows.starts _ task (Array.getElem?_eq_none (Nat.le_refl _)) here
  have runnable : task.state.isRunnable = true := by rw [isReady]; rfl
  rw [meets_run_bind, meets_run_lift]
  refine meets_update_of here ?_
  have runs := (view_put here (steady.turned task .running 1 runnable rfl)).trans added
  generalize u.put t.tasks.size { task with state := .running, scheduled := 1 } = v at runs
  rw [meets_run_bind, meets_run_get]
  dsimp only
  rw [meets_run_bind, meets_run_lift_outcome]
  cases v.slot t.tasks.size with
  | error fault => exact Or.inr runs
  | ok boot =>
    dsimp only
    rw [meets_run_bind_of_attempt (attempt_modify ..), meets_run_pure]
    exact ⟨empty, runs, congrArg some empty⟩

end Table
end KernelCore
