import KernelCore.Kernel.State
import KernelCore.Proofs.Task.Aspects

namespace KernelCore

namespace Table
open Machine
variable {t t' u : Table} {i wake : Nat} {new : Task}

/-- The same tasks sleep in both tables, until the same ticks. -/
def SameSleepers (t t' : Table) : Prop :=
  ∀ i wake, t'.stateAt i = some (.blocked wake) ↔ t.stateAt i = some (.blocked wake)

/-- Before there is a running task nobody sleeps. -/
def Vacant (t : Table) : Prop := t.current = none → ∀ i wake, t.stateAt i ≠ some (.blocked wake)

/-- The deadline of a task that sleeps. -/
def deadline (task : Task) : Option Nat := task.state.wake?

theorem lasting_deadline : Task.Lasting deadline where
  linked _ _ := rfl
  saved _ _ := rfl
  turned task state scheduled before after := by
    unfold deadline
    have none : ∀ state : TaskState, state.isRunnable = true → state.wake? = none := by
      intro state runnable
      cases state <;> simp_all [TaskState.isRunnable, TaskState.wake?]
    rw [none state after, none task.state before]

theorem stateAt_eq_blocked_iff : t.stateAt i = some (.blocked wake) ↔ (t.view deadline)[i]? = some (some wake) := by
  rw [getElem?_view, stateAt]
  cases t.tasks[i]? with
  | none => simp
  | some task => cases is : task.state <;> simp [deadline, TaskState.wake?, is]

theorem sameSleepers_of_view (same : t'.view deadline = t.view deadline) : t.SameSleepers t' := by
  intro i wake
  rw [stateAt_eq_blocked_iff, stateAt_eq_blocked_iff, same]

theorem sameSleepers_of_adds (adds : Adds deadline t new t') (ready : new.state = .ready) : t.SameSleepers t' := by
  intro i wake
  have none : deadline new = none := by rw [deadline, ready]; rfl
  rw [stateAt_eq_blocked_iff, stateAt_eq_blocked_iff, adds, none, List.getElem?_append]
  split
  · rfl
  · rename_i behind
    rw [List.getElem?_eq_none (Nat.not_lt.mp behind)]
    cases i - (t.view deadline).length <;> simp

theorem sameSleepers_of_tried (either : t'.view deadline = t.view deadline ∨ Adds deadline t new t')
    (ready : new.state = .ready) : t.SameSleepers t' :=
  either.elim sameSleepers_of_view fun adds => sameSleepers_of_adds adds ready

/-- Waking those whose time has come makes them ready, and leaves all other sleepers asleep. -/
theorem stateAt_woken (now : Nat) (asleep : t.stateAt i = some (.blocked wake)) :
    Table.stateAt { t with tasks := t.tasks.map (woken now) } i =
      some (if now < wake then .blocked wake else .ready) := by
  obtain ⟨task, here, state⟩ := exists_of_stateAt asleep
  have there : (t.tasks.map (woken now))[i]? = some (woken now task) := by rw [Array.getElem?_map, here, Option.map_some]
  have same : (woken now task).state = if now < wake then .blocked wake else .ready := by
    by_cases due : wake ≤ now
    · rw [woken, if_pos (by simpa [isDue, state] using due), if_neg (Nat.not_lt.mpr due)]
    · rw [woken, if_neg (by simpa [isDue, state] using due), if_pos (Nat.not_le.mp due), state]
  rw [stateAt, there, Option.map_some, same]

/-- Who sleeps after those were woken whose time has come slept before, and until later. -/
theorem asleep_of_woken {now : Nat}
    (asleep : Table.stateAt { t with tasks := t.tasks.map (woken now) } i = some (.blocked wake)) :
    t.stateAt i = some (.blocked wake) ∧ now < wake := by
  obtain ⟨task', there, state'⟩ := exists_of_stateAt asleep
  have mapped : (t.tasks[i]?).map (woken now) = some task' := by rw [← there, Array.getElem?_map]
  obtain ⟨task, here, rfl⟩ := Option.map_eq_some_iff.mp mapped
  have state : task.state = .blocked wake := by
    rcases (woken_cases now task).2 with same | ⟨-, ready⟩
    · rw [← same, state']
    · simp [ready] at state'
  have slept : t.stateAt i = some (.blocked wake) := by rw [stateAt, here, Option.map_some, state]
  refine ⟨slept, ?_⟩
  rw [stateAt_woken now slept] at asleep
  split at asleep
  · assumption
  · simp at asleep

/-- Nobody is woken or put to sleep, and a running task is not lost. -/
structure Undisturbed (t t' : Table) : Prop where
  sleepers : t.SameSleepers t'
  current : t'.current = none → t.current = none

theorem Undisturbed.refl (t : Table) : t.Undisturbed t := ⟨fun _ _ => Iff.rfl, id⟩

theorem Undisturbed.trans (first : t.Undisturbed u) (second : u.Undisturbed t') : t.Undisturbed t' :=
  ⟨fun i wake => (second.sleepers i wake).trans (first.sleepers i wake), fun none => first.current (second.current none)⟩

theorem undisturbed_of_view (same : t'.view deadline = t.view deadline) (current : t'.current = none → t.current = none) :
    t.Undisturbed t' := ⟨sameSleepers_of_view same, current⟩

theorem undisturbed_of_adds (adds : Adds deadline t new t') (ready : new.state = .ready)
    (current : t'.current = none → t.current = none) : t.Undisturbed t' := ⟨sameSleepers_of_adds adds ready, current⟩

theorem Vacant.undisturbed (vacant : t.Vacant) (undisturbed : t.Undisturbed t') : t'.Vacant :=
  fun none i wake asleep =>
    vacant (undisturbed.current none) i wake ((undisturbed.sleepers i wake).mp asleep)

theorem meets_adoptBoot_undisturbed : adoptBoot.run.Meets t (fun _ => t.Undisturbed) t.SameSleepers := by
  refine (meets_adoptBoot_view lasting_deadline.toSteady).mono ?_ fun _ either => sameSleepers_of_tried either rfl
  intro result t' post
  cases result with
  | error cause =>
    obtain rfl : t' = t := post
    exact .refl t'
  | ok pid =>
    obtain ⟨-, adds, now⟩ := post
    exact undisturbed_of_adds adds rfl fun none => by simp [now] at none

theorem meets_add_undisturbed (stack : Option Nat) (sp : Nat) (flags : TaskFlags) :
    (add stack sp flags).run.Meets t (fun _ => t.Undisturbed) t.SameSleepers := by
  refine (meets_add_view lasting_deadline.toSteady stack sp flags).mono ?_ fun _ either => sameSleepers_of_tried either rfl
  intro result t' post
  cases result with
  | error cause =>
    obtain rfl : t' = t := post
    exact .refl t'
  | ok pid => exact undisturbed_of_adds post.1 rfl fun none => post.2 ▸ none

theorem meets_adopt_undisturbed (stack sp : Nat) :
    (Kernel.adopt stack sp).run.Meets t (fun _ => t.Undisturbed) t.SameSleepers := by
  unfold Kernel.adopt
  refine meets_adoptBoot_undisturbed.run_bind ?_ fun _ _ undisturbed => undisturbed
  intro boot u first
  have second := (meets_add_undisturbed (some stack) sp TaskFlags.idle (t := u)).mono
    (fun _ _ undisturbed => first.trans undisturbed)
    fun _ same i wake => (same i wake).trans (first.sleepers i wake)
  exact second.run_bind (fun _ _ undisturbed => undisturbed) fun _ _ undisturbed => undisturbed

theorem meets_terminateCurrent_undisturbed (busy : t.Busy) :
    terminateCurrent.Meets t (fun _ => t.Undisturbed) fun _ => False := by
  unfold terminateCurrent
  rw [meets_bind, meets_get]
  cases now : t.current with
  | none => exact .refl t
  | some c =>
    obtain ⟨task, here, runs⟩ := exists_of_stateAt (busy c now)
    dsimp only
    rw [meets_bind, meets_get, meets_bind, slot_eq_ok_iff.mpr here, meets_lift_ok, meets_bind]
    refine meets_update_of here (undisturbed_of_view (view_put here ?_) fun none => ?_)
    · simp [deadline, runs, TaskState.wake?]
    · simp [put, now] at none

end Table
end KernelCore
