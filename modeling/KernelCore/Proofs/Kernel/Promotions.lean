import KernelCore.Proofs.Kernel.Chronicles
import KernelCore.Proofs.Task.Promotions

namespace KernelCore
open Machine Kernel Table

/-- The counts agree with the tables so far. -/
structure Accounted (tables : List Table) (t : Table) : Prop where
  reached : t.Reached
  credited : Credited tables t

section
variable {α : Type} {tables : List Table} {t : Table} {action : Machine Table α} {stopped : Table → Prop}

theorem Accounted.meets (accounted : Accounted tables t) (attains : action.Meets t (fun _ => Reached) stopped)
    (credits : action.Meets t (fun _ => t.Credits) stopped) :
    action.Meets t (fun _ u => Accounted (tables ++ [u]) u) stopped :=
  (attains.and credits).mono (fun _ _ both => ⟨both.1, accounted.credited.concat both.2⟩) fun _ => id

theorem Accounted.meets_unpromoted (accounted : Accounted tables t)
    (attains : action.Meets t (fun _ => Reached) stopped)
    (unpromoted : action.Meets t (fun _ => t.Unpromoted) t.Unpromoted) :
    action.Meets t (fun _ u => Accounted (tables ++ [u]) u) fun u => stopped u ∧ t.Unpromoted u :=
  (attains.both unpromoted).mono (fun _ _ both => ⟨both.1, accounted.credited.concat both.2.credits⟩) fun _ => id

end

theorem chronicle_accounted : Chronicle Accounted where
  empty := ⟨.empty, credited_nil⟩
  dispatches _ _ _ accounted orderly eligible :=
    accounted.meets (accounted.reached.meets_dispatch eligible) (orderly.meets_dispatch_credits eligible.lt_size)
  saves _ _ i sp accounted := by
    have saves := accounted.meets_unpromoted (accounted.reached.meets_saveStackPointer i sp)
      (meets_saveStackPointer_unpromoted i sp)
    exact saves.mono (fun _ _ => id) fun _ ⟨reached, unpromoted⟩ =>
      ⟨reached, accounted.credited.concat unpromoted.credits⟩
  sleeps _ _ wake _ accounted _ _ := by
    have blocks := accounted.reached.meets_blockCurrent wake
    exact (accounted.meets_unpromoted blocks (meets_blockCurrent_unpromoted wake)).mono (fun _ _ => id) fun _ => And.left
  ends _ _ accounted _ _ := by
    have ends := accounted.reached.meets_terminateCurrent
    exact (accounted.meets_unpromoted ends meets_terminateCurrent_unpromoted).mono (fun _ _ => id) fun _ => And.left
  wakes _ _ now accounted := by
    have wakes := accounted.reached.meets_wakeDue now
    exact (accounted.meets_unpromoted wakes (meets_wakeDue_unpromoted now)).mono (fun _ _ => id) fun _ => And.left
  boots _ _ accounted :=
    accounted.meets accounted.reached.meets_adoptBoot accounted.reached.regular.meets_adoptBoot_credits
  founds _ _ stack sp accounted := accounted.meets (accounted.reached.meets_adopt stack sp)
    (accounted.reached.regular.meets_adopt_credits stack sp)
  adds _ _ stack sp accounted := by
    have adds := meets_add_unpromoted accounted.reached.regular (some stack) sp .none
    exact accounted.meets (accounted.reached.meets_add (some stack) sp .none)
      (adds.mono (fun _ _ => Unpromoted.credits) fun _ => id)

/-- Along every run of a program, and in every sequence of operations on a table, a task is counted as often as it is
promoted, except for the promotions that give the processor back to a task that never lost it. -/
theorem promotions_eq_scheduled_add_resumptions {ω α : Type} {program : Machine (System ω) α}
    (isProgram : Program program) {m : Memory} {cpu : Processor} (unused : cpu.trace = #[]) {outside : ω}
    {outcome : Except Fault α} {s : System ω} (ran : program.runFrom ⟨Kernel.initial m cpu, outside⟩ = (outcome, s))
    {steps : List Step} (possible : Possible Table.empty steps) (i : Nat) :
    promotions i s.kernel.story.tables = s.kernel.table.scheduledAt i + resumptions i s.kernel.story.tables ∧
      promotions i (trail Table.empty steps) =
        ((carryOut steps).runFrom Table.empty).2.scheduledAt i + resumptions i (trail Table.empty steps) := by
  have accounted : Accounted s.kernel.story.tables s.kernel.table := chronicle_accounted.recorded isProgram unused ran
  have orderly : Table.empty.Orderly := ⟨by simp [Table.empty], by simp [Table.empty, stateAt]⟩
  exact ⟨accounted.credited.counts i, (credited_nil.trail Reached.empty.regular orderly possible).counts i⟩

/-- The first task sleeps, wakes, and gets the processor back from nobody. -/
def sleepAndResume : List Step := [.adopt, .block 1, .wake 1, .dispatch 0]

/-- The count misses the promotion that ends a sleep in which no other task ran. -/
theorem resumption_uncounted :
    Possible Table.empty sleepAndResume ∧ promotions 0 (trail Table.empty sleepAndResume) = 2 ∧
    ((carryOut sleepAndResume).runFrom Table.empty).2.scheduledAt 0 = 1 ∧
    promotions 0 (bootSleeps.runFrom ⟨freshKernel, ()⟩).2.kernel.story.tables = 2 ∧
    (bootSleeps.runFrom ⟨freshKernel, ()⟩).2.kernel.table.scheduledAt 0 = 1 := by
  decide +kernel

theorem promotions_of_sleep_and_resume : ∃ s, bootSleeps.runFrom ⟨freshKernel, ()⟩ = (.ok (), s) ∧
    promotions 0 s.kernel.story.tables = s.kernel.table.scheduledAt 0 + resumptions 0 s.kernel.story.tables ∧
    resumptions 0 s.kernel.story.tables = 1 ∧ Possible Table.empty sleepAndResume ∧
    promotions 0 (trail Table.empty sleepAndResume) =
      ((carryOut sleepAndResume).runFrom Table.empty).2.scheduledAt 0 +
        resumptions 0 (trail Table.empty sleepAndResume) := by
  have comes : (bootSleeps.runFrom ⟨freshKernel, ()⟩).1.toBool = true := by decide +kernel
  have resumed : resumptions 0 (bootSleeps.runFrom ⟨freshKernel, ()⟩).2.kernel.story.tables = 1 := by decide +kernel
  have possible : Possible Table.empty sleepAndResume := by decide +kernel
  obtain ⟨⟨⟩, ran⟩ := exists_of_toBool comes
  obtain ⟨runs, operations⟩ := promotions_eq_scheduled_add_resumptions program_bootSleeps rfl ran possible 0
  exact ⟨_, ran, runs, resumed, possible, operations⟩

end KernelCore
