import KernelCore.Proofs.Kernel.Stages
import KernelCore.Proofs.Kernel.Story

namespace KernelCore
open Machine

namespace Kernel
open Table
variable {α : Type} {k : Kernel} {ongoing : List Activity} {parked : Bool} {busy : Prop} {instruction : Instruction}

theorem Stands.note (stands : Stands ongoing parked busy k) (instruction : Instruction) (plain : instruction.IsPlain)
    (same : instruction.activities ongoing = ongoing) :
    Stands ongoing parked busy { k with cpu := k.cpu.note instruction } := by
  have noted : Stands (instruction.activities ongoing) parked busy { k with cpu := k.cpu.note instruction } :=
    stands.plain instruction plain (story_note k _).symm rfl rfl (by rw [same]; exact stands.awake)
  rwa [same] at noted

theorem meets_onArena_of_stands (stands : Stands ongoing parked busy k) (action : Machine Arena α) :
    (onArena action).Meets k (fun _ => Stands ongoing parked busy) Told := by
  have same : ∀ b, Stands ongoing parked busy (k.withArena b) := fun b => stands.congr rfl rfl rfl
  rw [meets_onArena]
  unfold Meets
  rcases action.runFrom k.arena with ⟨_ | a, b⟩
  · exact (same b).told
  · exact same b

theorem meets_report_of_stands (stands : Stands ongoing parked busy k) (notice : Notice) :
    (report notice).Meets k (fun _ => Stands ongoing parked busy) Told :=
  stands.congr rfl rfl rfl

theorem meets_prepareStack (stands : Stands ongoing parked busy k) (stack size entry arg : Nat) :
    (prepareStack stack size entry arg).Meets k (fun _ => Stands ongoing parked busy) Told :=
  meets_prepareStack_of (fun _ _ => stands.told) fun _ _ _ => (stands.note (.prepare ..) trivial rfl).congr rfl rfl rfl

theorem meets_newStack (stands : Stands ongoing parked busy k) (entry arg : Nat) :
    (newStack entry arg).Meets k (fun _ => Stands ongoing parked busy) Told := by
  obtain ⟨size, same⟩ : ∃ size, Config.taskStackSize = size := ⟨_, rfl⟩
  exact Meets.merged <| meets_newStack_of same (meets_onArena_of_stands stands _).splits
    (fun _ _ standsL => meets_report_of_stands standsL _)
    fun stack _ standsL => meets_prepareStack standsL stack size entry arg

theorem meets_releaseStack (stands : Stands ongoing parked busy k) (stack : Nat) :
    (releaseStack stack).Meets k (fun _ => Stands ongoing parked busy) Told :=
  meets_releaseStack_of (meets_onArena_of_stands stands _).splits fun _ _ standsL => meets_report_of_stands standsL _

theorem meets_onTable_of_stands {action : Machine Table α} {post : α → Table → Prop}
    (stands : Stands ongoing parked busy k)
    (meets : action.Meets k.table
      (fun a t => (Becomes (ongoing.head? = some .serving) k.table t ∧ t.Orderly) ∧ post a t)
      fun t => Becomes (ongoing.head? = some .serving) k.table t ∧ t.Orderly) :
    (onTable action).Meets k (fun a k' => Stands ongoing parked False k' ∧ post a k'.table) Told := by
  rw [meets_onTable]
  refine meets.mono ?_ fun t ⟨becomes, orderly⟩ => (stands.withTable becomes orderly False.elim).told
  rintro a t ⟨⟨becomes, orderly⟩, holds⟩
  exact ⟨stands.withTable becomes orderly False.elim, holds⟩

theorem Stands.settle (stands : Stands ongoing parked busy k) (runs : k.table.Busy) : Stands ongoing parked True k :=
  ⟨stands.told, stands.going, stands.flag, stands.awake, fun _ => runs⟩

theorem Stands.busy_of_uninitialized (stands : Stands ongoing parked busy k) (none : k.table.current = none) :
    Stands ongoing parked True k :=
  stands.settle fun c now => by simp [none] at now

theorem meets_adopt {t : Table} {serving : Prop} (orderly : t.Orderly) (runs : t.Busy) (stack sp : Nat) :
    (adopt stack sp).run.Meets t (fun _ t' => (Becomes serving t t' ∧ t'.Orderly) ∧ t'.Busy)
      fun t' => Becomes serving t t' ∧ t'.Orderly := by
  unfold adopt
  refine (meets_adoptBoot orderly runs).run_bind ?_ fun _ _ ⟨becomes, orderlyB, busyB⟩ => ⟨⟨becomes, orderlyB⟩, busyB⟩
  rintro boot u ⟨becomes, orderlyU, busyU⟩
  have idle := (meets_add (some stack) sp TaskFlags.idle (t := u)).mono
    (fun _ v grows => (⟨⟨becomes.extends grows, grows.orderly orderlyU⟩, grows.busy busyU⟩ :
      (Becomes serving t v ∧ v.Orderly) ∧ v.Busy))
    fun v grows => (⟨becomes.extends grows, grows.orderly orderlyU⟩ : Becomes serving t v ∧ v.Orderly)
  exact idle.run_bind (fun _ _ holds => holds) fun _ _ holds => holds

theorem meets_boot (stands : Stands ongoing parked True k) :
    boot.Meets k (fun _ => Stands ongoing parked True) Told := by
  refine meets_boot_of stands (meets_newStack stands _ _).splits ?_
    (fun stack _ standsL => meets_releaseStack standsL stack) fun _ notice _ standsL => meets_report_of_stands standsL notice
  intro stack sp l standsL
  refine Meets.splits ((meets_onTable_of_stands standsL
    (meets_adopt standsL.told.orderly (standsL.busy trivial) stack sp)).mono ?_ fun _ => id)
  rintro _ l ⟨standsL, runs⟩
  exact standsL.settle runs

theorem meets_onTable_of_extends {action : Machine Table α} (stands : Stands ongoing parked busy k)
    (grows : action.Meets k.table (fun _ t => k.table.Extends t) k.table.Extends) :
    (onTable action).Meets k (fun _ => Stands ongoing parked busy) Told := by
  have orderly := stands.told.orderly
  have changes : action.Meets k.table
      (fun _ t => (Becomes (ongoing.head? = some .serving) k.table t ∧ t.Orderly) ∧ (busy → t.Busy))
      fun t => Becomes (ongoing.head? = some .serving) k.table t ∧ t.Orderly :=
    grows.mono (fun _ _ more => ⟨⟨more.becomes, more.orderly orderly⟩, fun holds => more.busy (stands.busy holds)⟩)
      fun _ more => ⟨more.becomes, more.orderly orderly⟩
  refine (meets_onTable_of_stands stands changes).mono ?_ fun _ => id
  rintro _ k' ⟨standsK, runs⟩
  exact ⟨standsK.told, standsK.going, standsK.flag, standsK.awake, runs⟩

theorem meets_create (stands : Stands ongoing parked busy k) (entry arg : Nat) :
    (create entry arg).Meets k (fun _ => Stands ongoing parked busy) Told := by
  refine meets_create_of stands (meets_newStack stands _ _).splits ?_
    (fun stack _ standsL => meets_releaseStack standsL stack) fun _ notice _ standsL => meets_report_of_stands standsL notice
  intro stack sp l standsL
  exact (meets_onTable_of_extends standsL (meets_add (some stack) sp TaskFlags.none)).splits

theorem meets_currentPid (stands : Stands ongoing parked busy k) :
    currentPid.Meets k (fun _ => Stands ongoing parked busy) Told := by
  unfold currentPid
  rw [meets_bind, meets_get]
  cases k.table.currentPid with
  | error fault => exact stands.told
  | ok pid => exact stands

theorem meets_retire (stands : Stands ongoing parked True k) :
    retire.Meets k (fun _ => Stands ongoing parked False) Told := by
  have terminated : Table.terminateCurrent.Meets k.table
      (fun _ t => (Becomes (ongoing.head? = some .serving) k.table t ∧ t.Orderly) ∧ True)
      fun t => Becomes (ongoing.head? = some .serving) k.table t ∧ t.Orderly :=
    (meets_terminateCurrent stands.told.orderly (stands.busy trivial)).mono (fun _ _ holds => ⟨holds, trivial⟩)
      fun _ => False.elim
  exact meets_retire_of (fun _ _ => stands.told) (meets_onTable_of_stands stands terminated) (fun _ => And.left)
    (fun _ _ both => (meets_onArena_of_stands both.1 _).splits) (fun _ _ _ standsL => meets_report_of_stands standsL _)
    fun _ _ standsL => meets_report_of_stands standsL _

end Kernel

/-- From a kernel as in `pre` the work comes to one as in `post`, and its story is told even if a fault
stops it. -/
def Machine.Carries {ω α : Type} (action : Machine (System ω) α) (pre post : Kernel → Prop) : Prop :=
  ∀ s : System ω, pre s.kernel → action.Meets s (fun _ t => post t.kernel) fun t => t.kernel.Told

namespace Machine
variable {ω α β : Type} {pre mid post : Kernel → Prop}

theorem Carries.bind {action : Machine (System ω) α} {next : α → Machine (System ω) β}
    (first : action.Carries pre mid) (rest : ∀ a, (next a).Carries mid post) : (action >>= next).Carries pre post :=
  fun s holds => (first s holds).bind fun a t => rest a t

theorem carries_onKernel {action : Machine Kernel α}
    (meets : ∀ k, pre k → action.Meets k (fun _ => post) Kernel.Told) :
    (System.onKernel action : Machine (System ω) α).Carries pre post :=
  fun s holds => System.meets_onKernel.mpr (meets s.kernel holds)

theorem carries_pure (a : α) (less : ∀ k, pre k → post k) : (pure a : Machine (System ω) α).Carries pre post :=
  fun s holds => less s.kernel holds

end Machine

/-- What happens while a context is switched away from, or the processor is parked, keeps to the same rules
as the operations themselves. -/
structure Surroundings.Faithful {ω : Type} (env : Surroundings ω) : Prop where
  parked : ∀ ongoing, env.whileParked.Carries (Kernel.Stands (.parked :: ongoing) true False)
    (Kernel.Stands (.parked :: ongoing) true False)
  away : ∀ ongoing, env.whileAway.Carries (Kernel.Stands (.away :: ongoing) false True)
    (Kernel.Stands (.away :: ongoing) false True)

namespace System
open Kernel Table
variable {ω α : Type} {env : Surroundings ω} {ongoing : List Activity} {parked : Bool} {busy busy' : Prop}

/-- Masking is of no concern to the tasks. -/
theorem carries_masked {body : Machine (System ω) α}
    (carries : body.Carries (Stands ongoing parked busy) (Stands ongoing parked busy')) :
    (masked body).Carries (Stands ongoing parked busy) (Stands ongoing parked busy') := by
  intro s stands
  have masked : Stands ongoing parked busy { s.kernel with cpu := s.kernel.cpu.note .mask } := stands.note _ trivial rfl
  refine meets_masked ?_ (carries s stands) (carries _ (masked.congr rfl rfl rfl))
  intro _ t standsT
  have unmasked : Stands ongoing parked busy' { t.kernel with cpu := t.kernel.cpu.note .unmask } :=
    standsT.note _ trivial rfl
  exact unmasked.congr rfl rfl rfl

/-- The context that was switched away from, or parked, goes on. -/
theorem carries_resume {activity : Activity} (awake : parked = false → .parked ∉ ongoing) :
    (resume : Machine (System ω) Unit).Carries (Stands (activity :: ongoing) parked busy)
      (Stands ongoing parked busy) :=
  carries_onKernel fun k stands =>
    meets_onProcessor.mpr (stands.plain .resume trivial (story_note k .resume).symm rfl rfl awake)

theorem carries_setEnabled (enabled : Bool) :
    (setEnabled enabled : Machine (System ω) Unit).Carries (Stands ongoing parked busy) (Stands ongoing parked busy) :=
  carries_onKernel fun _ stands => meets_onProcessor.mpr (stands.congr rfl rfl rfl)

/-- While the processor is parked, tasks may be woken. -/
theorem carries_park (faithful : env.Faithful) :
    (park env).Carries (Stands ongoing true False) (Stands ongoing true False) := by
  have waits : (onKernel (onProcessor Processor.wait) : Machine (System ω) Unit).Carries (Stands ongoing true False)
      (Stands (.parked :: ongoing) true False) :=
    carries_onKernel fun k stands =>
      meets_onProcessor.mpr (stands.plain .wait trivial (story_note k .wait).symm rfl rfl (by simp))
  refine waits.bind ?_
  intro _ s stands
  rw [meets_bind, meets_get]
  dsimp only
  split
  · exact stands.told
  · exact ((carries_setEnabled true).bind fun _ => (faithful.parked ongoing).bind fun _ =>
      (carries_setEnabled false).bind fun _ => carries_resume (by simp)) s stands

theorem carries_setParked (flag : Bool) (awake : flag = false → .parked ∉ ongoing) :
    (setParked flag : Machine (System ω) Unit).Carries (Stands ongoing parked busy) (Stands ongoing flag busy) :=
  carries_onKernel fun _ stands =>
    (meets_modify ..).mpr ⟨⟨stands.told.lawful, stands.told.version, stands.told.orderly⟩, stands.going, rfl, awake,
      stands.busy⟩

/-- A task that was picked takes the place of another one, until some task goes back to that one. -/
theorem carries_switch (faithful : env.Faithful) (handover : Handover) :
    (switch env handover).Carries (fun k => Stands ongoing false True k ∧ k.story.Prepares handover)
      (Stands ongoing false True) := by
  rintro s ⟨stands, prepares⟩
  unfold switch
  rw [meets_bind, meets_get]
  have awake : Activity.parked ∉ ongoing := stands.awake rfl
  have switched : (onKernel (onProcessor (·.switch handover (env.savedPointer s))) : Machine (System ω) Unit).Meets s
      (fun _ t => Stands (.away :: ongoing) false True t.kernel) fun t => t.kernel.Told :=
    meets_onKernel.mpr (meets_onProcessor.mpr (stands.switch prepares _))
  refine switched.bind ?_
  intro _ t standsT
  have saves : (onKernel (onTable (saveStackPointer handover.outgoing (env.savedPointer s))) :
      Machine (System ω) Unit).Carries (Stands (.away :: ongoing) false True) (Stands (.away :: ongoing) false True) :=
    carries_onKernel fun _ standsK => meets_onTable_of_extends standsK (meets_saveStackPointer ..)
  exact (saves.bind fun _ => (faithful.away ongoing).bind fun _ => carries_resume fun _ => awake) t standsT

/-- The task picked is dispatched. If it is another one than the current task, the story prepares the switch
to it. -/
theorem meets_onDispatch {k : Kernel} {slot : Nat} (stands : Stands ongoing parked busy k)
    (picked : k.table.pick = .ok (some slot)) :
    (onTable (Table.dispatch slot)).Meets k (fun handover k' => Stands ongoing parked True k' ∧
      ∀ h, handover = some h → k'.story.Prepares h) Told := by
  rw [meets_onTable]
  have dispatches := meets_dispatch (ongoing.head? = some .serving) stands.told.orderly (eligible_of_pick picked)
  refine dispatches.mono ?_ fun _ => False.elim
  intro handover t dispatched
  refine ⟨stands.withTable dispatched.becomes dispatched.orderly ?_, ?_⟩
  · intro _ c now
    obtain rfl := Option.some.inj (dispatched.current.symm.trans now)
    exact dispatched.runs
  · intro h same
    obtain ⟨now, incoming, other, ready⟩ := dispatched.handover h same
    rw [← stands.told.version] at now ready
    rw [← incoming] at other ready
    refine ⟨k.story, t, (story_note k _).symm, other, now, ready, ?_, ?_⟩
    · rw [incoming]
      exact dispatched.current
    · rw [incoming]
      exact dispatched.runs

/-- As long as no task can run the processor is parked; in the end the current task is running. -/
theorem carries_rescheduleFor (faithful : env.Faithful) (rounds : Nat) :
    (rescheduleFor env rounds).Carries (Stands ongoing false False) (Stands ongoing false True) := by
  induction rounds with
  | zero => exact fun s stands => stands.told
  | succ rounds ih =>
    intro s stands
    unfold rescheduleFor
    rw [meets_bind, meets_get]
    dsimp only
    split
    · rw [meets_bind]
      cases picked : s.kernel.table.pick with
      | error fault => exact stands.told
      | ok choice =>
        rw [meets_lift_ok]
        cases choice with
        | some slot =>
          have dispatched : (onKernel (onTable (Table.dispatch slot)) : Machine (System ω) (Option Handover)).Meets s
              (fun handover t => Stands ongoing false True t.kernel ∧
                ∀ h, handover = some h → t.kernel.story.Prepares h) fun t => t.kernel.Told :=
            meets_onKernel.mpr (meets_onDispatch stands picked)
          refine dispatched.bind ?_
          rintro (none | handover) t ⟨standsT, prepares⟩
          · exact standsT
          · exact carries_switch faithful handover t ⟨standsT, prepares handover rfl⟩
        | none =>
          have awake : Activity.parked ∉ ongoing := stands.awake rfl
          exact ((carries_setParked true (by simp)).bind fun _ => (carries_park faithful).bind fun _ =>
            (carries_setParked false fun _ => awake).bind fun _ => ih) s stands
    · rename_i uninitialized
      refine (meets_pure ..).mpr (stands.busy_of_uninitialized ?_)
      simpa [isInitialized] using uninitialized

theorem carries_reschedule (faithful : env.Faithful) :
    (reschedule env).Carries (Stands ongoing false busy) (Stands ongoing false True) := by
  intro s stands
  unfold reschedule
  rw [meets_bind, meets_get]
  exact carries_rescheduleFor faithful _ s (stands.weaken False.elim)

theorem carries_yield (faithful : env.Faithful) :
    (yield env).Carries (Stands ongoing false True) (Stands ongoing false True) :=
  carries_masked (carries_reschedule faithful)

theorem carries_ticks :
    (onKernel (modify fun k => { k with ticks := Word.wrappingAdd k.ticks 1 }) : Machine (System ω) Unit).Carries
      (Stands ongoing parked busy) (Stands ongoing parked busy) :=
  carries_onKernel fun _ stands => (meets_modify ..).mpr (stands.congr rfl rfl rfl)

/-- Sleepers are woken only while a timer interrupt is served. -/
theorem carries_wakeDue (now : Nat) :
    (onKernel (onTable (wakeDue now)) : Machine (System ω) Nat).Carries (Stands (.serving :: ongoing) parked busy)
      (Stands (.serving :: ongoing) parked False) := by
  refine carries_onKernel ?_
  intro k stands
  have wakes : (wakeDue now).Meets k.table
      (fun _ t => (Becomes ((Activity.serving :: ongoing).head? = some .serving) k.table t ∧ t.Orderly) ∧ True)
      fun t => Becomes ((Activity.serving :: ongoing).head? = some .serving) k.table t ∧ t.Orderly :=
    (meets_wakeDue stands.told.orderly rfl now).mono (fun _ _ holds => ⟨holds, trivial⟩) fun _ => False.elim
  exact (meets_onTable_of_stands stands wakes).mono (fun _ _ => And.left) fun _ => id

/-- While the scheduler waits it makes the choice itself. -/
theorem carries_choice (faithful : parked = false → env.Faithful) :
    (do if (← get).kernel.parked = false then reschedule env : Machine (System ω) Unit).Carries
      (Stands ongoing parked False) (Stands ongoing parked (parked = false)) := by
  intro s stands
  rw [meets_bind, meets_get]
  have flag := stands.flag
  cases parked with
  | false =>
    rw [if_pos flag]
    exact (carries_reschedule (faithful rfl) s stands).mono (fun _ _ standsT => standsT.weaken fun _ => trivial)
      fun _ => id
  | true =>
    rw [if_neg (by simp [flag])]
    exact (meets_pure ..).mpr (stands.weaken (by simp))

/-- A timer interrupt wakes sleepers. It ends with the current task running, unless the scheduler waits: then
it leaves the choice to the scheduler. -/
theorem carries_tick (faithful : parked = false → env.Faithful) :
    (tick env).Carries (Stands ongoing parked busy) (Stands ongoing parked (parked = false)) := by
  unfold tick
  -- From its arrival until it is served the interrupt is an activity of its own.
  have arrives : (onKernel (onProcessor (·.note .tick)) : Machine (System ω) Unit).Carries
      (Stands ongoing parked busy) (Stands (.serving :: ongoing) parked busy) :=
    carries_onKernel fun k stands => meets_onProcessor.mpr (stands.plain .tick trivial (story_note k .tick).symm rfl rfl
      fun awake => by simp [Instruction.activities, stands.awake awake])
  have served : (onKernel (onProcessor (·.note .served)) : Machine (System ω) Unit).Carries
      (Stands (.serving :: ongoing) parked (parked = false)) (Stands ongoing parked (parked = false)) :=
    carries_onKernel fun k stands => meets_onProcessor.mpr (stands.plain .served trivial (story_note k .served).symm rfl
      rfl fun awake => (List.not_mem_of_not_mem_cons (stands.awake awake)))
  refine arrives.bind ?_
  intro _ s stands
  rw [meets_bind, meets_get]
  dsimp only
  refine carries_ticks.bind ?_ s stands
  intro _ s stands
  rw [meets_bind]
  cases Word.add _ 1 with
  | error fault => exact stands.told
  | ok now =>
    rw [meets_lift_ok]
    refine ((carries_masked ?_).bind fun _ => served) s stands
    intro s stands
    rw [meets_bind, meets_get]
    split
    · refine (carries_wakeDue now).bind ?_ s stands
      intro woken
      split
      · exact (carries_onKernel fun _ standsK => meets_report_of_stands standsK _).bind fun _ => carries_choice faithful
      · exact carries_choice faithful
    · rename_i uninitialized
      refine (meets_pure ..).mpr ((stands.busy_of_uninitialized ?_).weaken fun _ => trivial)
      simpa [isInitialized] using uninitialized

/-- The running task goes to sleep, and another one runs. -/
theorem carries_sleep (faithful : env.Faithful) (ms : Nat) :
    (sleep env ms).Carries (Stands ongoing false True) (Stands ongoing false True) := by
  unfold sleep
  split
  · exact carries_yield faithful
  · refine carries_masked ?_
    intro s stands
    rw [meets_bind, meets_get]
    dsimp only
    generalize Ticks.saturate _ = deadline
    have blocks : (blockCurrent deadline).Meets s.kernel.table (fun done t =>
        (Becomes (ongoing.head? = some .serving) s.kernel.table t ∧ t.Orderly) ∧ (done = false → t.current = none))
        fun t => Becomes (ongoing.head? = some .serving) s.kernel.table t ∧ t.Orderly :=
      (meets_blockCurrent stands.told.orderly (stands.busy trivial) deadline).mono
        (fun _ _ ⟨becomes, orderly, idle⟩ => ⟨⟨becomes, orderly⟩, idle⟩) fun _ => False.elim
    have notes : (onKernel (onProcessor (·.note (.sleep ms))) : Machine (System ω) Unit).Carries
        (Stands ongoing false False) (Stands ongoing false False) :=
      carries_onKernel fun _ standsK => meets_onProcessor.mpr (standsK.note _ trivial rfl)
    rw [meets_bind, meets_onKernel]
    refine (meets_onTable_of_stands stands blocks).mono ?_ fun _ => id
    rintro (_ | _) k ⟨standsK, idle⟩
    · exact standsK.busy_of_uninitialized (idle rfl)
    · exact (notes.bind fun _ => carries_reschedule faithful) { s with kernel := k } standsK

theorem carries_currentPid :
    (currentPid : Machine (System ω) (Option Nat)).Carries (Stands ongoing parked busy) (Stands ongoing parked busy) :=
  carries_masked (carries_onKernel fun _ stands => meets_currentPid stands)

theorem carries_taskState (pid : Nat) :
    (taskState pid : Machine (System ω) (Option TaskState)).Carries (Stands ongoing parked busy)
      (Stands ongoing parked busy) :=
  carries_masked fun _ stands => stands

theorem carries_waitForRounds (faithful : env.Faithful) (pid rounds : Nat) :
    (waitForRounds env pid rounds).Carries (Stands ongoing false True) (Stands ongoing false True) := by
  induction rounds with
  | zero => exact fun _ stands => stands.told
  | succ rounds ih =>
    unfold waitForRounds
    refine (carries_taskState pid).bind ?_
    intro state
    split
    · exact (carries_sleep faithful _).bind fun _ => ih
    · exact carries_pure _ fun _ => id

theorem carries_waitFor (faithful : env.Faithful) (pid : Nat) :
    (waitFor env pid).Carries (Stands ongoing false True) (Stands ongoing false True) := by
  unfold waitFor
  refine carries_currentPid.bind ?_
  intro current
  split
  · exact carries_onKernel fun _ stands => meets_report_of_stands stands _
  · intro s stands
    rw [meets_bind, meets_get]
    exact carries_waitForRounds faithful pid _ s stands

/-- The running task exits, and another one runs. -/
theorem carries_exit (faithful : env.Faithful) :
    (exit env).Carries (Stands ongoing false True) (Stands ongoing false True) := by
  unfold exit
  have masks : (onKernel (onProcessor Processor.mask) : Machine (System ω) Unit).Carries (Stands ongoing false True)
      (Stands ongoing false True) := carries_onKernel fun _ stands =>
    meets_onProcessor.mpr ((stands.note .mask trivial rfl).congr rfl rfl rfl)
  have halts : (onKernel (onProcessor Processor.halt) : Machine (System ω) Unit).Carries (Stands ongoing false True)
      (Stands ongoing false True) := carries_onKernel fun _ stands =>
    meets_onProcessor.mpr ((stands.note .halt trivial rfl).congr rfl rfl rfl)
  have retires : (onKernel retire : Machine (System ω) Unit).Carries (Stands ongoing false True)
      (Stands ongoing false False) := carries_onKernel fun _ stands => meets_retire stands
  exact masks.bind fun _ => retires.bind fun _ => (carries_reschedule faithful).bind fun _ => halts

theorem carries_boot : (boot : Machine (System ω) (Except TaskError Nat)).Carries (Stands ongoing parked True)
    (Stands ongoing parked True) :=
  carries_masked (carries_onKernel fun _ stands => meets_boot stands)

theorem carries_create (entry arg : Nat) :
    (create entry arg : Machine (System ω) (Except TaskError Nat)).Carries (Stands ongoing parked busy)
      (Stands ongoing parked busy) :=
  carries_masked (carries_onKernel fun _ stands => meets_create stands entry arg)

end System
end KernelCore
