import KernelCore.Proofs.Kernel.Parking
import KernelCore.Proofs.Kernel.Tables

namespace KernelCore
open Machine Kernel

namespace Ticks

/-- The clock can tell a tick, and the tick is still to come unless the clock stands at its end. -/
structure Ahead (now wake : Nat) : Prop where
  positive : 0 < wake
  told : wake < wordLimit
  later : now + 1 < wordLimit → now < wake

theorem ahead_saturate (now ms : Nat) : Ahead now (saturate (now + ofMs ms)) := by
  have lasts : 1 ≤ ofMs ms := Nat.le_max_left ..
  have limit : 1 < wordLimit := by decide
  refine ⟨?_, ?_, fun early => ?_⟩ <;>
  · unfold saturate
    omega

end Ticks

namespace Kernel
open Table
variable {k k' : Kernel} {t : Table}

/-- The table is one that can come about, and all deadlines are ahead. -/
structure Foresees (k : Kernel) : Prop where
  reached : k.table.Reached
  clock : k.ticks < wordLimit
  ahead : ∀ i wake, k.table.stateAt i = some (.blocked wake) → Ticks.Ahead k.ticks wake

/-- The clock went on, and nobody was woken yet. -/
structure Dated (k : Kernel) : Prop where
  reached : k.table.Reached
  clock : k.ticks < wordLimit
  dated : ∀ i wake, k.table.stateAt i = some (.blocked wake) → 0 < wake ∧ wake < wordLimit

theorem foresees_initial (m : Memory) (cpu : Processor) : (Kernel.initial m cpu).Foresees where
  reached := .empty
  clock := (by decide : 0 < wordLimit)
  ahead i wake asleep := by simp [Kernel.initial, Table.empty, Table.stateAt] at asleep

theorem Foresees.congr (foresees : k.Foresees) (table : k'.table = k.table) (ticks : k'.ticks = k.ticks) :
    k'.Foresees := by
  obtain ⟨reached, clock, ahead⟩ := foresees
  exact ⟨table ▸ reached, ticks ▸ clock, by rwa [table, ticks]⟩

theorem lasts_foresees : Lasts Foresees := fun _ _ foresees spares => foresees.congr spares.table spares.ticks

/-- Work on the tasks that wakes nobody and puts nobody to sleep. -/
theorem Foresees.withTable (foresees : k.Foresees) (reached : t.Reached) (same : k.table.SameSleepers t) :
    (k.withTable t).Foresees :=
  ⟨reached, foresees.clock, fun i wake asleep => foresees.ahead i wake ((same i wake).mp asleep)⟩

theorem Foresees.meets_undisturbed {α : Type} {action : Machine Table α} {stopped : Table → Prop}
    (foresees : k.Foresees) (reaches : action.Meets k.table (fun _ => Reached) fun _ => False)
    (undisturbed : action.Meets k.table (fun _ => k.table.Undisturbed) stopped) :
    action.Meets k.table (fun _ t => (k.withTable t).Foresees) fun _ => False :=
  (reaches.both undisturbed).mono (fun _ _ both => foresees.withTable both.1 both.2.sleepers) fun _ => And.left

theorem Foresees.meets_blockCurrent (foresees : k.Foresees) (busy : k.table.Busy) (ms : Nat) :
    (blockCurrent (Ticks.saturate (k.ticks + Ticks.ofMs ms))).Meets k.table
      (fun _ t => (k.withTable t).Foresees) fun _ => False := by
  have ahead := Ticks.ahead_saturate k.ticks ms
  generalize Ticks.saturate (k.ticks + Ticks.ofMs ms) = deadline at ahead ⊢
  have blocks : (blockCurrent deadline).Meets k.table (fun _ t => ∀ i wake, t.stateAt i = some (.blocked wake) →
      Ticks.Ahead k.ticks wake) fun _ => False := by
    unfold blockCurrent
    rw [meets_bind, meets_get]
    cases now : k.table.current with
    | none => exact foresees.ahead
    | some c =>
      obtain ⟨task, here, -⟩ := exists_of_stateAt (busy c now)
      dsimp only
      rw [meets_bind]
      refine meets_update_of here ?_
      rw [meets_pure]
      intro i wake asleep
      rw [stateAt_put here] at asleep
      split at asleep
      · obtain rfl := TaskState.blocked.inj (Option.some.inj asleep)
        exact ahead
      · exact foresees.ahead i wake asleep
  exact ((foresees.reached.meets_blockCurrent deadline).and blocks).mono
    (fun _ _ both => ⟨both.1, foresees.clock, both.2⟩) fun _ => id

theorem Foresees.meets_retire (foresees : k.Foresees) (busy : k.table.Busy) :
    retire.Meets k (fun _ => Foresees) Foresees :=
  lasts_foresees.meets_retire foresees (fun _ => id) <|
    foresees.meets_undisturbed foresees.reached.meets_terminateCurrent (meets_terminateCurrent_undisturbed busy)

/-- The clock goes on. At its end it begins anew, and all deadlines are ahead. -/
theorem Foresees.rung (foresees : k.Foresees) : if k.ticks + 1 < wordLimit then k.rung.Dated else k.rung.Foresees := by
  have clock := foresees.clock
  have dated : ∀ i wake, k.table.stateAt i = some (.blocked wake) → 0 < wake ∧ wake < wordLimit :=
    fun i wake asleep => ⟨(foresees.ahead i wake asleep).positive, (foresees.ahead i wake asleep).told⟩
  have told : k.rung.ticks < wordLimit := Nat.mod_lt _ (by decide)
  split
  · exact ⟨foresees.reached, told, dated⟩
  · have anew : k.rung.ticks = 0 := by
      change (k.ticks + 1) % wordLimit = 0
      rw [show k.ticks + 1 = wordLimit by omega, Nat.mod_self]
    refine ⟨foresees.reached, told, fun i wake asleep => ?_⟩
    obtain ⟨positive, below⟩ := dated i wake asleep
    exact ⟨positive, below, fun _ => anew ▸ positive⟩

/-- After those were woken whose time has come all other deadlines are ahead. -/
theorem Dated.meets_wakeDue (dated : k.Dated) :
    (wakeDue k.ticks).Meets k.table (fun _ t => (k.withTable t).Foresees) fun _ => False := by
  have reaches := dated.reached.meets_wakeDue k.ticks
  refine .of_runFrom (runFrom_wakeDue ..) ⟨reaches.result (runFrom_wakeDue ..), dated.clock, ?_⟩
  intro i wake asleep
  obtain ⟨slept, later⟩ := asleep_of_woken asleep
  obtain ⟨positive, below⟩ := dated.dated i wake slept
  exact ⟨positive, below, fun _ => later⟩

theorem Dated.foresees_of_vacant (dated : k.Dated) (none : k.table.current = none) : k.Foresees where
  reached := dated.reached
  clock := dated.clock
  ahead i wake asleep := by
    obtain ⟨task, here, -⟩ := exists_of_stateAt asleep
    have inside := (Array.getElem?_eq_some_iff.mp here).1
    rw [dated.reached.regular.manned.vacant none] at inside
    exact absurd inside (Nat.not_lt_zero i)

end Kernel

/-- All deadlines stay ahead. -/
def foresight (ω : Type) : Upkeep ω where
  keeps s := s.kernel.Foresees
  rings s := s.kernel.Dated
  stopped s := s.kernel.Foresees
  excuse _ foresees := foresees
  passes _ _ foresees passes := foresees.congr passes.table passes.ticks
  dispatches s i foresees orderly eligible := foresees.meets_undisturbed (foresees.reached.meets_dispatch eligible) <|
    (Table.meets_dispatch_view Table.lasting_deadline.toSteady orderly eligible).mono
      (fun _ _ ⟨same, now⟩ => Table.undisturbed_of_view same (by simp [now])) fun _ => id
  saves s i sp foresees := ((foresees.reached.meets_saveStackPointer i sp).both
    (Table.meets_saveStackPointer_view Table.lasting_deadline i sp)).mono
      (fun _ _ ⟨reached, same, _⟩ => foresees.withTable reached (Table.sameSleepers_of_view same))
      fun _ ⟨reached, same⟩ => foresees.withTable reached (Table.sameSleepers_of_view same)
  sleeps s ms _ foresees _ busy := (foresees.meets_blockCurrent busy ms).mono
    (fun done _ after => by cases done <;> exact after.congr rfl rfl) fun _ => id
  retires _ foresees _ busy := System.meets_onKernel.mpr (foresees.meets_retire busy)
  ticks _ foresees := foresees.rung
  masks _ dated := ⟨dated.reached, dated.clock, dated.dated⟩
  wakes _ dated := dated.meets_wakeDue
  nobody _ dated none := dated.foresees_of_vacant none

theorem hosts_foresight {ω : Type} : (foresight ω).Hosts Foresees where
  keeps _ := Iff.rfl
  stopped _ := Iff.rfl
  lasts := lasts_foresees
  boots _ foresees := foresees.meets_undisturbed foresees.reached.meets_adoptBoot Table.meets_adoptBoot_undisturbed
  founds _ stack sp foresees :=
    foresees.meets_undisturbed (foresees.reached.meets_adopt stack sp) (Table.meets_adopt_undisturbed stack sp)
  adds _ stack sp foresees := foresees.meets_undisturbed (foresees.reached.meets_add (some stack) sp .none)
    (Table.meets_add_undisturbed (some stack) sp .none)

/-- Along every run of a program all deadlines are ahead. -/
theorem Program.foresees {ω α : Type} {program : Machine (System ω) α} (isProgram : Program program) {m : Memory}
    {cpu : Processor} (unused : cpu.trace = #[]) {outside : ω} {outcome : Except Fault α} {s : System ω}
    (ran : program.runFrom ⟨Kernel.initial m cpu, outside⟩ = (outcome, s)) : s.kernel.Foresees := by
  have upholds := isProgram.upholds hosts_foresight [] ⟨Kernel.initial m cpu, outside⟩
    ⟨stands_initial m unused, foresees_initial m cpu⟩
  cases outcome with
  | error fault => exact upholds.fault ran
  | ok a => exact (upholds.result ran).keeps

namespace Kernel
open Table
variable {k k' : Kernel}

/-- The clock went on by a tick, and those were woken whose time has come. -/
theorem Foresees.ticked (foresees : k.Foresees) (ticked : k.Ticked k') : k'.Foresees where
  reached := by
    rw [ticked.table]
    exact (foresees.reached.meets_wakeDue (k.ticks + 1)).result (runFrom_wakeDue ..)
  clock := ticked.told
  ahead i wake asleep := by
    rw [ticked.table] at asleep
    obtain ⟨slept, later⟩ := asleep_of_woken asleep
    obtain ⟨positive, below, -⟩ := foresees.ahead i wake slept
    exact ⟨positive, below, fun _ => by rwa [ticked.ticks]⟩

theorem Foresees.elapses (foresees : k.Foresees) (elapses : k.Elapses k') : k'.Foresees := by
  induction elapses with
  | refl => exact foresees
  | tail _ ticked ih => exact ih.ticked ticked

/-- The kernels that come about along runs of programs, also where the running task has gone to sleep or has exited
and the processor is still with it, and where the processor was parked then any number of times. -/
inductive Arises : Kernel → Prop
  | ran {ω α : Type} {program : Machine (System ω) α} {m : Memory} {cpu : Processor} {outside : ω}
    {outcome : Except Fault α} {s : System ω} (isProgram : Program program) (unused : cpu.trace = #[])
    (ran : program.runFrom ⟨Kernel.initial m cpu, outside⟩ = (outcome, s)) : Arises s.kernel
  | masked {k : Kernel} (arises : Arises k) : Arises { k with cpu := k.cpu.mask }
  | slept {k : Kernel} {t : Table} {ms : Nat} (arises : Arises k) (busy : k.table.Busy)
    (blocked : (blockCurrent (Ticks.saturate (k.ticks + Ticks.ofMs ms))).runFrom k.table = (.ok true, t)) :
    Arises (k.asleep ms t)
  | exited {k k' : Kernel} (arises : Arises k) (busy : k.table.Busy) (retired : retire.runFrom k = (.ok (), k')) :
    Arises k'
  | parked {ω : Type} {env : Surroundings ω} {s t : System ω} (arises : Arises s.kernel)
    (initialized : s.kernel.table.current ≠ none) (clockwork : Clockwork env.whileParked)
    (waited : (System.park env).runFrom { s with kernel.parked := true } = (.ok (), t)) :
    Arises { t.kernel with parked := false }

theorem Arises.foresees (arises : k.Arises) : k.Foresees := by
  induction arises with
  | ran isProgram unused ran => exact isProgram.foresees unused ran
  | masked _ ih => exact ih.congr rfl rfl
  | slept _ busy blocked ih => exact ((ih.meets_blockCurrent busy _).result blocked).congr rfl rfl
  | exited _ busy retired ih => exact (ih.meets_retire busy).result retired
  | @parked ω env s t _ initialized clockwork waited ih =>
    have parks : (System.park env).Meets { s with kernel.parked := true } (fun _ t => t.kernel.Foresees)
        fun _ => True := by
      refine System.meets_park (fun _ => trivial) ?_
      have rests := clockwork.elapses (s := { s with kernel := { s.kernel with parked := true }.resting }) rfl
        (by exact initialized)
      refine rests.mono ?_ fun _ _ => trivial
      intro _ t elapses
      have before : Foresees { s.kernel with parked := true }.resting := ih.congr rfl rfl
      exact (before.elapses elapses).congr rfl rfl
    exact (parks.result waited).congr rfl rfl

end Kernel
end KernelCore
