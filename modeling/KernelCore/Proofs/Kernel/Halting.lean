import KernelCore.Proofs.Kernel.Deadlines
import KernelCore.Proofs.Kernel.FallingAsleep
import KernelCore.Proofs.Task.Policy

namespace KernelCore
open Machine Kernel

namespace Table
variable {t : Table} {c i j w now : Nat} {task : Task}

/-- The earliest deadline of those who sleep. -/
structure Earliest (t : Table) (w : Nat) : Prop where
  exists_asleep : ∃ i, t.stateAt i = some (.blocked w)
  le : ∀ i wake, t.stateAt i = some (.blocked wake) → w ≤ wake

theorem Earliest.of_alone (alone : t.tasks.size = 1) (asleep : t.stateAt 0 = some (.blocked w)) : t.Earliest w := by
  refine ⟨⟨0, asleep⟩, fun i wake other => ?_⟩
  obtain ⟨task, here, -⟩ := exists_of_stateAt other
  have inside := (Array.getElem?_eq_some_iff.mp here).1
  obtain rfl : i = 0 := by omega
  exact Nat.le_of_eq (TaskState.blocked.inj (Option.some.inj (asleep.symm.trans other)))

/-- Before the earliest deadline nobody is woken. -/
theorem roused_eq_self (later : ∀ i wake, t.stateAt i = some (.blocked wake) → now < wake) : t.roused now = t := by
  have same : t.tasks.map (woken now) = t.tasks := by
    refine Array.ext_getElem? fun i => ?_
    rw [Array.getElem?_map]
    cases here : t.tasks[i]? with
    | none => rfl
    | some task =>
      rw [Option.map_some, woken, if_neg]
      intro due
      cases state : task.state with
      | blocked wake =>
        have early := later i wake (by rw [stateAt, here, Option.map_some, state])
        simp only [isDue, state, decide_eq_true_eq] at due
        omega
      | _ => simp [isDue, state] at due
  rw [roused, same]

/-- With its deadline a task is ready. -/
theorem stateAt_roused_of_blocked (asleep : t.stateAt i = some (.blocked w)) :
    (t.roused w).stateAt i = some .ready :=
  (stateAt_woken w asleep).trans (by rw [if_neg (Nat.lt_irrefl w)])

/-- With the earliest deadline those can go on whose deadline it is, and nobody else who could not before. -/
theorem Earliest.canRun_roused_iff (earliest : t.Earliest w) (stuck : ¬t.CanRun i) :
    (t.roused w).CanRun i ↔ t.stateAt i = some (.blocked w) := by
  constructor
  · rintro ⟨task', there, able⟩
    rw [getElem?_roused] at there
    obtain ⟨task, here, rfl⟩ := Option.map_eq_some_iff.mp there
    by_cases due : isDue w task = true
    · cases state : task.state with
      | blocked wake =>
        have asleep : t.stateAt i = some (.blocked wake) := by rw [stateAt, here, Option.map_some, state]
        simp only [isDue, state, decide_eq_true_eq] at due
        rw [asleep, Nat.le_antisymm due (earliest.le i wake asleep)]
      | _ => simp [isDue, state] at due
    · rw [woken, if_neg due] at able
      exact absurd ⟨task, here, able⟩ stuck
  · intro asleep
    obtain ⟨task, here, state⟩ := exists_of_stateAt (stateAt_roused_of_blocked asleep)
    exact ⟨task, here, Or.inl state⟩

/-- The current task goes on if it can and no other one is ready but idle ones. -/
theorem Selects.eq_current_iff (inside : c < t.tasks.size) (selects : t.Selects c (some i)) :
    i = c ↔ t.CanRun c ∧ ∀ j, j ≠ c → ¬t.IsReady false j := by
  have among : ∀ {j passed ahead}, t.after c = passed ++ j :: ahead → j ≠ c := by
    intro j passed ahead walk
    exact ((mem_after_iff inside).mp (by simp [walk])).2
  cases selects with
  | ready walk ready _ =>
    exact ⟨fun same => absurd same (among walk), fun alone => absurd ready (alone.2 i (among walk))⟩
  | stays nobody able =>
    refine ⟨fun _ => ⟨able, fun j other ready => ?_⟩, fun _ => rfl⟩
    exact nobody j ((mem_after_iff inside).mpr ⟨ready.lt, other⟩) ready
  | idle _ stuck walk _ _ =>
    exact ⟨fun same => absurd same (among walk), fun alone => absurd alone.1 stuck⟩

/-- Where nobody is picked the current task cannot go on, and nobody else is ready. -/
theorem Reached.stuck_of_pick (reached : t.Reached) (at_c : t.current = some c) (nobody : t.pick = .ok none) :
    ¬t.CanRun c ∧ ∀ i idle, i ≠ c → ¬t.IsReady idle i := by
  have inside := reached.regular.manned.current c at_c
  have choice := (pick_of_ringed reached.regular.ringed at_c inside).symm.trans nobody
  exact ((selects_choice inside).eq_none_iff inside).mp (Except.ok.inj choice)

theorem Reached.pick_ne_none_of_ready (reached : t.Reached) (at_c : t.current = some c)
    (ready : t.stateAt i = some .ready) : t.pick ≠ .ok none := by
  intro nobody
  obtain ⟨stuck, others⟩ := reached.stuck_of_pick at_c nobody
  obtain ⟨task, here, state⟩ := exists_of_stateAt ready
  by_cases same : i = c
  · exact stuck ⟨task, same ▸ here, Or.inl state⟩
  · exact others i task.isIdle same ⟨task, here, state, rfl⟩

theorem Reached.exists_pick (reached : t.Reached) (at_c : t.current = some c) (somebody : t.pick ≠ .ok none) :
    ∃ i, t.pick = .ok (some i) ∧ (i = c ↔ t.CanRun c ∧ ∀ j, j ≠ c → ¬t.IsReady false j) := by
  have inside := reached.regular.manned.current c at_c
  have pick := pick_of_ringed reached.regular.ringed at_c inside
  have selects := selects_choice inside
  cases choice : t.choice c with
  | none => exact absurd (pick.trans (congrArg _ choice)) somebody
  | some i =>
    rw [choice] at pick selects
    exact ⟨i, pick, selects.eq_current_iff inside⟩

/-- The only task sleeps, so nobody is picked. -/
theorem Reached.pick_of_alone (reached : t.Reached) (at_c : t.current = some 0) (alone : t.tasks.size = 1)
    (asleep : t.stateAt 0 = some (.blocked w)) : t.pick = .ok none := by
  have inside := reached.regular.manned.current 0 at_c
  have nobody : t.choice 0 = none := by
    refine ((selects_choice inside).eq_none_iff inside).mpr ⟨?_, fun i idle other ready => ?_⟩
    · rintro ⟨task, here, able⟩
      rw [stateAt, here, Option.map_some, Option.some.injEq] at asleep
      simp [asleep] at able
    · have := ready.lt
      omega
  rw [pick_of_ringed reached.regular.ringed at_c inside, nobody]

theorem busy_of_current (at_c : t.current = some c) (runs : t.stateAt c = some .running) : t.Busy := by
  intro i current
  obtain rfl := Option.some.inj (at_c.symm.trans current)
  exact runs

theorem Reached.current_of_alone (reached : t.Reached) (alone : t.tasks.size = 1) : t.current = some 0 := by
  have manned := reached.regular.manned
  cases current : t.current with
  | none =>
    have := manned.vacant current
    omega
  | some c =>
    have := manned.current c current
    rw [show c = 0 by omega]

theorem runFrom_dispatch_current (at_c : t.current = some c) (here : t.tasks[c]? = some task) :
    (dispatch c).runFrom t = (.ok none, t.put c { task with state := .running }) := by
  simp only [dispatch, update, runFrom_bind, runFrom_get, at_c, if_true, slot_eq_ok_iff.mpr here, runFrom_lift,
    runFrom_modify, runFrom_pure, put]

end Table

/-- While the processor is parked one tick arrives, and nothing else happens to the kernel. -/
def Surroundings.Beats {ω : Type} (env : Surroundings ω) : Prop :=
  ∀ s : System ω, ∃ inner : Surroundings ω, (env.whileParked.runFrom s).1 = ((System.tick inner).runFrom s).1 ∧
    (env.whileParked.runFrom s).2.kernel = ((System.tick inner).runFrom s).2.kernel

/-- If the clock can go on, the tick that arrives is served. -/
theorem Surroundings.Beats.meets {ω : Type} {env : Surroundings ω} {s : System ω} (beats : env.Beats)
    (parked : s.kernel.parked = true) (initialized : s.kernel.table.current ≠ none)
    (early : s.kernel.ticks + 1 < wordLimit) :
    env.whileParked.Meets s (fun _ t => s.kernel.Ticked t.kernel) fun _ => False := by
  obtain ⟨inner, outcome, kernel⟩ := beats s
  have ticks := System.meets_tick_of_parked parked initialized inner
  rw [Meets] at ticks ⊢
  rcases ran : (System.tick inner).runFrom s with ⟨fault | ⟨⟩, t⟩
  · simp only [ran] at ticks
    exact absurd ticks.1 (Nat.not_le.mpr early)
  · simp only [ran] at ticks outcome kernel
    rcases rests : env.whileParked.runFrom s with ⟨fault | ⟨⟩, u⟩
    · simp [rests] at outcome
    · simp only [rests] at kernel ⊢
      exact kernel ▸ ticks.1

namespace Kernel
variable {k k' l : Kernel} {m n : Nat}

/-- The processor was parked `n` times, for a tick each. -/
structure Rested (n : Nat) (k k' : Kernel) : Prop extends Lingers k k' where
  table : k'.table = k.table.roused (k.ticks + n)
  ticks : k'.ticks = k.ticks + n
  waits : k'.cpu.waits = k.cpu.waits + n
  waitLimit : k'.cpu.waitLimit = k.cpu.waitLimit

theorem Rested.trans (first : k.Rested m l) (same : l.table = k.table) (second : l.Rested n k') : k.Rested (m + n) k' where
  toLingers := first.toLingers.trans second.toLingers
  table := by rw [second.table, same, first.ticks, Nat.add_assoc]
  ticks := by rw [second.ticks, first.ticks, Nat.add_assoc]
  waits := by rw [second.waits, first.waits, Nat.add_assoc]
  waitLimit := second.waitLimit.trans first.waitLimit

/-- The only task had the processor parked for `n` ticks, and it is running. -/
structure Naps (n : Nat) (k k' : Kernel) : Prop where
  waits : k'.cpu.waits = k.cpu.waits + n
  ticks : k'.ticks = k.ticks + n
  switches : k'.cpu.switches = k.cpu.switches
  current : k'.table.current = some 0
  runs : k'.table.stateAt 0 = some .running

/-- Whether interrupts are masked makes no difference to that. -/
theorem Naps.unmask (naps : k.Naps n k') : k.Naps n { k' with cpu := k'.cpu.unmask } :=
  ⟨naps.waits, naps.ticks, naps.switches, naps.current, naps.runs⟩

theorem Naps.of_mask (naps : Naps n { k with cpu := k.cpu.mask } k') : k.Naps n k' :=
  ⟨naps.waits, naps.ticks, naps.switches, naps.current, naps.runs⟩

/-- For how many ticks the running task sleeps. No time at all is no tick, and the clock does not go past its end. -/
def pause (k : Kernel) (ms : Nat) : Nat := if ms = 0 then 0 else Ticks.saturate (k.ticks + Ticks.ofMs ms) - k.ticks

end Kernel

namespace System
open Table
variable {ω : Type} {s u : System ω} {env : Surroundings ω} {c i w n ms : Nat}

/-- Where nobody can run the processor is parked for a tick, and the scheduler looks again. -/
theorem rescheduleFor_of_nobody (beats : env.Beats) (now : s.kernel.table.current = some c)
    (nobody : s.kernel.table.pick = .ok none) (early : s.kernel.ticks + 1 < wordLimit)
    (room : s.kernel.cpu.waits + 1 < s.kernel.cpu.waitLimit) (rounds : Nat) :
    ∃ u, s.kernel.Rested 1 u.kernel ∧
      (rescheduleFor env (rounds + 1)).runFrom s = (rescheduleFor env rounds).runFrom u := by
  have parks : (park env).Meets { s with kernel.parked := true } (fun _ t => s.kernel.Rested 1 t.kernel)
      fun _ => False := by
    refine meets_park (fun exhausted => absurd exhausted (Nat.not_le.mpr room)) ?_
    have serves := beats.meets (s := { s with kernel := { s.kernel with parked := true }.resting }) rfl
      (by exact now ▸ Option.some_ne_none c) early
    refine serves.mono ?_ fun _ => id
    intro _ t ticked
    exact ⟨⟨ticked.arena, ticked.switches⟩, ticked.table, ticked.ticks, ticked.waits, ticked.waitLimit⟩
  obtain ⟨⟨⟩, t, ran, rested⟩ := parks.returns fun _ => id
  have initialized := isInitialized_of_current now
  refine ⟨{ t with kernel.parked := false }, ⟨⟨rested.arena, rested.switches⟩, rested.table, rested.ticks, rested.waits,
    rested.waitLimit⟩, ?_⟩
  rw [rescheduleFor]
  simp only [runFrom_bind, runFrom_get, if_pos initialized, nobody, runFrom_lift, setParked, runFrom_onKernel,
    runFrom_modify, ran]

/-- As long as no deadline comes this goes on in the same way. -/
theorem rescheduleFor_until (beats : env.Beats) (now : s.kernel.table.current = some c)
    (nobody : s.kernel.table.pick = .ok none)
    (later : ∀ i wake, s.kernel.table.stateAt i = some (.blocked wake) → s.kernel.ticks + n < wake)
    (told : s.kernel.ticks + n + 1 < wordLimit) (room : s.kernel.cpu.waits + n + 1 < s.kernel.cpu.waitLimit)
    (rounds : Nat) : ∃ u, s.kernel.Rested (n + 1) u.kernel ∧
      (rescheduleFor env (rounds + (n + 1))).runFrom s = (rescheduleFor env rounds).runFrom u := by
  induction n generalizing s with
  | zero => exact rescheduleFor_of_nobody beats now nobody told room rounds
  | succ n ih =>
    obtain ⟨t, first, goesOn⟩ := rescheduleFor_of_nobody beats now nobody (by omega) (by omega) (rounds + (n + 1))
    have same : t.kernel.table = s.kernel.table := by
      rw [first.table]
      refine roused_eq_self fun i wake asleep => ?_
      have := later i wake asleep
      omega
    obtain ⟨u, second, ends⟩ := ih (s := t) (same ▸ now) (same ▸ nobody) (by
      intro i wake asleep
      have := later i wake (same ▸ asleep)
      rw [first.ticks]
      omega) (by rw [first.ticks]; omega) (by rw [first.waits, first.waitLimit]; omega)
    refine ⟨u, ?_, goesOn.trans ends⟩
    have rested := first.trans same second
    rwa [Nat.add_comm] at rested

/-- The task that was picked is given the processor, which it has already if it is the current one. -/
theorem rescheduleFor_of_pick (reached : s.kernel.table.Reached) (now : s.kernel.table.current = some c)
    (picked : s.kernel.table.pick = .ok (some i)) (env : Surroundings ω) (rounds : Nat) :
    ∃ t, t.current = some i ∧ t.stateAt i = some .running ∧
      if i = c then (rescheduleFor env (rounds + 1)).runFrom s =
        (.ok (), { s with kernel := s.kernel.withTable t })
      else ∃ sp, (rescheduleFor env (rounds + 1)).runFrom s =
        (switch env ⟨c, i, sp⟩).runFrom { s with kernel := s.kernel.withTable t } := by
  have initialized := isInitialized_of_current now
  have insideC := reached.regular.manned.current c now
  have insideI := (eligible_of_pick picked).lt_size
  rw [rescheduleFor]
  simp only [runFrom_bind, runFrom_get, if_pos initialized, picked, runFrom_lift, runFrom_onKernel, runFrom_onTable]
  by_cases same : i = c
  · subst same
    have here := Array.getElem?_eq_getElem insideI
    refine ⟨s.kernel.table.put i { s.kernel.table.tasks[i] with state := .running }, now, ?_, ?_⟩
    · rw [stateAt_put here, if_pos rfl]
    · rw [if_pos rfl]
      simp only [runFrom_dispatch_current now here, runFrom_pure]
      rfl
  · obtain ⟨result, t, ran, ⟨sp, rfl⟩, current, runs⟩ :=
      (meets_dispatch_other now same insideC insideI).returns fun _ => id
    refine ⟨t, current, runs, ?_⟩
    rw [if_neg same]
    refine ⟨sp, ?_⟩
    simp only [ran]
    rfl

/-- From `s` on the processor is parked once for each tick up to `w`. In `u` the scheduler has picked the task in slot
`i`, which is running in the table `t`. It is the current one, in slot `c`, if that was woken and none but idle tasks
are ready; then the scheduler is done. Otherwise the processor goes to it. -/
structure EndsAt (env : Surroundings ω) (c w : Nat) (s u : System ω) (i : Nat) (t : Table) : Prop where
  rested : s.kernel.Rested (w - s.kernel.ticks) u.kernel
  ticks : u.kernel.ticks = w
  picked : u.kernel.table.pick = .ok (some i)
  current : t.current = some i
  runs : t.stateAt i = some .running
  stays_iff : i = c ↔
    s.kernel.table.stateAt c = some (.blocked w) ∧ ∀ j, j ≠ c → ¬u.kernel.table.IsReady false j
  stays : i = c → (reschedule env).runFrom s = (.ok (), { u with kernel := u.kernel.withTable t })
  leaves : i ≠ c → ∃ sp, (reschedule env).runFrom s =
    (switch env ⟨c, i, sp⟩).runFrom { u with kernel := u.kernel.withTable t }

/-- The processor is parked once for each tick up to the earliest deadline, and then given to a task that can run. -/
theorem reschedule_ends (beats : env.Beats) (foresees : s.kernel.Foresees) (now : s.kernel.table.current = some c)
    (nobody : s.kernel.table.pick = .ok none) (earliest : s.kernel.table.Earliest w)
    (early : s.kernel.ticks + 1 < wordLimit)
    (room : s.kernel.cpu.waits + (w - s.kernel.ticks) < s.kernel.cpu.waitLimit) :
    ∃ u i t, EndsAt env c w s u i t := by
  obtain ⟨sleeper, asleep⟩ := earliest.exists_asleep
  obtain ⟨-, told, ahead⟩ := foresees.ahead sleeper w asleep
  have after := ahead early
  obtain ⟨n, gap⟩ : ∃ n, w - s.kernel.ticks = n + 1 := ⟨w - s.kernel.ticks - 1, by omega⟩
  obtain ⟨rounds, enough⟩ : ∃ rounds, s.kernel.cpu.waitLimit - s.kernel.cpu.waits + 1 = rounds + 1 + (n + 1) :=
    ⟨s.kernel.cpu.waitLimit - s.kernel.cpu.waits - (n + 1), by omega⟩
  have later : ∀ i wake, s.kernel.table.stateAt i = some (.blocked wake) → s.kernel.ticks + n < wake := by
    intro i wake asleep
    have := earliest.le i wake asleep
    omega
  obtain ⟨u, rested, waited⟩ := rescheduleFor_until beats now nobody later (by omega) (by omega) (rounds + 1)
  rw [← gap] at rested
  have ticks : u.kernel.ticks = w := by
    rw [rested.ticks]
    omega
  have table : u.kernel.table = s.kernel.table.roused w := by rw [rested.table, ← rested.ticks, ticks]
  have reached : u.kernel.table.Reached := by
    rw [table]
    exact (foresees.reached.meets_wakeDue w).result (runFrom_wakeDue ..)
  have nowU : u.kernel.table.current = some c := by
    rw [table]
    exact now
  have ready : u.kernel.table.stateAt sleeper = some .ready := by
    rw [table]
    exact stateAt_roused_of_blocked asleep
  have woken : u.kernel.table.CanRun c ↔ s.kernel.table.stateAt c = some (.blocked w) := by
    rw [table]
    exact earliest.canRun_roused_iff (foresees.reached.stuck_of_pick now nobody).1
  obtain ⟨i, picked, stays⟩ := reached.exists_pick nowU (reached.pick_ne_none_of_ready nowU ready)
  obtain ⟨t, current, runs, ends⟩ := rescheduleFor_of_pick reached nowU picked env rounds
  have whole : (reschedule env).runFrom s = (rescheduleFor env (rounds + 1)).runFrom u := by
    rw [reschedule, runFrom_bind, runFrom_get]
    dsimp only
    rw [enough, waited]
  rw [← whole] at ends
  refine ⟨u, i, t, rested, ticks, picked, current, runs, stays.trans (and_congr_left' woken), ?_, ?_⟩
  · intro same
    rwa [if_pos same] at ends
  · intro other
    rwa [if_neg other] at ends

theorem EndsAt.eq_of_alone {t : Table} (ends : EndsAt env 0 w s u i t) (alone : s.kernel.table.tasks.size = 1)
    (asleep : s.kernel.table.stateAt 0 = some (.blocked w)) : i = 0 := by
  refine ends.stays_iff.mpr ⟨asleep, fun j other ready => ?_⟩
  have inside := ready.lt
  rw [ends.rested.table, roused, Array.size_map, alone] at inside
  omega

/-- The only task gives the processor to itself. -/
theorem meets_reschedule_alone (foresees : s.kernel.Foresees) (alone : s.kernel.table.tasks.size = 1)
    (now : s.kernel.table.current = some 0) (runs : s.kernel.table.stateAt 0 = some .running) (env : Surroundings ω) :
    (reschedule env).Meets s (fun _ t => s.kernel.Naps 0 t.kernel) fun _ => False := by
  have able : s.kernel.table.CanRun 0 := by
    obtain ⟨task, here, state⟩ := exists_of_stateAt runs
    exact ⟨task, here, Or.inr state⟩
  obtain ⟨i, picked, stays⟩ := foresees.reached.exists_pick now
    fun nobody => (foresees.reached.stuck_of_pick now nobody).1 able
  obtain rfl : i = 0 := by
    refine stays.mpr ⟨able, fun j other ready => ?_⟩
    have := ready.lt
    omega
  obtain ⟨t, current, runsT, ends⟩ := rescheduleFor_of_pick foresees.reached now picked env
    (s.kernel.cpu.waitLimit - s.kernel.cpu.waits)
  rw [if_pos rfl] at ends
  rw [reschedule, meets_bind, meets_get]
  exact .of_runFrom ends ⟨rfl, rfl, rfl, current, runsT⟩

/-- The only task has gone to sleep, and has the processor again when its time has come. -/
theorem meets_reschedule_asleep (beats : env.Beats) (foresees : s.kernel.Foresees)
    (alone : s.kernel.table.tasks.size = 1) (now : s.kernel.table.current = some 0)
    (asleep : s.kernel.table.stateAt 0 = some (.blocked w)) (early : s.kernel.ticks + 1 < wordLimit)
    (room : s.kernel.cpu.waits + (w - s.kernel.ticks) < s.kernel.cpu.waitLimit) :
    (reschedule env).Meets s (fun _ t => s.kernel.Naps (w - s.kernel.ticks) t.kernel) fun _ => False := by
  obtain ⟨u, i, t, ends⟩ := reschedule_ends beats foresees now
    (foresees.reached.pick_of_alone now alone asleep) (.of_alone alone asleep) early room
  obtain rfl := ends.eq_of_alone alone asleep
  exact .of_runFrom (ends.stays rfl) ⟨ends.rested.waits, ends.rested.ticks, ends.rested.switches, ends.current, ends.runs⟩

/-- The only task goes to sleep. -/
theorem meets_fallAsleep_alone (beats : env.Beats) (arises : s.kernel.Arises) (alone : s.kernel.table.tasks.size = 1)
    (now : s.kernel.table.current = some 0) (runs : s.kernel.table.stateAt 0 = some .running)
    (early : s.kernel.ticks + 1 < wordLimit) (room : s.kernel.cpu.waits +
      (Ticks.saturate (s.kernel.ticks + Ticks.ofMs ms) - s.kernel.ticks) < s.kernel.cpu.waitLimit) :
    (fallAsleep env ms).Meets s (fun _ t =>
      s.kernel.Naps (Ticks.saturate (s.kernel.ticks + Ticks.ofMs ms) - s.kernel.ticks) t.kernel) fun _ => False := by
  obtain ⟨task, here, state⟩ := exists_of_stateAt runs
  rw [fallAsleep, meets_bind, meets_get]
  have blocked := runFrom_blockCurrent now here (Ticks.saturate (s.kernel.ticks + Ticks.ofMs ms))
  have foresees := (arises.slept (busy_of_current now runs) blocked).foresees
  rw [meets_bind, meets_onKernel, meets_onTable]
  refine .of_runFrom blocked ?_
  rw [if_pos rfl, meets_bind, meets_onKernel, meets_onProcessor]
  have asleep := stateAt_put here { task with
    state := .blocked (Ticks.saturate (s.kernel.ticks + Ticks.ofMs ms)) } 0
  rw [if_pos rfl] at asleep
  refine (meets_reschedule_asleep (s := { s with kernel := s.kernel.asleep ms _ }) beats foresees
    ((size_put ..).trans alone) now asleep early room).mono ?_ fun _ => id
  intro _ t naps
  exact ⟨naps.waits, naps.ticks, naps.switches, naps.current, naps.runs⟩

/-- The only task sleeps. -/
theorem meets_sleep_alone (beats : env.Beats) (arises : s.kernel.Arises) (alone : s.kernel.table.tasks.size = 1)
    (runs : s.kernel.table.stateAt 0 = some .running) (early : ms ≠ 0 → s.kernel.ticks + 1 < wordLimit)
    (room : s.kernel.cpu.waits + s.kernel.pause ms < s.kernel.cpu.waitLimit) :
    (sleep env ms).Meets s (fun _ t => s.kernel.Naps (s.kernel.pause ms) t.kernel) fun _ => False := by
  have now := arises.foresees.reached.current_of_alone alone
  by_cases none : ms = 0
  · rw [sleep, if_pos none, pause, if_pos none]
    have yields := meets_reschedule_alone (s := { s with kernel.cpu := s.kernel.cpu.mask }) arises.masked.foresees
      alone now runs env
    exact meets_masked (fun _ _ => Naps.unmask) (meets_reschedule_alone arises.foresees alone now runs env)
      (yields.mono (fun _ _ => Naps.of_mask) fun _ => id)
  · rw [pause, if_neg none] at room ⊢
    rw [sleep_eq none]
    have sleeps := meets_fallAsleep_alone (s := { s with kernel.cpu := s.kernel.cpu.mask }) beats arises.masked
      alone now runs (early none) room
    exact meets_masked (fun _ _ => Naps.unmask) (meets_fallAsleep_alone beats arises alone now runs (early none) room)
      (sleeps.mono (fun _ _ => Naps.of_mask) fun _ => id)

end System

/-- The halt loop ends with the earliest deadline, as long as each time that the processor is parked a tick arrives.
The kernel is any that comes about, in which nobody is picked to run: no task is ready, and the current one sleeps or
has exited. The processor may be parked often enough, and the clock has not come to its end, where no tick can be
served. Then the processor is parked exactly as often as ticks are left to the earliest deadline, and goes to nobody
in the meantime. The current task goes on if it was woken then and none but idle tasks are ready besides; otherwise the
processor goes to another task, which runs. In particular, where there is only one task it sleeps for as many ticks as
it asked for, and runs on. It does not sleep if it asked for no time at all, and not past the end of the clock. -/
theorem Surroundings.Beats.halts_until_deadline {ω : Type} {env : Surroundings ω} (beats : env.Beats) :
    (∀ (s : System ω) (c w : Nat), s.kernel.Arises → s.kernel.table.current = some c →
      s.kernel.table.pick = .ok none → s.kernel.table.Earliest w → s.kernel.ticks + 1 < wordLimit →
      s.kernel.cpu.waits + (w - s.kernel.ticks) < s.kernel.cpu.waitLimit → ∃ u i t, System.EndsAt env c w s u i t) ∧
    ∀ (s : System ω) (ms : Nat), s.kernel.Arises → s.kernel.table.tasks.size = 1 →
      s.kernel.table.stateAt 0 = some .running → (ms ≠ 0 → s.kernel.ticks + 1 < wordLimit) →
      s.kernel.cpu.waits + s.kernel.pause ms < s.kernel.cpu.waitLimit →
      ∃ v, (System.sleep env ms).runFrom s = (.ok (), v) ∧ s.kernel.Naps (s.kernel.pause ms) v.kernel ∧
        (ms ≠ 0 → s.kernel.ticks + Ticks.ofMs ms < wordLimit →
          v.kernel.cpu.waits = s.kernel.cpu.waits + Ticks.ofMs ms) := by
  refine ⟨fun s c w arises now nobody earliest early room => ?_, fun s ms arises alone runs early room => ?_⟩
  · exact System.reschedule_ends beats arises.foresees now nobody earliest early room
  · obtain ⟨⟨⟩, v, ran, naps⟩ := (System.meets_sleep_alone beats arises alone runs early room).returns fun _ => id
    refine ⟨v, ran, naps, fun some told => ?_⟩
    have lasts : s.kernel.pause ms = Ticks.ofMs ms := by
      rw [pause, if_neg some, Ticks.saturate, Nat.min_eq_left (by omega), Nat.add_sub_cancel_left]
    rw [naps.waits, lasts]

theorem beats_still : (Surroundings.still : Surroundings Unit).Beats := fun _ => ⟨_, rfl, rfl⟩

theorem arises_bootedSystem : bootedSystem.kernel.Arises :=
  have ran : (System.onKernel (tryTable Table.adoptBoot)).runFrom
      (⟨Kernel.initial (Memory.zeroed 4096 16472) (Processor.initial 5 ⟨0, 5, 6⟩), ()⟩ : System Unit) =
        (((System.onKernel (tryTable Table.adoptBoot)).runFrom ⟨freshKernel, ()⟩).1, bootedSystem) := rfl
  .ran Program.adopt rfl ran

theorem size_bootedSystem : bootedSystem.kernel.table.tasks.size = 1 := by decide +kernel

theorem stateAt_bootedSystem : bootedSystem.kernel.table.stateAt 0 = some .running := by decide +kernel

/-- It sleeps for two ticks, and also does so from where it has just gone to sleep. -/
theorem halts_until_deadline_of_boot : bootedSystem.kernel.Arises ∧
    (∃ v, (System.sleep .still 20).runFrom bootedSystem = (.ok (), v) ∧ bootedSystem.kernel.Naps 2 v.kernel) ∧
    ∃ s u t, s.kernel.Arises ∧ s.kernel.table.pick = .ok none ∧ System.EndsAt .still 0 2 s u 0 t := by
  have arises := arises_bootedSystem
  have alone := size_bootedSystem
  have runs := stateAt_bootedSystem
  have now : bootedSystem.kernel.table.current = some 0 := by decide +kernel
  have lasts : bootedSystem.kernel.pause 20 = 2 := by decide +kernel
  have early : bootedSystem.kernel.ticks + 1 < wordLimit := by decide +kernel
  have room : bootedSystem.kernel.cpu.waits + (2 - bootedSystem.kernel.ticks) < bootedSystem.kernel.cpu.waitLimit := by
    decide +kernel
  refine ⟨arises, ?_, ?_⟩
  · obtain ⟨v, sleeps, naps, -⟩ := beats_still.halts_until_deadline.2 bootedSystem 20 arises alone runs
      (fun _ => early) (by rw [lasts]; exact room)
    exact ⟨v, sleeps, lasts ▸ naps⟩
  obtain ⟨task, here, -⟩ := Table.exists_of_stateAt runs
  have deadline : Ticks.saturate (bootedSystem.kernel.ticks + Ticks.ofMs 20) = 2 := by decide +kernel
  have slept := arises.slept (Table.busy_of_current now runs)
    (Table.runFrom_blockCurrent now here (Ticks.saturate (_ + Ticks.ofMs 20)))
  have asleep := Table.stateAt_put here { task with state := .blocked 2 } 0
  rw [if_pos rfl] at asleep
  rw [deadline] at slept
  have aloneS := (Table.size_put bootedSystem.kernel.table 0 { task with state := .blocked 2 }).trans alone
  have nobody := slept.foresees.reached.pick_of_alone now aloneS asleep
  obtain ⟨u, i, t, ends⟩ := beats_still.halts_until_deadline.1 ⟨_, ()⟩ 0 2 slept now nobody (.of_alone aloneS asleep)
    (by exact early) (by exact room)
  obtain rfl := ends.eq_of_alone aloneS asleep
  exact ⟨_, u, t, slept, nobody, ends⟩

/-- No time at all makes one tick, but who asks to sleep for it only yields: the processor is not parked. -/
theorem not_forall_sleep_waits_ofMs : ¬∀ (env : Surroundings Unit) (s : System Unit) (ms : Nat), env.Beats →
    s.kernel.Arises → s.kernel.table.tasks.size = 1 → s.kernel.table.stateAt 0 = some .running →
    s.kernel.ticks + Ticks.ofMs ms < wordLimit → s.kernel.cpu.waits + Ticks.ofMs ms < s.kernel.cpu.waitLimit →
    ∃ v, (System.sleep env ms).runFrom s = (.ok (), v) ∧
      v.kernel.cpu.waits = s.kernel.cpu.waits + Ticks.ofMs ms := by
  intro waits_ofMs
  obtain ⟨v, yields, waits⟩ := waits_ofMs .still bootedSystem 0 beats_still arises_bootedSystem size_bootedSystem
    stateAt_bootedSystem (by decide +kernel) (by decide +kernel)
  have unparked : ((System.sleep .still 0).runFrom bootedSystem).2.kernel.cpu.waits = bootedSystem.kernel.cpu.waits := by
    decide +kernel
  have tick : Ticks.ofMs 0 = 1 := by decide
  rw [yields, waits, tick] at unparked
  exact absurd unparked (Nat.succ_ne_self _)

end KernelCore
