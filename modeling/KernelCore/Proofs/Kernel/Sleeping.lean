import KernelCore.Proofs.Kernel.FallingAsleep
import KernelCore.Proofs.Kernel.Upkeep
import KernelCore.Proofs.Task.Sleepers

namespace KernelCore
open Machine

/-- Where nobody sleeps whose time has come, anything may come that concerns neither the tasks nor the clock. -/
theorem Story.Punctual.append {story more : Story} (punctual : story.Punctual) (eased : story.Eased)
    (quiet : ∀ instruction ∈ more, instruction.IsQuiet) :
    Punctual (story ++ more) ∧ Eased (story ++ more) ∧ clock (story ++ more) = story.clock ∧
      version (story ++ more) = story.version := by
  induction more generalizing story with
  | nil => simpa using ⟨punctual, eased⟩
  | cons instruction rest ih =>
    have split : story ++ instruction :: rest = (story ++ [instruction]) ++ rest := by simp
    have isQuiet := quiet instruction (List.mem_cons_self ..)
    have next : story.Keeps instruction := by
      cases instruction with
      | mask => trivial
      | table t => exact isQuiet.elim
      | sleep ms => exact isQuiet.elim
      | _ => exact eased
    have clock : clock (story ++ [instruction]) = story.clock := by
      cases instruction with
      | tick => exact isQuiet.elim
      | _ => simp [clock]
    have version : version (story ++ [instruction]) = story.version := by
      cases instruction with
      | table t => exact isQuiet.elim
      | _ => exact Story.version_concat ..
    rw [split]
    obtain ⟨after, easedAfter, clockAfter, versionAfter⟩ :=
      ih (punctual.concat next) (eased.concat clock version) fun i member => quiet i (List.mem_cons_of_mem _ member)
    exact ⟨after, easedAfter, clockAfter.trans clock, versionAfter.trans version⟩

namespace Kernel
open Table Story
variable {k k' : Kernel} {t : Table} {i wake c ms : Nat} {task new : Task}

/-- The story is punctual, and tells the time and what the task table is. -/
structure Clocked (k : Kernel) : Prop where
  ticks : k.ticks = k.story.clock
  version : k.story.version = k.table
  punctual : k.story.Punctual

/-- Besides, nobody sleeps whose time has come. -/
structure Timed (k : Kernel) : Prop extends Clocked k where
  eased : k.story.Eased

/-- All this holds unless the clock has come to the end of its range. -/
def InTime (k : Kernel) : Prop := k.story.clock < wordLimit - 1 → k.Timed

theorem InTime.echoes (inTime : k.InTime) (echoes : k.Echoes k') : k'.InTime := by
  obtain ⟨table, ticks, more, story, quiet⟩ := echoes
  intro early
  rw [story, clock_append] at early
  obtain ⟨⟨now, version, punctual⟩, eased⟩ := inTime (by omega)
  obtain ⟨after, easedAfter, clock, same⟩ := punctual.append eased quiet
  rw [← story] at after easedAfter clock same
  exact ⟨⟨by rw [ticks, clock, now], by rw [same, version, table], after⟩, easedAfter⟩

theorem clock_withTable (k : Kernel) (t : Table) : (k.withTable t).story.clock = k.story.clock := by
  rw [story_withTable, clock_append]
  rfl

theorem version_withTable (k : Kernel) (t : Table) : (k.withTable t).story.version = t := by
  rw [story_withTable, version_concat]
  rfl

/-- Work on the tasks that comes at its time. -/
theorem timed_withTable (ticks : k.ticks = k.story.clock) (punctual : k.story.Punctual)
    (keeps : k.story.Keeps (.table t)) : (k.withTable t).Timed := by
  refine ⟨⟨ticks.trans (clock_withTable k t).symm, version_withTable k t, ?_⟩, ?_⟩
  · rw [story_withTable]
    exact punctual.concat keeps
  · intro i wake asleep
    rw [Asleep, version_withTable] at asleep
    rw [clock_withTable]
    exact keeps.2 i wake asleep

/-- Work on the tasks that wakes nobody and puts nobody to sleep. -/
theorem InTime.withTable (inTime : k.InTime) (same : k.table.SameSleepers t) : (k.withTable t).InTime := by
  intro early
  rw [clock_withTable] at early
  obtain ⟨⟨ticks, version, punctual⟩, eased⟩ := inTime early
  refine timed_withTable ticks punctual ⟨?_, ?_⟩
  · intro i wake asleep
    rw [if_pos (eased i wake asleep)]
    rw [Asleep, version] at asleep
    exact (same i wake).mpr asleep
  · intro i wake asleep
    refine eased i wake ?_
    rw [Asleep, version]
    exact (same i wake).mp asleep

/-- The running task goes to sleep until a tick that is still to come. -/
theorem Timed.putAsleep (timed : k.Timed) (here : k.table.tasks[c]? = some task) (runs : task.state = .running)
    (state : new.state = .blocked wake) (later : k.story.clock < wake) : (k.withTable (k.table.put c new)).Timed := by
  obtain ⟨⟨ticks, version, punctual⟩, eased⟩ := timed
  refine timed_withTable ticks punctual ⟨?_, ?_⟩
  · intro i wake asleep
    rw [if_pos (eased i wake asleep), stateAt_put here]
    rw [Asleep, version] at asleep
    rw [if_neg ?_, asleep]
    intro same
    simp [Table.stateAt, same, here, runs] at asleep
  · intro i wake asleep
    rw [stateAt_put here] at asleep
    split at asleep
    · have same := TaskState.blocked.inj (state.symm.trans (Option.some.inj asleep))
      exact same ▸ later
    · refine eased i wake ?_
      rwa [Asleep, version]

theorem Timed.noteSleep (timed : k.Timed) (now : k.table.current = some c)
    (asleep : k.table.stateAt c = some (.blocked (Ticks.saturate (k.ticks + Ticks.ofMs ms)))) :
    Timed { k with cpu := k.cpu.note (.sleep ms) } := by
  obtain ⟨⟨ticks, version, punctual⟩, eased⟩ := timed
  have story : Kernel.story { k with cpu := k.cpu.note (.sleep ms) } = k.story ++ [.sleep ms] := (story_note k _).symm
  have clock : clock (k.story ++ [.sleep ms]) = k.story.clock := by
    rw [clock_append]
    rfl
  have keeps : k.story.Keeps (.sleep ms) := by
    refine ⟨eased, c, ?_, ?_⟩
    · rw [version, now]
    · rw [Asleep, version, ← ticks, asleep]
  refine ⟨⟨?_, ?_, ?_⟩, ?_⟩
  · rw [story, clock, ticks]
  · rw [story, version_concat]
    exact version
  · rw [story]
    exact punctual.concat keeps
  · rw [story]
    exact eased.concat clock (Story.version_concat ..)

/-- The running task goes to sleep. -/
theorem InTime.asleep (inTime : k.InTime) (now : k.table.current = some c) (here : k.table.tasks[c]? = some task)
    (runs : task.state = .running) (state : new.state = .blocked (Ticks.saturate (k.ticks + Ticks.ofMs ms))) :
    (k.asleep ms (k.table.put c new)).InTime := by
  have story : (k.asleep ms (k.table.put c new)).story = (k.withTable (k.table.put c new)).story ++ [.sleep ms] :=
    (story_note _ _).symm
  intro early
  rw [story, clock_append, clock_withTable] at early
  have timed : k.Timed := inTime (by omega)
  have later : k.story.clock < Ticks.saturate (k.ticks + Ticks.ofMs ms) := by
    have ticks := timed.ticks
    have positive : 1 ≤ Ticks.ofMs ms := Nat.le_max_left ..
    unfold Ticks.saturate
    omega
  refine (timed.putAsleep here runs state later).noteSleep now ?_
  exact (stateAt_put here new c).trans (by rw [if_pos rfl, state]; rfl)

/-- Until the clock comes to the end of its range, at most the waking is due. -/
def Pending (k : Kernel) : Prop := k.story.clock < wordLimit - 1 → k.Clocked

theorem story_rung (k : Kernel) : k.rung.story = k.story ++ [.tick] := (story_note k _).symm

theorem clock_rung (k : Kernel) : k.rung.story.clock = k.story.clock + 1 := by
  rw [story_rung, clock_append]
  rfl

theorem InTime.rung (inTime : k.InTime) (fits : k.ticks + 1 < wordLimit) : k.rung.Pending := by
  intro early
  rw [clock_rung] at early
  obtain ⟨⟨ticks, version, punctual⟩, eased⟩ := inTime (by omega)
  refine ⟨?_, ?_, ?_⟩
  · rw [clock_rung, ← ticks]
    exact Nat.mod_eq_of_lt fits
  · rw [story_rung, version_concat]
    exact version
  · rw [story_rung]
    exact punctual.concat eased

theorem Pending.mask (pending : k.Pending) : Pending { k with cpu := k.cpu.mask } := by
  have story : Kernel.story { k with cpu := k.cpu.mask } = k.story ++ [.mask] := (story_note k _).symm
  have clock : (Kernel.story { k with cpu := k.cpu.mask }).clock = k.story.clock := by
    rw [story, clock_append]
    rfl
  intro early
  rw [clock] at early
  obtain ⟨ticks, version, punctual⟩ := pending early
  refine ⟨ticks.trans clock.symm, ?_, ?_⟩
  · rw [story, version_concat]
    exact version
  · rw [story]
    exact punctual.concat trivial

/-- Those whose time has come are woken, and nobody else. -/
theorem Clocked.woken (clocked : k.Clocked) :
    (k.withTable { k.table with tasks := k.table.tasks.map (woken k.ticks) }).Timed := by
  obtain ⟨ticks, version, punctual⟩ := clocked
  refine timed_withTable ticks punctual ⟨?_, ?_⟩
  · intro i wake asleep
    rw [Asleep, version] at asleep
    rw [← ticks]
    exact stateAt_woken k.ticks asleep
  · intro i wake asleep
    rw [← ticks]
    exact (asleep_of_woken asleep).2

theorem Clocked.timed (clocked : k.Clocked) (nobody : ∀ i wake, k.table.stateAt i ≠ some (.blocked wake)) : k.Timed := by
  refine ⟨clocked, ?_⟩
  intro i wake asleep
  rw [Asleep, clocked.version] at asleep
  exact absurd asleep (nobody i wake)

theorem echoes_withArena (k : Kernel) (b : Arena) : k.Echoes (k.withArena b) :=
  ⟨rfl, rfl, [], (List.append_nil _).symm, by simp⟩

theorem meets_onArena_echoes {α : Type} (action : Machine Arena α) :
    (onArena action).Meets k (fun _ => k.Echoes) k.Echoes := by
  rw [meets_onArena]
  unfold Meets
  rcases action.runFrom k.arena with ⟨_ | _, b⟩ <;> exact echoes_withArena k b

theorem echoes_report (k : Kernel) (notice : Notice) :
    k.Echoes { k with journal := k.journal.push (k.ticks, notice) } :=
  ⟨rfl, rfl, [], (List.append_nil _).symm, by simp⟩

theorem Echoes.meets {α : Type} {action : Machine Kernel α} (echoes : k.Echoes k')
    (meets : action.Meets k' (fun _ => k'.Echoes) k'.Echoes) : action.Meets k' (fun _ => k.Echoes) k.Echoes :=
  meets.mono (fun _ _ => echoes.trans) fun _ => echoes.trans

theorem meets_prepareStack_echoes (stack size entry arg : Nat) :
    (prepareStack stack size entry arg).Meets k (fun _ => k.Echoes) k.Echoes := by
  refine meets_prepareStack_of (fun _ _ => .refl k) fun sp m _ => ?_
  have noted : k.Passes { k with cpu := k.cpu.note (.prepare sp entry arg) } := .note k trivial
  exact noted.toEchoes.trans (echoes_withArena _ _)

theorem meets_newStack_echoes (entry arg : Nat) : (newStack entry arg).Meets k (fun _ => k.Echoes) k.Echoes := by
  obtain ⟨size, same⟩ : ∃ size, Config.taskStackSize = size := ⟨_, rfl⟩
  exact Meets.merged <| meets_newStack_of same (meets_onArena_echoes _).splits
    (fun _ l echoes => echoes.trans (echoes_report l _))
    fun stack _ echoes => echoes.meets (meets_prepareStack_echoes stack size entry arg)

theorem meets_releaseStack_echoes (stack : Nat) : (releaseStack stack).Meets k (fun _ => k.Echoes) k.Echoes :=
  meets_releaseStack_of (meets_onArena_echoes _).splits fun _ l echoes => echoes.trans (echoes_report l _)

/-- The kernel is in time, and before there is a running task nobody sleeps. -/
structure Calm (k : Kernel) : Prop where
  inTime : k.InTime
  vacant : k.table.Vacant

theorem Calm.echoes (calm : k.Calm) (echoes : k.Echoes k') : k'.Calm :=
  ⟨calm.inTime.echoes echoes, by rw [echoes.table]; exact calm.vacant⟩

theorem Calm.meets {α : Type} {action : Machine Kernel α} (calm : k.Calm)
    (meets : action.Meets k (fun _ => k.Echoes) k.Echoes) : action.Meets k (fun _ => Calm) InTime :=
  meets.mono (fun _ _ => calm.echoes) fun _ => calm.inTime.echoes

theorem Calm.withTable (calm : k.Calm) (undisturbed : k.table.Undisturbed t) : (k.withTable t).Calm :=
  ⟨calm.inTime.withTable undisturbed.sleepers, calm.vacant.undisturbed undisturbed⟩

theorem Calm.meets_onTable {α : Type} {action : Machine Table α} (calm : k.Calm)
    (meets : action.Meets k.table (fun _ => k.table.Undisturbed) k.table.SameSleepers) :
    (onTable action).Meets k (fun _ => Calm) InTime :=
  Kernel.meets_onTable.mpr (meets.mono (fun _ _ => calm.withTable) fun _ => calm.inTime.withTable)

theorem meets_report_calm (calm : k.Calm) (notice : Notice) : (report notice).Meets k (fun _ => Calm) InTime :=
  calm.echoes (echoes_report k notice)

theorem meets_boot_calm (calm : k.Calm) : boot.Meets k (fun _ => Calm) InTime :=
  meets_boot_of calm (calm.meets (meets_newStack_echoes _ _)).splits
    (fun stack sp _ calm => (calm.meets_onTable (meets_adopt_undisturbed stack sp)).splits)
    (fun stack _ calm => calm.meets (meets_releaseStack_echoes stack))
    fun _ notice _ calm => meets_report_calm calm notice

theorem meets_create_calm (calm : k.Calm) (entry arg : Nat) : (create entry arg).Meets k (fun _ => Calm) InTime :=
  meets_create_of calm (calm.meets (meets_newStack_echoes _ _)).splits
    (fun stack sp _ calm => (calm.meets_onTable (meets_add_undisturbed (some stack) sp .none)).splits)
    (fun stack _ calm => calm.meets (meets_releaseStack_echoes stack))
    fun _ notice _ calm => meets_report_calm calm notice

theorem meets_retire_calm (calm : k.Calm) (busy : k.table.Busy) : retire.Meets k (fun _ => Calm) InTime :=
  meets_retire_of (fun _ _ => calm.inTime) (calm.meets_onTable (meets_terminateCurrent_undisturbed busy).excused)
    (fun _ => id) (fun _ _ calm => (calm.meets (meets_onArena_echoes _)).splits)
    (fun _ _ _ calm => meets_report_calm calm _) fun _ _ calm => meets_report_calm calm _

theorem meets_blockCurrent_calm (calm : k.Calm) (busy : k.table.Busy) (ms : Nat) :
    (blockCurrent (Ticks.saturate (k.ticks + Ticks.ofMs ms))).Meets k.table
      (fun done t => if done then (k.asleep ms t).Calm else (k.withTable t).Calm) fun _ => False := by
  unfold blockCurrent
  rw [meets_bind, meets_get]
  cases now : k.table.current with
  | none => exact calm.withTable (.refl k.table)
  | some c =>
    obtain ⟨task, here, runs⟩ := exists_of_stateAt (busy c now)
    dsimp only
    rw [meets_bind]
    refine meets_update_of here ?_
    rw [meets_pure, if_pos rfl]
    exact ⟨calm.inTime.asleep now here runs rfl, fun none => by simp [asleep, withTable, put, now] at none⟩

theorem Calm.rung (calm : k.Calm) :
    if k.ticks + 1 < wordLimit then k.rung.Pending ∧ k.rung.table.Vacant else k.rung.InTime := by
  split
  · rename_i fits
    exact ⟨calm.inTime.rung fits, calm.vacant⟩
  · rename_i late
    intro early
    rw [clock_rung] at early
    have ticks := (calm.inTime (by omega)).ticks
    omega

theorem meets_wakeDue_calm (pending : k.Pending) (vacant : k.table.Vacant) :
    (wakeDue k.ticks).Meets k.table (fun _ t => (k.withTable t).Calm) fun _ => False := by
  unfold wakeDue
  rw [meets_bind, meets_get, meets_bind, meets_set, meets_pure]
  refine ⟨fun early => (pending ?_).woken, fun none i wake asleep => vacant none i wake (asleep_of_woken asleep).1⟩
  rwa [clock_withTable] at early

end Kernel

/-- Sleepers are woken in time. -/
def punctuality (ω : Type) : Upkeep ω where
  keeps s := s.kernel.Calm
  rings s := s.kernel.Pending ∧ s.kernel.table.Vacant
  stopped s := s.kernel.InTime
  excuse _ calm := calm.inTime
  passes _ _ calm passes := calm.echoes passes.toEchoes
  dispatches s i calm orderly eligible := (Table.meets_dispatch_view Table.lasting_deadline.toSteady orderly eligible).mono
    (fun _ _ ⟨same, now⟩ => calm.withTable (Table.undisturbed_of_view same (by simp [now]))) fun _ => id
  saves s i sp calm := (Table.meets_saveStackPointer_view Table.lasting_deadline i sp).mono
    (fun _ _ ⟨same, now⟩ => calm.withTable (Table.undisturbed_of_view same (by simp [now])))
    fun _ same => calm.inTime.withTable (Table.sameSleepers_of_view same)
  sleeps s ms _ calm _ busy := Kernel.meets_blockCurrent_calm calm busy ms
  retires s calm _ busy := System.meets_onKernel.mpr (Kernel.meets_retire_calm calm busy)
  ticks s calm := calm.rung
  masks _ pending := ⟨pending.1.mask, pending.2⟩
  wakes _ pending := Kernel.meets_wakeDue_calm pending.1 pending.2
  nobody _ pending none := ⟨fun early => (pending.1 early).timed (pending.2 none), pending.2⟩

variable {ω α : Type}

theorem Clockwork.punctual {action : Machine (System ω) α} (clockwork : Clockwork action) (ongoing : List Activity) :
    (punctuality ω).Carries action ((punctuality ω).Holds ongoing true False)
      ((punctuality ω).Holds ongoing true False) := by
  induction clockwork with
  | pure a => exact fun s holds => holds
  | throw fault => exact fun s holds => holds.excuse
  | bind _ _ first rest => exact first.bind rest
  | get => exact fun s holds => holds
  | outside change => exact fun s holds => ⟨holds.stands, holds.keeps⟩
  | tick env =>
    exact fun s holds => (Upkeep.carries_tick (by simp) s holds).mono (fun _ _ holdsT => holdsT.weaken False.elim)
      fun _ => id

/-- Of what works on the kernel alone it is known what it means for the tasks. -/
theorem carries_of_calm {action : Machine Kernel α} {ongoing : List Activity}
    (stands : (System.onKernel action : Machine (System ω) α).Carries (Kernel.Stands ongoing false True)
      (Kernel.Stands ongoing false True))
    (calm : ∀ k : Kernel, k.Calm → action.Meets k (fun _ => Kernel.Calm) Kernel.InTime) :
    (punctuality ω).Carries (System.onKernel action) ((punctuality ω).Holds ongoing false True)
      ((punctuality ω).Holds ongoing false True) :=
  Upkeep.carries_of_stands stands fun s holds => System.meets_onKernel.mpr (calm s.kernel holds.keeps)

/-- Every program wakes its sleepers in time. -/
theorem Program.punctual {program : Machine (System ω) α} (isProgram : Program program) (ongoing : List Activity) :
    (punctuality ω).Carries program ((punctuality ω).Holds ongoing false True)
      ((punctuality ω).Holds ongoing false True) := by
  induction isProgram generalizing ongoing with
  | pure a => exact fun s holds => holds
  | throw fault => exact fun s holds => holds.excuse
  | bind _ _ first rest => exact (first ongoing).bind fun a => rest a ongoing
  | get => exact fun s holds => holds
  | outside change => exact fun s holds => ⟨holds.stands, holds.keeps⟩
  | mask => exact fun s holds => holds.mask
  | unmask => exact fun s holds => holds.unmask
  | report notice =>
    exact carries_of_calm ((Program.report notice).carries ongoing) fun _ calm => Kernel.meets_report_calm calm notice
  | heap action =>
    exact carries_of_calm ((Program.heap action).carries ongoing) fun _ calm =>
      calm.meets (Kernel.meets_onArena_echoes action)
  | adopt =>
    exact carries_of_calm (Program.adopt.carries ongoing) fun _ calm =>
      calm.meets_onTable Table.meets_adoptBoot_undisturbed
  | boot =>
    exact Upkeep.carries_masked Upkeep.Holds.mask Upkeep.Holds.unmask <|
      carries_of_calm (carries_onKernel fun _ stands => Kernel.meets_boot stands) fun _ => Kernel.meets_boot_calm
  | create entry arg =>
    exact Upkeep.carries_masked Upkeep.Holds.mask Upkeep.Holds.unmask <|
      carries_of_calm (carries_onKernel fun _ stands => Kernel.meets_create stands entry arg) fun _ calm =>
        Kernel.meets_create_calm calm entry arg
  | turn env turn parked _ away =>
    exact Upkeep.carries_turn ⟨fun ongoing => parked.punctual _, fun ongoing => away _⟩ turn

theorem calm_initial (m : Memory) {cpu : Processor} (unused : cpu.trace = #[]) : (Kernel.initial m cpu).Calm := by
  have story : (Kernel.initial m cpu).story = [] := by rw [Kernel.story, Kernel.initial, unused]
  have nobody : ∀ i wake, (Kernel.initial m cpu).table.stateAt i ≠ some (.blocked wake) := by
    intro i wake asleep
    simp [Kernel.initial, Table.empty, Table.stateAt] at asleep
  refine ⟨fun _ => Kernel.Clocked.timed ⟨?_, ?_, ?_⟩ nobody, fun _ => nobody⟩
  · rw [story]
    rfl
  · rw [story]
    rfl
  · rw [story]
    exact Story.obeys_nil Story.Keeps

/-- Along every run of a program whose clock stays below the end of its range the clock counts the ticks, and
wherever no tick waits to be acted on, whenever the processor goes to another task or is parked, and in the end,
everybody who sleeps has a deadline that is still to come. So a task that goes to sleep for a time sleeps until
as many ticks have arrived as this time lasts, and is ready with the last of them. A task that calls for some
milliseconds of sleep does go to sleep for them, in whatever state the system is; if the call is a part of the run, the
task sleeps for as many ticks from the one on at which it called. -/
theorem Program.sleeps_exactly {program : Machine (System ω) α} (isProgram : Program program) {m : Memory}
    {cpu : Processor} (unused : cpu.trace = #[]) {outside : ω} {outcome : Except Fault α} {s : System ω}
    (ran : program.runFrom ⟨Kernel.initial m cpu, outside⟩ = (outcome, s))
    (early : s.kernel.story.clock < wordLimit - 1) :
    s.kernel.ticks = s.kernel.story.clock ∧
      (∀ i wake, s.kernel.table.stateAt i = some (.blocked wake) → s.kernel.ticks < wake) ∧
      (∀ before after, s.kernel.story = before ++ after → Story.ringing before = false → Story.Eased before) ∧
      (∀ before instruction after, s.kernel.story = before ++ instruction :: after → instruction.GivesWay →
        Story.Eased before) ∧
      (∀ before ms after, s.kernel.story = before ++ .sleep ms :: after →
        Story.clock before + Ticks.ofMs ms < wordLimit → ∃ c, (Story.version before).current = some c ∧
          Story.Rests before c (Story.clock before + Ticks.ofMs ms) (.sleep ms :: after)) ∧
      ∀ (env : Surroundings ω) (ms c : Nat) (r u : System ω), System.Sleeps env ms c r u →
        r.kernel.FallsAsleep c ms u.kernel ∧
          (u.kernel.story <+: s.kernel.story → r.kernel.story.clock + Ticks.ofMs ms < wordLimit →
            ∃ before after, s.kernel.story = before ++ .sleep ms :: after ∧ r.kernel.story <+: before ∧
              Story.clock before = r.kernel.story.clock ∧
              Story.Rests before c (r.kernel.story.clock + Ticks.ofMs ms) (.sleep ms :: after)) := by
  have carries := isProgram.punctual [] ⟨Kernel.initial m cpu, outside⟩ ⟨stands_initial m unused, calm_initial m unused⟩
  have inTime : s.kernel.InTime := by
    cases outcome with
    | error fault => exact carries.fault ran
    | ok a => exact (carries.result ran).excuse
  obtain ⟨⟨ticks, version, punctual⟩, eased⟩ := inTime early
  have rests : ∀ before ms after, s.kernel.story = before ++ .sleep ms :: after →
      Story.clock before + Ticks.ofMs ms < wordLimit → ∃ c, (Story.version before).current = some c ∧
        Story.Rests before c (Story.clock before + Ticks.ofMs ms) (.sleep ms :: after) := by
    intro before ms after split room
    obtain ⟨-, c, now, asleep⟩ := punctual before (.sleep ms) after split
    rw [split] at punctual eased
    rw [Ticks.saturate, Nat.min_eq_left (by omega)] at asleep
    exact ⟨c, now, punctual.rests eased asleep⟩
  refine ⟨ticks, ?_, ?_, ?_, rests, ?_⟩
  · intro i wake asleep
    rw [ticks]
    refine eased i wake ?_
    rwa [Story.Asleep, version]
  · intro before after split settled
    rw [split] at punctual
    exact Story.Punctual.eased (Story.Obeys.left punctual) settled
  · intro before instruction after split gives
    have next := punctual before instruction after split
    cases instruction with
    | switch enabled handover saved => exact next
    | wait => exact next
    | _ => exact gives.elim
  · intro env ms c r u sleeps
    refine ⟨sleeps.fallsAsleep, fun part room => ?_⟩
    obtain ⟨before, after, split, earlier, clock, now⟩ := sleeps.fallsAsleep.marked part
    rw [← clock] at room ⊢
    obtain ⟨caller, same, sleepsOn⟩ := rests before ms after split room
    obtain rfl : c = caller := Option.some.inj (now.symm.trans same)
    exact ⟨before, after, split, earlier, rfl, sleepsOn⟩

/-- The boot task calls for 25 milliseconds of sleep. It sleeps for three ticks, while the processor is parked. -/
theorem sleeps_exactly_of_boot : ∃ s before after, bootSleeps.runFrom ⟨freshKernel, ()⟩ = (.ok (), s) ∧
    System.Sleeps .still 25 0 bootedSystem s ∧ bootedSystem.kernel.FallsAsleep 0 25 s.kernel ∧
    s.kernel.story = before ++ .sleep 25 :: after ∧ s.kernel.ticks = 3 ∧
    Story.Rests before 0 3 (.sleep 25 :: after) := by
  obtain ⟨s, ran, calls⟩ := sleeps_bootSleeps
  have clock : (bootSleeps.runFrom ⟨freshKernel, ()⟩).2.kernel.story.clock = 3 := by decide +kernel
  rw [ran] at clock
  obtain ⟨ticks, -, -, -, -, sleeps⟩ := Program.sleeps_exactly program_bootSleeps rfl ran (by rw [clock]; decide)
  obtain ⟨falls, rests⟩ := sleeps .still 25 0 bootedSystem s calls
  obtain ⟨before, after, split, -, -, sleepsOn⟩ := rests List.prefix_rfl (by decide +kernel)
  have wake : bootedSystem.kernel.story.clock + Ticks.ofMs 25 = 3 := by decide +kernel
  rw [wake] at sleepsOn
  exact ⟨s, before, after, ran, calls, falls, split, ticks.trans clock, sleepsOn⟩

end KernelCore
