import KernelCore.Proofs.Kernel.Halting
import Mathlib.Order.Bounds.Basic

namespace KernelCore
open Machine Kernel

namespace Ticks

/-- The longest time that a number of ticks from a conversion lasts. -/
def longestMs : Nat := ofMs (wordLimit - 1) * lengthMs

/-- The ticks of a time are the fewest that last as long, or as long as the longest time. -/
theorem isLeast_ofMs {ms : Nat} (some : 1 ≤ ms) : IsLeast {n | min ms longestMs ≤ n * lengthMs} (ofMs ms) := by
  have longest : longestMs = 184467440737095520 := by decide
  have length : lengthMs = 10 := by decide
  have ticks : ofMs ms = max 1 ((min (ms * 100) 18446744073709551615 + 999) / 1000) := rfl
  refine ⟨?_, fun n enough => ?_⟩
  · simp only [Set.mem_ofPred_eq, longest, length]
    omega
  · simp only [Set.mem_ofPred_eq, longest, length] at enough
    omega

theorem ofMs_le (ms : Nat) : ofMs ms ≤ ofMs (wordLimit - 1) := by
  have most : ofMs (wordLimit - 1) = 18446744073709552 := by decide
  rw [most]
  simp only [ofMs, saturate, wordLimit]
  omega

theorem monotone_ofMs : Monotone ofMs := by
  intro ms ms' shorter
  simp only [ofMs, saturate, Config.timerHz]
  omega

/-- What lasts less than the time that was asked for takes fewer ticks. -/
theorem lt_ofMs {n ms : Nat} (short : n * lengthMs < min ms longestMs) : n < ofMs ms := by
  by_contra enough
  have some : 1 ≤ ms := by omega
  have least := (isLeast_ofMs some).1
  have more : ofMs ms * lengthMs ≤ n * lengthMs := Nat.mul_le_mul_right _ (Nat.not_lt.mp enough)
  exact absurd (Nat.lt_of_lt_of_le short (Nat.le_trans least more)) (Nat.lt_irrefl _)

end Ticks

namespace Story
variable {story before after : Story} {i wake : Nat}

/-- What may come after a story as long as the clock is in its range: nobody is woken too early, and who goes to
sleep has the deadline that was asked for. -/
def SparesSleepers (story : Story) : Instruction → Prop
  | .table t => story.clock < wordLimit → ∀ i wake, story.Asleep i wake → story.clock < wake →
      t.stateAt i = some (.blocked wake)
  | .sleep ms => story.clock + Ticks.ofMs ms < wordLimit → ∃ c, story.version.current = some c ∧
      story.Asleep c (story.clock + Ticks.ofMs ms)
  | _ => True

/-- What concerns neither the tasks nor the clock makes no difference. -/
theorem sparesSleepers_append {more : Story} (spares : story.Obeys SparesSleepers)
    (quiet : ∀ instruction ∈ more, instruction.IsQuiet) : Obeys SparesSleepers (story ++ more) ∧
      clock (story ++ more) = story.clock ∧ version (story ++ more) = story.version := by
  induction more generalizing story with
  | nil => simpa using spares
  | cons instruction rest ih =>
    have isQuiet := quiet instruction (List.mem_cons_self ..)
    have next : story.SparesSleepers instruction := by
      cases instruction with
      | table | sleep => exact isQuiet.elim
      | _ => trivial
    have clock : clock (story ++ [instruction]) = story.clock := by
      cases instruction with
      | tick => exact isQuiet.elim
      | _ => simp [clock]
    have version : version (story ++ [instruction]) = story.version := by
      cases instruction with
      | table => exact isQuiet.elim
      | _ => exact Story.version_concat ..
    obtain ⟨after, clockAfter, versionAfter⟩ :=
      ih (spares.concat next) fun i member => quiet i (List.mem_cons_of_mem _ member)
    rw [List.append_assoc, List.singleton_append] at after clockAfter versionAfter
    exact ⟨after, clockAfter.trans clock, versionAfter.trans version⟩

/-- Who sleeps sleeps on until the deadline. -/
theorem asleep_of_sparesSleepers (spares : Obeys SparesSleepers (before ++ after)) (asleep : before.Asleep i wake)
    (told : wake < wordLimit) (early : clock (before ++ after) < wake) : Asleep (before ++ after) i wake := by
  induction after generalizing before with
  | nil => rwa [List.append_nil]
  | cons instruction rest ih =>
    have next := spares before instruction rest rfl
    have split : before ++ instruction :: rest = (before ++ [instruction]) ++ rest := by simp
    have now : before.clock < wake := by
      rw [clock_append] at early
      omega
    rw [split] at spares early ⊢
    refine ih spares ?_ early
    rw [Asleep, version_concat]
    cases instruction with
    | table t => exact next (by omega) i wake asleep now
    | _ => exact asleep

end Story

namespace Kernel
open Table Story
variable {k k' : Kernel} {t : Table} {c ms : Nat} {task new : Task}

/-- The story keeps to this, and tells the time and what the task table is. -/
structure SparedSleepers (k : Kernel) : Prop where
  reached : k.table.Reached
  ticks : k.story.clock < wordLimit → k.ticks = k.story.clock
  version : k.story.version = k.table
  spares : k.story.Obeys SparesSleepers

theorem sparedSleepers_initial (m : Memory) {cpu : Processor} (unused : cpu.trace = #[]) :
    (Kernel.initial m cpu).SparedSleepers := by
  have story : (Kernel.initial m cpu).story = [] := by rw [Kernel.story, Kernel.initial, unused]
  exact ⟨.empty, fun _ => by rw [story]; rfl, by rw [story]; rfl, by rw [story]; exact obeys_nil SparesSleepers⟩

theorem SparedSleepers.echoes (spared : k.SparedSleepers) (echoes : k.Echoes k') : k'.SparedSleepers := by
  obtain ⟨table, ticks, more, story, quiet⟩ := echoes
  obtain ⟨spares, clock, version⟩ := sparesSleepers_append spared.spares quiet
  rw [← story] at spares clock version
  refine ⟨table ▸ spared.reached, fun early => ?_, ?_, spares⟩
  · rw [clock] at early ⊢
    exact ticks.trans (spared.ticks early)
  · rw [version, table, spared.version]

theorem bears_sparedSleepers : Bears SparedSleepers := fun _ _ spared eludes => spared.echoes eludes.toEchoes

/-- Work on the tasks that wakes nobody too early. -/
theorem SparedSleepers.withTable (spared : k.SparedSleepers) (reached : t.Reached)
    (stays : ∀ i wake, k.table.stateAt i = some (.blocked wake) → k.ticks < wake →
      t.stateAt i = some (.blocked wake)) : (k.withTable t).SparedSleepers := by
  refine ⟨reached, fun early => ?_, version_withTable k t, ?_⟩
  · rw [clock_withTable] at early ⊢
    exact spared.ticks early
  · rw [story_withTable]
    refine spared.spares.concat fun early i wake asleep now => ?_
    rw [Asleep, spared.version] at asleep
    exact stays i wake asleep (by rwa [spared.ticks early])

theorem SparedSleepers.meets_undisturbed {α : Type} {action : Machine Table α} {stopped : Table → Prop}
    (spared : k.SparedSleepers) (reaches : action.Meets k.table (fun _ => Reached) fun _ => False)
    (undisturbed : action.Meets k.table (fun _ => k.table.Undisturbed) stopped) :
    action.Meets k.table (fun _ t => (k.withTable t).SparedSleepers) fun _ => False :=
  (reaches.both undisturbed).mono
    (fun _ _ both => spared.withTable both.1 fun i wake asleep _ => (both.2.sleepers i wake).mpr asleep)
    fun _ => And.left

/-- The running task goes to sleep. -/
theorem SparedSleepers.asleep (spared : k.SparedSleepers) (reached : (k.table.put c new).Reached)
    (now : k.table.current = some c) (here : k.table.tasks[c]? = some task) (runs : task.state = .running)
    (state : new.state = .blocked (Ticks.saturate (k.ticks + Ticks.ofMs ms))) :
    (k.asleep ms (k.table.put c new)).SparedSleepers := by
  have after : (k.withTable (k.table.put c new)).SparedSleepers := by
    refine spared.withTable reached fun i wake asleep _ => ?_
    rw [stateAt_put here, if_neg, asleep]
    rintro rfl
    simp [Table.stateAt, here, runs] at asleep
  have story : (k.asleep ms (k.table.put c new)).story = (k.withTable (k.table.put c new)).story ++ [.sleep ms] :=
    (story_note _ _).symm
  have clock : (k.asleep ms (k.table.put c new)).story.clock = (k.withTable (k.table.put c new)).story.clock := by
    rw [story, clock_append]
    rfl
  refine ⟨reached, fun early => ?_, ?_, ?_⟩
  · rw [clock] at early ⊢
    exact after.ticks early
  · rw [story, version_concat]
    exact after.version
  · rw [story]
    refine after.spares.concat fun told => ⟨c, ?_, ?_⟩
    · rw [version_withTable]
      exact now
    · rw [clock_withTable] at told ⊢
      rw [Asleep, version_withTable, stateAt_put here, if_pos rfl, state, spared.ticks (by omega), Ticks.saturate,
        Nat.min_eq_left (by omega)]

theorem SparedSleepers.meets_blockCurrent (spared : k.SparedSleepers) (busy : k.table.Busy) (ms : Nat) :
    (blockCurrent (Ticks.saturate (k.ticks + Ticks.ofMs ms))).Meets k.table
      (fun done t => if done then (k.asleep ms t).SparedSleepers else (k.withTable t).SparedSleepers) fun _ => False := by
  have reaches := spared.reached.meets_blockCurrent (Ticks.saturate (k.ticks + Ticks.ofMs ms))
  cases now : k.table.current with
  | none =>
    have ran : (blockCurrent (Ticks.saturate (k.ticks + Ticks.ofMs ms))).runFrom k.table = (.ok false, k.table) := by
      simp only [blockCurrent, runFrom_bind, runFrom_get, now, runFrom_pure]
    exact .of_runFrom ran (spared.withTable spared.reached fun _ _ asleep _ => asleep)
  | some c =>
    obtain ⟨task, here, runs⟩ := exists_of_stateAt (busy c now)
    have ran := runFrom_blockCurrent now here (Ticks.saturate (k.ticks + Ticks.ofMs ms))
    exact .of_runFrom ran (spared.asleep (reaches.result ran) now here runs rfl)

/-- The clock goes on. -/
theorem SparedSleepers.rung (spared : k.SparedSleepers) : k.rung.SparedSleepers := by
  refine ⟨spared.reached, fun early => ?_, ?_, ?_⟩
  · rw [clock_rung] at early ⊢
    change (k.ticks + 1) % wordLimit = _
    rw [spared.ticks (by omega), Nat.mod_eq_of_lt early]
  · rw [story_rung, version_concat]
    exact spared.version
  · rw [story_rung]
    exact spared.spares.concat trivial

theorem SparedSleepers.meets_wakeDue (spared : k.SparedSleepers) :
    (wakeDue k.ticks).Meets k.table (fun _ t => (k.withTable t).SparedSleepers) fun _ => False := by
  have reaches := spared.reached.meets_wakeDue k.ticks
  refine .of_runFrom (runFrom_wakeDue ..) (spared.withTable (reaches.result (runFrom_wakeDue ..)) ?_)
  intro i wake asleep now
  exact (stateAt_woken k.ticks asleep).trans (by rw [if_pos now])

end Kernel

/-- Nobody who sleeps is woken too early. -/
def undisturbedSleep (ω : Type) : Upkeep ω where
  keeps s := s.kernel.SparedSleepers
  rings s := s.kernel.SparedSleepers
  stopped s := s.kernel.SparedSleepers
  excuse _ spared := spared
  passes _ _ spared passes := spared.echoes passes.toEchoes
  dispatches s i spared orderly eligible := spared.meets_undisturbed (spared.reached.meets_dispatch eligible) <|
    (Table.meets_dispatch_view Table.lasting_deadline.toSteady orderly eligible).mono
      (fun _ _ ⟨same, now⟩ => Table.undisturbed_of_view same (by simp [now])) fun _ => id
  saves s i sp spared := ((spared.reached.meets_saveStackPointer i sp).both
    (Table.meets_saveStackPointer_view Table.lasting_deadline i sp)).mono
      (fun _ _ ⟨reached, same, _⟩ =>
        spared.withTable reached fun i wake asleep _ => (Table.sameSleepers_of_view same i wake).mpr asleep)
      fun _ ⟨reached, same⟩ =>
        spared.withTable reached fun i wake asleep _ => (Table.sameSleepers_of_view same i wake).mpr asleep
  sleeps s ms _ spared _ busy := spared.meets_blockCurrent busy ms
  retires s spared _ busy := System.meets_onKernel.mpr <| bears_sparedSleepers.meets_retire spared (fun _ => id) <|
    spared.meets_undisturbed spared.reached.meets_terminateCurrent (Table.meets_terminateCurrent_undisturbed busy)
  ticks _ spared := by split <;> exact spared.rung
  masks s spared := spared.echoes (Passes.mask s.kernel).toEchoes
  wakes _ spared := spared.meets_wakeDue
  nobody _ spared _ := spared

theorem shelters_undisturbedSleep {ω : Type} : (undisturbedSleep ω).Shelters SparedSleepers where
  keeps _ := Iff.rfl
  stopped _ := Iff.rfl
  bears := bears_sparedSleepers
  boots _ spared := spared.meets_undisturbed spared.reached.meets_adoptBoot Table.meets_adoptBoot_undisturbed
  founds _ stack sp spared :=
    spared.meets_undisturbed (spared.reached.meets_adopt stack sp) (Table.meets_adopt_undisturbed stack sp)
  adds _ stack sp spared := spared.meets_undisturbed (spared.reached.meets_add (some stack) sp .none)
    (Table.meets_add_undisturbed (some stack) sp .none)

theorem Program.sparedSleepers {ω α : Type} {program : Machine (System ω) α} (isProgram : Program program) {m : Memory}
    {cpu : Processor} (unused : cpu.trace = #[]) {outside : ω} {outcome : Except Fault α} {s : System ω}
    (ran : program.runFrom ⟨Kernel.initial m cpu, outside⟩ = (outcome, s)) : s.kernel.SparedSleepers := by
  have sheltered := isProgram.sheltered shelters_undisturbedSleep [] ⟨Kernel.initial m cpu, outside⟩
    ⟨stands_initial m unused, sparedSleepers_initial m unused⟩
  cases outcome with
  | error fault => exact sheltered.fault ran
  | ok a => exact (sheltered.result ran).keeps

/-- A time is rounded up to at least one tick, up to the longest time that a conversion can tell, and no sleep is
shorter than that. The ticks of a time are the fewest that last as long as the time, or as the longest time; so they
last as long as the time exactly if it is not longer than the longest one, and a longer time takes no fewer ticks.
Along every run of a program whoever goes to sleep with a deadline that the clock can tell sleeps as long as fewer
milliseconds have passed. A task that calls for some milliseconds of sleep does go to sleep for them, in whatever state
the system is; if the call is a part of the run, that many milliseconds count from the tick on at which the task called. -/
theorem Program.sleeps_long_enough {ω α : Type} {program : Machine (System ω) α} (isProgram : Program program)
    {m : Memory} {cpu : Processor} (unused : cpu.trace = #[]) {outside : ω} {outcome : Except Fault α} {s : System ω}
    (ran : program.runFrom ⟨Kernel.initial m cpu, outside⟩ = (outcome, s)) :
    (∀ ms, 1 ≤ ms → IsLeast {n | min ms Ticks.longestMs ≤ n * Ticks.lengthMs} (Ticks.ofMs ms) ∧ 1 ≤ Ticks.ofMs ms ∧
      (ms ≤ Ticks.ofMs ms * Ticks.lengthMs ↔ ms ≤ Ticks.longestMs)) ∧
    Monotone Ticks.ofMs ∧
    (s.kernel.story.clock < wordLimit → s.kernel.ticks = s.kernel.story.clock) ∧
    (∀ before ms after, s.kernel.story = before ++ .sleep ms :: after →
      Story.clock before + Ticks.ofMs ms < wordLimit → ∃ c, (Story.version before).current = some c ∧
        ∀ during rest, .sleep ms :: after = during ++ rest →
          (Story.clock (before ++ during) - Story.clock before) * Ticks.lengthMs < min ms Ticks.longestMs →
          Story.Asleep (before ++ during) c (Story.clock before + Ticks.ofMs ms)) ∧
    ∀ (env : Surroundings ω) (ms c : Nat) (r u : System ω), System.Sleeps env ms c r u →
      r.kernel.FallsAsleep c ms u.kernel ∧
        (u.kernel.story <+: s.kernel.story → r.kernel.story.clock + Ticks.ofMs ms < wordLimit →
          ∃ before after, s.kernel.story = before ++ .sleep ms :: after ∧ r.kernel.story <+: before ∧
            Story.clock before = r.kernel.story.clock ∧ ∀ during rest, .sleep ms :: after = during ++ rest →
              (Story.clock (before ++ during) - r.kernel.story.clock) * Ticks.lengthMs < min ms Ticks.longestMs →
              Story.Asleep (before ++ during) c (r.kernel.story.clock + Ticks.ofMs ms)) := by
  have spared := isProgram.sparedSleepers unused ran
  have sleeps : ∀ before ms after, s.kernel.story = before ++ .sleep ms :: after →
      Story.clock before + Ticks.ofMs ms < wordLimit → ∃ c, (Story.version before).current = some c ∧
        ∀ during rest, .sleep ms :: after = during ++ rest →
          (Story.clock (before ++ during) - Story.clock before) * Ticks.lengthMs < min ms Ticks.longestMs →
          Story.Asleep (before ++ during) c (Story.clock before + Ticks.ofMs ms) := by
    intro before ms after split told
    obtain ⟨c, now, asleep⟩ := spared.spares before (.sleep ms) after split told
    refine ⟨c, now, fun during rest parts short => ?_⟩
    have spares := spared.spares
    rw [split, parts, ← List.append_assoc] at spares
    have passed := Ticks.lt_ofMs short
    exact Story.asleep_of_sparesSleepers spares.left asleep told (by omega)
  refine ⟨fun ms some => ⟨Ticks.isLeast_ofMs some, Nat.le_max_left .., ?_⟩, Ticks.monotone_ofMs, spared.ticks, sleeps,
    ?_⟩
  · have least := (Ticks.isLeast_ofMs some).1
    rw [Set.mem_ofPred_eq] at least
    have most : Ticks.ofMs ms * Ticks.lengthMs ≤ Ticks.longestMs := Nat.mul_le_mul_right _ (Ticks.ofMs_le ms)
    omega
  · intro env ms c r u calls
    refine ⟨calls.fallsAsleep, fun part told => ?_⟩
    obtain ⟨before, after, split, earlier, clock, now⟩ := calls.fallsAsleep.marked part
    rw [← clock] at told ⊢
    obtain ⟨caller, same, sleepsOn⟩ := sleeps before ms after split told
    obtain rfl : c = caller := Option.some.inj (now.symm.trans same)
    exact ⟨before, after, split, earlier, rfl, sleepsOn⟩

/-- The boot task calls for 25 milliseconds of sleep, and sleeps for three ticks. -/
theorem sleeps_long_enough_of_boot : ∃ s before after, bootSleeps.runFrom ⟨freshKernel, ()⟩ = (.ok (), s) ∧
    System.Sleeps .still 25 0 bootedSystem s ∧ bootedSystem.kernel.FallsAsleep 0 25 s.kernel ∧
    s.kernel.story = before ++ .sleep 25 :: after ∧ Story.clock before = 0 ∧
    ∀ during rest, .sleep 25 :: after = during ++ rest →
      (Story.clock (before ++ during) - 0) * Ticks.lengthMs < min 25 Ticks.longestMs →
      Story.Asleep (before ++ during) 0 3 := by
  obtain ⟨s, ran, calls⟩ := sleeps_bootSleeps
  obtain ⟨-, -, -, -, sleeps⟩ := Program.sleeps_long_enough program_bootSleeps rfl ran
  obtain ⟨falls, lasts⟩ := sleeps .still 25 0 bootedSystem s calls
  obtain ⟨before, after, split, -, clock, asleep⟩ := lasts List.prefix_rfl (by decide +kernel)
  have start : bootedSystem.kernel.story.clock = 0 := by decide +kernel
  have ticks : Ticks.ofMs 25 = 3 := by decide
  rw [start] at clock asleep
  rw [ticks] at asleep
  exact ⟨s, before, after, ran, calls, falls, split, clock, asleep⟩

/-- The product that the conversion takes is the largest word where it would be larger, so not every time lasts as
long as it should. -/
theorem not_forall_isLeast_ofMs :
    ¬∀ ms, 1 ≤ ms → ms < wordLimit → IsLeast {n | ms ≤ n * Ticks.lengthMs} (Ticks.ofMs ms) := by
  intro exact_ofMs
  have lasts := (exact_ofMs (wordLimit - 1) (by decide) (by decide)).1
  exact absurd lasts (by rw [Set.mem_ofPred_eq]; decide)

end KernelCore
