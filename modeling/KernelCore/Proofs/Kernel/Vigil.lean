import KernelCore.Proofs.Kernel.Tables
import KernelCore.Proofs.Task.Standby

namespace KernelCore
open Machine Kernel

/-- Whether the running task may have to wait, or does not go on at all. -/
def Turn.isRest : Turn → Bool
  | yield | tick => false
  | sleep _ | waitFor _ | exit => true

/-- Carries out what gives the processor away. An idle task does not go to rest. -/
def System.take {ω : Type} (env : Surroundings ω) (turn : Turn) : Machine (System ω) Unit := do
  if turn.isRest && (← get).kernel.table.idles then pure () else turn.perform env

/-- Programs in which no idle task goes to rest. A task that waits for another one looks again and again whether it has
exited, and sleeps in between; so whenever the processor comes back to it, no idle task is the current one. -/
inductive Vigilant {ω : Type} : {α : Type} → Machine (System ω) α → Prop where
  | pure {α : Type} (a : α) : Vigilant (pure a)
  | throw {α : Type} (fault : Fault) : Vigilant (throw fault : Machine (System ω) α)
  | bind {α β : Type} {action : Machine (System ω) α} {next : α → Machine (System ω) β} (first : Vigilant action)
    (rest : ∀ a, Vigilant (next a)) : Vigilant (action >>= next)
  | get : Vigilant (get : Machine (System ω) (System ω))
  | outside (change : ω → ω) :
    Vigilant (modify fun s => { s with outside := change s.outside } : Machine (System ω) PUnit)
  | mask : Vigilant (System.onKernel (onProcessor Processor.mask))
  | unmask : Vigilant (System.onKernel (onProcessor Processor.unmask))
  | report (notice : Notice) : Vigilant (System.onKernel (report notice))
  | heap {α : Type} (action : Machine Arena α) : Vigilant (System.onKernel (onArena action))
  | boot : Vigilant System.boot
  | adopt : Vigilant (System.onKernel (tryTable Table.adoptBoot))
  | create (entry arg : Nat) : Vigilant (System.create entry arg)
  | turn (env : Surroundings ω) (turn : Turn) (away : Vigilant env.whileAway)
    (back : ∀ pid, turn = .waitFor pid →
      ∀ s, env.whileAway.Meets s (fun _ t => t.kernel.table.idles = false) fun _ => True) :
    Vigilant (System.take env turn)

namespace Story
variable {base story : Story} {instruction : Instruction}

/-- The processor goes to the task that is picked after a story. -/
structure Appoints (story : Story) (handover : Handover) : Prop where
  outgoing : story.version.current = some handover.outgoing
  picked : story.version.pick = .ok (some handover.incoming)
  other : handover.incoming ≠ handover.outgoing

/-- What comes after a story where an idle task stands by. The processor is not parked, and goes only to tasks that were
picked just before. -/
def Attends (story : Story) (instruction : Instruction) : Prop :=
  story.version.Staffed ∧
    match instruction with
    | .wait => False
    | .switch _ handover _ => ∃ (earlier : Story) (t : Table), story = earlier ++ [.table t] ∧
        earlier.version.Staffed ∧ earlier.Appoints handover
    | _ => True

/-- In what followed a story the processor was not parked. A decision would have found a task at any time, and an idle
one got the processor only from a task that could not go on, where nobody else was ready. -/
structure Alert (story more : Story) : Prop where
  awake : .wait ∉ more
  found : ∀ before after, more = before ++ after → ∃ i, (version (story ++ before)).pick = .ok (some i)
  relieves : ∀ before enabled handover saved after, more = before ++ .switch enabled handover saved :: after →
    ∃ (earlier : Story) (t : Table), story ++ before = earlier ++ [.table t] ∧ earlier.Appoints handover ∧
      ∀ task : Task, earlier.version.tasks[handover.incoming]? = some task → task.isIdle = true →
        earlier.version.Deserted handover.outgoing

theorem attends_of_stays (staffed : story.version.Staffed) (stays : ¬instruction.GivesWay) :
    story.Attends instruction := by
  refine ⟨staffed, ?_⟩
  cases instruction with
  | switch | wait => exact absurd trivial stays
  | _ => trivial

end Story

namespace Kernel
variable {base : Story} {k k' : Kernel} {instruction : Instruction} {t : Table}

/-- From the story `base` on an idle task stood by. -/
structure Attended (base : Story) (k : Kernel) : Prop where
  staffed : k.table.Staffed
  version : k.story.version = k.table
  follows : ∃ more, k.story = base ++ more ∧ Story.Obeys (fun before => Story.Attends (base ++ before)) more

theorem Attended.concat (attended : k.Attended base) (attends : k.story.Attends instruction)
    (story : k'.story = k.story ++ [instruction]) (version : instruction.version k.table = k'.table)
    (staffed : k'.table.Staffed) : k'.Attended base := by
  obtain ⟨-, told, more, begins, obeys⟩ := attended
  refine ⟨staffed, ?_, more ++ [instruction], ?_, obeys.concat (begins ▸ attends)⟩
  · rw [story, Story.version_concat, told, version]
  · rw [story, begins, List.append_assoc]

theorem Attended.withTable (attended : k.Attended base) (staffed : t.Staffed) : (k.withTable t).Attended base :=
  attended.concat (Story.attends_of_stays (attended.version ▸ attended.staffed) id) (story_withTable k t) rfl staffed

theorem lasts_attended : Lasts (Attended base) := by
  have carriesOn : ∀ (more : Story) (k k' : Kernel), k.Attended base → k'.table = k.table →
      k'.story = k.story ++ more → (∀ instruction ∈ more, instruction.IsPlain ∧ ¬instruction.GivesWay) →
      k'.Attended base := by
    intro more
    induction more with
    | nil =>
      intro k k' attended table story _
      rw [List.append_nil] at story
      obtain ⟨staffed, version, follows⟩ := attended
      exact ⟨table ▸ staffed, by rw [story, table, version], by rwa [story]⟩
    | cons instruction rest ih =>
      intro k k' attended table story plain
      obtain ⟨⟨first, stays⟩, others⟩ := List.forall_mem_cons.mp plain
      have noted : Attended base { k with cpu := k.cpu.note instruction } :=
        attended.concat (Story.attends_of_stays (attended.version ▸ attended.staffed) stays)
          (story_note k instruction).symm (Story.version_of_isPlain first _) attended.staffed
      refine ih _ k' noted table ?_ others
      rw [story, ← List.singleton_append, ← List.append_assoc]
      exact congrArg (· ++ rest) (story_note k instruction)
  intro k k' attended spares
  obtain ⟨more, story, plain⟩ := spares.story
  exact carriesOn more k k' attended spares.table story plain

theorem Spares.mask (k : Kernel) : k.Spares { k with cpu := k.cpu.mask } :=
  ⟨rfl, rfl, [.mask], (story_note k .mask).symm, by simp [Instruction.IsPlain, Instruction.GivesWay]⟩

theorem Spares.unmask (k : Kernel) : k.Spares { k with cpu := k.cpu.unmask } :=
  ⟨rfl, rfl, [.unmask], (story_note k .unmask).symm, by simp [Instruction.IsPlain, Instruction.GivesWay]⟩

end Kernel

/-- From the story `base` on an idle task stood by, and is not the current one if that is asked for. -/
structure System.Watched {ω : Type} (base : Story) (strict : Prop) (s : System ω) : Prop where
  attended : s.kernel.Attended base
  plain : strict → s.kernel.table.idles = false

/-- The work keeps up that an idle task stands by. -/
def Machine.Watches {ω α : Type} (base : Story) (strict strict' : Prop) (action : Machine (System ω) α) : Prop :=
  ∀ s : System ω, s.Watched base strict → action.Meets s (fun _ => System.Watched base strict')
    fun t => t.kernel.Attended base

namespace Machine
variable {ω α β : Type} {base : Story} {strict strict' strict'' : Prop}

theorem Watches.bind {action : Machine (System ω) α} {next : α → Machine (System ω) β}
    (first : action.Watches base strict strict') (rest : ∀ a, (next a).Watches base strict' strict'') :
    (action >>= next).Watches base strict strict'' :=
  fun s watched => (first s watched).bind fun a t => rest a t

theorem watches_pure (a : α) : (pure a : Machine (System ω) α).Watches base strict strict := fun _ watched => watched

theorem watches_onKernel {action : Machine Kernel α}
    (meets : ∀ k : Kernel, k.Attended base → action.Meets k (fun _ => Attended base) (Attended base)) :
    (System.onKernel action : Machine (System ω) α).Watches base strict False :=
  fun s watched => System.meets_onKernel.mpr <|
    (meets s.kernel watched.attended).mono (fun _ _ attended => ⟨attended, False.elim⟩) fun _ => id

end Machine

namespace System
variable {ω α : Type} {base : Story} {strict strict' : Prop} {s : System ω} {k : Kernel} {env : Surroundings ω}

theorem Watched.spares (watched : s.Watched base strict) (spares : s.kernel.Spares k) :
    Watched base strict { s with kernel := k } :=
  ⟨lasts_attended _ _ watched.attended spares, by rw [spares.table]; exact watched.plain⟩

theorem Watched.weaken (watched : s.Watched base strict) (less : strict' → strict) : s.Watched base strict' :=
  ⟨watched.attended, fun asked => watched.plain (less asked)⟩

theorem watches_modify {change : Kernel → Kernel} (spares : ∀ k : Kernel, k.Spares (change k)) :
    (onKernel (modify change) : Machine (System ω) Unit).Watches base strict strict :=
  fun s watched => meets_onKernel.mpr (watched.spares (spares s.kernel))

theorem watches_masked {body : Machine (System ω) α} (watches : body.Watches base strict strict') :
    (masked body).Watches base strict strict' :=
  fun s watched => meets_masked (fun _ t watchedT => watchedT.spares (.unmask t.kernel)) (watches s watched)
    (watches _ (watched.spares (.mask s.kernel)))

theorem watches_note (instruction : Instruction) (plain : instruction.IsPlain) (stays : ¬instruction.GivesWay) :
    (onKernel (onProcessor (·.note instruction)) : Machine (System ω) Unit).Watches base strict strict :=
  watches_modify fun k => .note k plain stays

/-- The processor goes to the task that was picked, until some task goes back to this one. -/
theorem watches_switch {handover : Handover} {t : Table} (away : env.whileAway.Watches base False strict)
    (attended : s.kernel.Attended base) (appoints : s.kernel.story.Appoints handover) (staffed : t.Staffed) :
    (switch env handover).Meets { s with kernel := s.kernel.withTable t } (fun _ => Watched base strict)
      fun u => u.kernel.Attended base := by
  generalize chosen : s.kernel.withTable t = k
  have story : k.story = s.kernel.story ++ [.table t] := by rw [← chosen, story_withTable]
  have here : k.Attended base := chosen ▸ attended.withTable staffed
  have before : s.kernel.story.version.Staffed := attended.version ▸ attended.staffed
  have attends : k.story.Attends (.switch k.cpu.enabled handover (env.savedPointer { s with kernel := k })) :=
    ⟨here.version ▸ here.staffed, s.kernel.story, t, story, before, appoints⟩
  have goes : Attended base { k with cpu := k.cpu.switch handover (env.savedPointer { s with kernel := k }) } :=
    here.concat attends (story_note k _).symm rfl here.staffed
  unfold switch
  rw [meets_bind, meets_get, meets_bind, meets_onKernel, meets_onProcessor, meets_bind, meets_onKernel,
    Kernel.meets_onTable]
  refine (goes.staffed.meets_saveStackPointer handover.outgoing _).mono ?_ fun u => goes.withTable
  intro _ u saved
  exact (away.bind fun _ => watches_note .resume trivial id) _ ⟨goes.withTable saved, False.elim⟩

/-- Somebody is found at once, so the processor is not parked. -/
theorem watches_reschedule (away : env.whileAway.Watches base False strict) :
    (reschedule env).Watches base strict strict := by
  intro s watched
  have attended := watched.attended
  obtain ⟨c, now⟩ := attended.staffed.exists_current
  obtain ⟨i, picked⟩ := attended.staffed.exists_pick
  unfold reschedule rescheduleFor
  rw [meets_bind, meets_get, meets_bind, meets_get]
  dsimp only
  rw [if_pos (by rw [Table.isInitialized, now]; rfl), meets_bind, picked, meets_lift_ok, meets_bind, meets_onKernel,
    Kernel.meets_onTable]
  refine (attended.staffed.meets_dispatch picked).mono ?_ fun _ => False.elim
  rintro (_ | handover) u ⟨staffed, same, goes⟩
  · exact ⟨attended.withTable staffed, fun asked => (same rfl).trans (watched.plain asked)⟩
  · obtain ⟨outgoing, incoming, other⟩ := goes handover rfl
    refine watches_switch away attended ⟨?_, ?_, ?_⟩ staffed
    · rwa [attended.version]
    · rwa [attended.version, incoming]
    · rwa [incoming]

theorem watches_yield (away : env.whileAway.Watches base False strict) : (yield env).Watches base strict strict :=
  watches_masked (watches_reschedule away)

theorem watches_tick (away : env.whileAway.Watches base False False) : (tick env).Watches base False False := by
  have serves : ∀ now, (do
      if (← get).kernel.table.isInitialized then
        let woken ← onKernel (onTable (Table.wakeDue now))
        if 0 < woken then onKernel (report (.woke now woken))
        if (← get).kernel.parked = false then reschedule env : Machine (System ω) Unit).Watches base False False := by
    intro now
    have wakes : (onKernel (onTable (Table.wakeDue now)) : Machine (System ω) Nat).Watches base False False :=
      watches_onKernel fun k attended => Kernel.meets_onTable.mpr <|
        (attended.staffed.meets_wakeDue now).mono (fun _ _ => attended.withTable) fun _ => False.elim
    have chooses : (do if (← get).kernel.parked = false then reschedule env : Machine (System ω) Unit).Watches base
        False False := by
      intro s watched
      rw [meets_bind, meets_get]
      split
      · exact watches_reschedule away s watched
      · exact watched
    intro s watched
    rw [meets_bind, meets_get]
    split
    · refine (wakes.bind fun woken => ?_) s watched
      split
      · exact (watches_modify fun k => .report k _).bind fun _ => chooses
      · exact chooses
    · exact watched
  unfold tick
  refine (watches_note .tick trivial id).bind fun _ s watched => ?_
  rw [meets_bind, meets_get]
  dsimp only
  have rung : Watched base False { s with kernel.ticks := Word.wrappingAdd s.kernel.ticks 1 } :=
    ⟨⟨watched.attended.staffed, watched.attended.version, watched.attended.follows⟩, watched.plain⟩
  rw [meets_bind, meets_onKernel, meets_modify, meets_bind]
  cases Word.add _ 1 with
  | error fault => exact rung.attended
  | ok now =>
    rw [meets_lift_ok]
    exact ((watches_masked (serves now)).bind fun _ => watches_note .served trivial id) _ rung

theorem watches_sleep (away : env.whileAway.Watches base False strict) (ms : Nat) :
    (sleep env ms).Watches base True strict := by
  unfold sleep
  split
  · exact fun s watched => watches_yield away s (watched.weaken fun _ => trivial)
  refine watches_masked fun s watched => ?_
  rw [meets_bind, meets_get]
  dsimp only
  rw [meets_bind, meets_onKernel, Kernel.meets_onTable]
  have plain := watched.plain trivial
  refine (watched.attended.staffed.meets_blockCurrent plain _).mono ?_ fun _ => False.elim
  intro done u ⟨staffed, plainU⟩
  have asleep : Watched base strict { s with kernel := s.kernel.withTable u } :=
    ⟨watched.attended.withTable staffed, fun _ => plainU⟩
  cases done with
  | false => exact asleep
  | true => exact ((watches_note (.sleep ms) trivial id).bind fun _ => watches_reschedule away) _ asleep

theorem watches_waitFor (away : env.whileAway.Watches base False True) (pid : Nat) :
    (waitFor env pid).Watches base True True := by
  have rounds : ∀ rounds, (waitForRounds env pid rounds).Watches base True True := by
    intro rounds
    induction rounds with
    | zero => exact fun s watched => watched.attended
    | succ rounds ih =>
      have looks : (taskState pid : Machine (System ω) _).Watches base True True :=
        watches_masked fun s watched => watched
      unfold waitForRounds
      refine looks.bind fun state => ?_
      split
      · exact (watches_sleep away _).bind fun _ => ih
      · exact watches_pure _
  have asks : (currentPid : Machine (System ω) _).Watches base True True := by
    refine watches_masked fun s watched => ?_
    rw [meets_onKernel]
    unfold Kernel.currentPid
    rw [meets_bind, meets_get]
    cases s.kernel.table.currentPid with
    | error fault => exact watched.attended
    | ok pid => exact watched
  unfold waitFor
  refine asks.bind fun current => ?_
  split
  · exact watches_modify fun k => .report k _
  · intro s watched
    rw [meets_bind, meets_get]
    exact rounds _ s watched

theorem watches_exit (away : env.whileAway.Watches base False False) : (exit env).Watches base True False := by
  have retires : (onKernel retire : Machine (System ω) Unit).Watches base True False := by
    intro s watched
    have ends := watched.attended.staffed.meets_terminateCurrent (watched.plain trivial)
    refine meets_onKernel.mpr ((lasts_attended.meets_retire watched.attended (fun _ => id) ?_).mono
      (fun _ _ attended => ⟨attended, False.elim⟩) fun _ => id)
    exact ends.mono (fun _ _ after => watched.attended.withTable after.1) fun _ => id
  unfold exit
  exact (watches_modify .mask).bind fun _ => retires.bind fun _ => (watches_reschedule away).bind fun _ =>
    watches_modify fun k => ⟨rfl, rfl, [.halt], (story_note k .halt).symm, by
      simp [Instruction.IsPlain, Instruction.GivesWay]⟩

/-- What gives the processor away leaves an idle task standing by, unless it is the one that goes to rest. -/
theorem watches_take (away : env.whileAway.Watches base False False) {turn : Turn}
    (back : ∀ pid, turn = .waitFor pid → env.whileAway.Watches base False True) :
    (take env turn).Watches base False False := by
  intro s watched
  unfold take
  rw [meets_bind, meets_get]
  split
  · exact watched
  rename_i busy
  have plain : turn.isRest = true → s.Watched base True := by
    intro rest
    exact ⟨watched.attended, fun _ => by simpa [rest] using busy⟩
  cases turn with
  | yield => exact watches_yield away s watched
  | tick => exact watches_tick away s watched
  | sleep ms => exact watches_sleep away ms s (plain rfl)
  | exit => exact watches_exit away s (plain rfl)
  | waitFor pid =>
    exact (watches_waitFor (back pid rfl) pid s (plain rfl)).mono (fun _ _ watchedT => watchedT.weaken False.elim)
      fun _ => id

end System

variable {ω α β : Type}

/-- Once an idle task stands by, it does so to the end. -/
theorem Vigilant.watches {program : Machine (System ω) α} (vigilant : Vigilant program) (base : Story) :
    program.Watches base False False := by
  induction vigilant with
  | pure a => exact watches_pure a
  | throw fault => exact fun s watched => watched.attended
  | bind _ _ first rest => exact first.bind rest
  | get => exact fun s watched => watched
  | outside change => exact fun s watched => ⟨watched.attended, watched.plain⟩
  | mask => exact System.watches_modify .mask
  | unmask => exact System.watches_modify .unmask
  | report notice => exact System.watches_modify fun k => .report k notice
  | heap action => exact watches_onKernel fun k attended => lasts_attended.meets attended (meets_onArena_spares action)
  | boot =>
    refine System.watches_masked (watches_onKernel fun k attended => lasts_attended.meets_boot attended ?_)
    intro k stack sp attended
    exact (attended.staffed.meets_adopt stack sp).mono (fun _ _ => attended.withTable) fun _ => False.elim
  | adopt =>
    exact watches_onKernel fun k attended => Kernel.meets_onTable.mpr <|
      attended.staffed.meets_adoptBoot.mono (fun _ _ => attended.withTable) fun _ => False.elim
  | create entry arg =>
    refine System.watches_masked (watches_onKernel fun k attended => lasts_attended.meets_create attended ?_ entry arg)
    intro k stack sp attended
    exact (attended.staffed.meets_add (some stack) sp .none).mono (fun _ _ => attended.withTable) fun _ => False.elim
  | turn env turn _ back away =>
    refine System.watches_take away fun pid is s watched => ?_
    refine ((away s watched).both (back pid is s)).mono ?_ fun _ => And.left
    rintro _ t ⟨watchedT, plain⟩
    exact ⟨watchedT.attended, fun _ => plain⟩

theorem Kernel.Attended.alert {base : Story} {k : Kernel} (attended : k.Attended base) :
    ∃ more, k.story = base ++ more ∧ base.Alert more := by
  obtain ⟨staffed, version, more, story, obeys⟩ := attended
  refine ⟨more, story, ?_, ?_, ?_⟩
  · intro parked
    obtain ⟨before, after, split⟩ := List.append_of_mem parked
    exact (obeys before .wait after split).2
  · intro before after split
    cases after with
    | nil =>
      rw [List.append_nil] at split
      rw [← split, ← story, version]
      exact staffed.exists_pick
    | cons instruction rest => exact (obeys before instruction rest split).1.exists_pick
  · intro before enabled handover saved after split
    obtain ⟨earlier, t, ends, staffed, appoints⟩ := (obeys before _ after split).2
    refine ⟨earlier, t, ends, appoints, ?_⟩
    intro task here idle
    exact staffed.regular.deserted appoints.outgoing appoints.picked appoints.other here idle

/-- With the boot task comes an idle one that stands by. -/
theorem Kernel.meets_boot_staffed {k : Kernel} (regular : k.table.Regular) (orderly : k.table.Orderly) :
    boot.Meets k (fun result k' => ∀ pid, result = .ok pid → k'.table.Staffed) fun _ => True := by
  have makes : (newStack k.cpu.landmarks.idleEntry 0).Meets k
      (Splits (fun cause l => ∀ pid, (.error cause : Except TaskError Nat) = .ok pid → l.table.Staffed)
        fun _ l => l.table.Regular ∧ l.table.Orderly) fun _ => True := by
    refine (meets_newStack_spares _ _).mono ?_ fun _ _ => trivial
    rintro (cause | made) l spares
    · exact nofun
    · exact ⟨spares.table ▸ regular, spares.table ▸ orderly⟩
  have adopts : ∀ stack sp l, l.table.Regular ∧ l.table.Orderly → (tryTable (adopt stack sp)).Meets l
      (Splits (fun _ _ => True) fun _ l' => l'.table.Staffed) fun _ => True := by
    rintro stack sp l ⟨regular, orderly⟩
    refine Kernel.meets_onTable.mpr ((Table.meets_adopt_staffed regular orderly stack sp).excused.mono ?_ fun _ => id)
    rintro (cause | pids) t staffed
    · trivial
    · exact staffed pids rfl
  rw [← bootOr_releaseStack]
  exact meets_bootOr_of (fun _ => nofun) (fun _ => makes) adopts
    (fun stack _ _ _ => (meets_releaseStack_spares stack).mono (fun _ _ _ => nofun) fun _ _ => trivial)
    fun _ _ _ staffed _ _ => staffed

theorem System.meets_boot_staffed {s : System ω} (regular : s.kernel.table.Regular) (orderly : s.kernel.table.Orderly) :
    boot.Meets s (fun result t => ∀ pid, result = .ok pid → t.kernel.table.Staffed) fun _ => True :=
  meets_masked (fun _ _ => id) (meets_onKernel.mpr (Kernel.meets_boot_staffed regular orderly))
    (meets_onKernel.mpr (Kernel.meets_boot_staffed regular orderly))

/-- Once the kernel is booted, whatever was done before, every decision finds a task and the processor is never parked,
as long as the idle task does not go to rest. The idle task gets the processor only from a task that sleeps or has
exited, and only where no other task is ready. -/
theorem Vigilant.never_parks {first : Machine (System ω) β} (isProgram : Program first) {program : Machine (System ω) α}
    (vigilant : Vigilant program) {m : Memory} {cpu : Processor} (unused : cpu.trace = #[]) {outside : ω} {b : β}
    {pid : Nat} {outcome : Except Fault α} {s t u : System ω}
    (began : first.runFrom ⟨Kernel.initial m cpu, outside⟩ = (.ok b, s))
    (booted : System.boot.runFrom s = (.ok (.ok pid), t)) (ran : program.runFrom t = (outcome, u)) :
    ∃ more, u.kernel.story = t.kernel.story ++ more ∧ t.kernel.story.Alert more := by
  obtain ⟨reached, told⟩ := isProgram.table_reached unused began
  have staffed : t.kernel.table.Staffed :=
    (System.meets_boot_staffed reached.regular told.orderly).result booted pid rfl
  have boots : (first >>= fun _ => System.boot).runFrom ⟨Kernel.initial m cpu, outside⟩ = (.ok (.ok pid), t) := by
    rw [runFrom_bind, began]
    exact booted
  obtain ⟨-, toldT⟩ := (isProgram.bind fun _ => Program.boot).table_reached unused boots
  have start : t.Watched t.kernel.story False :=
    ⟨⟨staffed, toldT.version, [], (List.append_nil _).symm, Story.obeys_nil _⟩, False.elim⟩
  have watches := vigilant.watches t.kernel.story t start
  cases outcome with
  | error fault => exact Attended.alert (watches.fault ran)
  | ok a => exact Attended.alert (watches.result ran).attended

/-- The waiting task does not go on while an idle task is the current one. -/
def System.rouse : Machine (System ω) Unit := do
  if (← get).kernel.table.idles then throw .endless

/-- Whatever other tasks do, it can be cut off where a task that waits would go on in place of an idle one. -/
theorem System.meets_rouse (away : Machine (System ω) Unit) (s : System ω) :
    (do away; rouse).Meets s (fun _ t => t.kernel.table.idles = false) fun _ => True := by
  have checks : ∀ t : System ω, rouse.Meets t (fun _ t => t.kernel.table.idles = false) fun _ => True := by
    intro t
    unfold rouse
    rw [meets_bind, meets_get]
    cases idles : t.kernel.table.idles with
    | true => trivial
    | false => exact idles
  rw [meets_bind]
  unfold Meets
  rcases away.runFrom s with ⟨_ | _, t⟩
  · trivial
  · exact checks t

/-- Memory for a stack is set apart. -/
def establishHeap : Machine (System Unit) (Except HeapError Unit) := System.onHeap (Arena.establish 4096 16440)

/-- The idle task runs until the clock wakes another one. -/
def idlesUntilWake : Surroundings Unit := .doing (pure ()) do System.take .still .tick; System.rouse

/-- The boot task sleeps. Then it waits for a task that there is not, and goes on at once. -/
def sleepAndWait : Machine (System Unit) Unit := do
  System.take idlesUntilWake (.sleep 10)
  System.take idlesUntilWake (.waitFor 3)

set_option maxRecDepth 100000 in
theorem unparked_of_sleep_and_wait : ∃ s t u more, establishHeap.runFrom ⟨freshKernel, ()⟩ = (.ok (.ok ()), s) ∧
    System.boot.runFrom s = (.ok (.ok 1), t) ∧ sleepAndWait.runFrom t = (.ok (), u) ∧ u.kernel.cpu.switches = 2 ∧
    u.kernel.story = t.kernel.story ++ more ∧ t.kernel.story.Alert more := by
  have isProgram : Program establishHeap := .onHeap _
  have ticks : Vigilant (System.take .still .tick) := .turn .still .tick (.pure ()) fun _ other => by cases other
  have away : Vigilant idlesUntilWake.whileAway := by
    refine ticks.bind fun _ => Vigilant.get.bind fun s => ?_
    split
    · exact .throw _
    · exact .pure ()
  have back : ∀ s, idlesUntilWake.whileAway.Meets s (fun _ t => t.kernel.table.idles = false) fun _ => True :=
    System.meets_rouse _
  have vigilant : Vigilant sleepAndWait := (Vigilant.turn idlesUntilWake (.sleep 10) away fun _ _ => back).bind fun _ =>
    .turn idlesUntilWake (.waitFor 3) away fun _ _ => back
  obtain ⟨begins, boots, comes, switches⟩ :
      (establishHeap.runFrom ⟨freshKernel, ()⟩).1 = .ok (.ok ()) ∧
      (System.boot.runFrom (establishHeap.runFrom ⟨freshKernel, ()⟩).2).1 = .ok (.ok 1) ∧
      (sleepAndWait.runFrom (System.boot.runFrom (establishHeap.runFrom ⟨freshKernel, ()⟩).2).2).1 = .ok () ∧
      (sleepAndWait.runFrom (System.boot.runFrom (establishHeap.runFrom ⟨freshKernel, ()⟩).2).2).2.kernel.cpu.switches = 2 := by
    decide +kernel
  have began := runFrom_eq_of_outcome begins
  have booted := runFrom_eq_of_outcome boots
  have ran := runFrom_eq_of_outcome comes
  obtain ⟨more, story, alert⟩ := Vigilant.never_parks isProgram vigilant rfl began booted ran
  exact ⟨_, _, _, more, began, booted, ran, switches, story, alert⟩

end KernelCore
