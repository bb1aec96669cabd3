import KernelCore.Kernel.State
import KernelCore.Proofs.Task.Aspects
import KernelCore.Proofs.Task.Fairness
import KernelCore.Proofs.Task.Steps

namespace KernelCore

/-- Whether a task is an idle one, and whether it can run. -/
def Task.readiness (task : Task) : Bool × Bool := (task.isIdle, task.state.isRunnable)

theorem Task.lasting_readiness : Task.Lasting Task.readiness where
  linked _ _ := rfl
  turned task state _ before after := by
    unfold readiness
    rw [before]
    exact congrArg _ after
  saved _ _ := rfl

namespace Table
open Machine TaskState
variable {t u : Table} {i c : Nat} {task : Task}

/-- Whether the current task is an idle one. -/
def idles (t : Table) : Bool := (t.current.bind (t.tasks[·]?)).any Task.isIdle

/-- The table is in order, and some idle task can run. -/
structure Staffed (t : Table) : Prop where
  regular : t.Regular
  orderly : t.Orderly
  relief : (true, true) ∈ t.view Task.readiness

theorem Staffed.exists_idle (staffed : t.Staffed) :
    ∃ (i : Nat) (task : Task), t.tasks[i]? = some task ∧ task.isIdle = true ∧ task.state.isRunnable = true := by
  obtain ⟨task, member, ready⟩ := List.mem_map.mp staffed.relief
  obtain ⟨i, here⟩ := List.mem_iff_getElem?.mp member
  exact ⟨i, task, (Array.getElem?_toList ..).symm.trans here, congrArg Prod.fst ready, congrArg Prod.snd ready⟩

theorem Staffed.exists_current (staffed : t.Staffed) : ∃ c, t.current = some c := by
  obtain ⟨i, task, here, -⟩ := staffed.exists_idle
  have inside := (Array.getElem?_eq_some_iff.mp here).1
  refine Option.ne_none_iff_exists'.mp fun nobody => ?_
  have vacant := staffed.regular.manned.vacant nobody
  omega

theorem mem_view_of_getElem? {β : Type} {aspect : Task → β} (here : t.tasks[i]? = some task) :
    aspect task ∈ t.view aspect :=
  List.mem_map.mpr ⟨task, Array.mem_toList_iff.mpr (Array.mem_of_getElem? here), rfl⟩

/-- Somebody is always found. -/
theorem Staffed.exists_pick (staffed : t.Staffed) : ∃ i, t.pick = .ok (some i) := by
  obtain ⟨c, now⟩ := staffed.exists_current
  obtain ⟨i, task, here, idle, runnable⟩ := staffed.exists_idle
  have inside := staffed.regular.manned.current c now
  have state : t.stateAt i = some task.state := by rw [stateAt, here, Option.map_some]
  rw [pick_of_ringed staffed.regular.ringed now inside]
  unfold choice
  split
  · exact ⟨_, rfl⟩
  split
  · exact ⟨c, rfl⟩
  rename_i stuck
  -- The current task cannot run. So it is not the idle one, which is ready then and lies on the way round the ring.
  have other : i ≠ c := by
    rintro rfl
    simp [state, runnable] at stuck
  have ready : task.state = .ready := by
    cases is : task.state with
    | ready => rfl
    | running =>
      have runs := staffed.orderly.alone i (by rw [state, is])
      exact absurd (Option.some.inj (runs.symm.trans now)) other
    | blocked wake => simp [is, isRunnable] at runnable
    | terminated => simp [is, isRunnable] at runnable
  have member : i ∈ (t.circuit c).filter (t.offers true) := by
    refine List.mem_filter.mpr ⟨(mem_circuit_iff inside).mpr ⟨(Array.getElem?_eq_some_iff.mp here).1, other⟩, ?_⟩
    simp [offers, here, ready, idle]
  exact ⟨_, congrArg _ (List.getLast?_eq_some_getLast (List.ne_nil_of_mem member))⟩

/-- The task in a slot sleeps or has exited, and no task is ready but idle ones. -/
structure Deserted (t : Table) (c : Nat) : Prop where
  outgoing : t.stateAt c = some .terminated ∨ ∃ wake, t.stateAt c = some (.blocked wake)
  nobody : ∀ (j : Nat) (task : Task), t.tasks[j]? = some task → task.isIdle = false → task.state ≠ .ready

/-- An idle task takes the place of another one only if that one cannot go on, and nobody else can. -/
theorem Regular.deserted (regular : t.Regular) (now : t.current = some c) (picked : t.pick = .ok (some i))
    (other : i ≠ c) (here : t.tasks[i]? = some task) (idle : task.isIdle = true) : t.Deserted c := by
  have inside := regular.manned.current c now
  rw [pick_of_ringed regular.ringed now inside] at picked
  have chosen : t.choice c = some i := Except.ok.inj picked
  unfold choice at chosen
  split at chosen
  · rename_i j found
    obtain rfl := Option.some.inj chosen
    obtain ⟨plain, there, -, notIdle⟩ := offers_iff.mp (List.find?_some found)
    obtain rfl := Option.some.inj (here.symm.trans there)
    simp [idle] at notIdle
  rename_i nobody
  split at chosen
  · exact absurd (Option.some.inj chosen).symm other
  rename_i stuck
  obtain ⟨outgoing, atC⟩ : ∃ task, t.tasks[c]? = some task := ⟨_, Array.getElem?_eq_getElem inside⟩
  have state : t.stateAt c = some outgoing.state := by rw [stateAt, atC, Option.map_some]
  rw [state, Option.any_some] at stuck
  constructor
  · rw [state]
    cases is : outgoing.state with
    | ready => simp [is, isRunnable] at stuck
    | running => simp [is, isRunnable] at stuck
    | blocked wake => exact Or.inr ⟨wake, rfl⟩
    | terminated => exact Or.inl rfl
  · intro j waiting there plain ready
    by_cases same : j = c
    · subst same
      obtain rfl := Option.some.inj (atC.symm.trans there)
      simp [ready, isRunnable] at stuck
    · have met := (mem_circuit_iff inside).mpr ⟨(Array.getElem?_eq_some_iff.mp there).1, same⟩
      refine List.find?_eq_none.mp nobody j met ?_
      simp [offers, there, ready, plain]

theorem Staffed.of_view {pids : List Nat} (staffed : t.Staffed) (proceeds : t.Proceeds pids u)
    (same : u.view Task.readiness = t.view Task.readiness) : u.Staffed :=
  ⟨proceeds.regular, proceeds.orderly, same ▸ staffed.relief⟩

theorem idles_of_view (same : u.view Task.readiness = t.view Task.readiness) (current : u.current = t.current) :
    u.idles = t.idles := by
  have shows : ∀ (v : Table) (c : Nat), (v.tasks[c]?).any Task.isIdle = (v.view Task.readiness)[c]?.any Prod.fst := by
    intro v c
    rw [getElem?_view, Option.any_map]
    rfl
  unfold idles
  rw [current]
  cases t.current with
  | none => rfl
  | some c =>
    have atU := shows u c
    rw [same, ← shows t c] at atU
    exact atU

/-- Who is picked gets the processor. If that is the current task already, it goes on. -/
theorem Staffed.meets_dispatch (staffed : t.Staffed) (picked : t.pick = .ok (some i)) :
    (dispatch i).Meets t (fun handover u => u.Staffed ∧ (handover = none → u.idles = t.idles) ∧
      ∀ h, handover = some h → t.current = some h.outgoing ∧ h.incoming = i ∧ i ≠ h.outgoing) fun _ => False := by
  have regular := staffed.regular
  have orderly := staffed.orderly
  obtain ⟨c, now⟩ := staffed.exists_current
  have inside : i < t.tasks.size := by
    rw [pick_of_ringed regular.ringed now (regular.manned.current c now)] at picked
    exact choice_lt regular.manned now (Except.ok.inj picked)
  have eligible := eligible_of_pick picked
  have possible : (Step.dispatch i).Possible t := inside
  have proceeds : (dispatch i).Meets t (fun _ => t.Proceeds []) fun _ => False :=
    (meets_bind ..).mp (Step.meets_perform regular orderly possible)
  have views := meets_dispatch_view Task.lasting_readiness.toSteady orderly eligible
  refine ((proceeds.and views).and (Table.meets_dispatch True orderly eligible)).mono ?_ fun _ => id
  rintro handover u ⟨⟨proceeds, same, -⟩, dispatched⟩
  refine ⟨staffed.of_view proceeds same, fun kept => ?_, fun h goes => ?_⟩
  · exact idles_of_view same (dispatched.current.trans (dispatched.kept kept).symm)
  · obtain ⟨outgoing, incoming, other, -⟩ := dispatched.handover h goes
    exact ⟨outgoing, incoming, other⟩

theorem Staffed.meets_saveStackPointer (staffed : t.Staffed) (i sp : Nat) :
    (saveStackPointer i sp).Meets t (fun _ => Staffed) Staffed := by
  refine meets_update ?_ staffed
  intro task here
  have grows : t.Extends (t.put i { task with sp }) := extends_put here rfl rfl
  refine ⟨staffed.regular.rests (rests_put here rfl) rfl, grows.orderly staffed.orderly, ?_⟩
  rw [view_put here (Task.lasting_readiness.saved task sp)]
  exact staffed.relief

theorem Staffed.meets_wakeDue (staffed : t.Staffed) (now : Nat) :
    (wakeDue now).Meets t (fun _ => Staffed) fun _ => False := by
  have possible : (Step.wake now).Possible t := trivial
  have proceeds : (wakeDue now).Meets t (fun _ => t.Proceeds []) fun _ => False :=
    (meets_bind ..).mp (Step.meets_perform staffed.regular staffed.orderly possible)
  refine (proceeds.and (meets_wakeDue_rests now)).mono ?_ fun _ => id
  rintro _ u ⟨proceeds, -, -, tasks⟩
  obtain ⟨i, task, here, idle, runnable⟩ := staffed.exists_idle
  have still : woken now task = task := by
    unfold woken isDue
    cases is : task.state with
    | blocked wake => simp [is, isRunnable] at runnable
    | _ => rfl
  have there : u.tasks[i]? = some task := by rw [tasks, Array.getElem?_map, here, Option.map_some, still]
  have relief : task.readiness = (true, true) := Prod.ext idle runnable
  exact ⟨proceeds.regular, proceeds.orderly, relief ▸ mem_view_of_getElem? there⟩

/-- What the current task does to itself is of no concern to an idle one, if it is none. -/
theorem Staffed.alone {pids : List Nat} (staffed : t.Staffed) (plain : t.idles = false) (proceeds : t.Proceeds pids u)
    (alone : t.Alone u) : u.Staffed ∧ u.idles = false := by
  obtain ⟨i, task, here, idle, runnable⟩ := staffed.exists_idle
  have elsewhere : t.current ≠ some i := by
    intro now
    simp [idles, now, here, idle] at plain
  have there : u.tasks[i]? = some task := (alone.others i elsewhere).trans here
  have relief : task.readiness = (true, true) := Prod.ext idle runnable
  refine ⟨⟨proceeds.regular, proceeds.orderly, relief ▸ mem_view_of_getElem? there⟩, ?_⟩
  obtain ⟨c, now⟩ := staffed.exists_current
  obtain ⟨new, atC⟩ := proceeds.orderly.exists_task (alone.current.trans now)
  obtain ⟨old, atOld, same⟩ := alone.rests.fixture atC
  have flags : new.flags = old.flags := congrArg (·.2.2) same
  simpa [idles, now, alone.current, atC, atOld, Task.isIdle, flags] using plain

theorem Staffed.meets_blockCurrent (staffed : t.Staffed) (plain : t.idles = false) (wake : Nat) :
    (blockCurrent wake).Meets t (fun _ u => u.Staffed ∧ u.idles = false) fun _ => False := by
  have possible : (Step.block wake).Possible t := trivial
  have proceeds : (blockCurrent wake).Meets t (fun _ => t.Proceeds []) fun _ => False :=
    (meets_bind ..).mp (Step.meets_perform staffed.regular staffed.orderly possible)
  refine (proceeds.and (meets_blockCurrent_alone staffed.regular.manned wake)).mono ?_ fun _ => id
  rintro _ u ⟨proceeds, alone⟩
  exact staffed.alone plain proceeds alone

theorem Staffed.meets_terminateCurrent (staffed : t.Staffed) (plain : t.idles = false) :
    terminateCurrent.Meets t (fun _ u => u.Staffed ∧ u.idles = false) fun _ => False := by
  have possible : Step.terminate.Possible t := trivial
  have proceeds : terminateCurrent.Meets t (fun _ => t.Proceeds []) fun _ => False :=
    (meets_bind ..).mp (Step.meets_perform staffed.regular staffed.orderly possible)
  refine (proceeds.and (meets_terminateCurrent_alone staffed.regular.manned)).mono ?_ fun _ => id
  rintro _ u ⟨proceeds, alone⟩
  exact staffed.alone plain proceeds alone

theorem Staffed.meets_adoptBoot (staffed : t.Staffed) : adoptBoot.run.Meets t (fun _ => Staffed) fun _ => False := by
  refine (meets_adoptBoot_ringed staffed.regular.ringed).mono ?_ fun _ => id
  rintro (cause | pid) u post
  · obtain rfl : u = t := post
    exact staffed
  · obtain ⟨i, task, here, -⟩ := staffed.exists_idle
    have inside := (Array.getElem?_eq_some_iff.mp here).1
    omega

theorem meets_add_readiness (regular : t.Regular) (orderly : t.Orderly) (stack : Option Nat) (sp : Nat)
    (flags : TaskFlags) : (add stack sp flags).run.Meets t (fun result u => t.Proceeds (Step.handed result) u ∧
      match result with
      | .ok _ => u.view Task.readiness = t.view Task.readiness ++ [(flags.contains .idle, true)]
      | .error _ => u = t) fun _ => False := by
  have possible : (Step.add stack sp flags).Possible t := trivial
  have proceeds : (add stack sp flags).run.Meets t (fun result => t.Proceeds (Step.handed result)) fun _ => False :=
    (meets_bind ..).mp (Step.meets_perform regular orderly possible)
  have adds := meets_add_view (t := t) Task.lasting_readiness.toSteady stack sp flags
  refine (proceeds.both adds).mono ?_ fun _ => And.left
  rintro (cause | pid) u ⟨proceeds, post⟩
  · exact ⟨proceeds, post⟩
  · exact ⟨proceeds, post.1⟩

theorem Staffed.meets_add (staffed : t.Staffed) (stack : Option Nat) (sp : Nat) (flags : TaskFlags) :
    (add stack sp flags).run.Meets t (fun _ => Staffed) fun _ => False := by
  refine (meets_add_readiness staffed.regular staffed.orderly stack sp flags).mono ?_ fun _ => id
  rintro (cause | pid) u ⟨proceeds, post⟩
  · obtain rfl : u = t := post
    exact staffed
  · refine ⟨proceeds.regular, proceeds.orderly, ?_⟩
    rw [post]
    exact List.mem_append_left _ staffed.relief

theorem Staffed.meets_adopt (staffed : t.Staffed) (stack sp : Nat) :
    (Kernel.adopt stack sp).run.Meets t (fun _ => Staffed) fun _ => False := by
  unfold Kernel.adopt
  refine staffed.meets_adoptBoot.run_bind ?_ fun _ _ staffed => staffed
  intro boot u staffed
  exact (staffed.meets_add (some stack) sp .idle).run_bind (fun _ _ staffed => staffed) fun _ _ staffed => staffed

/-- With the boot task comes an idle one that stands by. -/
theorem meets_adopt_staffed (regular : t.Regular) (orderly : t.Orderly) (stack sp : Nat) :
    (Kernel.adopt stack sp).run.Meets t (fun result u => ∀ pids, result = .ok pids → u.Staffed) fun _ => False := by
  have possible : Step.adopt.Possible t := trivial
  have boots : adoptBoot.run.Meets t (fun result => t.Proceeds (Step.handed result)) fun _ => False :=
    (meets_bind ..).mp (Step.meets_perform regular orderly possible)
  unfold Kernel.adopt
  refine boots.run_bind ?_ (by simp)
  intro boot u proceeds
  refine (meets_add_readiness proceeds.regular proceeds.orderly (some stack) sp .idle).run_bind ?_ (by simp)
  rintro idle v ⟨proceeds, post⟩ pids -
  refine ⟨proceeds.regular, proceeds.orderly, ?_⟩
  rw [post]
  exact List.mem_append_right _ (by decide)

end Table
end KernelCore
