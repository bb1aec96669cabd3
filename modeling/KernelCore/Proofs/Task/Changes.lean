import KernelCore.Proofs.Contract
import KernelCore.Task.Scheduling
import KernelCore.Task.TableLemmas

namespace KernelCore

/-- The ways for the state of a task to change. A sleeping task becomes ready only while a timer interrupt
is served. -/
inductive TaskState.Goes (serving : Prop) : TaskState → TaskState → Prop where
  | picked : Goes serving ready running
  | replaced : Goes serving running ready
  | sleeps (wake : Nat) : Goes serving running (blocked wake)
  | exits : Goes serving running terminated
  | wakes (wake : Nat) (now : serving) : Goes serving (blocked wake) ready

namespace Table
open Machine TaskState
variable {t t' u : Table} {i c : Nat} {serving : Prop} {task : Task} {state : TaskState}

/-- The state of the task in a slot. -/
def stateAt (t : Table) (i : Nat) : Option TaskState := t.tasks[i]?.map Task.state

/-- No task is running but the current one. -/
structure Orderly (t : Table) : Prop where
  current : ∀ c, t.current = some c → c < t.tasks.size
  alone : ∀ i, t.stateAt i = some .running → t.current = some i

/-- Every task keeps its slot and its pid, and its state stays or changes in one of the ways that there are.
A new task starts out ready, or as the current one. -/
structure Becomes (serving : Prop) (t t' : Table) : Prop where
  changes : ∀ (i : Nat) (task : Task), t.tasks[i]? = some task →
    ∃ task' : Task, t'.tasks[i]? = some task' ∧ task'.pid = task.pid ∧
      (task'.state = task.state ∨ task.state.Goes serving task'.state)
  starts : ∀ (i : Nat) (task' : Task), t.tasks[i]? = none → t'.tasks[i]? = some task' →
    task'.state = .ready ∨ t'.current = some i

/-- A task that has exited stays so. -/
theorem Becomes.stateAt_of_terminated (becomes : Becomes serving t t') (exited : t.stateAt i = some .terminated) :
    t'.stateAt i = some .terminated := by
  obtain ⟨task, here, state⟩ := Option.map_eq_some_iff.mp exited
  obtain ⟨task', there, -, same | goes⟩ := becomes.changes i task here
  · rw [stateAt, there, Option.map_some, same, state]
  · rw [state] at goes
    cases goes

/-- No task changes its state, and new tasks are ready. -/
structure Extends (t t' : Table) : Prop where
  keeps : ∀ (i : Nat) (task : Task), t.tasks[i]? = some task →
    ∃ task' : Task, t'.tasks[i]? = some task' ∧ task'.pid = task.pid ∧ task'.state = task.state
  starts : ∀ (i : Nat) (task' : Task), t.tasks[i]? = none → t'.tasks[i]? = some task' → task'.state = .ready
  current : t'.current = t.current

theorem Extends.refl (t : Table) : t.Extends t :=
  ⟨fun _ task here => ⟨task, here, rfl, rfl⟩, fun _ _ none some => by simp [none] at some, rfl⟩

theorem Extends.trans (first : t.Extends u) (second : u.Extends t') : t.Extends t' where
  keeps i task here := by
    obtain ⟨mid, atMid, samePid, sameState⟩ := first.keeps i task here
    obtain ⟨task', there, pid, state⟩ := second.keeps i mid atMid
    exact ⟨task', there, pid.trans samePid, state.trans sameState⟩
  starts i task' none there := by
    cases atMid : u.tasks[i]? with
    | none => exact second.starts i task' atMid there
    | some mid =>
      obtain ⟨_, there', -, state⟩ := second.keeps i mid atMid
      obtain rfl := Option.some.inj (there.symm.trans there')
      rw [state]
      exact first.starts i mid none atMid
  current := second.current.trans first.current

theorem Extends.becomes (grows : t.Extends t') : Becomes serving t t' where
  changes i task here := by
    obtain ⟨task', there, pid, state⟩ := grows.keeps i task here
    exact ⟨task', there, pid, Or.inl state⟩
  starts i task' none there := Or.inl (grows.starts i task' none there)

theorem Extends.stateAt (grows : t.Extends t') (here : t.stateAt i = some state) : t'.stateAt i = some state := by
  obtain ⟨task, atI, rfl⟩ := Option.map_eq_some_iff.mp here
  obtain ⟨task', there, -, same⟩ := grows.keeps i task atI
  rw [Table.stateAt, there, Option.map_some, same]

theorem Extends.orderly (grows : t.Extends t') (orderly : t.Orderly) : t'.Orderly where
  current c now := by
    have inside := orderly.current c (grows.current ▸ now)
    obtain ⟨task', there, -⟩ := grows.keeps c _ (Array.getElem?_eq_getElem inside)
    exact (Array.getElem?_eq_some_iff.mp there).1
  alone i runs := by
    obtain ⟨task', there, state⟩ := Option.map_eq_some_iff.mp runs
    rw [grows.current]
    cases here : t.tasks[i]? with
    | none => simp [grows.starts i task' here there] at state
    | some task =>
      obtain ⟨_, there', -, same⟩ := grows.keeps i task here
      obtain rfl := Option.some.inj (there.symm.trans there')
      refine orderly.alone i ?_
      rw [Table.stateAt, here, Option.map_some, ← same, state]

/-- A table with another task in a slot. -/
def put (t : Table) (i : Nat) (task : Task) : Table := { t with tasks := t.tasks.setIfInBounds i task }

theorem getElem?_put (here : t.tasks[i]? = some task) (new : Task) (j : Nat) :
    (t.put i new).tasks[j]? = if j = i then some new else t.tasks[j]? := by
  have inside := (Array.getElem?_eq_some_iff.mp here).1
  unfold put
  rw [Array.getElem?_setIfInBounds]
  by_cases same : j = i
  · rw [if_pos same, if_pos same.symm, if_pos inside]
  · rw [if_neg same, if_neg (Ne.symm same)]

theorem meets_update {change : Task → Task} {post : Unit → Table → Prop} {stopped : Table → Prop}
    (changed : ∀ task, t.tasks[i]? = some task → post () (t.put i (change task))) (failed : stopped t) :
    (update i change).Meets t post stopped := by
  unfold update
  rw [meets_bind, meets_get, meets_bind]
  cases found : t.slot i with
  | error fault => exact failed
  | ok task => exact changed task (slot_eq_ok_iff.mp found)

theorem extends_put (here : t.tasks[i]? = some task) {new : Task} (pid : new.pid = task.pid)
    (state : new.state = task.state) : t.Extends (t.put i new) where
  keeps j old atJ := by
    rw [getElem?_put here]
    by_cases same : j = i
    · subst same
      obtain rfl := Option.some.inj (here.symm.trans atJ)
      exact ⟨new, if_pos rfl, pid, state⟩
    · exact ⟨old, by rw [if_neg same, atJ], rfl, rfl⟩
  starts j new' none there := by
    rw [getElem?_put here] at there
    split at there
    · rename_i same
      rw [same, here] at none
      simp at none
    · rw [none] at there
      simp at there
  current := rfl

/-- Work on a task that leaves its pid and its state alone. -/
theorem meets_update_extends {change : Task → Task} (pid : ∀ task, (change task).pid = task.pid)
    (state : ∀ task, (change task).state = task.state) :
    (update i change).Meets t (fun _ t' => t.Extends t') t.Extends :=
  meets_update (fun task here => extends_put here (pid task) (state task)) (Extends.refl t)

/-- One more task changes its state, in one of the ways that there are. -/
theorem Becomes.put (first : Becomes serving t u) (same : u.tasks[i]? = t.tasks[i]?) (here : u.tasks[i]? = some task)
    {new : Task} (pid : new.pid = task.pid) (goes : new.state = task.state ∨ task.state.Goes serving new.state) :
    Becomes serving t (u.put i new) where
  changes j old atJ := by
    rw [getElem?_put here]
    by_cases sameSlot : j = i
    · subst sameSlot
      obtain rfl := Option.some.inj (atJ.symm.trans (same.symm.trans here))
      exact ⟨new, if_pos rfl, pid, goes⟩
    · rw [if_neg sameSlot]
      exact first.changes j old atJ
  starts j new' none there := by
    rw [getElem?_put here] at there
    by_cases sameSlot : j = i
    · subst sameSlot
      rw [← same, here] at none
      simp at none
    · rw [if_neg sameSlot] at there
      exact first.starts j new' none there

theorem becomes_put (here : t.tasks[i]? = some task) {new : Task} (pid : new.pid = task.pid)
    (goes : new.state = task.state ∨ task.state.Goes serving new.state) : Becomes serving t (t.put i new) :=
  (Extends.refl t).becomes.put rfl here pid goes

/-- It makes no difference to the tasks which one is the current one. -/
theorem Becomes.setCurrent (becomes : Becomes serving t u) (size : u.tasks.size = t.tasks.size) (slot : Option Nat) :
    Becomes serving t { u with current := slot } where
  changes := becomes.changes
  starts j new none there := by
    have outside := Array.getElem?_eq_none_iff.mp none
    have inside := (Array.getElem?_eq_some_iff.mp there).1
    dsimp only at inside
    omega

theorem stateAt_put (here : t.tasks[i]? = some task) (new : Task) (j : Nat) :
    (t.put i new).stateAt j = if j = i then some new.state else t.stateAt j := by
  unfold stateAt
  rw [getElem?_put here]
  split <;> rfl

theorem size_put (t : Table) (i : Nat) (new : Task) : (t.put i new).tasks.size = t.tasks.size :=
  Array.size_setIfInBounds ..

theorem orderly_put (orderly : t.Orderly) (here : t.tasks[i]? = some task) {new : Task}
    (alone : new.state = .running → t.current = some i) : (t.put i new).Orderly where
  current c now := by
    rw [size_put]
    exact orderly.current c now
  alone j runs := by
    rw [stateAt_put here] at runs
    split at runs
    · rename_i same
      rw [same]
      exact alone (Option.some.inj runs)
    · exact orderly.alone j runs

theorem meets_update_of {change : Task → Task} {post : Unit → Table → Prop} {stopped : Table → Prop}
    (here : t.tasks[i]? = some task) (changed : post () (t.put i (change task))) :
    (update i change).Meets t post stopped := by
  unfold update
  rw [meets_bind, meets_get, meets_bind, slot_eq_ok_iff.mpr here]
  exact changed

theorem runFrom_update (here : t.tasks[i]? = some task) (change : Task → Task) :
    (update i change).runFrom t = (.ok (), t.put i (change task)) := by
  simp only [update, runFrom_bind, runFrom_get, slot_eq_ok_iff.mpr here, runFrom_lift, runFrom_modify, put]

theorem exists_of_runFrom_update {change : Task → Task} {a : Unit} (ran : (update i change).runFrom t = (.ok a, u)) :
    ∃ task, t.tasks[i]? = some task ∧ u = t.put i (change task) := by
  cases found : t.slot i with
  | error fault => simp [update, runFrom_bind, found] at ran
  | ok task =>
    have here := slot_eq_ok_iff.mp found
    rw [runFrom_update here] at ran
    exact ⟨task, here, (Prod.mk.inj ran).2.symm⟩

theorem runFrom_blockCurrent (at_c : t.current = some c) (here : t.tasks[c]? = some task) (wake : Nat) :
    (blockCurrent wake).runFrom t = (.ok true, t.put c { task with state := .blocked wake }) := by
  simp only [blockCurrent, runFrom_bind, runFrom_get, at_c, runFrom_update here, runFrom_pure]

theorem exists_of_stateAt (here : t.stateAt i = some state) : ∃ task, t.tasks[i]? = some task ∧ task.state = state :=
  Option.map_eq_some_iff.mp here

theorem Orderly.exists_task (orderly : t.Orderly) (now : t.current = some c) : ∃ task, t.tasks[c]? = some task :=
  ⟨_, Array.getElem?_eq_getElem (orderly.current c now)⟩

/-- What is found along the ring is ready, and not the current task. -/
theorem seek_ready {steps : Nat} {idle ready idle' : Option Nat} (found : t.seek c steps i idle = .ok (ready, idle')) :
    (∀ j, ready = some j → j ≠ c ∧ t.stateAt j = some .ready) ∧
      ∀ j, idle' = some j → idle = some j ∨ (j ≠ c ∧ t.stateAt j = some .ready) := by
  induction steps generalizing i idle with
  | zero =>
    obtain ⟨rfl, rfl⟩ := Prod.mk.inj (Except.ok.inj found)
    exact ⟨by simp, fun j same => Or.inl same⟩
  | succ steps ih =>
    unfold seek at found
    by_cases back : i = c
    · rw [if_pos back] at found
      obtain ⟨rfl, rfl⟩ := Prod.mk.inj (Except.ok.inj found)
      exact ⟨by simp, fun j same => Or.inl same⟩
    rw [if_neg back] at found
    cases slot : t.slot i with
    | error fault => simp [slot, bind, Except.bind] at found
    | ok task =>
      have here := slot_eq_ok_iff.mp slot
      simp only [slot, bind, Except.bind] at found
      by_cases isReady : task.state = .ready
      · have ready : i ≠ c ∧ t.stateAt i = some .ready := ⟨back, by rw [stateAt, here, Option.map_some, isReady]⟩
        rw [if_pos isReady] at found
        -- An idle task is only kept in mind: the search goes on behind it.
        split at found
        · obtain ⟨ahead, kept⟩ := ih found
          refine ⟨ahead, ?_⟩
          intro j same
          rcases kept j same with met | later
          · obtain rfl := Option.some.inj met
            exact Or.inr ready
          · exact Or.inr later
        · obtain ⟨rfl, rfl⟩ := Prod.mk.inj (Except.ok.inj found)
          refine ⟨?_, fun j same => Or.inl same⟩
          intro j same
          obtain rfl := Option.some.inj same
          exact ready
      · rw [if_neg isReady] at found
        exact ih found

/-- A task may be given the processor: it is the current one and can run, or another one that is ready. -/
def Eligible (t : Table) (i : Nat) : Prop :=
  (t.current = some i ∧ ∃ state, t.stateAt i = some state ∧ state.isRunnable = true) ∨
    ∃ c, t.current = some c ∧ i ≠ c ∧ t.stateAt i = some .ready

theorem eligible_of_pick (picked : t.pick = .ok (some i)) : t.Eligible i := by
  unfold pick at picked
  cases now : t.current with
  | none => simp [now] at picked
  | some c =>
    simp only [now] at picked
    cases slot : t.slot c with
    | error fault => simp [slot, bind, Except.bind] at picked
    | ok running =>
      have here := slot_eq_ok_iff.mp slot
      simp only [slot, bind, Except.bind] at picked
      cases found : t.seek c t.tasks.size running.next none with
      | error fault => simp [found] at picked
      | ok result =>
        obtain ⟨ready, idle⟩ := result
        obtain ⟨ahead, kept⟩ := seek_ready found
        simp only [found] at picked
        cases ready with
        | some j =>
          obtain rfl := Option.some.inj (Except.ok.inj picked)
          exact Or.inr ⟨c, now, ahead _ rfl⟩
        | none =>
          have choice := Except.ok.inj picked
          split at choice
          · rename_i runnable
            obtain rfl := Option.some.inj choice
            exact Or.inl ⟨now, running.state, by rw [stateAt, here, Option.map_some], runnable⟩
          · subst choice
            exact Or.inr ⟨c, now, (kept i rfl).resolve_left (by simp)⟩

/-- The task picked runs. If it took the place of another one, that one is handed over from. -/
structure Dispatched (serving : Prop) (t : Table) (i : Nat) (handover : Option Handover) (t' : Table) : Prop where
  becomes : Becomes serving t t'
  orderly : t'.Orderly
  current : t'.current = some i
  runs : t'.stateAt i = some .running
  kept : handover = none → t.current = some i
  next : ∀ h, handover = some h → ∃ task, t.tasks[i]? = some task ∧ h.next = task.sp
  handover : ∀ h, handover = some h → t.current = some h.outgoing ∧ h.incoming = i ∧ i ≠ h.outgoing ∧
    t.stateAt i = some .ready

/-- Once the current task no longer runs, no task does. -/
theorem not_running_of_replaced {outgoing out : Task} (orderly : t.Orderly) (now : t.current = some c)
    (atC : t.tasks[c]? = some outgoing)
    (stateOut : out.state = if outgoing.state = .running then .ready else outgoing.state) (j : Nat) :
    (t.put c out).stateAt j ≠ some .running := by
  intro runs
  rw [stateAt_put atC] at runs
  by_cases isOld : j = c
  · rw [if_pos isOld, stateOut] at runs
    by_cases ran : outgoing.state = .running
    · simp [ran] at runs
    · rw [if_neg ran] at runs
      exact ran (Option.some.inj runs)
  · rw [if_neg isOld] at runs
    exact isOld (Option.some.inj ((orderly.alone j runs).symm.trans now))

/-- The current task is replaced by a ready one. -/
theorem dispatched_of_ready {outgoing incoming out new : Task} (orderly : t.Orderly) (now : t.current = some c)
    (other : i ≠ c) (atC : t.tasks[c]? = some outgoing) (atI : t.tasks[i]? = some incoming)
    (ready : incoming.state = .ready) (pidOut : out.pid = outgoing.pid)
    (stateOut : out.state = if outgoing.state = .running then .ready else outgoing.state)
    (pidNew : new.pid = incoming.pid) (stateNew : new.state = .running) :
    Dispatched serving t i (some ⟨c, i, incoming.sp⟩) { (t.put c out).put i new with current := some i } := by
  have still : (t.put c out).tasks[i]? = some incoming := by rw [getElem?_put atC, if_neg other, atI]
  -- The outgoing task is written back before the incoming one runs, and each write is a change of its own.
  have first : Becomes serving t (t.put c out) := by
    refine becomes_put atC pidOut ?_
    rw [stateOut]
    by_cases ran : outgoing.state = .running
    · rw [if_pos ran, ran]
      exact Or.inr .replaced
    · rw [if_neg ran]
      exact Or.inl rfl
  have second : Becomes serving t ((t.put c out).put i new) := by
    refine first.put (still.trans atI.symm) still pidNew (Or.inr ?_)
    rw [ready, stateNew]
    exact .picked
  have runs : ((t.put c out).put i new).stateAt i = some .running := by rw [stateAt_put still, if_pos rfl, stateNew]
  refine ⟨second.setCurrent (by rw [size_put, size_put]) _, ⟨?_, ?_⟩, rfl, runs, by simp, ?_, ?_⟩
  · intro j same
    obtain rfl := Option.some.inj same
    dsimp only
    rw [size_put, size_put]
    exact (Array.getElem?_eq_some_iff.mp atI).1
  · intro j running
    by_cases isNew : j = i
    · rw [isNew]
    have before : (t.put c out).stateAt j = some .running := by
      rw [← running, stateAt, stateAt, getElem?_put still, if_neg isNew]
    exact absurd before (not_running_of_replaced orderly now atC stateOut j)
  · rintro h ⟨⟩
    exact ⟨incoming, atI, rfl⟩
  · rintro h ⟨⟩
    exact ⟨now, rfl, other, by rw [stateAt, atI, Option.map_some, ready]⟩

theorem meets_dispatch (serving : Prop) (orderly : t.Orderly) (eligible : t.Eligible i) :
    (dispatch i).Meets t (Dispatched serving t i) fun _ => False := by
  unfold dispatch
  rw [meets_bind, meets_get]
  rcases eligible with ⟨now, state, here, runnable⟩ | ⟨c, now, other, ready⟩
  · obtain ⟨task, atI, rfl⟩ := exists_of_stateAt here
    simp only [now, if_true]
    rw [meets_bind]
    refine meets_update_of atI
      ⟨becomes_put atI rfl ?_, orderly_put orderly atI fun _ => now, now, ?_, fun _ => now, by simp, by simp⟩
    · cases is : task.state with
      | ready => exact Or.inr .picked
      | running => exact Or.inl rfl
      | blocked wake => simp [is, isRunnable] at runnable
      | terminated => simp [is, isRunnable] at runnable
    · rw [stateAt_put atI, if_pos rfl]
  · obtain ⟨outgoing, atC⟩ := orderly.exists_task now
    obtain ⟨incoming, atI, is⟩ := exists_of_stateAt ready
    simp only [now, other, if_false]
    rw [meets_bind]
    refine meets_update_of atC ?_
    have still := getElem?_put atC { outgoing with
      state := if outgoing.state = .running then .ready else outgoing.state } i
    rw [if_neg other, atI] at still
    rw [meets_bind, meets_get, meets_bind, slot_eq_ok_iff.mpr still, meets_lift_ok, meets_bind]
    refine meets_update_of still ?_
    rw [meets_bind, meets_modify, meets_pure]
    exact dispatched_of_ready orderly now other atC atI is (by rfl) (by rfl) (by rfl) (by rfl)

/-- Where the running task is, if there is one. -/
def Busy (t : Table) : Prop := ∀ c, t.current = some c → t.stateAt c = some .running

theorem meets_blockCurrent (orderly : t.Orderly) (busy : t.Busy) (wake : Nat) :
    (blockCurrent wake).Meets t (fun done t' => Becomes serving t t' ∧ t'.Orderly ∧ (done = false → t'.current = none))
      fun _ => False := by
  unfold blockCurrent
  rw [meets_bind, meets_get]
  cases now : t.current with
  | none => exact ⟨(Extends.refl t).becomes, orderly, fun _ => now⟩
  | some c =>
    obtain ⟨task, here, runs⟩ := exists_of_stateAt (busy c now)
    dsimp only
    rw [meets_bind]
    refine meets_update_of here ⟨becomes_put here rfl (Or.inr ?_), orderly_put orderly here (by simp), by simp⟩
    rw [runs]
    exact .sleeps wake

theorem meets_terminateCurrent (orderly : t.Orderly) (busy : t.Busy) :
    terminateCurrent.Meets t (fun _ t' => Becomes serving t t' ∧ t'.Orderly) fun _ => False := by
  unfold terminateCurrent
  rw [meets_bind, meets_get]
  cases now : t.current with
  | none => exact ⟨(Extends.refl t).becomes, orderly⟩
  | some c =>
    obtain ⟨task, here, runs⟩ := exists_of_stateAt (busy c now)
    dsimp only
    rw [meets_bind, meets_get, meets_bind, slot_eq_ok_iff.mpr here, meets_lift_ok, meets_bind]
    refine meets_update_of here ⟨becomes_put here rfl (Or.inr ?_), orderly_put orderly here (by simp)⟩
    rw [runs]
    exact .exits

/-- A task after the deadlines up to a tick have passed. -/
def woken (now : Nat) (task : Task) : Task := if isDue now task then { task with state := .ready } else task

theorem woken_cases (now : Nat) (task : Task) : (woken now task).pid = task.pid ∧
    ((woken now task).state = task.state ∨
      (∃ wake, task.state = .blocked wake) ∧ (woken now task).state = .ready) := by
  unfold woken
  by_cases due : isDue now task = true
  · rw [if_pos due]
    cases is : task.state with
    | blocked wake => exact ⟨rfl, Or.inr ⟨⟨wake, rfl⟩, rfl⟩⟩
    | ready => simp [isDue, is] at due
    | running => simp [isDue, is] at due
    | terminated => simp [isDue, is] at due
  · rw [if_neg due]
    exact ⟨rfl, Or.inl rfl⟩

theorem running_of_woken {now : Nat} (runs : (woken now task).state = .running) : task.state = .running := by
  rcases (woken_cases now task).2 with same | ⟨-, wakes⟩
  · rw [← same, runs]
  · simp [wakes] at runs

/-- Sleepers become ready while a timer interrupt is served. -/
theorem meets_wakeDue (orderly : t.Orderly) (due : serving) (now : Nat) :
    (wakeDue now).Meets t (fun _ t' => Becomes serving t t' ∧ t'.Orderly) fun _ => False := by
  unfold wakeDue
  rw [meets_bind, meets_get, meets_bind, meets_set, meets_pure]
  have atSlot : ∀ j, (t.tasks.map (woken now))[j]? = t.tasks[j]?.map (woken now) := fun j => Array.getElem?_map ..
  refine ⟨⟨fun j task here => ⟨woken now task, ?_, (woken_cases now task).1, ?_⟩, ?_⟩, ⟨?_, ?_⟩⟩
  · exact (atSlot j).trans (by rw [here, Option.map_some])
  · rcases (woken_cases now task).2 with same | ⟨⟨wake, slept⟩, wakes⟩
    · exact Or.inl same
    · rw [slept, wakes]
      exact Or.inr (.wakes wake due)
  · intro j task' none there
    have nothing := (atSlot j).trans (by rw [none, Option.map_none])
    exact absurd (there.symm.trans nothing) (by simp)
  · intro c same
    exact (Array.size_map ..).symm ▸ orderly.current c same
  · intro j runs
    obtain ⟨task', there, is⟩ := exists_of_stateAt runs
    obtain ⟨task, here, rfl⟩ := Option.map_eq_some_iff.mp ((atSlot j).symm.trans there)
    exact orderly.alone j (by rw [stateAt, here, Option.map_some, running_of_woken is])

theorem meets_setNext (i next : Nat) :
    (update i fun task => { task with next }).Meets t (fun _ t' => t.Extends t') t.Extends :=
  meets_update_extends (fun _ => rfl) fun _ => rfl

/-- The task in the slot that was handed out is linked at the end of the ring. -/
theorem meets_link (i : Nat) : (link i).Meets t (fun _ t' => t.Extends t') t.Extends := by
  unfold link
  rw [meets_bind, meets_get]
  have finish : ∀ (_ : PUnit) (u : Table), t.Extends u →
      (modify fun t : Table => { t with tail := some i } : Machine Table PUnit).Meets u
        (fun _ t' => t.Extends t') t.Extends := fun _ u grows => ⟨grows.keeps, grows.starts, grows.current⟩
  cases t.tail with
  | none => exact (meets_setNext i i).bind finish
  | some tail =>
    dsimp only
    rw [meets_bind]
    cases slot : t.slot tail with
    | error fault => exact Extends.refl t
    | ok last =>
      rw [meets_lift_ok]
      refine (meets_setNext i last.next).bind ?_
      intro _ u grows
      have second : (update tail fun task => { task with next := i }).Meets u (fun _ t' => t.Extends t') t.Extends :=
        (meets_setNext tail i).mono (fun _ _ more => grows.trans more) fun _ more => grows.trans more
      exact second.bind finish

/-- The next slot is handed out to a ready task. -/
theorem meets_insert (stack : Option Nat) (sp : Nat) (flags : TaskFlags) :
    (insert stack sp flags).run.Meets t (fun result t' => t.Extends t' ∧
      ∀ i, result = .ok i → i = t.tasks.size ∧ ∃ task, t'.tasks[i]? = some task) t.Extends := by
  unfold insert
  rw [meets_run_bind, meets_run_get]
  dsimp only
  by_cases full : t.isFull = true
  · rw [if_pos full]
    exact ⟨Extends.refl t, by simp⟩
  rw [if_neg full]
  generalize fresh : (⟨t.tasks.size + 1, .ready, flags, sp, stack, 0, 0⟩ : Task) = task
  have pushed : t.Extends { t with tasks := t.tasks.push task } := by
    refine ⟨fun i old here => ⟨old, ?_, rfl, rfl⟩, ?_, rfl⟩
    · have inside := (Array.getElem?_eq_some_iff.mp here).1
      rw [Array.getElem?_push, if_neg (by omega), here]
    · intro i new none there
      rw [Array.getElem?_push, none] at there
      split at there
      · rw [← Option.some.inj there, ← fresh]
      · simp at there
  have last : (t.tasks.push task)[t.tasks.size]? = some task := by rw [Array.getElem?_push, if_pos rfl]
  rw [meets_run_bind_of_attempt (attempt_modify ..), meets_run_bind, meets_run_lift]
  refine (meets_link _).mono ?_ fun _ grows => pushed.trans grows
  intro _ t' grows
  rw [meets_run_pure]
  refine ⟨pushed.trans grows, ?_⟩
  intro i given
  obtain rfl := Except.ok.inj given
  obtain ⟨task', there, -⟩ := grows.keeps _ task last
  exact ⟨rfl, task', there⟩

theorem Extends.busy (grows : t.Extends t') (busy : t.Busy) : t'.Busy := fun c now =>
  grows.stateAt (busy c (grows.current ▸ now))

theorem Becomes.extends (first : Becomes serving t u) (grows : u.Extends t') : Becomes serving t t' where
  changes i task here := by
    obtain ⟨mid, atMid, samePid, state⟩ := first.changes i task here
    obtain ⟨task', there, pid, same⟩ := grows.keeps i mid atMid
    exact ⟨task', there, pid.trans samePid, by rwa [same]⟩
  starts i task' none there := by
    cases atMid : u.tasks[i]? with
    | none => exact Or.inl (grows.starts i task' atMid there)
    | some mid =>
      obtain ⟨_, there', -, same⟩ := grows.keeps i mid atMid
      obtain rfl := Option.some.inj (there.symm.trans there')
      rw [same, grows.current]
      exact first.starts i mid none atMid

theorem meets_add (stack : Option Nat) (sp : Nat) (flags : TaskFlags) :
    (add stack sp flags).run.Meets t (fun _ t' => t.Extends t') t.Extends := by
  unfold add
  rw [meets_run_bind, meets_run_get]
  dsimp only
  by_cases uninitialized : t.current.isNone = true
  · rw [if_pos uninitialized]
    exact Extends.refl t
  rw [if_neg uninitialized]
  refine (meets_insert stack sp flags).run_bind ?_ fun _ _ post => post.1
  rintro i u ⟨grows, -⟩
  have finish : ∀ v : Table, t.Extends v →
      (do let v ← get; let task ← liftM (v.slot i); pure task.pid : TableAction Nat).run.Meets v
        (fun _ t' => t.Extends t') t.Extends := by
    intro v grows
    rw [meets_run_bind, meets_run_get]
    dsimp only
    rw [meets_run_bind, meets_run_lift_outcome]
    cases v.slot i <;> exact grows
  split
  · rw [meets_run_bind_of_attempt (attempt_modify ..)]
    exact finish _ ⟨grows.keeps, grows.starts, grows.current⟩
  · exact finish u grows

/-- The first task of a table is made the running one. -/
theorem adopted_of_put (nobody : ∀ j : Nat, t.tasks[j]? = none) (grows : t.Extends u)
    (here : u.tasks[i]? = some task) {boot : Task} (runs : boot.state = .running) :
    Becomes serving t { u.put i boot with current := some i } ∧
      Orderly { u.put i boot with current := some i } ∧ Busy { u.put i boot with current := some i } := by
  have there : (u.put i boot).tasks[i]? = some boot := by rw [getElem?_put here, if_pos rfl]
  refine ⟨⟨fun j old atJ => by simp [nobody j] at atJ, ?_⟩, ⟨?_, ?_⟩, ?_⟩
  · intro j new none atJ
    by_cases same : j = i
    · exact Or.inr (congrArg some same.symm)
    · have before : (u.put i boot).tasks[j]? = some new := atJ
      rw [getElem?_put here, if_neg same] at before
      exact Or.inl (grows.starts j new none before)
  · intro c now
    obtain rfl := Option.some.inj now
    exact (Array.getElem?_eq_some_iff.mp there).1
  · intro j running
    by_cases same : j = i
    · exact congrArg some same.symm
    · have before : (u.put i boot).stateAt j = some .running := running
      rw [stateAt_put here, if_neg same] at before
      obtain ⟨old, atJ, is⟩ := exists_of_stateAt before
      simp [grows.starts j old (nobody j) atJ] at is
  · intro c now
    obtain rfl := Option.some.inj now
    exact (congrArg (Option.map Task.state) there).trans (congrArg some runs)

/-- What runs already is the first task, and the running one. -/
theorem meets_adoptBoot (orderly : t.Orderly) (busy : t.Busy) :
    adoptBoot.run.Meets t (fun _ t' => Becomes serving t t' ∧ t'.Orderly ∧ t'.Busy)
      fun t' => Becomes serving t t' ∧ t'.Orderly := by
  unfold adoptBoot
  rw [meets_run_bind, meets_run_get]
  dsimp only
  by_cases used : 0 < t.tasks.size
  · rw [if_pos used]
    exact ⟨(Extends.refl t).becomes, orderly, busy⟩
  rw [if_neg used]
  refine ((meets_insert none 0 TaskFlags.boot).mono (fun _ _ => id)
    fun _ grows => ⟨grows.becomes, grows.orderly orderly⟩).run_bind ?_
    fun _ _ post => ⟨post.1.becomes, post.1.orderly orderly, post.1.busy busy⟩
  rintro i u ⟨grows, given⟩
  obtain ⟨-, task, here⟩ := given i rfl
  have nobody : ∀ j : Nat, t.tasks[j]? = none := fun j => Array.getElem?_eq_none (by omega)
  rw [meets_run_bind, meets_run_lift]
  refine meets_update_of here ?_
  dsimp only
  generalize first : { task with state := .running, scheduled := 1 } = boot
  have there : (u.put i boot).tasks[i]? = some boot := by rw [getElem?_put here, if_pos rfl]
  rw [meets_run_bind, meets_run_get]
  dsimp only
  rw [meets_run_bind, meets_run_lift_outcome, slot_eq_ok_iff.mpr there]
  dsimp only
  rw [meets_run_bind_of_attempt (attempt_modify ..), meets_run_pure]
  exact adopted_of_put nobody grows here (by rw [← first])

theorem meets_saveStackPointer (i sp : Nat) :
    (saveStackPointer i sp).Meets t (fun _ t' => t.Extends t') t.Extends :=
  meets_update_extends (fun _ => rfl) fun _ => rfl

end Table
end KernelCore
