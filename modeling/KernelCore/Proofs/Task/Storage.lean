import KernelCore.Proofs.Task.Changes
import KernelCore.Task.Roster

namespace KernelCore
open Machine

/-- What a task does, with the deadline of one that sleeps. -/
def TaskStatus.state (wake : Nat) : TaskStatus → TaskState
  | ready => .ready
  | running => .running
  | blocked => .blocked wake
  | terminated => .terminated

/-- What a task does, without the deadline. -/
def TaskState.status : TaskState → TaskStatus
  | ready => .ready
  | running => .running
  | blocked _ => .blocked
  | terminated => .terminated

namespace TaskRecord
variable {record : TaskRecord}

/-- The task that is stored. -/
def task (record : TaskRecord) : Task :=
  ⟨record.pid, record.status.state record.wakeTick, record.flags, record.sp, record.stack, record.next,
    record.scheduled⟩

theorem status_task (record : TaskRecord) : record.task.state.status = record.status := by
  unfold task TaskStatus.state
  cases record.status <;> rfl

@[simp] theorem state_task_eq_ready_iff : record.task.state = .ready ↔ record.status = .ready := by
  unfold task TaskStatus.state
  cases record.status <;> simp

@[simp] theorem state_task_eq_running_iff : record.task.state = .running ↔ record.status = .running := by
  unfold task TaskStatus.state
  cases record.status <;> simp

@[simp] theorem isRunnable_state_task : record.task.state.isRunnable = record.status.isRunnable := by
  unfold task TaskStatus.state
  cases record.status <;> rfl

@[simp] theorem wake?_task : record.task.state.wake? = record.wake? := by
  unfold task TaskStatus.state wake?
  cases record.status <;> rfl

@[simp] theorem isIdle_task : record.task.isIdle = record.isIdle := rfl

@[simp] theorem isDue_task (now : Nat) : Table.isDue now record.task = Roster.isDue now record := by
  unfold task TaskStatus.state Roster.isDue Table.isDue
  cases record.status <;> simp

end TaskRecord

/-- The count of some task has no room for one more. -/
def Table.Worn (t : Table) : Prop := ∃ (i : Nat) (task : Task), t.tasks[i]? = some task ∧ wordLimit ≤ task.scheduled + 1

namespace Roster
variable {α β : Type} {r r' : Roster} {t t' : Table} {record : TaskRecord} {i : Nat} {worn : Prop}

/-- The task that is stored in a slot. -/
def record? (r : Roster) (i : Nat) : Option TaskRecord := r.slots[i]?.join

/-- The slots hold the tasks of the table in order, those behind are empty, and the counters tell how many there are. -/
structure Stores (r : Roster) (t : Table) : Prop where
  slots : ∀ i, (r.record? i).map TaskRecord.task = t.tasks[i]?
  count : r.count = t.tasks.size
  nextPid : r.nextPid = r.count + 1
  current : r.current = t.current
  idle : r.idle = t.idle
  tail : r.tail = t.tail

theorem record?_eq_some_iff : r.record? i = some record ↔ r.slots[i]? = some (some record) :=
  Option.join_eq_some_iff

theorem lt_of_record? (here : r.record? i = some record) : i < Config.maxTasks :=
  (Vector.getElem?_eq_some_iff.mp (record?_eq_some_iff.mp here)).1

theorem slot_eq_ok_iff : r.slot i = .ok record ↔ r.record? i = some record := by
  unfold slot record?
  rcases r.slots[i]? with _ | _ | _ <;> simp

/-- What is stored, in order, if nothing is stored behind an empty place. -/
theorem map_filterMap_eq {f : α → β} {stored : List (Option α)} {values : List β}
    (same : ∀ i : Nat, (stored[i]?.join).map f = values[i]?) : (stored.filterMap id).map f = values := by
  induction stored generalizing values with
  | nil =>
    cases values with
    | nil => rfl
    | cons value values => simpa using same 0
  | cons place rest ih =>
    have first := same 0
    have later := fun i => same (i + 1)
    cases place with
    | none =>
      cases values with
      | nil => exact ih later
      | cons value values => simp at first
    | some record =>
      cases values with
      | nil => simp at first
      | cons value values =>
        obtain rfl : f record = value := by simpa using first
        exact congrArg (List.cons _) (ih later)

theorem stores_new : new.Stores Table.empty := by
  refine ⟨fun i => ?_, rfl, rfl, rfl, rfl, rfl⟩
  have vacant : new.record? i = none := by
    rw [record?, new, Vector.getElem?_replicate]
    split <;> rfl
  rw [vacant]
  rfl

namespace Stores

theorem getElem? (stores : r.Stores t) (here : r.record? i = some record) : t.tasks[i]? = some record.task := by
  rw [← stores.slots, here, Option.map_some]

theorem exists_record (stores : r.Stores t) (inside : i < t.tasks.size) : ∃ record, r.record? i = some record := by
  have here := stores.slots i
  rw [Array.getElem?_eq_getElem inside] at here
  obtain ⟨record, there, -⟩ := Option.map_eq_some_iff.mp here
  exact ⟨record, there⟩

theorem size_le (stores : r.Stores t) : t.tasks.size ≤ Config.maxTasks := by
  refine Nat.le_of_not_lt fun more => ?_
  obtain ⟨record, here⟩ := stores.exists_record more
  exact Nat.lt_irrefl _ (lt_of_record? here)

/-- The tasks are stored in order. -/
theorem map_tasks (stores : r.Stores t) : r.tasks.map TaskRecord.task = t.tasks.toList := by
  refine map_filterMap_eq fun i => ?_
  rw [Vector.getElem?_toList, Array.getElem?_toList]
  exact stores.slots i

/-- A slot of the table is looked up with the same result, or the same fault. -/
theorem slot (stores : r.Stores t) (i : Nat) : t.slot i = (r.slot i).map TaskRecord.task := by
  cases here : r.record? i with
  | some record => rw [Table.slot_eq_ok_iff.mpr (stores.getElem? here), slot_eq_ok_iff.mpr here, Except.map]
  | none =>
    have outside : ¬i < t.tasks.size := by
      intro inside
      obtain ⟨record, there⟩ := stores.exists_record inside
      simp [here] at there
    rw [Table.slot, dif_neg outside]
    unfold Roster.slot
    unfold record? at here
    by_cases inside : i < Config.maxTasks
    · rw [if_pos inside]
      rw [Vector.getElem?_eq_getElem inside, Option.join_some] at here
      rw [Vector.getElem?_eq_getElem inside, here]
      rfl
    · rw [if_neg inside, Vector.getElem?_eq_none (Nat.le_of_not_lt inside)]
      rfl

end Stores

/-- Another task is stored in a slot. -/
def put (r : Roster) (i : Nat) (record : TaskRecord) : Roster :=
  { r with slots := r.slots.setIfInBounds i (some record) }

theorem runFrom_store (inside : i < Config.maxTasks) (record : TaskRecord) (r : Roster) :
    (store i record).runFrom r = (.ok (), r.put i record) := by
  rw [store, if_pos inside]
  rfl

theorem runFrom_update (here : r.record? i = some record) (change : TaskRecord → TaskRecord) :
    (update i change).runFrom r = (.ok (), r.put i (change record)) := by
  simp only [update, runFrom_bind, runFrom_get, slot_eq_ok_iff.mpr here, runFrom_lift,
    runFrom_store (lt_of_record? here)]

theorem record?_put (inside : i < Config.maxTasks) (record : TaskRecord) (j : Nat) :
    (r.put i record).record? j = if j = i then some record else r.record? j := by
  unfold record? put
  rw [Vector.getElem?_setIfInBounds]
  by_cases same : i = j
  · simp [← same, inside]
  · simp [same, Ne.symm same]

theorem put_put (r : Roster) (i : Nat) (first second : TaskRecord) : (r.put i first).put i second = r.put i second := by
  simp only [put, Vector.setIfInBounds_setIfInBounds]

theorem Stores.put (stores : r.Stores t) (here : r.record? i = some record) (new : TaskRecord) :
    (r.put i new).Stores (t.put i new.task) := by
  refine ⟨fun j => ?_, ?_, stores.nextPid, stores.current, stores.idle, stores.tail⟩
  · rw [record?_put (lt_of_record? here), Table.getElem?_put (stores.getElem? here)]
    split
    · rfl
    · exact stores.slots j
  · rw [Table.size_put]
    exact stores.count

namespace Stores

theorem slot? (stores : r.Stores t) (s : Option Nat) :
    t.slot? s = (r.slot? s).map (Option.map TaskRecord.task) := by
  cases s with
  | none => rfl
  | some i =>
    rw [Table.slot?, Roster.slot?, stores.slot]
    cases r.slot i <;> rfl

theorem currentTask (stores : r.Stores t) :
    t.currentTask = r.currentTask.map (Option.map TaskRecord.task) := by
  rw [Table.currentTask, Roster.currentTask, ← stores.current, stores.slot?]

theorem currentPid (stores : r.Stores t) : t.currentPid = r.currentPid := by
  rw [Table.currentPid, Roster.currentPid, ← stores.current, stores.slot?]
  rcases r.slot? r.current with _ | _ | _ <;> rfl

theorem idlePid (stores : r.Stores t) : t.idlePid = r.idlePid := by
  rw [Table.idlePid, Roster.idlePid, ← stores.idle, stores.slot?]
  rcases r.slot? r.idle with _ | _ | _ <;> rfl

theorem task? (stores : r.Stores t) (pid : Nat) : t.task? pid = (r.task? pid).map TaskRecord.task := by
  rw [Table.task?, Roster.task?, ← Array.find?_toList, ← stores.map_tasks, List.find?_map]
  rfl

theorem statusOf? (stores : r.Stores t) (pid : Nat) : r.statusOf? pid = (t.stateOf? pid).map TaskState.status := by
  rw [Roster.statusOf?, Table.stateOf?, stores.task?, Option.map_map, Option.map_map]
  exact congrArg (Option.map · _) (funext fun record => record.status_task.symm)

end Stores

/-- Work on the stored table comes to what the work on the table comes to, and stores the table that this leaves. The
only other way for it to end is an overflow, for which something must be `worn`. -/
def Follows (worn : Prop) (action : Machine Roster α) (model : Machine Table α) (r : Roster) (t : Table) : Prop :=
  (worn ∧ (action.runFrom r).1 = .error .addOverflow) ∨
    ((action.runFrom r).1 = (model.runFrom t).1 ∧ (action.runFrom r).2.Stores (model.runFrom t).2)

theorem Follows.of_runFrom {action : Machine Roster α} {model : Machine Table α} {outcome : Except Fault α}
    (ran : action.runFrom r = (outcome, r')) (models : model.runFrom t = (outcome, t')) (stores : r'.Stores t') :
    Follows worn action model r t := by
  rw [Follows, ran, models]
  exact Or.inr ⟨rfl, stores⟩

theorem Follows.bind {action : Machine Roster α} {model : Machine Table α} {next : α → Machine Roster β}
    {next' : α → Machine Table β} (first : Follows worn action model r t)
    (rest : ∀ a r' t', model.runFrom t = (.ok a, t') → r'.Stores t' → Follows worn (next a) (next' a) r' t') :
    Follows worn (action >>= next) (model >>= next') r t := by
  unfold Follows at first ⊢
  rw [runFrom_bind, runFrom_bind]
  rcases did : action.runFrom r with ⟨outcome, r'⟩
  rcases ran : model.runFrom t with ⟨outcome', t'⟩
  rw [did, ran] at first
  rcases first with ⟨isWorn, overflows⟩ | ⟨same, stores⟩
  · obtain rfl : outcome = _ := overflows
    exact Or.inl ⟨isWorn, rfl⟩
  · obtain rfl : outcome = outcome' := same
    cases outcome with
    | error fault => exact Or.inr ⟨rfl, stores⟩
    | ok a => exact rest a r' t' ran stores

theorem follows_get_bind {next : Roster → Machine Roster α} {next' : Table → Machine Table α}
    (rest : Follows worn (next r) (next' t) r t) : Follows worn (get >>= next) (get >>= next') r t := rest

namespace Stores

theorem follows_pure (stores : r.Stores t) (a : α) : Follows worn (pure a) (pure a) r t :=
  .of_runFrom rfl rfl stores

/-- What is done with the task in a slot, or the fault that there is none. -/
theorem follows_slot_bind (stores : r.Stores t) (i : Nat) {next : TaskRecord → Machine Roster α}
    {next' : Task → Machine Table α}
    (rest : ∀ record, r.record? i = some record → Follows worn (next record) (next' record.task) r t) :
    Follows worn (liftM (r.slot i) >>= next) (liftM (t.slot i) >>= next') r t := by
  unfold Follows
  rw [runFrom_bind, runFrom_bind, runFrom_lift, runFrom_lift, stores.slot]
  cases here : r.slot i with
  | error fault => exact Or.inr ⟨rfl, stores⟩
  | ok record => exact rest record (slot_eq_ok_iff.mp here)

theorem follows_update (stores : r.Stores t) (i : Nat) {change : TaskRecord → TaskRecord} {change' : Task → Task}
    (same : ∀ record, (change record).task = change' record.task) :
    Follows worn (Roster.update i change) (Table.update i change') r t := by
  refine follows_get_bind (stores.follows_slot_bind i fun record here => ?_)
  rw [← same]
  exact .of_runFrom (runFrom_store (lt_of_record? here) _ r) rfl (stores.put here _)

theorem follows_modify {change : Roster → Roster} {change' : Table → Table} (stores : (change r).Stores (change' t)) :
    Follows worn (modify change) (modify change') r t :=
  .of_runFrom rfl rfl stores

/-- What changes no table leaves it stored. -/
theorem follows_lift (stores : r.Stores t) {outcome outcome' : Except Fault α} (same : outcome = outcome') :
    Follows worn (liftM outcome) (liftM outcome') r t :=
  .of_runFrom rfl (by rw [same]; rfl) stores

theorem follows_link (stores : r.Stores t) (i : Nat) : Follows worn (link i) (Table.link i) r t := by
  unfold link Table.link
  refine follows_get_bind ?_
  rw [← stores.tail]
  have last : ∀ {r' : Roster} {t' : Table}, r'.Stores t' →
      Follows worn (modify fun r => { r with tail := some i }) (modify fun t => { t with tail := some i }) r' t' :=
    fun stores => follows_modify ⟨stores.slots, stores.count, stores.nextPid, stores.current, stores.idle, rfl⟩
  cases r.tail with
  | none => exact (stores.follows_update i fun _ => rfl).bind fun _ _ _ _ => last
  | some tail =>
    refine stores.follows_slot_bind tail fun record _ => ?_
    refine (stores.follows_update i fun _ => rfl).bind fun _ r₁ t₁ _ stores₁ => ?_
    exact (stores₁.follows_update tail fun _ => rfl).bind fun _ _ _ _ => last

end Stores

/-- One task more, behind the others. -/
def grow (r : Roster) (record : TaskRecord) : Roster :=
  { r.put r.count record with count := r.count + 1, nextPid := r.nextPid + 1 }

theorem Stores.grow (stores : r.Stores t) (room : r.count < Config.maxTasks) (record : TaskRecord) :
    (r.grow record).Stores { t with tasks := t.tasks.push record.task } := by
  refine ⟨fun i => ?_, ?_, congrArg (· + 1) stores.nextPid, stores.current, stores.idle, stores.tail⟩
  · show ((r.put r.count record).record? i).map _ = _
    rw [record?_put room, Array.getElem?_push, stores.count]
    split
    · rfl
    · exact stores.slots i
  · rw [Roster.grow, stores.count, Array.size_push]

theorem follows_run_get_bind {ε : Type} {next : Roster → ExceptT ε (Machine Roster) α}
    {next' : Table → ExceptT ε (Machine Table) α} (rest : Follows worn (next r).run (next' t).run r t) :
    Follows worn (get >>= next).run (get >>= next').run r t := rest

theorem follows_run_bind {ε : Type} {action : ExceptT ε (Machine Roster) α} {model : ExceptT ε (Machine Table) α}
    {next : α → ExceptT ε (Machine Roster) β} {next' : α → ExceptT ε (Machine Table) β}
    (first : Follows worn action.run model.run r t)
    (rest : ∀ a r' t', attempt model t = (.ok (.ok a), t') → r'.Stores t' →
      Follows worn (next a).run (next' a).run r' t') :
    Follows worn (action >>= next).run (model >>= next').run r t := by
  rw [ExceptT.run_bind, ExceptT.run_bind]
  refine first.bind fun result r' t' ran stores => ?_
  cases result with
  | error cause => exact stores.follows_pure _
  | ok a => exact rest a r' t' ran stores

/-- The stored table may need a step more than the table does. -/
theorem Follows.of_lift_bind {ε : Type} {action : Machine Roster β} {model : Machine Table (Except ε α)}
    {next : β → ExceptT ε (Machine Roster) α} {b : β} (did : action.runFrom r = (.ok b, r'))
    (rest : Follows worn (next b).run model r' t) : Follows worn (liftM action >>= next).run model r t := by
  unfold Follows at rest ⊢
  rw [runFrom_run, attempt_bind, attempt_lift, did]
  exact rest

theorem Follows.run_lift {ε : Type} {action : Machine Roster α} {model : Machine Table α}
    (follows : Follows worn action model r t) :
    Follows worn (liftM action : ExceptT ε (Machine Roster) α).run (liftM model : ExceptT ε (Machine Table) α).run
      r t := by
  unfold Follows at follows ⊢
  simp only [runFrom_run, attempt_lift]
  rcases follows with ⟨isWorn, overflows⟩ | ⟨same, stores⟩
  · exact Or.inl ⟨isWorn, by rw [overflows]; rfl⟩
  · exact Or.inr ⟨by rw [same], stores⟩

namespace Stores

theorem follows_run_slot_bind {ε : Type} (stores : r.Stores t) (i : Nat)
    {next : TaskRecord → ExceptT ε (Machine Roster) α} {next' : Task → ExceptT ε (Machine Table) α}
    (rest : ∀ record, r.record? i = some record → Follows worn (next record).run (next' record.task).run r t) :
    Follows worn (liftM (r.slot i) >>= next).run (liftM (t.slot i) >>= next').run r t := by
  unfold Follows
  rw [runFrom_run, runFrom_run, attempt_bind, attempt_bind, attempt_lift_outcome, attempt_lift_outcome, stores.slot]
  cases here : r.slot i with
  | error fault => exact Or.inr ⟨rfl, stores⟩
  | ok record => exact rest record (slot_eq_ok_iff.mp here)

theorem follows_run_modify {ε : Type} {change : Roster → Roster} {change' : Table → Table}
    (stores : (change r).Stores (change' t)) :
    Follows worn (modify change : ExceptT ε (Machine Roster) Unit).run
      (modify change' : ExceptT ε (Machine Table) Unit).run r t :=
  .of_runFrom rfl rfl stores

theorem runFrom_claim (numbered : r.nextPid = r.count + 1) (room : r.count < Config.maxTasks) :
    claim.runFrom r = (.ok (), { r with count := r.count + 1, nextPid := r.nextPid + 1 }) := by
  have small : r.nextPid + 1 < pidLimit := by
    rw [numbered]
    simp only [Config.maxTasks, pidLimit] at room ⊢
    omega
  have fits : r.count + 1 < wordLimit := by
    simp only [Config.maxTasks, wordLimit] at room ⊢
    omega
  simp only [claim, runFrom_bind, runFrom_get, Word.add_of_lt fits, runFrom_lift, runFrom_modify,
    if_neg (Nat.not_le.mpr small)]

theorem follows_insert (stores : r.Stores t) (stack : Option Nat) (sp : Nat) (flags : TaskFlags) :
    Follows worn (insert stack sp flags).run (Table.insert stack sp flags).run r t := by
  unfold insert Table.insert
  refine follows_run_get_bind ?_
  have full : t.isFull = r.isFull := by rw [Table.isFull, isFull, stores.count]
  rw [full]
  by_cases full : r.isFull = true
  · rw [if_pos full, if_pos full]
    exact .of_runFrom rfl rfl stores
  · rw [if_neg full, if_neg full]
    have room : r.count < Config.maxTasks := by simpa [isFull] using full
    have grown := stores.grow room (.new r.nextPid flags stack sp)
    refine .of_lift_bind (runFrom_store room _ r) ?_
    refine .of_lift_bind (runFrom_claim (r := r.put _ _) stores.nextPid room) ?_
    simp only [← stores.count, ← stores.nextPid]
    show Follows worn (do liftM (link r.count); pure r.count : RosterAction Nat).run
      (do liftM (Table.link r.count); pure r.count : TableAction Nat).run (r.grow _) { t with tasks := t.tasks.push _ }
    exact follows_run_bind (grown.follows_link r.count).run_lift fun _ _ _ _ stores =>
      stores.follows_pure (Except.ok r.count)

theorem follows_adoptBoot (stores : r.Stores t) : Follows worn adoptBoot.run Table.adoptBoot.run r t := by
  unfold adoptBoot Table.adoptBoot
  refine follows_run_get_bind ?_
  have used : (r.isEmpty = false) = (0 < t.tasks.size) := by
    simp [isEmpty, stores.count, Nat.pos_iff_ne_zero]
  simp only [used]
  by_cases used : 0 < t.tasks.size
  · rw [if_pos used, if_pos used]
    exact .of_runFrom rfl rfl stores
  · rw [if_neg used, if_neg used]
    refine follows_run_bind (stores.follows_insert _ _ _) fun i r₁ t₁ _ stores₁ => ?_
    refine follows_run_bind (stores₁.follows_update i fun _ => rfl).run_lift fun _ r₂ t₂ _ stores₂ => ?_
    refine follows_run_get_bind (stores₂.follows_run_slot_bind i fun record _ => ?_)
    refine follows_run_bind (follows_run_modify ?_) fun _ _ _ _ stores => stores.follows_pure (Except.ok record.pid)
    exact ⟨stores₂.slots, stores₂.count, stores₂.nextPid, rfl, stores₂.idle, stores₂.tail⟩

theorem follows_add (stores : r.Stores t) (stack : Option Nat) (sp : Nat) (flags : TaskFlags) :
    Follows worn (add stack sp flags).run (Table.add stack sp flags).run r t := by
  unfold add Table.add
  refine follows_run_get_bind ?_
  rw [stores.current]
  by_cases nobody : t.current.isNone = true
  · rw [if_pos nobody, if_pos nobody]
    exact .of_runFrom rfl rfl stores
  · rw [if_neg nobody, if_neg nobody]
    refine follows_run_bind (stores.follows_insert _ _ _) fun i r₁ t₁ _ stores₁ => ?_
    have last : ∀ {r' : Roster} {t' : Table}, r'.Stores t' →
        Follows worn (do pure (← (← get).slot i).pid : RosterAction Nat).run
          (do pure (← (← get).slot i).pid : TableAction Nat).run r' t' := fun stores =>
      follows_run_get_bind (stores.follows_run_slot_bind i fun record _ => stores.follows_pure (Except.ok record.pid))
    split
    · refine follows_run_bind (follows_run_modify ?_) fun _ _ _ _ => last
      exact ⟨stores₁.slots, stores₁.count, stores₁.nextPid, stores₁.current, rfl, stores₁.tail⟩
    · exact last stores₁

theorem seek (stores : r.Stores t) (c steps i : Nat) (idle : Option Nat) :
    t.seek c steps i idle = r.seek c steps i idle := by
  induction steps generalizing i idle with
  | zero => rfl
  | succ steps ih =>
    unfold Table.seek Roster.seek
    rw [stores.slot]
    cases r.slot i with
    | error fault => rfl
    | ok record =>
      simp only [Except.map, bind, Except.bind, ih, TaskRecord.state_task_eq_ready_iff, TaskRecord.isIdle_task]
      rfl

theorem pick (stores : r.Stores t) : t.pick = r.pick := by
  unfold Table.pick Roster.pick
  rw [stores.current]
  cases t.current with
  | none => rfl
  | some c =>
    simp only [stores.slot, stores.seek, stores.count]
    cases r.slot c with
    | error fault => rfl
    | ok record =>
      simp only [Except.map, bind, Except.bind, TaskRecord.isRunnable_state_task]
      rfl

theorem follows_saveStackPointer (stores : r.Stores t) (i sp : Nat) :
    Follows worn (saveStackPointer i sp) (Table.saveStackPointer i sp) r t :=
  stores.follows_update i fun _ => rfl

theorem follows_blockCurrent (stores : r.Stores t) (wake : Nat) :
    Follows worn (blockCurrent wake) (Table.blockCurrent wake) r t := by
  unfold blockCurrent Table.blockCurrent
  refine follows_get_bind ?_
  rw [stores.current]
  cases t.current with
  | none => exact stores.follows_pure false
  | some c => exact (stores.follows_update c fun _ => rfl).bind fun _ _ _ _ stores => stores.follows_pure true

theorem follows_terminateCurrent (stores : r.Stores t) :
    Follows worn terminateCurrent Table.terminateCurrent r t := by
  unfold terminateCurrent Table.terminateCurrent
  refine follows_get_bind ?_
  rw [stores.current]
  cases t.current with
  | none => exact stores.follows_pure none
  | some c =>
    refine follows_get_bind (stores.follows_slot_bind c fun record here => ?_)
    exact (stores.follows_update c fun _ => rfl).bind fun _ _ _ _ stores => stores.follows_pure _

theorem follows_dispatch (stores : r.Stores t) (i : Nat) :
    Follows t.Worn (dispatch i) (Table.dispatch i) r t := by
  unfold dispatch Table.dispatch
  refine follows_get_bind ?_
  rw [stores.current]
  cases t.current with
  | none => exact stores.follows_pure none
  | some c =>
    by_cases same : i = c
    · simp only [if_pos same]
      exact (stores.follows_update i fun _ => rfl).bind fun _ _ _ _ stores => stores.follows_pure none
    · simp only [if_neg same]
      have demotes : ∀ record : TaskRecord,
          ({ record with status := if record.status = .running then .ready else record.status } : TaskRecord).task =
            { record.task with state := if record.task.state = .running then .ready else record.task.state } := by
        intro record
        simp only [TaskRecord.state_task_eq_running_iff]
        cases record with
        | mk pid status => cases status <;> rfl
      refine (stores.follows_update c demotes).bind fun _ r₁ t₁ demoted stores₁ => ?_
      obtain ⟨outgoing, atC, rfl⟩ := Table.exists_of_runFrom_update demoted
      generalize ({ outgoing with state := _ } : Task) = out at stores₁
      cases found : r₁.slot i with
      | error fault =>
        unfold Follows
        simp only [update, runFrom_bind, runFrom_get, runFrom_lift, stores₁.slot, found, Except.map]
        exact Or.inr ⟨trivial, stores₁⟩
      | ok record =>
        have here := slot_eq_ok_iff.mp found
        have atI : t.tasks[i]? = some record.task := by
          rw [← stores₁.getElem? here, Table.getElem?_put atC, if_neg same]
        have again : (r₁.put i { record with status := .running }).record? i =
            some { record with status := .running } := by rw [record?_put (lt_of_record? here), if_pos rfl]
        unfold Follows
        simp only [runFrom_bind, runFrom_update here, runFrom_get, slot_eq_ok_iff.mpr again, runFrom_lift]
        by_cases fits : record.scheduled + 1 < wordLimit
        · simp only [Word.add_of_lt fits, runFrom_update again, runFrom_modify, runFrom_pure, put_put,
            Table.slot_eq_ok_iff.mpr (stores₁.getElem? here), Table.runFrom_update (stores₁.getElem? here)]
          have stored := stores₁.put here { record with status := .running, scheduled := record.scheduled + 1 }
          exact Or.inr ⟨rfl, stored.slots, stored.count, stored.nextPid, rfl, stored.idle, stored.tail⟩
        · simp only [Word.add_of_not_lt fits]
          exact Or.inl ⟨⟨i, _, atI, Nat.le_of_not_lt fits⟩, trivial⟩

theorem follows_wakeDue (stores : r.Stores t) (now : Nat) : Follows worn (wakeDue now) (Table.wakeDue now) r t := by
  refine Or.inr ⟨?_, ?_⟩
  · show Except.ok (r.tasks.countP (isDue now)) = Except.ok (t.tasks.countP (Table.isDue now))
    rw [← Array.countP_toList, ← stores.map_tasks, List.countP_map]
    refine congrArg Except.ok (List.countP_congr fun record _ => ?_)
    rw [Function.comp, TaskRecord.isDue_task]
  · refine ⟨fun i => ?_, ?_, stores.nextPid, stores.current, stores.idle, stores.tail⟩
    · show Option.map _ (Vector.map _ _)[i]?.join = (Array.map _ t.tasks)[i]?
      rw [Vector.getElem?_map, Array.getElem?_map, ← stores.slots, record?, Option.join_map_eq_map_join, Option.map_map,
        Option.map_map]
      refine congrArg (Option.map · _) (funext fun record => ?_)
      simp only [Function.comp, TaskRecord.isDue_task]
      split <;> rfl
    · exact stores.count.trans (Array.size_map ..).symm

end Stores
end Roster
end KernelCore
