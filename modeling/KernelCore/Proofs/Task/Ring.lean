import KernelCore.Proofs.Task.Aspects

namespace KernelCore

/-- What is fixed for a task once it is linked into the ring. -/
def Task.fixture (task : Task) : Nat × Nat × TaskFlags := (task.pid, task.next, task.flags)

namespace Table
open Machine TaskState
variable {t t' u : Table} {i c n k steps : Nat} {idle : Option Nat} {task new : Task}

/-- The ring goes through the slots in their order, and ends where it begins. Pids are given in the same order. -/
structure Ringed (t : Table) : Prop where
  pid : ∀ (i : Nat) (task : Task), t.tasks[i]? = some task → task.pid = i + 1
  next : ∀ (i : Nat) (task : Task), t.tasks[i]? = some task → task.next = (i + 1) % t.tasks.size
  tail : t.tail = if t.tasks.size = 0 then none else some (t.tasks.size - 1)
  room : t.tasks.size ≤ Config.maxTasks

/-- There is a current task as soon as there are tasks, and it is one of them. -/
structure Manned (t : Table) : Prop where
  current : ∀ c, t.current = some c → c < t.tasks.size
  vacant : t.current = none → t.tasks.size = 0

theorem ringed_empty : empty.Ringed := ⟨by simp [empty], by simp [empty], rfl, by simp [empty]⟩

theorem manned_empty : empty.Manned := ⟨by simp [empty], fun _ => rfl⟩

/-- Every task keeps its slot, its pid, its place in the ring and its flags. -/
structure Rests (t t' : Table) : Prop where
  fixed : t'.view Task.fixture = t.view Task.fixture
  tail : t'.tail = t.tail

theorem Rests.refl (t : Table) : t.Rests t := ⟨rfl, rfl⟩

theorem Rests.trans (first : t.Rests u) (second : u.Rests t') : t.Rests t' :=
  ⟨second.fixed.trans first.fixed, second.tail.trans first.tail⟩

theorem length_view {β : Type} (aspect : Task → β) (t : Table) : (t.view aspect).length = t.tasks.size := by
  rw [view, List.length_map, Array.length_toList]

theorem Rests.size (rests : t.Rests t') : t'.tasks.size = t.tasks.size := by
  rw [← length_view Task.fixture t', rests.fixed, length_view]

theorem Rests.fixture (rests : t.Rests t') (there : t'.tasks[i]? = some new) :
    ∃ task, t.tasks[i]? = some task ∧ new.fixture = task.fixture := by
  have same : (t'.view Task.fixture)[i]? = (t.view Task.fixture)[i]? := congrArg (·[i]?) rests.fixed
  rw [getElem?_view, getElem?_view, there, Option.map_some] at same
  obtain ⟨task, here, shows⟩ := Option.map_eq_some_iff.mp same.symm
  exact ⟨task, here, shows.symm⟩

theorem Ringed.rests (ringed : t.Ringed) (rests : t.Rests t') : t'.Ringed where
  pid i new there := by
    obtain ⟨task, here, same⟩ := rests.fixture there
    exact (congrArg Prod.fst same).trans (ringed.pid i task here)
  next i new there := by
    obtain ⟨task, here, same⟩ := rests.fixture there
    rw [rests.size]
    exact (congrArg (·.2.1) same).trans (ringed.next i task here)
  tail := by rw [rests.tail, rests.size, ringed.tail]
  room := by
    rw [rests.size]
    exact ringed.room

theorem Manned.rests (manned : t.Manned) (rests : t.Rests t') (current : t'.current = t.current) : t'.Manned where
  current c now := by
    rw [rests.size]
    exact manned.current c (current ▸ now)
  vacant none := by
    rw [rests.size]
    exact manned.vacant (current ▸ none)

theorem rests_put (here : t.tasks[i]? = some task) (same : new.fixture = task.fixture) : t.Rests (t.put i new) :=
  ⟨view_put here same, rfl⟩

theorem meets_update_rests {change : Task → Task} {post : Unit → Table → Prop} {stopped : Table → Prop}
    (inside : i < t.tasks.size) (same : ∀ task, (change task).fixture = task.fixture)
    (changed : ∀ u, t.Rests u → u.current = t.current → (∀ j, j ≠ i → u.tasks[j]? = t.tasks[j]?) → post () u) :
    (update i change).Meets t post stopped := by
  have here := Array.getElem?_eq_getElem inside
  refine meets_update_of here (changed _ (rests_put here (same _)) rfl ?_)
  intro j other
  rw [getElem?_put here, if_neg other]

/-- Giving the processor to a task concerns no other tasks than that one and the current one. -/
theorem meets_dispatch_rests (manned : t.Manned) (now : t.current = some c) (inside : i < t.tasks.size) :
    (dispatch i).Meets t (fun _ t' => t.Rests t' ∧ t'.current = some i ∧
      ∀ j, j ≠ i → j ≠ c → t'.tasks[j]? = t.tasks[j]?) fun _ => False := by
  unfold dispatch
  rw [meets_bind, meets_get]
  simp only [now]
  by_cases same : i = c
  · rw [if_pos same, meets_bind]
    refine meets_update_rests inside (fun _ => rfl) ?_
    intro u rests current others
    exact ⟨rests, by rw [current, now, same], fun j other _ => others j other⟩
  · rw [if_neg same, meets_bind]
    refine meets_update_rests (manned.current c now) (fun _ => rfl) ?_
    intro u rests _ others
    have insideU : i < u.tasks.size := by rwa [rests.size]
    rw [meets_bind, meets_get, meets_bind, slot_of_lt insideU, meets_lift_ok, meets_bind]
    refine meets_update_rests insideU (fun _ => rfl) ?_
    intro v restsV _ othersV
    rw [meets_bind, meets_modify, meets_pure]
    refine ⟨⟨(rests.trans restsV).fixed, (rests.trans restsV).tail⟩, rfl, ?_⟩
    intro j other notOld
    exact (othersV j other).trans (others j notOld)

/-- To give the processor to another task is to hand it over. -/
theorem meets_dispatch_other (now : t.current = some c) (other : i ≠ c) (insideC : c < t.tasks.size)
    (insideI : i < t.tasks.size) : (dispatch i).Meets t (fun result u => (∃ sp, result = some ⟨c, i, sp⟩) ∧
      u.current = some i ∧ u.stateAt i = some .running) fun _ => False := by
  have atC := Array.getElem?_eq_getElem insideC
  have atI : ∀ new, (t.put c new).tasks[i]? = some t.tasks[i] := fun new => by
    rw [getElem?_put atC, if_neg other, Array.getElem?_eq_getElem insideI]
  unfold dispatch
  rw [meets_bind, meets_get]
  simp only [now, if_neg other]
  rw [meets_bind]
  refine meets_update_of atC ?_
  rw [meets_bind, meets_get, meets_bind, slot_eq_ok_iff.mpr (atI _), meets_lift_ok, meets_bind]
  refine meets_update_of (atI _) ?_
  rw [meets_bind, meets_modify, meets_pure]
  refine ⟨⟨_, rfl⟩, rfl, ?_⟩
  exact (stateAt_put (atI _) _ i).trans (if_pos rfl)

/-- From `t` to `t'` the current task did something that concerns no other task. -/
structure Alone (t t' : Table) : Prop where
  rests : t.Rests t'
  current : t'.current = t.current
  others : ∀ j, t.current ≠ some j → t'.tasks[j]? = t.tasks[j]?

theorem Alone.refl (t : Table) : t.Alone t := ⟨.refl t, rfl, fun _ _ => rfl⟩

theorem meets_update_alone {change : Task → Task} {post : Unit → Table → Prop} {stopped : Table → Prop}
    (manned : t.Manned) (now : t.current = some c) (same : ∀ task, (change task).fixture = task.fixture)
    (changed : ∀ u, t.Alone u → post () u) : (update c change).Meets t post stopped := by
  refine meets_update_rests (manned.current c now) same ?_
  intro u rests current others
  exact changed u ⟨rests, current, fun j other => others j fun same => other (same ▸ now)⟩

theorem meets_blockCurrent_alone (manned : t.Manned) (wake : Nat) :
    (blockCurrent wake).Meets t (fun _ => t.Alone) fun _ => False := by
  unfold blockCurrent
  rw [meets_bind, meets_get]
  cases now : t.current with
  | none => exact .refl t
  | some c =>
    dsimp only
    rw [meets_bind]
    exact meets_update_alone manned now (fun _ => rfl) fun u alone => alone

theorem meets_terminateCurrent_alone (manned : t.Manned) :
    terminateCurrent.Meets t (fun _ => t.Alone) fun _ => False := by
  unfold terminateCurrent
  rw [meets_bind, meets_get]
  cases now : t.current with
  | none => exact .refl t
  | some c =>
    dsimp only
    rw [meets_bind, meets_get, meets_bind, slot_of_lt (manned.current c now), meets_lift_ok, meets_bind]
    exact meets_update_alone manned now (fun _ => rfl) fun u alone => alone

theorem meets_wakeDue_rests (now : Nat) : (wakeDue now).Meets t
    (fun _ t' => t.Rests t' ∧ t'.current = t.current ∧ t'.tasks = t.tasks.map (woken now)) fun _ => False := by
  unfold wakeDue
  rw [meets_bind, meets_get, meets_bind, meets_set, meets_pure]
  have same : ∀ task, (woken now task).fixture = task.fixture := by
    intro task
    unfold woken
    split <;> rfl
  refine ⟨⟨?_, rfl⟩, rfl, rfl⟩
  unfold view
  rw [Array.toList_map, List.map_map]
  exact List.map_congr_left fun task _ => same task

/-- A task whose successor in the ring may have changed because `size` slots were handed out before. -/
def relinked (size i : Nat) (task : Task) : Task := if i + 1 = size then { task with next := size } else task

/-- One more slot was handed out, to the task `new`, which is now the last one of the ring. -/
structure Grown (t : Table) (new : Task) (t' : Table) : Prop where
  slots : ∀ j, t'.tasks[j]? = if j = t.tasks.size then some new else t.tasks[j]?.map (relinked t.tasks.size j)
  size : t'.tasks.size = t.tasks.size + 1
  tail : t'.tail = some t.tasks.size
  current : t'.current = t.current

theorem Ringed.grown (ringed : t.Ringed) (room : t.tasks.size < Config.maxTasks) (grown : t.Grown new t')
    (pid : new.pid = t.tasks.size + 1) (next : new.next = 0) : t'.Ringed where
  pid j task there := by
    rw [grown.slots] at there
    split at there
    · rename_i last
      rw [← Option.some.inj there, pid, last]
    · obtain ⟨old, here, rfl⟩ := Option.map_eq_some_iff.mp there
      rw [← ringed.pid j old here, relinked]
      split <;> rfl
  next j task there := by
    rw [grown.slots] at there
    rw [grown.size]
    split at there
    · rename_i last
      rw [← Option.some.inj there, next, last, Nat.mod_self]
    · obtain ⟨old, here, rfl⟩ := Option.map_eq_some_iff.mp there
      have inside := (Array.getElem?_eq_some_iff.mp here).1
      rw [relinked, Nat.mod_eq_of_lt (by omega)]
      split
      · rename_i last
        exact last.symm
      · rw [ringed.next j old here, Nat.mod_eq_of_lt (by omega)]
  tail := by rw [grown.tail, grown.size, if_neg (by omega), Nat.add_sub_cancel]
  room := by
    rw [grown.size]
    exact room

/-- The slot that was handed out last is linked between the last one of the ring and the first one. -/
theorem meets_link_grown (ringed : t.Ringed) (pushed : u = { t with tasks := t.tasks.push new })
    (next : new.next = 0) : (link t.tasks.size).Meets u (fun _ => t.Grown new) fun _ => False := by
  have atNew : u.tasks[t.tasks.size]? = some new := by rw [pushed, Array.getElem?_push, if_pos rfl]
  have sizeU : u.tasks.size = t.tasks.size + 1 := by rw [pushed, Array.size_push]
  have atOld : ∀ j, j ≠ t.tasks.size → u.tasks[j]? = t.tasks[j]? := fun j other => by
    rw [pushed, Array.getElem?_push, if_neg other]
  have still : { new with next := 0 } = new := by rw [← next]
  unfold link
  rw [meets_bind, meets_get]
  have tail : u.tail = t.tail := by rw [pushed]
  rw [tail, ringed.tail]
  -- A slot that is alone leads to itself. Any other one comes behind the last one, which led to the first one.
  by_cases first : t.tasks.size = 0
  · rw [if_pos first]
    dsimp only
    rw [meets_bind]
    refine meets_update_of atNew ?_
    rw [meets_modify]
    refine ⟨?_, (size_put ..).trans sizeU, rfl, by rw [pushed]; rfl⟩
    intro j
    rw [getElem?_put atNew, first]
    split
    · exact congrArg some still
    · rename_i other
      rw [atOld j (by omega), Array.getElem?_eq_none (by omega)]
      rfl
  · rw [if_neg first]
    have inside : t.tasks.size - 1 < t.tasks.size := by omega
    have atLast := Array.getElem?_eq_getElem inside
    generalize t.tasks[t.tasks.size - 1] = last at atLast
    have lastU : u.tasks[t.tasks.size - 1]? = some last := by rw [atOld _ (by omega), atLast]
    have back : last.next = 0 := by
      rw [ringed.next _ last atLast, Nat.sub_add_cancel (by omega), Nat.mod_self]
    dsimp only
    rw [meets_bind, slot_eq_ok_iff.mpr lastU, meets_lift_ok, meets_bind]
    refine meets_update_of atNew ?_
    rw [back, still, meets_bind]
    have lastV : (u.put t.tasks.size new).tasks[t.tasks.size - 1]? = some last := by
      rw [getElem?_put atNew, if_neg (by omega), lastU]
    refine meets_update_of lastV ?_
    rw [meets_modify]
    refine ⟨?_, ?_, rfl, by rw [pushed]; rfl⟩
    · intro j
      dsimp only
      rw [getElem?_put lastV, getElem?_put atNew]
      by_cases isLast : j = t.tasks.size - 1
      · rw [if_pos isLast, if_neg (by omega), isLast, atLast, Option.map_some, relinked, if_pos (by omega)]
      · rw [if_neg isLast]
        split
        · rfl
        · rename_i other
          rw [atOld j other]
          cases t.tasks[j]? with
          | none => rfl
          | some task => rw [Option.map_some, relinked, if_neg (by omega)]
    · exact (size_put ..).trans ((size_put ..).trans sizeU)

theorem meets_insert_grown (ringed : t.Ringed) (stack : Option Nat) (sp : Nat) (flags : TaskFlags) :
    (insert stack sp flags).run.Meets t (fun result t' =>
      match result with
      | .ok i => i = t.tasks.size ∧ t.Grown (t.fresh stack sp flags) t' ∧ t'.Ringed
      | .error _ => t' = t) fun _ => False := by
  unfold insert
  rw [meets_run_bind, meets_run_get]
  dsimp only
  by_cases full : t.isFull = true
  · rw [if_pos full]
    exact rfl
  rw [if_neg full, meets_run_bind_of_attempt (attempt_modify ..), meets_run_bind, meets_run_lift]
  have room : t.tasks.size < Config.maxTasks := by simpa [isFull] using full
  generalize pushed : ({ t with tasks := t.tasks.push _ } : Table) = u
  refine (meets_link_grown ringed pushed.symm rfl).mono ?_ fun _ => id
  intro _ t' grown
  exact ⟨rfl, grown, ringed.grown room grown rfl rfl⟩

/-- A new task does not concern those that there are, but that the last one of the ring is followed by it. -/
theorem meets_add_grown (ringed : t.Ringed) (stack : Option Nat) (sp : Nat) (flags : TaskFlags) :
    (add stack sp flags).run.Meets t (fun result t' =>
      match result with
      | .ok pid => t.Grown (t.fresh stack sp flags) t' ∧ t'.Ringed ∧ t.current ≠ none ∧ pid = t.tasks.size + 1
      | .error _ => t' = t) fun _ => False := by
  unfold add
  rw [meets_run_bind, meets_run_get]
  dsimp only
  by_cases uninitialized : t.current.isNone = true
  · rw [if_pos uninitialized]
    exact rfl
  rw [if_neg uninitialized]
  have somebody : t.current ≠ none := by simpa using uninitialized
  refine (meets_insert_grown ringed stack sp flags).run_bind ?_ fun _ _ refused => refused
  rintro i u ⟨rfl, grown, ringedU⟩
  have finish : ∀ v : Table, v.tasks = u.tasks → v.tail = u.tail → v.current = u.current →
      (do let v ← get; let task ← liftM (v.slot t.tasks.size); pure task.pid : TableAction Nat).run.Meets v
        (fun result t' =>
          match result with
          | .ok pid => t.Grown (t.fresh stack sp flags) t' ∧ t'.Ringed ∧ t.current ≠ none ∧ pid = t.tasks.size + 1
          | .error _ => t' = t) fun _ => False := by
    intro v tasks tail current
    have rests : u.Rests v := ⟨by rw [view, view, tasks], tail⟩
    have grownV : t.Grown (t.fresh stack sp flags) v :=
      ⟨by rw [tasks]; exact grown.slots, by rw [tasks]; exact grown.size, tail.trans grown.tail,
        current.trans grown.current⟩
    have inside : t.tasks.size < v.tasks.size := by
      rw [grownV.size]
      exact Nat.lt_succ_self _
    rw [meets_run_bind, meets_run_get]
    dsimp only
    rw [meets_run_bind, meets_run_lift_outcome, slot_of_lt inside]
    have ringedV := ringedU.rests rests
    exact ⟨grownV, ringedV, somebody, ringedV.pid _ _ (Array.getElem?_eq_getElem inside)⟩
  split
  · rw [meets_run_bind_of_attempt (attempt_modify ..)]
    exact finish _ rfl rfl rfl
  · exact finish u rfl rfl rfl

theorem meets_adoptBoot_ringed (ringed : t.Ringed) : adoptBoot.run.Meets t (fun result t' =>
      match result with
      | .ok pid => t.tasks.size = 0 ∧ t'.Ringed ∧ t'.Manned ∧ t'.tasks.size = 1 ∧ pid = 1
      | .error _ => t' = t) fun _ => False := by
  unfold adoptBoot
  rw [meets_run_bind, meets_run_get]
  dsimp only
  by_cases used : 0 < t.tasks.size
  · rw [if_pos used]
    exact rfl
  rw [if_neg used]
  refine (meets_insert_grown ringed none 0 .boot).run_bind ?_ fun _ _ refused => refused
  rintro i u ⟨rfl, grown, ringedU⟩
  have inside : t.tasks.size < u.tasks.size := by
    rw [grown.size]
    exact Nat.lt_succ_self _
  rw [meets_run_bind, meets_run_lift]
  refine meets_update_rests inside (fun _ => rfl) ?_
  intro v rests _ _
  have insideV : t.tasks.size < v.tasks.size := by rwa [rests.size]
  rw [meets_run_bind, meets_run_get]
  dsimp only
  rw [meets_run_bind, meets_run_lift_outcome, slot_of_lt insideV]
  dsimp only
  rw [meets_run_bind_of_attempt (attempt_modify ..), meets_run_pure]
  have same : v.Rests { v with current := some t.tasks.size } := ⟨rfl, rfl⟩
  have ringedV := ringedU.rests rests
  have size : v.tasks.size = t.tasks.size + 1 := rests.size.trans grown.size
  have pid := ringedV.pid _ _ (Array.getElem?_eq_getElem insideV)
  refine ⟨by omega, ringedV.rests same, ⟨?_, by simp⟩, by dsimp only; omega, by omega⟩
  intro c now
  obtain rfl := Option.some.inj now
  exact insideV

end Table
end KernelCore
