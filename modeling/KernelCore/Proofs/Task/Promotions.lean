import KernelCore.Proofs.Task.Newcomers

namespace KernelCore.Table
open Machine TaskState
variable {t t' u : Table} {tables : List Table} {i j c now : Nat} {task new out : Task}

/-- How often the task in a slot has been counted; a slot that has not been handed out has no count. -/
def scheduledAt (t : Table) (i : Nat) : Nat := (t.tasks[i]?.map Task.scheduled).getD 0

/-- From one table to the next the task in a slot becomes the running one. -/
def Promotes (i : Nat) (t t' : Table) : Prop := t.stateAt i ≠ some .running ∧ t'.stateAt i = some .running

/-- It does so although no other task had the processor. -/
def Resumes (i : Nat) (t t' : Table) : Prop := Promotes i t t' ∧ t.current = some i

instance (i : Nat) (t t' : Table) : Decidable (Promotes i t t') := inferInstanceAs (Decidable (_ ∧ _))

instance (i : Nat) (t t' : Table) : Decidable (Resumes i t t') := inferInstanceAs (Decidable (_ ∧ _))

/-- How many changes there are of a kind, from a table on through others. -/
def changes (kind : Table → Table → Prop) [∀ t t', Decidable (kind t t')] : Table → List Table → Nat
  | _, [] => 0
  | t, next :: rest => (if kind t next then 1 else 0) + changes kind next rest

/-- How often the task in a slot was promoted, from the table without tasks on. -/
def promotions (i : Nat) (tables : List Table) : Nat := changes (Promotes i) empty tables

/-- How often it was resumed. -/
def resumptions (i : Nat) (tables : List Table) : Nat := changes (Resumes i) empty tables

theorem changes_concat (kind : Table → Table → Prop) [∀ t t', Decidable (kind t t')] (t : Table) (tables : List Table)
    (u : Table) : changes kind t (tables ++ [u]) =
      changes kind t tables + if kind (tables.getLastD t) u then 1 else 0 := by
  induction tables generalizing t with
  | nil => simp [changes]
  | cons next rest ih =>
    rw [List.cons_append, changes, ih, changes, List.getLastD_cons, Nat.add_assoc]

/-- From one table to the next the counts keep up with the promotions. -/
def Credits (t t' : Table) : Prop := ∀ i, t'.scheduledAt i + (if Resumes i t t' then 1 else 0) =
  t.scheduledAt i + if Promotes i t t' then 1 else 0

/-- After these tables the counts tell how often each task was promoted and not resumed. -/
structure Credited (tables : List Table) (t : Table) : Prop where
  latest : tables.getLastD empty = t
  counts : ∀ i, promotions i tables = t.scheduledAt i + resumptions i tables

theorem credited_nil : Credited [] empty := ⟨rfl, fun _ => rfl⟩

theorem Credited.concat (credited : Credited tables t) (credits : t.Credits u) : Credited (tables ++ [u]) u := by
  obtain ⟨latest, counts⟩ := credited
  refine ⟨by simp, fun i => ?_⟩
  have before := counts i
  have now := credits i
  unfold promotions resumptions at *
  rw [changes_concat, changes_concat, latest]
  omega

/-- No count changes, and no task becomes the running one. -/
structure Unpromoted (t t' : Table) : Prop where
  scheduled : ∀ i, t'.scheduledAt i = t.scheduledAt i
  running : ∀ i, t'.stateAt i = some .running → t.stateAt i = some .running

theorem Unpromoted.refl (t : Table) : t.Unpromoted t := ⟨fun _ => rfl, fun _ => id⟩

theorem Unpromoted.credits (unpromoted : t.Unpromoted t') : t.Credits t' := by
  intro i
  have nobody : ¬Promotes i t t' := fun promotes => promotes.1 (unpromoted.running i promotes.2)
  rw [if_neg nobody, if_neg fun resumes => nobody resumes.1, unpromoted.scheduled]

theorem scheduledAt_put (here : t.tasks[i]? = some task) (new : Task) (j : Nat) :
    (t.put i new).scheduledAt j = if j = i then new.scheduled else t.scheduledAt j := by
  unfold scheduledAt
  rw [getElem?_put here]
  split <;> rfl

theorem unpromoted_put (here : t.tasks[i]? = some task) (scheduled : new.scheduled = task.scheduled)
    (state : new.state = .running → task.state = .running) : t.Unpromoted (t.put i new) where
  scheduled j := by
    rw [scheduledAt_put here]
    split
    · rename_i same
      rw [scheduled, same, scheduledAt, here]
      rfl
    · rfl
  running j runs := by
    rw [stateAt_put here] at runs
    split at runs
    · rename_i same
      rw [same, stateAt, here, Option.map_some, state (Option.some.inj runs)]
    · exact runs

theorem unpromoted_woken (t : Table) (now : Nat) :
    t.Unpromoted { t with tasks := t.tasks.map (woken now) } where
  scheduled i := by
    have same : ∀ task, (woken now task).scheduled = task.scheduled := by
      intro task
      unfold woken
      split <;> rfl
    simp only [scheduledAt, Array.getElem?_map, Option.map_map]
    exact congrArg (fun f => (Option.map f t.tasks[i]?).getD 0) (funext same)
  running i runs := by
    obtain ⟨task', there, state⟩ := exists_of_stateAt runs
    obtain ⟨task, here, rfl⟩ := Option.map_eq_some_iff.mp ((Array.getElem?_map ..).symm.trans there)
    rw [stateAt, here, Option.map_some, running_of_woken state]

theorem unpromoted_grown (grown : t.Grown new u) (ready : new.state = .ready) (uncounted : new.scheduled = 0) :
    t.Unpromoted u where
  scheduled i := by
    have same : ∀ task, (relinked t.tasks.size i task).scheduled = task.scheduled := by
      intro task
      unfold relinked
      split <;> rfl
    rw [scheduledAt, scheduledAt, grown.slots]
    split
    · rename_i last
      rw [last, Array.getElem?_eq_none (Nat.le_refl _), Option.map_some, uncounted]
      rfl
    · rw [Option.map_map]
      exact congrArg (fun f => (Option.map f t.tasks[i]?).getD 0) (funext same)
  running i runs := by
    have same : ∀ task, (relinked t.tasks.size i task).state = task.state := by
      intro task
      unfold relinked
      split <;> rfl
    rw [stateAt, grown.slots] at runs
    split at runs
    · rw [Option.map_some, ready] at runs
      simp at runs
    · rwa [Option.map_map, show Task.state ∘ relinked t.tasks.size i = Task.state from funext same] at runs

theorem meets_update_unpromoted {change : Task → Task} (scheduled : ∀ task, (change task).scheduled = task.scheduled)
    (state : ∀ task, (change task).state = .running → task.state = .running) :
    (update i change).Meets t (fun _ => t.Unpromoted) t.Unpromoted :=
  meets_update (fun task here => unpromoted_put here (scheduled task) (state task)) (.refl t)

theorem meets_saveStackPointer_unpromoted (i sp : Nat) :
    (saveStackPointer i sp).Meets t (fun _ => t.Unpromoted) t.Unpromoted :=
  meets_update_unpromoted (fun _ => rfl) fun _ => id

theorem meets_blockCurrent_unpromoted (wake : Nat) :
    (blockCurrent wake).Meets t (fun _ => t.Unpromoted) t.Unpromoted := by
  unfold blockCurrent
  rw [meets_bind, meets_get]
  cases t.current with
  | none => exact .refl t
  | some c =>
    have blocks : (update c fun task => { task with state := .blocked wake }).Meets t (fun _ => t.Unpromoted)
        t.Unpromoted := meets_update_unpromoted (fun _ => rfl) fun _ blocked => by simp at blocked
    exact blocks.bind fun _ _ unpromoted => unpromoted

theorem meets_terminateCurrent_unpromoted :
    terminateCurrent.Meets t (fun _ => t.Unpromoted) t.Unpromoted := by
  unfold terminateCurrent
  rw [meets_bind, meets_get]
  cases t.current with
  | none => exact .refl t
  | some c =>
    dsimp only
    rw [meets_bind, meets_get, meets_bind]
    cases t.slot c with
    | error fault => exact .refl t
    | ok task =>
      rw [meets_lift_ok]
      have ends : (update c fun task => { task with state := .terminated, stack := none }).Meets t
          (fun _ => t.Unpromoted) t.Unpromoted :=
        meets_update_unpromoted (fun _ => rfl) fun _ ended => by simp at ended
      exact ends.bind fun _ _ unpromoted => unpromoted

theorem meets_wakeDue_unpromoted (now : Nat) : (wakeDue now).Meets t (fun _ => t.Unpromoted) t.Unpromoted :=
  unpromoted_woken t now

theorem meets_add_unpromoted (regular : t.Regular) (stack : Option Nat) (sp : Nat) (flags : TaskFlags) :
    (add stack sp flags).run.Meets t (fun _ => t.Unpromoted) fun _ => False := by
  refine (meets_add_grown regular.ringed stack sp flags).mono ?_ fun _ => id
  rintro (cause | pid) u post
  · exact post ▸ .refl t
  · exact unpromoted_grown post.1 rfl rfl

/-- The first task is counted when it is made, and that is no resumption. -/
theorem credits_of_vacant {boot : Task} (vacant : t.tasks.size = 0) (nobody : t.current = none)
    (first : u.tasks[0]? = some boot) (runs : boot.state = .running) (once : boot.scheduled = 1)
    (others : ∀ j task, j ≠ 0 → u.tasks[j]? = some task → task.state = .ready ∧ task.scheduled = 0) : t.Credits u := by
  intro j
  have before : t.tasks[j]? = none := Array.getElem?_eq_none (by omega)
  have alone : ¬Resumes j t u := fun resumes => by simp [Resumes, nobody] at resumes
  rw [if_neg alone, scheduledAt, scheduledAt, before]
  by_cases boots : j = 0
  · subst boots
    have promotes : Promotes 0 t u := ⟨by simp [stateAt, before], by rw [stateAt, first, Option.map_some, runs]⟩
    rw [if_pos promotes, first, Option.map_some, once]
    rfl
  · have waits : ¬Promotes j t u := by
      rintro ⟨-, running⟩
      obtain ⟨task, there, state⟩ := exists_of_stateAt running
      rw [(others j task boots there).1] at state
      simp at state
    rw [if_neg waits]
    cases there : u.tasks[j]? with
    | none => rfl
    | some task =>
      rw [Option.map_some, (others j task boots there).2]
      rfl

theorem Regular.current_of_vacant (regular : t.Regular) (vacant : t.tasks.size = 0) : t.current = none := by
  rw [regular.eq_of_vacant vacant]

theorem Regular.meets_adoptBoot_credits (regular : t.Regular) :
    adoptBoot.run.Meets t (fun _ => t.Credits) fun _ => False := by
  by_cases vacant : t.tasks.size = 0
  · refine .of_runFrom (regular.runFrom_adoptBoot vacant) ?_
    refine credits_of_vacant vacant (regular.current_of_vacant vacant) rfl rfl rfl ?_
    intro j task other there
    have inside : j < 1 := (Array.getElem?_eq_some_iff.mp there).1
    omega
  · refine (meets_adoptBoot_ringed regular.ringed).mono ?_ fun _ => id
    rintro (cause | pid) u post
    · exact post ▸ (Unpromoted.refl t).credits
    · exact absurd post.1 vacant

/-- The boot task is counted when it is made together with the idle task. -/
theorem Regular.meets_adopt_credits (regular : t.Regular) (stack sp : Nat) :
    (Kernel.adopt stack sp).run.Meets t (fun _ => t.Credits) fun _ => False := by
  by_cases vacant : t.tasks.size = 0
  · refine .of_runFrom (regular.runFrom_adopt vacant stack sp) ?_
    refine credits_of_vacant vacant (regular.current_of_vacant vacant) rfl rfl rfl ?_
    intro j task other there
    obtain rfl : j = 1 := by
      have inside : j < 2 := (Array.getElem?_eq_some_iff.mp there).1
      omega
    obtain rfl : idleTask stack sp = task := Option.some.inj there
    exact ⟨rfl, rfl⟩
  · refine (meets_adoptBoot_ringed regular.ringed).run_bind ?_ ?_
    · exact fun _ _ post => absurd post.1 vacant
    · exact fun _ _ same => same ▸ (Unpromoted.refl t).credits

/-- The current task is promoted if it did not run, and then it is resumed. -/
theorem credits_of_kept (now : t.current = some i) (here : t.tasks[i]? = some task) :
    t.Credits (t.put i { task with state := .running }) := by
  intro j
  have same : (t.put i { task with state := .running }).scheduledAt j = t.scheduledAt j := by
    rw [scheduledAt_put here]
    split
    · rename_i self
      rw [self, scheduledAt, here]
      rfl
    · rfl
  rw [same]
  by_cases promotes : Promotes j t (t.put i { task with state := .running })
  · have self : i = j := by
      refine Classical.byContradiction fun other => promotes.1 ?_
      rw [← promotes.2, stateAt_put here, if_neg (Ne.symm other)]
    rw [if_pos promotes, if_pos ⟨promotes, self ▸ now⟩]
  · rw [if_neg promotes, if_neg fun resumes => promotes resumes.1]

/-- The task that takes the place of the current one is counted. -/
theorem credits_of_replaced {outgoing incoming : Task} (orderly : t.Orderly) (now : t.current = some c) (other : i ≠ c)
    (atC : t.tasks[c]? = some outgoing) (atI : t.tasks[i]? = some incoming)
    (stateOut : out.state = if outgoing.state = .running then .ready else outgoing.state)
    (countOut : out.scheduled = outgoing.scheduled) (stateNew : new.state = .running)
    (countNew : new.scheduled = incoming.scheduled + 1) :
    t.Credits { (t.put c out).put i new with current := some i } := by
  have still : (t.put c out).tasks[i]? = some incoming := by rw [getElem?_put atC, if_neg other, atI]
  intro j
  have states : ({ (t.put c out).put i new with current := some i } : Table).stateAt j =
      if j = i then some new.state else (t.put c out).stateAt j := stateAt_put still new j
  have counts : ({ (t.put c out).put i new with current := some i } : Table).scheduledAt j =
      if j = i then new.scheduled else t.scheduledAt j := by
    refine (scheduledAt_put still new j).trans ?_
    rw [scheduledAt_put atC]
    split
    · rfl
    · split
      · rename_i self
        rw [self, countOut, scheduledAt, atC]
        rfl
      · rfl
  rw [counts]
  by_cases self : j = i
  · have promotes : Promotes j t { (t.put c out).put i new with current := some i } := by
      refine ⟨fun runs => other ?_, by rw [states, if_pos self, stateNew]⟩
      rw [← self, Option.some.inj ((orderly.alone j runs).symm.trans now)]
    have taken : ¬Resumes j t { (t.put c out).put i new with current := some i } := by
      rintro ⟨-, had⟩
      rw [now, self] at had
      exact other (Option.some.inj had).symm
    rw [if_pos self, if_neg taken, if_pos promotes, self, countNew, scheduledAt, atI]
    rfl
  · have stays : ¬Promotes j t { (t.put c out).put i new with current := some i } := by
      rintro ⟨-, runs⟩
      rw [states, if_neg self] at runs
      exact not_running_of_replaced orderly now atC stateOut j runs
    rw [if_neg self, if_neg fun resumes => stays resumes.1, if_neg stays]

/-- The task that is given the processor is counted, unless it is the current one. -/
theorem Orderly.meets_dispatch_credits (orderly : t.Orderly) (inside : i < t.tasks.size) :
    (dispatch i).Meets t (fun _ => t.Credits) fun _ => False := by
  obtain ⟨incoming, atI⟩ : ∃ task, t.tasks[i]? = some task := ⟨_, Array.getElem?_eq_getElem inside⟩
  unfold dispatch
  rw [meets_bind, meets_get]
  cases now : t.current with
  | none => exact (Unpromoted.refl t).credits
  | some c =>
    dsimp only
    by_cases same : i = c
    · rw [if_pos same, meets_bind]
      exact meets_update_of atI (credits_of_kept (same ▸ now) atI)
    · obtain ⟨outgoing, atC⟩ := orderly.exists_task now
      rw [if_neg same, meets_bind]
      refine meets_update_of atC ?_
      have still := getElem?_put atC { outgoing with
        state := if outgoing.state = .running then .ready else outgoing.state } i
      rw [if_neg same, atI] at still
      rw [meets_bind, meets_get, meets_bind, slot_eq_ok_iff.mpr still, meets_lift_ok, meets_bind]
      refine meets_update_of still ?_
      rw [meets_bind, meets_modify, meets_pure]
      exact credits_of_replaced orderly now same atC atI (by rfl) (by rfl) (by rfl) (by rfl)

theorem Step.meets_perform_credits (regular : t.Regular) (orderly : t.Orderly) {step : Step}
    (possible : step.Possible t) : step.perform.Meets t (fun _ => t.Credits) fun _ => True := by
  cases step with
  | adopt => exact regular.meets_adoptBoot_credits.excused.bind fun _ _ credits => credits
  | add stack sp flags =>
    exact (meets_add_unpromoted regular stack sp flags).excused.bind fun _ _ unpromoted => unpromoted.credits
  | pick =>
    unfold perform
    rw [meets_bind, meets_get, meets_bind]
    cases t.pick with
    | error fault => trivial
    | ok choice => exact (Unpromoted.refl t).credits
  | dispatch i => exact (orderly.meets_dispatch_credits possible).excused.bind fun _ _ credits => credits
  | block deadline =>
    refine ((meets_blockCurrent_unpromoted deadline).mono (fun _ _ => id) fun _ _ => trivial).bind ?_
    exact fun _ _ unpromoted => unpromoted.credits
  | terminate =>
    refine (meets_terminateCurrent_unpromoted.mono (fun _ _ => id) fun _ _ => trivial).bind ?_
    exact fun _ _ unpromoted => unpromoted.credits
  | wake now =>
    refine ((meets_wakeDue_unpromoted now).mono (fun _ _ => id) fun _ _ => trivial).bind ?_
    exact fun _ _ unpromoted => unpromoted.credits

/-- The tables that come about one after the other. -/
def trail : Table → List Step → List Table
  | _, [] => []
  | t, step :: rest => (step.perform.runFrom t).2 :: trail (step.perform.runFrom t).2 rest

theorem Credited.trail {steps : List Step} (credited : Credited tables t) (regular : t.Regular) (orderly : t.Orderly)
    (possible : Possible t steps) : Credited (tables ++ trail t steps) ((carryOut steps).runFrom t).2 := by
  induction steps generalizing t tables with
  | nil =>
    rw [Table.trail, List.append_nil]
    exact credited
  | cons step rest ih =>
    obtain ⟨now, later⟩ := possible
    obtain ⟨pids, u, ran, proceeds⟩ := (Step.meets_perform regular orderly now).returns fun _ => id
    have credits := (Step.meets_perform_credits regular orderly now).result ran
    rw [ran] at later
    have after := ih (credited.concat credits) proceeds.regular proceeds.orderly later
    rw [List.append_assoc] at after
    rw [Table.trail, ran]
    refine (congrArg (Credited _) ?_).mp after
    rw [carryOut, runFrom_bind, ran]
    dsimp only
    rw [runFrom_bind]
    rcases (carryOut rest).runFrom u with ⟨_ | _, _⟩ <;> rfl

end KernelCore.Table
