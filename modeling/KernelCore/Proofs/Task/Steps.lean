import KernelCore.Proofs.Task.Moves

namespace KernelCore.Table
open Machine TaskState
variable {t u : Table} {i c k : Nat}

theorem nodup_circuitFrom (inside : c < t.tasks.size) (k : Nat) : (t.circuitFrom c k).Nodup := by
  refine List.pairwise_map.mpr (List.Pairwise.imp_of_mem ?_ (List.pairwise_lt_range' ..))
  intro a b memberA memberB less same
  rw [List.mem_range'_1] at memberA memberB
  rw [along_eq inside (by omega), along_eq inside (by omega)] at same
  split at same <;> split at same <;> omega

/-- The walk round the ring from `c` goes through exactly the other slots. -/
theorem mem_circuit_iff (inside : c < t.tasks.size) : i ∈ t.circuit c ↔ i < t.tasks.size ∧ i ≠ c := by
  constructor
  · intro member
    obtain ⟨k, range, rfl⟩ := List.mem_map.mp member
    rw [List.mem_range'_1] at range
    refine ⟨along_lt inside, ?_⟩
    rw [Ne, along_eq_iff inside (by omega)]
    omega
  · rintro ⟨other, apart⟩
    obtain ⟨k, before, rfl⟩ := mem_circuit inside other apart
    refine List.mem_map_of_mem ?_
    rw [List.mem_range'_1]
    omega

/-- What the current task does to itself makes no other task run. -/
theorem Orderly.of_alone (orderly : t.Orderly) (alone : t.Alone u) : u.Orderly where
  current c now := by
    rw [alone.rests.size]
    exact orderly.current c (alone.current ▸ now)
  alone i runs := by
    rw [alone.current]
    refine Classical.byContradiction fun other => other (orderly.alone i ?_)
    rwa [stateAt, ← alone.others i other]

theorem Regular.meets_adoptBoot (regular : t.Regular) (orderly : t.Orderly) :
    adoptBoot.run.Meets t (fun _ u => u.Orderly) fun _ => False := by
  by_cases used : t.tasks.size = 0
  · have busy : t.Busy := by
      intro c now
      have inside := regular.manned.current c now
      omega
    have runs : adoptBoot.run.Meets t (fun _ u => Becomes True t u ∧ u.Orderly ∧ u.Busy)
        fun u => Becomes True t u ∧ u.Orderly := Table.meets_adoptBoot orderly busy
    exact ((meets_adoptBoot_ringed regular.ringed).both runs).mono (fun _ _ post => post.2.2.1) fun _ => And.left
  · refine (meets_adoptBoot_ringed regular.ringed).mono ?_ fun _ => id
    rintro (_ | pid) u post
    · exact post ▸ orderly
    · exact absurd post.1 used

/-- The processor may be given to any task, even to one that sleeps or has exited. -/
theorem Orderly.meets_dispatch (orderly : t.Orderly) (inside : i < t.tasks.size) :
    (dispatch i).Meets t (fun _ u => u.Orderly) fun _ => False := by
  obtain ⟨incoming, atI⟩ : ∃ task, t.tasks[i]? = some task := ⟨_, Array.getElem?_eq_getElem inside⟩
  unfold dispatch
  rw [meets_bind, meets_get]
  cases now : t.current with
  | none => exact orderly
  | some c =>
    dsimp only
    by_cases same : i = c
    · rw [if_pos same, meets_bind]
      exact meets_update_of atI (orderly_put orderly atI fun _ => same ▸ now)
    · obtain ⟨outgoing, atC⟩ := orderly.exists_task now
      rw [if_neg same, meets_bind]
      refine meets_update_of atC ?_
      generalize demoted : ({ outgoing with state := if outgoing.state = .running then .ready else outgoing.state } :
        Task) = out
      have nobody : ∀ j, (t.put c out).stateAt j ≠ some .running :=
        not_running_of_replaced orderly now atC (by rw [← demoted])
      have still : (t.put c out).tasks[i]? = some incoming := by rw [getElem?_put atC, if_neg same, atI]
      rw [meets_bind, meets_get, meets_bind, slot_eq_ok_iff.mpr still, meets_lift_ok, meets_bind]
      refine meets_update_of still ?_
      rw [meets_bind, meets_modify, meets_pure]
      refine ⟨?_, ?_⟩
      · rintro _ ⟨⟩
        dsimp only
        rwa [size_put, size_put]
      · intro j runs
        by_cases new : j = i
        · rw [new]
        · have before : ((t.put c out).put i _).stateAt j = some .running := runs
          rw [stateAt_put still, if_neg new] at before
          exact absurd before (nobody j)

/-- A single operation on a table. -/
inductive Step where
  | adopt
  | add (stack : Option Nat) (sp : Nat) (flags : TaskFlags)
  | pick
  | dispatch (i : Nat)
  | block (deadline : Nat)
  | terminate
  | wake (now : Nat)
deriving DecidableEq, Repr

namespace Step

/-- The pids that an operation has handed out. -/
def handed : Except TaskError Nat → List Nat
  | .ok pid => [pid]
  | .error _ => []

/-- Carries out an operation; the result is the pids that it hands out. -/
def perform : Step → Machine Table (List Nat)
  | adopt => do pure (handed (← adoptBoot.run))
  | add stack sp flags => do pure (handed (← (Table.add stack sp flags).run))
  | pick => do
    let _ ← liftM (← get).pick
    pure []
  | dispatch i => do
    let _ ← Table.dispatch i
    pure []
  | block deadline => do
    let _ ← blockCurrent deadline
    pure []
  | terminate => do
    let _ ← terminateCurrent
    pure []
  | wake now => do
    let _ ← wakeDue now
    pure []

/-- The processor can only be given to a task in a slot that has been handed out; all else is always possible. -/
def Possible (t : Table) : Step → Prop
  | dispatch i => i < t.tasks.size
  | adopt | add .. | pick | block _ | terminate | wake _ => True

instance (t : Table) (step : Step) : Decidable (step.Possible t) := by
  cases step <;> unfold Possible <;> infer_instance

end Step

/-- Carries out operations one after the other, and gives the pids handed out. -/
def carryOut : List Step → Machine Table (List Nat)
  | [] => pure []
  | step :: rest => do
    let pids ← step.perform
    let more ← carryOut rest
    pure (pids ++ more)

/-- Each operation is possible when its turn comes. -/
def Possible : Table → List Step → Prop
  | _, [] => True
  | t, step :: rest => step.Possible t ∧ Possible (step.perform.runFrom t).2 rest

instance decidablePossible : (t : Table) → (steps : List Step) → Decidable (Possible t steps)
  | _, [] => inferInstanceAs (Decidable True)
  | t, step :: rest =>
    have := decidablePossible (step.perform.runFrom t).2 rest
    inferInstanceAs (Decidable (_ ∧ _))

/-- What operations come to from the table `t`: the pids continue those that have been handed out before. -/
structure Proceeds (t : Table) (pids : List Nat) (u : Table) : Prop where
  regular : u.Regular
  orderly : u.Orderly
  pids : List.range' 1 u.tasks.size = List.range' 1 t.tasks.size ++ pids

theorem Proceeds.of_rests (regular : u.Regular) (orderly : u.Orderly) (rests : t.Rests u) : t.Proceeds [] u :=
  ⟨regular, orderly, by rw [rests.size, List.append_nil]⟩

theorem Proceeds.of_handed (regular : u.Regular) (orderly : u.Orderly) (size : u.tasks.size = t.tasks.size + 1) :
    t.Proceeds [t.tasks.size + 1] u :=
  ⟨regular, orderly, by rw [size, List.range'_1_concat, Nat.add_comm 1]⟩

theorem Step.meets_perform (regular : t.Regular) (orderly : t.Orderly) {step : Step} (possible : step.Possible t) :
    step.perform.Meets t t.Proceeds fun _ => False := by
  cases step with
  | adopt =>
    refine ((meets_adoptBoot_ringed regular.ringed).and (regular.meets_adoptBoot orderly)).bind ?_
    rintro (cause | pid) u ⟨post, orderlyU⟩
    · obtain rfl : u = t := post
      exact .of_rests regular orderly (.refl u)
    · obtain ⟨nobody, ringed, manned, size, rfl⟩ := post
      have proceeds : t.Proceeds [t.tasks.size + 1] u := .of_handed ⟨ringed, manned⟩ orderlyU (by omega)
      rwa [nobody] at proceeds
  | add stack sp flags =>
    refine (((meets_add_grown regular.ringed stack sp flags).both (meets_add stack sp flags)).mono (fun _ _ => id)
      fun _ => And.left).bind ?_
    rintro (cause | pid) u ⟨post, grows⟩
    · obtain rfl : u = t := post
      exact .of_rests regular orderly (.refl u)
    · obtain ⟨grown, ringed, somebody, rfl⟩ := post
      exact .of_handed (regular.grown grown ringed somebody) (grows.orderly orderly) grown.size
  | pick =>
    have stays : t.Proceeds [] t := .of_rests regular orderly (.refl t)
    unfold perform
    rw [meets_bind, meets_get, meets_bind]
    cases now : t.current with
    | none =>
      rw [Table.pick, now]
      exact stays
    | some c =>
      rw [pick_of_ringed regular.ringed now (regular.manned.current c now)]
      exact stays
  | dispatch i =>
    have inside : i < t.tasks.size := possible
    obtain ⟨c, now⟩ : ∃ c, t.current = some c := by
      refine Option.ne_none_iff_exists'.mp fun nobody => ?_
      have vacant := regular.manned.vacant nobody
      omega
    refine ((meets_dispatch_rests regular.manned now inside).and (orderly.meets_dispatch inside)).bind ?_
    rintro _ u ⟨⟨rests, current, -⟩, orderlyU⟩
    exact .of_rests (regular.dispatched rests current inside) orderlyU rests
  | block deadline =>
    refine (meets_blockCurrent_alone regular.manned deadline).bind ?_
    intro _ u alone
    exact .of_rests (regular.rests alone.rests alone.current) (orderly.of_alone alone) alone.rests
  | terminate =>
    refine (meets_terminateCurrent_alone regular.manned).bind ?_
    intro _ u alone
    exact .of_rests (regular.rests alone.rests alone.current) (orderly.of_alone alone) alone.rests
  | wake now =>
    refine ((meets_wakeDue_rests now).and (meets_wakeDue orderly trivial now)).bind ?_
    rintro _ u ⟨⟨rests, current, -⟩, -, orderlyU⟩
    exact .of_rests (regular.rests rests current) orderlyU rests

end KernelCore.Table
