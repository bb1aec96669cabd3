import KernelCore.Proofs.Task.Selection

namespace KernelCore.Table
open Machine TaskState
variable {t u v : Table} {i j c k l : Nat} {picks : List (Option Nat)}

/-- What can be done with a table. -/
inductive Move where
  | adopt
  | add (stack : Option Nat) (sp : Nat) (flags : TaskFlags)
  /-- A decision: some task is picked, and is given the processor. -/
  | appoint
  | block (deadline : Nat)
  | terminate
  | wake (now : Nat)

/-- Picks a task and gives it the processor. -/
def appoint : Machine Table (Option Nat) := do
  match ← (← get).pick with
  | none => pure none
  | some i =>
    let _ ← dispatch i
    pure (some i)

namespace Move

/-- Carries out a move; the result is what was picked, if the move was a decision. -/
def perform : Move → Machine Table (List (Option Nat))
  | adopt => do
    let _ ← adoptBoot.run
    pure []
  | add stack sp flags => do
    let _ ← (Table.add stack sp flags).run
    pure []
  | appoint => do pure [← Table.appoint]
  | block deadline => do
    let _ ← blockCurrent deadline
    pure []
  | terminate => do
    let _ ← terminateCurrent
    pure []
  | wake now => do
    let _ ← wakeDue now
    pure []

def isDecision : Move → Bool
  | appoint => true
  | adopt | add .. | block _ | terminate | wake _ => false

end Move

/-- Carries out moves one after the other, and gives what was picked in each decision. -/
def follow : List Move → Machine Table (List (Option Nat))
  | [] => pure []
  | move :: rest => do
    let picks ← move.perform
    let more ← follow rest
    pure (picks ++ more)

/-- The tables that can come about. -/
inductive Reached : Table → Prop
  | empty : Reached empty
  | move {t u : Table} {move : Move} {picks : List (Option Nat)} (reached : Reached t)
    (ran : move.perform.runFrom t = (.ok picks, u)) : Reached u
  | dispatch {t u : Table} {i : Nat} {handover : Option Handover} (reached : Reached t)
    (ran : (dispatch i).runFrom t = (.ok handover, u)) : Reached u
  | save {t u : Table} {i sp : Nat} (reached : Reached t)
    (ran : (saveStackPointer i sp).runFrom t = (.ok (), u)) : Reached u

theorem Reached.of_follow {moves : List Move} (reached : t.Reached)
    (ran : (follow moves).runFrom t = (.ok picks, u)) : u.Reached := by
  induction moves generalizing t picks with
  | nil =>
    obtain ⟨-, rfl⟩ := Prod.mk.inj ran
    exact reached
  | cons move rest ih =>
    unfold follow at ran
    rw [runFrom_bind] at ran
    rcases first : move.perform.runFrom t with ⟨_ | some, v⟩
    · simp [first] at ran
    · simp only [first, runFrom_bind] at ran
      rcases second : (follow rest).runFrom v with ⟨_ | more, w⟩
      · simp [second] at ran
      · simp only [second] at ran
        obtain ⟨-, rfl⟩ := Prod.mk.inj ran
        exact ih (.move reached first) second

def KeepsFlags (t u : Table) : Prop :=
  ∀ (j : Nat) (task : Task), t.tasks[j]? = some task → ∃ new : Task, u.tasks[j]? = some new ∧ new.flags = task.flags

theorem KeepsFlags.trans (first : t.KeepsFlags u) (second : u.KeepsFlags v) : t.KeepsFlags v := by
  intro j task here
  obtain ⟨mid, there, same⟩ := first j task here
  obtain ⟨new, last, again⟩ := second j mid there
  exact ⟨new, last, again.trans same⟩

theorem Rests.keepsFlags (rests : t.Rests u) : t.KeepsFlags u := by
  intro j task here
  obtain ⟨new, there, same⟩ := Rests.fixture ⟨rests.fixed.symm, rests.tail.symm⟩ here
  exact ⟨new, there, (congrArg (·.2.2) same).symm⟩

theorem Grown.keepsFlags {new : Task} (grown : t.Grown new u) : t.KeepsFlags u := by
  intro j task here
  have inside := (Array.getElem?_eq_some_iff.mp here).1
  refine ⟨relinked t.tasks.size j task, ?_, ?_⟩
  · rw [grown.slots, if_neg (by omega), here, Option.map_some]
  · unfold relinked
    split <;> rfl

/-- The ring is as it should be, and so is the current task. -/
structure Regular (t : Table) : Prop where
  ringed : t.Ringed
  manned : t.Manned

theorem Regular.rests (regular : t.Regular) (rests : t.Rests u) (current : u.current = t.current) : u.Regular :=
  ⟨regular.ringed.rests rests, regular.manned.rests rests current⟩

theorem Regular.dispatched (regular : t.Regular) (rests : t.Rests u) (current : u.current = some i)
    (inside : i < t.tasks.size) : u.Regular := by
  refine ⟨regular.ringed.rests rests, ?_, by simp [current]⟩
  intro c now
  obtain rfl := Option.some.inj (current.symm.trans now)
  rwa [rests.size]

theorem Regular.grown {new : Task} (regular : t.Regular) (grown : t.Grown new u) (ringed : u.Ringed)
    (somebody : t.current ≠ none) : u.Regular := by
  refine ⟨ringed, ?_, fun nobody => absurd (grown.current ▸ nobody) somebody⟩
  intro c now
  have inside := regular.manned.current c (grown.current ▸ now)
  rw [grown.size]
  exact Nat.lt_succ_of_lt inside

/-- What moves come to, whatever they are. -/
structure Moved (t : Table) (decisions : Nat) (picks : List (Option Nat)) (u : Table) : Prop where
  regular : u.Regular
  flags : t.KeepsFlags u
  count : picks.length = decisions

theorem Moved.of_rests (regular : t.Regular) (rests : t.Rests u) (current : u.current = t.current) :
    t.Moved 0 [] u := ⟨regular.rests rests current, rests.keepsFlags, rfl⟩

theorem choice_lt (manned : t.Manned) (now : t.current = some c) (chosen : t.choice c = some i) :
    i < t.tasks.size := by
  have inside := manned.current c now
  have ahead : ∀ j ∈ t.circuit c, j < t.tasks.size := by
    intro j member
    obtain ⟨k, -, rfl⟩ := List.mem_map.mp member
    exact along_lt inside
  unfold choice at chosen
  split at chosen
  · rename_i j found
    obtain rfl := Option.some.inj chosen
    exact ahead _ (List.mem_of_find?_eq_some found)
  · split at chosen
    · obtain rfl := Option.some.inj chosen
      exact inside
    · exact ahead i (List.mem_filter.mp (List.mem_of_getLast? chosen)).1

theorem meets_appoint (regular : t.Regular) : appoint.Meets t (fun pick u => t.Moved 1 [pick] u ∧
    ∀ c, t.current = some c → pick = t.choice c ∧ ∀ i, pick = some i → u.current = some i ∧
      ∀ j, j ≠ i → j ≠ c → u.tasks[j]? = t.tasks[j]?) fun _ => False := by
  unfold appoint
  rw [meets_bind, meets_get, meets_bind]
  cases now : t.current with
  | none =>
    have nobody : t.pick = .ok none := by rw [pick, now]
    rw [nobody, meets_lift_ok]
    exact ⟨⟨regular, (Rests.refl t).keepsFlags, rfl⟩, by simp⟩
  | some c =>
    rw [pick_of_ringed regular.ringed now (regular.manned.current c now), meets_lift_ok]
    cases chosen : t.choice c with
    | none =>
      refine ⟨⟨regular, (Rests.refl t).keepsFlags, rfl⟩, ?_⟩
      intro c' same
      obtain rfl := Option.some.inj same
      exact ⟨chosen.symm, by simp⟩
    | some i =>
      have inside := choice_lt regular.manned now chosen
      refine (meets_dispatch_rests regular.manned now inside).bind ?_
      rintro _ u ⟨rests, current, others⟩
      refine ⟨⟨regular.dispatched rests current inside, rests.keepsFlags, rfl⟩, ?_⟩
      intro c' same
      obtain rfl := Option.some.inj same
      refine ⟨chosen.symm, ?_⟩
      intro i' picked
      obtain rfl := Option.some.inj picked
      exact ⟨current, others⟩

theorem Move.meets_perform (regular : t.Regular) (move : Move) :
    move.perform.Meets t (t.Moved move.isDecision.toNat) fun _ => False := by
  cases move with
  | adopt =>
    refine (meets_adoptBoot_ringed regular.ringed).bind ?_
    intro result u post
    rw [meets_pure]
    cases result with
    | error cause =>
      obtain rfl : u = t := post
      exact .of_rests regular (.refl u) rfl
    | ok pid =>
      obtain ⟨nobody, ringed, manned, -⟩ := post
      refine ⟨⟨ringed, manned⟩, ?_, rfl⟩
      intro j task here
      have inside := (Array.getElem?_eq_some_iff.mp here).1
      omega
  | add stack sp flags =>
    refine (meets_add_grown regular.ringed stack sp flags).bind ?_
    intro result u post
    rw [meets_pure]
    cases result with
    | error cause =>
      obtain rfl : u = t := post
      exact .of_rests regular (.refl u) rfl
    | ok pid =>
      obtain ⟨grown, ringed, somebody, -⟩ := post
      exact ⟨regular.grown grown ringed somebody, grown.keepsFlags, rfl⟩
  | appoint =>
    refine (meets_appoint regular).bind ?_
    intro pick u post
    exact post.1
  | block deadline =>
    refine (meets_blockCurrent_alone regular.manned deadline).bind ?_
    intro _ u alone
    exact Moved.of_rests regular alone.rests alone.current
  | terminate =>
    refine (meets_terminateCurrent_alone regular.manned).bind ?_
    intro _ u alone
    exact Moved.of_rests regular alone.rests alone.current
  | wake now =>
    refine (meets_wakeDue_rests now).bind ?_
    intro _ u post
    exact Moved.of_rests regular post.1 post.2.1

theorem meets_follow (regular : t.Regular) (moves : List Move) :
    (follow moves).Meets t (t.Moved (moves.countP Move.isDecision)) fun _ => False := by
  induction moves generalizing t with
  | nil => exact .of_rests regular (.refl t) rfl
  | cons move rest ih =>
    unfold follow
    refine (move.meets_perform regular).bind ?_
    intro picks u moved
    refine (ih moved.regular).bind ?_
    intro more v later
    refine ⟨later.regular, moved.flags.trans later.flags, ?_⟩
    rw [List.length_append, moved.count, later.count, List.countP_cons, Nat.add_comm]
    cases move.isDecision <;> rfl

/-- A task takes over only if its slot has been handed out. -/
theorem meets_dispatch_regular (regular : t.Regular) (i : Nat) :
    (dispatch i).Meets t (fun _ u => u.Regular) fun _ => True := by
  cases now : t.current with
  | none =>
    unfold dispatch
    rw [meets_bind, meets_get]
    simp only [now]
    exact regular
  | some c =>
    by_cases inside : i < t.tasks.size
    · refine (meets_dispatch_rests regular.manned now inside).mono ?_ fun _ => False.elim
      intro _ u post
      exact regular.dispatched post.1 post.2.1 inside
    · have held := regular.manned.current c now
      unfold dispatch
      rw [meets_bind, meets_get]
      simp only [now]
      rw [if_neg (by omega), meets_bind]
      refine meets_update_rests held (fun _ => rfl) ?_
      intro v rests _ _
      rw [meets_bind, meets_get, meets_bind]
      cases found : v.slot i with
      | error fault => trivial
      | ok task =>
        have handed := (Array.getElem?_eq_some_iff.mp (slot_eq_ok_iff.mp found)).1
        rw [rests.size] at handed
        exact absurd handed inside

theorem meets_saveStackPointer_regular (regular : t.Regular) (i sp : Nat) :
    (saveStackPointer i sp).Meets t (fun _ u => u.Regular) fun _ => True := by
  refine meets_update ?_ trivial
  intro task here
  exact regular.rests (rests_put here rfl) rfl

theorem Reached.regular (reached : t.Reached) : t.Regular := by
  induction reached with
  | empty => exact ⟨ringed_empty, manned_empty⟩
  | move _ ran ih => exact ((Move.meets_perform ih _).result ran).regular
  | dispatch _ ran ih => exact (meets_dispatch_regular ih _).result ran
  | save _ ran ih => exact (meets_saveStackPointer_regular ih _ _).result ran

end KernelCore.Table
