import KernelCore.Proofs.Task.Fairness
import KernelCore.Proofs.Task.Steps

namespace KernelCore.Table
open Machine TaskState
variable {t : Table} {i j c k : Nat} {picked : Option Nat}

/-- The other slots in their cyclic order after `c`: those behind it, and then those before it. -/
def after (t : Table) (c : Nat) : List Nat := List.range' (c + 1) (t.tasks.size - (c + 1)) ++ List.range c

/-- The task in a slot is ready, and it is marked as an idle one or it is not. -/
def IsReady (t : Table) (idle : Bool) (i : Nat) : Prop :=
  ∃ task, t.tasks[i]? = some task ∧ task.state = .ready ∧ task.isIdle = idle

/-- The task in a slot neither sleeps nor has exited. -/
def CanRun (t : Table) (i : Nat) : Prop :=
  ∃ task, t.tasks[i]? = some task ∧ (task.state = .ready ∨ task.state = .running)

/-- Who is to run next when the current slot is `c`. -/
inductive Selects (t : Table) (c : Nat) : Option Nat → Prop
  /-- The first ready task that is no idle one. -/
  | ready {i : Nat} {passed ahead : List Nat} (walk : t.after c = passed ++ i :: ahead) (ready : t.IsReady false i)
      (first : ∀ j ∈ passed, ¬t.IsReady false j) : Selects t c (some i)
  /-- The current task, as no other one but idle ones is ready. -/
  | stays (nobody : ∀ j ∈ t.after c, ¬t.IsReady false j) (able : t.CanRun c) : Selects t c (some c)
  /-- The last ready idle task, as the current one cannot go on either. -/
  | idle {i : Nat} {passed ahead : List Nat} (nobody : ∀ j ∈ t.after c, ¬t.IsReady false j) (stuck : ¬t.CanRun c)
      (walk : t.after c = passed ++ i :: ahead) (ready : t.IsReady true i)
      (last : ∀ j ∈ ahead, ¬t.IsReady true j) : Selects t c (some i)
  | nobody (nobody : ∀ j ∈ t.after c, ∀ idle, ¬t.IsReady idle j) (stuck : ¬t.CanRun c) : Selects t c none

theorem IsReady.lt {idle : Bool} (ready : t.IsReady idle i) : i < t.tasks.size := by
  obtain ⟨task, here, -⟩ := ready
  exact (Array.getElem?_eq_some_iff.mp here).1

theorem IsReady.canRun {idle : Bool} (ready : t.IsReady idle i) : t.CanRun i := by
  obtain ⟨task, here, ready, -⟩ := ready
  exact ⟨task, here, Or.inl ready⟩

/-- The walk round the ring meets the other slots in their cyclic order. -/
theorem circuit_eq_after (inside : c < t.tasks.size) : t.circuit c = t.after c := by
  refine List.ext_getElem ?_ ?_
  · simp only [circuit, circuitFrom, after, List.length_map, List.length_append, List.length_range', List.length_range]
    omega
  · intro k before _
    simp only [circuit, circuitFrom, List.length_map, List.length_range'] at before
    simp only [circuit, circuitFrom, after, List.getElem_map, List.getElem_append, List.getElem_range',
      List.getElem_range, List.length_range']
    rw [along_eq inside (by omega)]
    split <;> split <;> omega

theorem mem_after_iff (inside : c < t.tasks.size) : i ∈ t.after c ↔ i < t.tasks.size ∧ i ≠ c := by
  rw [← circuit_eq_after inside, mem_circuit_iff inside]

theorem offers_eq_true_iff {idle : Bool} : t.offers idle i = true ↔ t.IsReady idle i := by
  simp [offers, IsReady, Option.any_eq_true]

theorem any_isRunnable_iff : (t.stateAt i).any isRunnable = true ↔ t.CanRun i := by
  rw [stateAt, Option.any_map, Option.any_eq_true]
  refine exists_congr fun task => and_congr_right fun _ => ?_
  cases task.state <;> simp [isRunnable]

theorem find?_offers_eq_none_iff :
    (t.after c).find? (t.offers false) = none ↔ ∀ j ∈ t.after c, ¬t.IsReady false j := by
  simp only [List.find?_eq_none, offers_eq_true_iff]

/-- The choice is a selection. -/
theorem selects_choice (inside : c < t.tasks.size) : t.Selects c (t.choice c) := by
  unfold choice
  rw [circuit_eq_after inside]
  cases first : (t.after c).find? (t.offers false) with
  | some i =>
    obtain ⟨offers, passed, ahead, walk, before⟩ := List.find?_eq_some_iff_append.mp first
    refine .ready walk (offers_eq_true_iff.mp offers) fun j member ready => ?_
    simpa [offers_eq_true_iff.mpr ready] using before j member
  | none =>
    have nobody := find?_offers_eq_none_iff.mp first
    dsimp only
    by_cases able : t.CanRun c
    · rw [if_pos (any_isRunnable_iff.mpr able)]
      exact .stays nobody able
    rw [if_neg (mt any_isRunnable_iff.mp able), List.getLast?_filter]
    -- Backwards, the last idle task of the walk is the first one.
    cases last : (t.after c).reverse.find? (t.offers true) with
    | some i =>
      obtain ⟨offers, ahead, passed, back, behind⟩ := List.find?_eq_some_iff_append.mp last
      have walk : t.after c = passed.reverse ++ i :: ahead.reverse := by
        rw [← List.reverse_reverse (t.after c), back]
        simp
      refine .idle nobody able walk (offers_eq_true_iff.mp offers) fun j member ready => ?_
      simpa [offers_eq_true_iff.mpr ready] using behind j (List.mem_reverse.mp member)
    | none =>
      refine .nobody (fun j member idle ready => ?_) able
      cases idle with
      | false => exact nobody j member ready
      | true => exact List.find?_eq_none.mp last j (List.mem_reverse.mpr member) (offers_eq_true_iff.mpr ready)

/-- There is no other selection than the choice. -/
theorem Selects.eq_choice (inside : c < t.tasks.size) (selects : t.Selects c picked) : picked = t.choice c := by
  unfold choice
  rw [circuit_eq_after inside]
  cases selects with
  | ready walk ready first =>
    rw [List.find?_eq_some_iff_append.mpr ⟨offers_eq_true_iff.mpr ready, _, _, walk, fun j member => ?_⟩]
    simpa using mt offers_eq_true_iff.mp (first j member)
  | stays nobody able =>
    rw [find?_offers_eq_none_iff.mpr nobody]
    dsimp only
    rw [if_pos (any_isRunnable_iff.mpr able)]
  | idle nobody stuck walk ready last =>
    rw [find?_offers_eq_none_iff.mpr nobody]
    dsimp only
    have behind : List.filter (t.offers true) _ = [] :=
      List.filter_eq_nil_iff.mpr fun j member => mt offers_eq_true_iff.mp (last j member)
    rw [if_neg (mt any_isRunnable_iff.mp stuck), walk, List.filter_append,
      List.filter_cons_of_pos (offers_eq_true_iff.mpr ready), behind, List.getLast?_append, List.getLast?_singleton,
      Option.some_or]
  | nobody nobody stuck =>
    rw [find?_offers_eq_none_iff.mpr fun j member => nobody j member false]
    dsimp only
    have none : (t.after c).filter (t.offers true) = [] :=
      List.filter_eq_nil_iff.mpr fun j member => mt offers_eq_true_iff.mp (nobody j member true)
    rw [if_neg (mt any_isRunnable_iff.mp stuck), none, List.getLast?_nil]

theorem selects_iff (inside : c < t.tasks.size) : t.Selects c picked ↔ picked = t.choice c := by
  refine ⟨Selects.eq_choice inside, ?_⟩
  rintro rfl
  exact selects_choice inside

theorem Selects.eq_none_iff (inside : c < t.tasks.size) (selects : t.Selects c picked) :
    picked = none ↔ ¬t.CanRun c ∧ ∀ i idle, i ≠ c → ¬t.IsReady idle i := by
  constructor
  · rintro rfl
    cases selects with
    | nobody nobody stuck =>
      refine ⟨stuck, fun i idle other ready => ?_⟩
      exact nobody i ((mem_after_iff inside).mpr ⟨ready.lt, other⟩) idle ready
  · rintro ⟨stuck, nobody⟩
    have among : ∀ {i passed ahead}, t.after c = passed ++ i :: ahead → i ≠ c := by
      intro i passed ahead walk
      exact ((mem_after_iff inside).mp (by simp [walk])).2
    cases selects with
    | ready walk ready _ => exact absurd ready (nobody _ _ (among walk))
    | stays _ able => exact absurd able stuck
    | idle _ _ walk ready _ => exact absurd ready (nobody _ _ (among walk))
    | nobody _ _ => rfl

/-- An idle task takes the place of another one only where all tasks that are ready are idle. -/
theorem Selects.not_isReady {task : Task} (inside : c < t.tasks.size) (selects : t.Selects c (some i)) (other : i ≠ c)
    (here : t.tasks[i]? = some task) (idle : task.isIdle = true) : ¬t.IsReady false j := by
  intro plain
  cases selects with
  | ready _ ready _ =>
    obtain ⟨same, there, -, notIdle⟩ := ready
    obtain rfl := Option.some.inj (here.symm.trans there)
    simp [idle] at notIdle
  | stays _ _ => exact other rfl
  | idle nobody stuck _ _ _ =>
    by_cases same : j = c
    · subst same
      exact stuck plain.canRun
    · exact nobody j ((mem_after_iff inside).mpr ⟨plain.lt, same⟩) plain

/-- The next task is picked by the policy, which leaves no choice. There is none only if no task can run, and an idle
one comes only after all others. -/
theorem Reached.pick_policy (reached : t.Reached) (now : t.current = some c) :
    ∃ picked, t.pick = .ok picked ∧ (∀ other, t.Selects c other ↔ other = picked) ∧
      (picked = none ↔ ¬t.CanRun c ∧ ∀ i idle, i ≠ c → ¬t.IsReady idle i) ∧
      ∀ i task, picked = some i → i ≠ c → t.tasks[i]? = some task → task.isIdle = true →
        ∀ j, ¬t.IsReady false j := by
  have regular := reached.regular
  have inside := regular.manned.current c now
  have selects := selects_choice inside
  refine ⟨t.choice c, pick_of_ringed regular.ringed now inside, fun _ => selects_iff inside, ?_, ?_⟩
  · exact selects.eq_none_iff inside
  · intro i task picked other here idle j
    rw [picked] at selects
    exact selects.not_isReady inside other here idle

/-- The boot task sleeps, and two idle tasks are ready. -/
def onlyIdleReady : Table := ((follow [.adopt, .add none 64 .idle, .add none 96 .idle, .block 5]).runFrom empty).2

/-- Of the two idle tasks the last one is picked, and nothing else is by the policy. -/
theorem pick_policy_of_only_idle : onlyIdleReady.pick = .ok (some 2) ∧ onlyIdleReady.current = some 0 ∧
    (∀ other, onlyIdleReady.Selects 0 other ↔ other = some 2) ∧ ∀ j, ¬onlyIdleReady.IsReady false j := by
  have made : ∃ picks, (follow [.adopt, .add none 64 .idle, .add none 96 .idle, .block 5]).runFrom empty =
      (.ok picks, onlyIdleReady) := exists_of_toBool (by decide +kernel)
  obtain ⟨picks, made⟩ := made
  have reached : onlyIdleReady.Reached := Reached.empty.of_follow made
  have now : onlyIdleReady.current = some 0 := by decide +kernel
  have second : onlyIdleReady.pick = .ok (some 2) := rfl
  have idles : ∃ task, onlyIdleReady.tasks[2]? = some task ∧ task.isIdle = true := by
    refine ⟨⟨3, .ready, .idle, 96, none, 0, 0⟩, ?_⟩
    decide +kernel
  obtain ⟨task, here, idle⟩ := idles
  obtain ⟨picked, pick, policy, -, last⟩ := reached.pick_policy now
  obtain rfl : picked = some 2 := Except.ok.inj (pick.symm.trans second)
  exact ⟨pick, now, policy, last 2 task rfl (by decide) here idle⟩

end KernelCore.Table
