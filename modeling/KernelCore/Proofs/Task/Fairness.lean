import KernelCore.Proofs.Task.Moves

namespace KernelCore.Table
open Machine TaskState
variable {t u v : Table} {i j c k l n : Nat} {picks : List (Option Nat)} {slots : List Nat}

/-- How many slots there are at most from `c` on to `i`, along the ring. -/
def lag (i c : Nat) : Nat := (i + Config.maxTasks - c) % Config.maxTasks

theorem lag_eq (insideI : i < Config.maxTasks) (insideC : c < Config.maxTasks) :
    lag i c = if c ≤ i then i - c else i + Config.maxTasks - c := by
  unfold lag
  split
  · rw [Nat.mod_eq_sub_mod (by omega), Nat.mod_eq_of_lt (by omega)]
    omega
  · exact Nat.mod_eq_of_lt (by omega)

theorem lag_lt (i c : Nat) : lag i c < Config.maxTasks := Nat.mod_lt _ (by decide)

theorem ne_of_lag_pos (behind : 0 < lag i c) : i ≠ c := by
  rintro rfl
  simp [lag] at behind

/-- A slot that the walk meets before another one is nearer to that. -/
theorem lag_along (ringed : t.Ringed) (inside : c < t.tasks.size) (before : k < t.tasks.size - 1) (earlier : l < k) :
    0 < lag (t.along c k) (t.along c l) ∧ lag (t.along c k) (t.along c l) < lag (t.along c k) c := by
  have room := ringed.room
  have atK := along_lt (k := k) inside
  have atL := along_lt (k := l) inside
  rw [lag_eq (by omega) (by omega), lag_eq (by omega) (by omega), along_eq inside (by omega), along_eq inside (by omega)]
  split <;> split <;> split <;> split <;> omega

theorem offers_iff : t.offers false i = true ↔
    ∃ task, t.tasks[i]? = some task ∧ task.state = .ready ∧ task.isIdle = false := by
  simp [offers, Option.any_eq_true]

/-- The task in slot `i` is ready, is not idle, and the processor has been given to another one, that in `c`. -/
structure Waits (t : Table) (i c : Nat) : Prop where
  regular : t.Regular
  now : t.current = some c
  behind : 0 < lag i c
  offers : t.offers false i = true

theorem Waits.other (waits : t.Waits i c) : i ≠ c := ne_of_lag_pos waits.behind

theorem Waits.ready (waits : t.Waits i c) : t.stateAt i = some .ready := by
  obtain ⟨task, here, ready, -⟩ := offers_iff.mp waits.offers
  rw [stateAt, here, Option.map_some, ready]

theorem Waits.keep (waits : t.Waits i c) (regular : u.Regular) (current : u.current = t.current)
    (same : u.tasks[i]? = t.tasks[i]?) : u.Waits i c :=
  ⟨regular, current.trans waits.now, waits.behind, by rw [Table.offers, same]; exact waits.offers⟩

theorem Waits.alone (waits : t.Waits i c) (alone : t.Alone u) : u.Waits i c := by
  refine waits.keep (waits.regular.rests alone.rests alone.current) alone.current (alone.others i ?_)
  intro now
  exact waits.other (Option.some.inj (now.symm.trans waits.now))

theorem Waits.grown {new : Task} (waits : t.Waits i c) (regular : u.Regular) (grown : t.Grown new u) :
    u.Waits i c := by
  obtain ⟨task, here, ready, plain⟩ := offers_iff.mp waits.offers
  have inside := (Array.getElem?_eq_some_iff.mp here).1
  have there : u.tasks[i]? = some (relinked t.tasks.size i task) := by
    rw [grown.slots, if_neg (by omega), here, Option.map_some]
  refine ⟨regular, grown.current.trans waits.now, waits.behind, offers_iff.mpr ⟨_, there, ?_⟩⟩
  unfold relinked
  split <;> exact ⟨ready, plain⟩

theorem Waits.woken {now : Nat} (waits : t.Waits i c) (rests : t.Rests u) (current : u.current = t.current)
    (tasks : u.tasks = t.tasks.map (woken now)) : u.Waits i c := by
  obtain ⟨task, here, ready, plain⟩ := offers_iff.mp waits.offers
  have still : Table.woken now task = task := by simp [Table.woken, isDue, ready]
  refine waits.keep (waits.regular.rests rests current) current ?_
  rw [tasks, Array.getElem?_map, here, Option.map_some, still]

/-- What a move can mean to a task that waits: it waits on, it is picked, or another one is picked that is nearer
to it and is not idle. -/
inductive Comes (i c : Nat) (u : Table) : List (Option Nat) → Prop
  | waits (waits : u.Waits i c) : Comes i c u []
  | picked : Comes i c u [some i]
  | nearer {j : Nat} {task : Task} (waits : u.Waits i j) (nearer : lag i j < lag i c) (there : u.tasks[j]? = some task)
    (plain : task.isIdle = false) : Comes i c u [some j]

theorem Waits.meets_appoint (waits : t.Waits i c) :
    appoint.Meets t (fun pick u => Comes i c u [pick]) fun _ => False := by
  have regular := waits.regular
  have inside := regular.manned.current c waits.now
  obtain ⟨task, here, -⟩ := offers_iff.mp waits.offers
  obtain ⟨k, before, rfl⟩ := mem_circuit inside (Array.getElem?_eq_some_iff.mp here).1 waits.other
  obtain ⟨l, le, chosen, offers⟩ := choice_of_offers before waits.offers
  refine (Table.meets_appoint regular).mono ?_ fun _ => id
  rintro pick u ⟨moved, decided⟩
  obtain ⟨rfl, given⟩ := decided c waits.now
  rw [chosen] at given ⊢
  obtain ⟨current, others⟩ := given _ rfl
  by_cases last : l = k
  · rw [last]
    exact .picked
  obtain ⟨behind, nearer⟩ := lag_along regular.ringed inside before (by omega : l < k)
  obtain ⟨other, atL, -, plain⟩ := offers_iff.mp offers
  obtain ⟨new, there, flags⟩ := moved.flags _ other atL
  refine .nearer ⟨moved.regular, current, behind, ?_⟩ nearer there (by rw [Task.isIdle, flags]; exact plain)
  rw [Table.offers, others _ (ne_of_lag_pos behind) waits.other]
  exact waits.offers

theorem Waits.meets_perform (waits : t.Waits i c) (move : Move) :
    move.perform.Meets t (fun picks u => Comes i c u picks) fun _ => False := by
  have regular := waits.regular
  cases move with
  | adopt =>
    refine (meets_adoptBoot_ringed regular.ringed).bind ?_
    intro result u post
    rw [meets_pure]
    cases result with
    | error cause =>
      obtain rfl : u = t := post
      exact .waits waits
    | ok pid =>
      -- Only an empty table adopts, and this one has a current task.
      have inside := regular.manned.current c waits.now
      omega
  | add stack sp flags =>
    refine (meets_add_grown regular.ringed stack sp flags).bind ?_
    intro result u post
    rw [meets_pure]
    cases result with
    | error cause =>
      obtain rfl : u = t := post
      exact .waits waits
    | ok pid =>
      obtain ⟨grown, ringed, somebody, -⟩ := post
      exact .waits (waits.grown (regular.grown grown ringed somebody) grown)
  | appoint =>
    refine waits.meets_appoint.bind ?_
    intro pick u comes
    exact comes
  | block deadline =>
    refine (meets_blockCurrent_alone regular.manned deadline).bind ?_
    intro _ u alone
    exact Comes.waits (waits.alone alone)
  | terminate =>
    refine (meets_terminateCurrent_alone regular.manned).bind ?_
    intro _ u alone
    exact Comes.waits (waits.alone alone)
  | wake now =>
    refine (meets_wakeDue_rests now).bind ?_
    rintro _ u ⟨rests, current, tasks⟩
    exact Comes.waits (waits.woken rests current tasks)

/-- Slots of other tasks that are not idle, each nearer to `i` than the one before, and all less than `n` behind. -/
inductive Nearing (i : Nat) (u : Table) : Nat → List Nat → Prop
  | nil {n : Nat} (behind : 0 < n) : Nearing i u n []
  | cons {n j : Nat} {task : Task} {slots : List Nat} (nearer : lag i j < n) (there : u.tasks[j]? = some task)
    (plain : task.isIdle = false) (rest : Nearing i u (lag i j) slots) : Nearing i u n (j :: slots)

theorem Nearing.pos (nearing : Nearing i u n slots) : 0 < n := by
  cases nearing with
  | nil behind => exact behind
  | cons nearer => exact Nat.zero_lt_of_lt nearer

theorem Nearing.length_lt (nearing : Nearing i u n slots) : slots.length < n := by
  induction nearing with
  | nil behind => exact behind
  | cons nearer _ _ _ ih => exact Nat.lt_of_le_of_lt ih nearer

theorem Nearing.mem (nearing : Nearing i u n slots) : ∀ j ∈ slots, i ≠ j ∧ lag i j < n ∧
    ∃ task, u.tasks[j]? = some task ∧ task.isIdle = false := by
  induction nearing with
  | nil _ => simp
  | cons nearer there plain rest ih =>
    intro j member
    rcases List.mem_cons.mp member with rfl | later
    · exact ⟨ne_of_lag_pos rest.pos, nearer, _, there, plain⟩
    · obtain ⟨other, less, task⟩ := ih j later
      exact ⟨other, Nat.lt_trans less nearer, task⟩

theorem Nearing.nodup (nearing : Nearing i u n slots) : slots.Nodup := by
  induction nearing with
  | nil _ => exact List.nodup_nil
  | cons _ _ _ rest ih =>
    refine List.nodup_cons.mpr ⟨fun again => ?_, ih⟩
    exact Nat.lt_irrefl _ (rest.mem _ again).2.1

/-- What any moves can mean to a task that waits: some others are picked, nearer and nearer to it, and then it is
picked itself or waits on. -/
def Awaits (i n : Nat) (picks : List (Option Nat)) (u : Table) : Prop :=
  ∃ slots, Nearing i u n slots ∧
    (picks = slots.map some ∧ (∃ c, u.Waits i c) ∨ ∃ later, picks = slots.map some ++ some i :: later)

theorem Awaits.cons {task : Task} (nearer : lag i j < n) (there : u.tasks[j]? = some task) (plain : task.isIdle = false)
    (rest : Awaits i (lag i j) picks u) : Awaits i n (some j :: picks) u := by
  obtain ⟨slots, nearing, ends⟩ := rest
  refine ⟨j :: slots, .cons nearer there plain nearing, ?_⟩
  rcases ends with ⟨rfl, waits⟩ | ⟨later, rfl⟩
  · exact Or.inl ⟨rfl, waits⟩
  · exact Or.inr ⟨later, rfl⟩

theorem Waits.meets_follow (waits : t.Waits i c) (moves : List Move) :
    (follow moves).Meets t (fun picks u => Awaits i (lag i c) picks u) fun _ => False := by
  induction moves generalizing t c with
  | nil => exact ⟨[], .nil waits.behind, Or.inl ⟨rfl, c, waits⟩⟩
  | cons move rest ih =>
    unfold follow
    refine ((move.meets_perform waits.regular).and (waits.meets_perform move)).bind ?_
    rintro picks u ⟨moved, comes⟩
    cases comes with
    | waits waits => exact (ih waits).bind fun _ _ awaits => awaits
    | picked =>
      refine (Table.meets_follow moved.regular rest).bind ?_
      intro later v _
      exact ⟨[], .nil waits.behind, Or.inr ⟨later, rfl⟩⟩
    | nearer waits nearer there plain =>
      refine ((Table.meets_follow moved.regular rest).and (ih waits)).bind ?_
      rintro more v ⟨followed, awaits⟩
      obtain ⟨new, still, flags⟩ := followed.flags _ _ there
      exact awaits.cons nearer still (by rw [Task.isIdle, flags]; exact plain)

/-- The picks before that of `i`, whether it comes or not. -/
theorem Awaits.takeWhile (awaits : Awaits i n picks u) :
    ∃ slots, picks.takeWhile (· ≠ some i) = slots.map some ∧ Nearing i u n slots := by
  obtain ⟨slots, nearing, ends⟩ := awaits
  have others : ∀ pick ∈ slots.map some, decide (pick ≠ some i) = true := by
    intro pick member
    obtain ⟨j, among, rfl⟩ := List.mem_map.mp member
    simpa using (nearing.mem j among).1.symm
  refine ⟨slots, ?_, nearing⟩
  rcases ends with ⟨rfl, -⟩ | ⟨later, rfl⟩
  · have whole := @List.takeWhile_append_of_pos _ _ _ [] others
    rwa [List.takeWhile_nil, List.append_nil] at whole
  · rw [List.takeWhile_append_of_pos others, List.takeWhile_cons_of_neg (by simp), List.append_nil]

theorem Awaits.ready (awaits : Awaits i n picks u) (never : some i ∉ picks) : u.stateAt i = some .ready := by
  obtain ⟨slots, -, ⟨-, c, waits⟩ | ⟨later, rfl⟩⟩ := awaits
  · exact waits.ready
  · simp at never

theorem Awaits.mem_take (awaits : Awaits i n picks u) (enough : n ≤ picks.length) : some i ∈ picks.take n := by
  obtain ⟨slots, nearing, ends⟩ := awaits
  have few := nearing.length_lt
  rcases ends with ⟨rfl, -⟩ | ⟨later, rfl⟩
  · rw [List.length_map] at enough
    omega
  · refine List.mem_take_iff_getElem.mpr ⟨slots.length, ?_, ?_⟩
    · simp
      omega
    · simp

/-- A ready task that is not idle stays ready until it is picked, whatever is done with the table. It is picked
within so many decisions as there are other slots; before that no other task is picked twice, and no idle one. -/
theorem Reached.bounded_wait {task : Task} (reached : t.Reached) (here : t.tasks[i]? = some task)
    (ready : task.state = .ready) (plain : task.isIdle = false) (waiting : t.current ≠ some i) (moves : List Move) :
    ∃ picks u, (follow moves).runFrom t = (.ok picks, u) ∧ picks.length = moves.countP Move.isDecision ∧
      (some i ∉ picks → u.stateAt i = some .ready) ∧
      (Config.maxTasks - 1 ≤ picks.length → some i ∈ picks.take (Config.maxTasks - 1)) ∧
      (picks.takeWhile (· ≠ some i)).Nodup ∧
      ∀ pick ∈ picks.takeWhile (· ≠ some i), ∃ j other, pick = some j ∧ u.tasks[j]? = some other ∧
        other.isIdle = false := by
  have regular := reached.regular
  have inside := (Array.getElem?_eq_some_iff.mp here).1
  obtain ⟨c, now⟩ : ∃ c, t.current = some c := by
    refine Option.ne_none_iff_exists'.mp fun nobody => ?_
    have empty := regular.manned.vacant nobody
    omega
  have room := regular.ringed.room
  -- So far the ring has to go from the current slot to the waiting one, and every decision leaves less of it.
  have behind : 0 < lag i c := by
    have insideC := regular.manned.current c now
    have apart : i ≠ c := fun same => waiting (same ▸ now)
    rw [lag_eq (by omega) (by omega)]
    split <;> omega
  have waits : t.Waits i c := ⟨regular, now, behind, offers_iff.mpr ⟨task, here, ready, plain⟩⟩
  obtain ⟨picks, u, ran, followed, awaits⟩ :=
    ((meets_follow regular moves).and (waits.meets_follow moves)).returns fun _ => id
  obtain ⟨slots, before, nearing⟩ := awaits.takeWhile
  refine ⟨picks, u, ran, followed.count, awaits.ready, ?_, ?_, ?_⟩
  · intro enough
    have near := lag_lt i c
    have early := awaits.mem_take (by omega)
    exact List.take_subset_take_left picks (by omega) early
  · rw [before]
    exact List.Pairwise.map _ (fun _ _ apart same => apart (Option.some.inj same)) nearing.nodup
  · rw [before]
    intro pick member
    obtain ⟨j, among, rfl⟩ := List.mem_map.mp member
    obtain ⟨-, -, other, there, idle⟩ := nearing.mem j among
    exact ⟨j, other, rfl, there, idle⟩

/-- The second of four tasks has been given the processor; the third one is idle, and the fourth one waits. -/
def fourTasks : Table :=
  ((follow [.adopt, .add none 64 .none, .add none 96 .idle, .add none 128 .none, .appoint]).runFrom empty).2

/-- The fourth task waits while one more comes and the second one sleeps. -/
theorem bounded_wait_of_fourth : ∃ task, fourTasks.tasks[3]? = some task ∧ task.state = .ready ∧ task.isIdle = false ∧
    fourTasks.current ≠ some 3 ∧
    ∃ picks u, (follow [.add none 160 .none, .block 5, .wake 9, .appoint, .appoint]).runFrom fourTasks = (.ok picks, u) ∧
      picks.length = 2 ∧ (some 3 ∉ picks → u.stateAt 3 = some .ready) ∧
      (Config.maxTasks - 1 ≤ picks.length → some 3 ∈ picks.take (Config.maxTasks - 1)) ∧
      (picks.takeWhile (· ≠ some 3)).Nodup ∧
      ∀ pick ∈ picks.takeWhile (· ≠ some 3), ∃ j other, pick = some j ∧ u.tasks[j]? = some other ∧
        other.isIdle = false := by
  have made : ∃ picks, (follow [.adopt, .add none 64 .none, .add none 96 .idle, .add none 128 .none,
      .appoint]).runFrom empty = (.ok picks, fourTasks) := exists_of_toBool (by decide +kernel)
  obtain ⟨picks, made⟩ := made
  have reached : fourTasks.Reached := Reached.empty.of_follow made
  have waiting : ∃ task, fourTasks.tasks[3]? = some task ∧ task.state = .ready ∧ task.isIdle = false := by
    refine ⟨⟨4, .ready, .none, 128, none, 0, 0⟩, ?_⟩
    decide +kernel
  obtain ⟨task, here, ready, plain⟩ := waiting
  have elsewhere : fourTasks.current ≠ some 3 := by decide +kernel
  exact ⟨task, here, ready, plain, elsewhere, reached.bounded_wait here ready plain elsewhere _⟩

end KernelCore.Table
