import KernelCore.Proofs.Task.Ring

namespace KernelCore.Table
open TaskState
variable {t : Table} {i j c k steps : Nat} {idle : Option Nat}

/-- The slot that is `k` places behind the one after `c`. -/
def along (t : Table) (c k : Nat) : Nat := (c + 1 + k) % t.tasks.size

/-- The slots behind `c` in the ring from the one at `k` on, without `c` itself. -/
def circuitFrom (t : Table) (c k : Nat) : List Nat := (List.range' k (t.tasks.size - 1 - k)).map (t.along c)

/-- The slots behind `c`, once round the ring. -/
def circuit (t : Table) (c : Nat) : List Nat := t.circuitFrom c 0

/-- Whether the task in a slot is ready, and is an idle one or not. -/
def offers (t : Table) (idle : Bool) (i : Nat) : Bool :=
  t.tasks[i]?.any fun task => decide (task.state = .ready) && task.isIdle == idle

/-- Who runs next if `c` is the current slot. -/
def choice (t : Table) (c : Nat) : Option Nat :=
  match (t.circuit c).find? (t.offers false) with
  | some i => some i
  | none => if (t.stateAt c).any isRunnable then some c else ((t.circuit c).filter (t.offers true)).getLast?

theorem along_eq (inside : c < t.tasks.size) (before : k < t.tasks.size) :
    t.along c k = if c + 1 + k < t.tasks.size then c + 1 + k else c + 1 + k - t.tasks.size := by
  unfold along
  split
  · exact Nat.mod_eq_of_lt (by omega)
  · rw [Nat.mod_eq_sub_mod (by omega), Nat.mod_eq_of_lt (by omega)]

theorem along_lt (inside : c < t.tasks.size) : t.along c k < t.tasks.size := Nat.mod_lt _ (by omega)

theorem along_succ (t : Table) (c k : Nat) : (t.along c k + 1) % t.tasks.size = t.along c (k + 1) :=
  Nat.mod_add_mod ..

theorem circuitFrom_of_lt (before : k < t.tasks.size - 1) :
    t.circuitFrom c k = t.along c k :: t.circuitFrom c (k + 1) := by
  obtain ⟨left, more⟩ : ∃ left, t.tasks.size - 1 - k = left + 1 := ⟨t.tasks.size - 1 - k - 1, by omega⟩
  have rest : t.tasks.size - 1 - (k + 1) = left := by omega
  rw [circuitFrom, circuitFrom, more, rest, List.range'_succ, List.map_cons]

theorem circuitFrom_last (t : Table) (c : Nat) : t.circuitFrom c (t.tasks.size - 1) = [] := by
  rw [circuitFrom, Nat.sub_self]
  rfl

/-- The walk is back at the slot where it began once it has been to all others. -/
theorem along_eq_iff (inside : c < t.tasks.size) (before : k < t.tasks.size) :
    t.along c k = c ↔ k = t.tasks.size - 1 := by
  rw [along_eq inside before]
  split <;> omega

theorem mem_circuit (inside : c < t.tasks.size) (other : i < t.tasks.size) (apart : i ≠ c) :
    ∃ k, k < t.tasks.size - 1 ∧ i = t.along c k := by
  by_cases behind : c < i
  · refine ⟨i - c - 1, by omega, ?_⟩
    rw [along_eq inside (by omega)]
    split <;> omega
  · refine ⟨i + t.tasks.size - c - 1, by omega, ?_⟩
    rw [along_eq inside (by omega)]
    split <;> omega

/-- A walk that starts `k` places behind the first one finds the first ready task that is not idle, or the last idle
one that is ready. -/
def Finds (t : Table) (c k : Nat) (idle : Option Nat) (found : Except Fault (Option Nat × Option Nat)) : Prop :=
  ∃ kept, found = .ok ((t.circuitFrom c k).find? (t.offers false), kept) ∧
    ((t.circuitFrom c k).find? (t.offers false) = none →
      kept = ((t.circuitFrom c k).filter (t.offers true)).getLast?.or idle)

theorem seek_of_ringed (ringed : t.Ringed) (inside : c < t.tasks.size) (before : k < t.tasks.size)
    (enough : t.tasks.size ≤ k + steps) : t.Finds c k idle (t.seek c steps (t.along c k) idle) := by
  induction steps generalizing k idle with
  | zero => omega
  | succ steps ih =>
    unfold seek Finds
    by_cases last : k = t.tasks.size - 1
    · rw [if_pos ((along_eq_iff inside before).mpr last), last, circuitFrom_last]
      exact ⟨idle, rfl, fun _ => rfl⟩
    obtain ⟨task, here⟩ : ∃ task, t.tasks[t.along c k]? = some task := ⟨_, Array.getElem?_eq_getElem (along_lt inside)⟩
    have next : task.next = t.along c (k + 1) := (ringed.next _ task here).trans (along_succ t c k)
    rw [if_neg (mt (along_eq_iff inside before).mp last), circuitFrom_of_lt (by omega), slot_eq_ok_iff.mpr here]
    simp only [bind, Except.bind, next]
    -- The search is at the `k`-th slot behind `c`, and goes on with the rest of the circuit.
    have later : ∀ idle, t.Finds c (k + 1) idle (t.seek c steps (t.along c (k + 1)) idle) :=
      fun idle => ih (by omega) (by omega)
    have offers : ∀ kind, t.offers kind (t.along c k) = (decide (task.state = .ready) && task.isIdle == kind) :=
      fun kind => by rw [Table.offers, here, Option.any_some]
    by_cases ready : task.state = .ready
    · cases idles : task.isIdle with
      | false =>
        have found : t.offers false (t.along c k) = true := by simp [offers, ready, idles]
        rw [List.find?_cons_of_pos found, if_pos ready]
        exact ⟨idle, rfl, by simp⟩
      | true =>
        have passed : ¬t.offers false (t.along c k) = true := by simp [offers, idles]
        have kept : t.offers true (t.along c k) = true := by simp [offers, ready, idles]
        obtain ⟨left, found, rest⟩ := later (some (t.along c k))
        rw [List.find?_cons_of_neg passed, List.filter_cons_of_pos kept, if_pos ready]
        refine ⟨left, found, fun nobody => ?_⟩
        rw [rest nobody, List.getLast?_cons]
        cases ((t.circuitFrom c (k + 1)).filter (t.offers true)).getLast? <;> rfl
    · have passed : ∀ kind, ¬t.offers kind (t.along c k) = true := fun kind => by simp [offers, ready]
      rw [List.find?_cons_of_neg (passed false), List.filter_cons_of_neg (passed true), if_neg ready]
      exact later idle

theorem pick_of_ringed (ringed : t.Ringed) (now : t.current = some c) (inside : c < t.tasks.size) :
    t.pick = .ok (t.choice c) := by
  have here := Array.getElem?_eq_getElem inside
  generalize t.tasks[c] = running at here
  have next : running.next = t.along c 0 := ringed.next c running here
  obtain ⟨kept, found, rest⟩ : t.Finds c 0 none (t.seek c t.tasks.size (t.along c 0) none) :=
    seek_of_ringed ringed inside (by omega) (by omega)
  have state : (t.stateAt c).any isRunnable = running.state.isRunnable := by rw [stateAt, here]; rfl
  unfold pick
  simp only [now, slot_eq_ok_iff.mpr here, bind, Except.bind, next, found]
  unfold choice circuit
  rw [state]
  cases first : (t.circuitFrom c 0).find? (t.offers false) with
  | some i => rfl
  | none =>
    rw [rest first, Option.or_none]
    rfl

/-- Where some task offers itself, a task is picked that the walk meets no later. -/
theorem choice_of_offers (before : k < t.tasks.size - 1)
    (offers : t.offers false (t.along c k) = true) :
    ∃ l, l ≤ k ∧ t.choice c = some (t.along c l) ∧ t.offers false (t.along c l) = true := by
  have walk : t.circuit c = (List.range (t.tasks.size - 1)).map (t.along c) := by
    rw [circuit, circuitFrom, List.range_eq_range', Nat.sub_zero]
  cases found : (List.range (t.tasks.size - 1)).find? (t.offers false ∘ t.along c) with
  | none =>
    exact absurd offers (List.find?_eq_none.mp found k (List.mem_range.mpr before))
  | some l =>
    obtain ⟨holds, -, first⟩ := List.find?_range_eq_some.mp found
    refine ⟨l, ?_, ?_, holds⟩
    · refine Nat.not_lt.mp fun later => ?_
      have passed := first k later
      simp [offers] at passed
    · unfold choice
      rw [walk, List.find?_map, found]
      rfl

end KernelCore.Table
