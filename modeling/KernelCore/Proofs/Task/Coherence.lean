import KernelCore.Proofs.Task.Promotions
import KernelCore.Proofs.Task.Storage

namespace KernelCore

namespace Table
variable {t t' : Table}

theorem Credits.scheduledAt_le (credits : t.Credits t') (i : Nat) : t'.scheduledAt i ≤ t.scheduledAt i + 1 := by
  have counts := credits i
  have once : (if Promotes i t t' then 1 else 0) ≤ 1 := by split <;> omega
  omega

theorem Worn.of_scheduledAt {n : Nat} (worn : t.Worn) (counts : ∀ i, t.scheduledAt i ≤ n) : wordLimit ≤ n + 1 := by
  obtain ⟨i, task, here, large⟩ := worn
  have bound := counts i
  rw [scheduledAt, here] at bound
  exact Nat.le_trans large (Nat.succ_le_succ bound)

end Table

namespace Roster
open Machine
open Table (Step)
variable {r r' : Roster} {t t' : Table} {i c k n : Nat} {step : Step} {steps : List Step} {worn : Prop}

/-- Carries out an operation on the stored table; the result is the pids that it hands out. -/
def perform : Step → Machine Roster (List Nat)
  | .adopt => do pure (Step.handed (← adoptBoot.run))
  | .add stack sp flags => do pure (Step.handed (← (add stack sp flags).run))
  | .pick => do
    let _ ← liftM (← get).pick
    pure []
  | .dispatch i => do
    let _ ← dispatch i
    pure []
  | .block deadline => do
    let _ ← blockCurrent deadline
    pure []
  | .terminate => do
    let _ ← terminateCurrent
    pure []
  | .wake now => do
    let _ ← wakeDue now
    pure []

/-- Carries out operations one after the other, and gives the pids handed out. -/
def carryOut : List Step → Machine Roster (List Nat)
  | [] => pure []
  | step :: rest => do
    let pids ← perform step
    let more ← carryOut rest
    pure (pids ++ more)

/-- The processor can only be given to a task in a populated slot; all else is always possible. -/
def Allows (r : Roster) : Step → Prop
  | .dispatch i => (r.record? i).isSome
  | .adopt | .add .. | .pick | .block _ | .terminate | .wake _ => True

instance (r : Roster) : (step : Step) → Decidable (r.Allows step)
  | .dispatch i => instDecidableEqBool (r.record? i).isSome true
  | .adopt | .add .. | .pick | .block _ | .terminate | .wake _ => instDecidableTrue

/-- Each operation is possible when its turn comes. -/
def Possible : Roster → List Step → Prop
  | _, [] => True
  | r, step :: rest => r.Allows step ∧ Possible ((perform step).runFrom r).2 rest

instance decidablePossible : (r : Roster) → (steps : List Step) → Decidable (Possible r steps)
  | _, [] => inferInstanceAs (Decidable True)
  | r, step :: rest =>
    have := decidablePossible ((perform step).runFrom r).2 rest
    inferInstanceAs (Decidable (_ ∧ _))

/-- The search of `seek`, with the slots that it looks into on record. -/
def survey (r : Roster) (current : Nat) :
    (steps i : Nat) → (idle : Option Nat) → Except Fault (List Nat × Option Nat × Option Nat)
  | 0, _, idle => .ok ([], none, idle)
  | steps + 1, i, idle =>
    if i = current then .ok ([], none, idle) else do
      let task ← r.slot i
      if task.status = .ready then
        if task.isIdle then do
          let (seen, found) ← r.survey current steps task.next (some i)
          pure (i :: seen, found)
        else pure ([i], some i, idle)
      else do
        let (seen, found) ← r.survey current steps task.next idle
        pure (i :: seen, found)

/-- Without the record it is the search itself. -/
theorem map_survey (r : Roster) (c steps i : Nat) (idle : Option Nat) :
    (r.survey c steps i idle).map Prod.snd = r.seek c steps i idle := by
  induction steps generalizing i idle with
  | zero => rfl
  | succ steps ih =>
    have later : ∀ next idle, (do
        let (seen, found) ← r.survey c steps next idle
        pure (i :: seen, found) : Except Fault (List Nat × Option Nat × Option Nat)).map Prod.snd =
          r.seek c steps next idle := by
      intro next idle
      rw [← ih]
      cases r.survey c steps next idle <;> rfl
    unfold survey seek
    split
    · rfl
    · cases r.slot i with
      | error fault => rfl
      | ok record =>
        simp only [bind, Except.bind]
        split
        · split
          · exact later _ _
          · rfl
        · exact later _ _

/-- What a search has looked at is the first part of the way back to the current slot, or all of it if there was
nothing to stop for. -/
structure Looked (way seen : List Nat) (ready : Option Nat) : Prop where
  ahead : seen <+: way
  whole : ready = none → seen = way

theorem Looked.cons {way seen : List Nat} {ready : Option Nat} (looked : Looked way seen ready) (i : Nat) :
    Looked (i :: way) (i :: seen) ready :=
  ⟨List.cons_prefix_cons.mpr ⟨rfl, looked.ahead⟩, fun nobody => by rw [looked.whole nobody]⟩

theorem Stores.survey (stores : r.Stores t) (ringed : t.Ringed) (inside : c < t.tasks.size) {steps : Nat}
    (idle : Option Nat) (before : k < t.tasks.size) (enough : t.tasks.size ≤ k + steps) :
    ∃ seen ready left, r.survey c steps (t.along c k) idle = .ok (seen, ready, left) ∧
      Looked (t.circuitFrom c k) seen ready := by
  induction steps generalizing k idle with
  | zero => omega
  | succ steps ih =>
    unfold Roster.survey
    by_cases last : k = t.tasks.size - 1
    · rw [if_pos ((Table.along_eq_iff inside before).mpr last), last, Table.circuitFrom_last]
      exact ⟨[], none, idle, rfl, List.prefix_rfl, fun _ => rfl⟩
    obtain ⟨record, here⟩ := stores.exists_record (Table.along_lt inside (k := k))
    have next : record.next = t.along c (k + 1) :=
      (ringed.next _ _ (stores.getElem? here)).trans (Table.along_succ t c k)
    have later : ∀ idle, ∃ seen ready left, (do
        let (seen, found) ← r.survey c steps (t.along c (k + 1)) idle
        pure (t.along c k :: seen, found) : Except Fault _) = .ok (seen, ready, left) ∧
          Looked (t.along c k :: t.circuitFrom c (k + 1)) seen ready := by
      intro idle
      obtain ⟨seen, ready, left, went, looked⟩ := ih idle (by omega : k + 1 < _) (by omega)
      exact ⟨_ :: seen, ready, left, by rw [went]; rfl, looked.cons _⟩
    rw [if_neg (mt (Table.along_eq_iff inside before).mp last), Table.circuitFrom_of_lt (by omega),
      slot_eq_ok_iff.mpr here]
    simp only [bind, Except.bind, next] at later ⊢
    split
    · split
      · exact later _
      · exact ⟨_, _, _, rfl, List.cons_prefix_cons.mpr ⟨rfl, List.nil_prefix⟩, by simp⟩
    · exact later _

/-- The choice of the next task goes by a search that looks into other slots than the current one, into none of them
twice, and into all of them before it falls back to the current task or an idle one. -/
def Surveyed (r : Roster) : Prop :=
  ∀ c, r.current = some c → ∃ running seen ready idle, r.slot c = .ok running ∧
    r.survey c r.count running.next none = .ok (seen, ready, idle) ∧
    r.pick = .ok (ready.or (if running.status.isRunnable then some c else idle)) ∧
    seen.Nodup ∧ (∀ i ∈ seen, i < r.count ∧ i ≠ c) ∧
    (ready = none → ∀ i, i < r.count → i ≠ c → i ∈ seen)

theorem Stores.surveyed (stores : r.Stores t) (regular : t.Regular) : r.Surveyed := by
  intro c now
  have inside := regular.manned.current c (stores.current ▸ now)
  obtain ⟨running, here⟩ := stores.exists_record inside
  have next : running.next = t.along c 0 := regular.ringed.next c _ (stores.getElem? here)
  obtain ⟨seen, ready, idle, went, looked⟩ :=
    stores.survey regular.ringed inside none (by omega : 0 < t.tasks.size) (by omega : _ ≤ 0 + t.tasks.size)
  rw [← next, ← stores.count] at went
  have sought : r.seek c r.count running.next none = .ok (ready, idle) := by
    rw [← map_survey, went]
    rfl
  have way : seen ⊆ t.circuit c := looked.ahead.subset
  refine ⟨running, seen, ready, idle, slot_eq_ok_iff.mpr here, went, ?_, ?_, ?_, ?_⟩
  · unfold Roster.pick
    simp only [now, slot_eq_ok_iff.mpr here, bind, Except.bind, sought]
    cases ready <;> rfl
  · exact (Table.nodup_circuitFrom inside 0).sublist looked.ahead.sublist
  · rw [stores.count]
    exact fun i member => (Table.mem_circuit_iff inside).mp (way member)
  · intro nobody i other apart
    rw [stores.count] at other
    rw [looked.whole nobody]
    exact (Table.mem_circuit_iff inside).mpr ⟨other, apart⟩

/-- The stored table is as it should be: the slots and the counters agree, the ring goes once through the slots, and
no task runs but the current one. -/
structure Coherent (r : Roster) : Prop where
  populated : ∀ i, (∃ record, r.slots[i]? = some (some record)) ↔ i < r.count
  room : r.count ≤ Config.maxTasks
  nextPid : r.nextPid = r.count + 1
  pid : ∀ i record, r.slots[i]? = some (some record) → record.pid = i + 1
  next : ∀ i record, r.slots[i]? = some (some record) → record.next = (i + 1) % r.count
  tail : r.tail = if r.count = 0 then none else some (r.count - 1)
  current : ∀ c, r.current = some c → ∃ record, r.slots[c]? = some (some record)
  running : ∀ i record, r.slots[i]? = some (some record) → record.status = .running → r.current = some i

theorem Stores.coherent (stores : r.Stores t) (regular : t.Regular) (orderly : t.Orderly) : r.Coherent := by
  have found : ∀ {i : Nat} {record : TaskRecord}, r.slots[i]? = some (some record) → t.tasks[i]? = some record.task :=
    fun here => stores.getElem? (record?_eq_some_iff.mpr here)
  have placed : ∀ {i : Nat}, i < t.tasks.size → ∃ record, r.slots[i]? = some (some record) := by
    intro i inside
    obtain ⟨record, here⟩ := stores.exists_record inside
    exact ⟨record, record?_eq_some_iff.mp here⟩
  constructor
  case populated =>
    intro i
    rw [stores.count]
    refine ⟨?_, placed⟩
    rintro ⟨record, here⟩
    exact (Array.getElem?_eq_some_iff.mp (found here)).1
  case room => exact stores.count ▸ stores.size_le
  case nextPid => exact stores.nextPid
  case pid => exact fun i record here => regular.ringed.pid i _ (found here)
  case next => exact fun i record here => stores.count ▸ regular.ringed.next i _ (found here)
  case tail => rw [stores.tail, stores.count, regular.ringed.tail]
  case current => exact fun c now => placed (regular.manned.current c (stores.current ▸ now))
  case running =>
    intro i record here runs
    refine stores.current.trans (orderly.alone i ?_)
    rw [Table.stateAt, found here, Option.map_some, TaskRecord.state_task_eq_running_iff.mpr runs]

theorem Stores.follows_perform (stores : r.Stores t) (step : Step) :
    Follows t.Worn (perform step) step.perform r t := by
  cases step with
  | adopt => exact stores.follows_adoptBoot.bind fun _ _ _ _ stores => stores.follows_pure _
  | add stack sp flags => exact (stores.follows_add stack sp flags).bind fun _ _ _ _ stores => stores.follows_pure _
  | pick =>
    refine follows_get_bind ((stores.follows_lift stores.pick.symm).bind ?_)
    exact fun _ _ _ _ stores => stores.follows_pure _
  | dispatch i => exact (stores.follows_dispatch i).bind fun _ _ _ _ stores => stores.follows_pure _
  | block deadline => exact (stores.follows_blockCurrent deadline).bind fun _ _ _ _ stores => stores.follows_pure _
  | terminate => exact stores.follows_terminateCurrent.bind fun _ _ _ _ stores => stores.follows_pure _
  | wake now => exact (stores.follows_wakeDue now).bind fun _ _ _ _ stores => stores.follows_pure _

theorem Stores.possible (stores : r.Stores t) (allows : r.Allows step) : step.Possible t := by
  cases step with
  | dispatch i =>
    obtain ⟨record, here⟩ := Option.isSome_iff_exists.mp allows
    exact (Array.getElem?_eq_some_iff.mp (stores.getElem? here)).1
  | adopt | add | pick | block | terminate | wake => trivial

/-- An operation on the stored table is one on the table, unless somebody's count has no room for one more. -/
theorem Stores.perform (stores : r.Stores t) (regular : t.Regular) (orderly : t.Orderly) (allows : r.Allows step) :
    (t.Worn ∧ ((perform step).runFrom r).1 = .error .addOverflow) ∨
      ∃ pids r' t', (perform step).runFrom r = (.ok pids, r') ∧ step.perform.runFrom t = (.ok pids, t') ∧
        r'.Stores t' ∧ t.Proceeds pids t' ∧ t.Credits t' := by
  have possible := stores.possible allows
  obtain ⟨pids, t', ran, proceeds⟩ := (Step.meets_perform regular orderly possible).returns fun _ => id
  have credits := (Step.meets_perform_credits regular orderly possible).result ran
  refine (stores.follows_perform step).imp_right fun follows => ?_
  rw [ran] at follows
  exact ⟨pids, _, t', runFrom_eq_of_outcome follows.1, ran, follows.2, proceeds, credits⟩

/-- A run on the stored table is a run on the table. It comes to its end, unless somebody's count gets too large: no
count grows by more than one in a step. -/
theorem Stores.carryOut (stores : r.Stores t) (regular : t.Regular) (orderly : t.Orderly)
    (counts : ∀ i, t.scheduledAt i ≤ n) (possible : r.Possible steps) :
    (wordLimit ≤ n + steps.length ∧ ((carryOut steps).runFrom r).1 = .error .addOverflow) ∨
      ∃ pids r' t', (carryOut steps).runFrom r = (.ok pids, r') ∧ (Table.carryOut steps).runFrom t = (.ok pids, t') ∧
        r'.Stores t' ∧ t.Proceeds pids t' := by
  induction steps generalizing r t n with
  | nil => exact Or.inr ⟨[], r, t, rfl, rfl, stores, .of_rests regular orderly (.refl t)⟩
  | cons step rest ih =>
    obtain ⟨now, later⟩ := possible
    rw [Roster.carryOut, Table.carryOut, runFrom_bind, runFrom_bind, List.length_cons]
    rcases stores.perform regular orderly now with ⟨worn, overflows⟩ | ⟨pids, r₁, t₁, did, ran, stores₁, first, credits⟩
    · have large := worn.of_scheduledAt counts
      rw [runFrom_eq_of_outcome overflows]
      exact Or.inl ⟨by omega, rfl⟩
    · rw [did] at later
      have counts₁ : ∀ i, t₁.scheduledAt i ≤ n + 1 := fun i =>
        Nat.le_trans (credits.scheduledAt_le i) (Nat.succ_le_succ (counts i))
      simp only [did, ran, runFrom_bind]
      rcases ih stores₁ first.regular first.orderly counts₁ later with
        ⟨long, overflows⟩ | ⟨others, r₂, t₂, did, ran, stores₂, second⟩
      · rw [runFrom_eq_of_outcome overflows]
        exact Or.inl ⟨by omega, rfl⟩
      · simp only [did, ran, runFrom_pure]
        refine Or.inr ⟨_, r₂, t₂, rfl, rfl, stores₂, second.regular, second.orderly, ?_⟩
        rw [second.pids, first.pids, List.append_assoc]

/-- Whatever is done with a stored table from the start, no operation comes to an end at a slot without a task: only a
count that gets too large ends one, after as many operations as a word can count. The pids handed out are the numbers
from one on, the table is as it should be, and the next choice looks into every other slot once before it falls back. -/
theorem Possible.carryOut_coherent (possible : new.Possible steps) :
    (wordLimit ≤ steps.length ∧ ((carryOut steps).runFrom new).1 = .error .addOverflow) ∨
      ∃ pids r, (carryOut steps).runFrom new = (.ok pids, r) ∧ pids = List.range' 1 r.count ∧ r.Coherent ∧
        r.Surveyed := by
  have regular : Table.empty.Regular := ⟨Table.ringed_empty, Table.manned_empty⟩
  have orderly : Table.empty.Orderly := ⟨by simp [Table.empty], by simp [Table.empty, Table.stateAt]⟩
  refine (stores_new.carryOut regular orderly (n := 0) (fun _ => Nat.le_refl 0) possible).imp ?_ ?_
  · rw [Nat.zero_add]
    exact id
  · rintro ⟨pids, r, t, did, -, stores, proceeds⟩
    refine ⟨pids, r, did, ?_, stores.coherent proceeds.regular proceeds.orderly, stores.surveyed proceeds.regular⟩
    rw [stores.count, proceeds.pids]
    rfl

/-- Three tasks are made; the processor is given to a sleeping one and to one that has exited, and a second first task
is refused. -/
def createSleepAndExit : List Step :=
  [.adopt, .add none 64 .none, .add (some 8192) 96 .idle, .pick, .dispatch 2, .block 7, .dispatch 0, .dispatch 2,
    .dispatch 1, .wake 9, .terminate, .dispatch 2, .dispatch 1, .dispatch 1, .adopt, .pick]

theorem carryOut_coherent_of_sleep_and_exit : new.Possible createSleepAndExit ∧
    ∃ r, (carryOut createSleepAndExit).runFrom new = (.ok [1, 2, 3], r) ∧ r.count = 3 ∧ r.Coherent ∧ r.Surveyed := by
  have possible : new.Possible createSleepAndExit := by decide +kernel
  have count : ((carryOut createSleepAndExit).runFrom new).2.count = 3 := by decide +kernel
  obtain ⟨pids, r, ran, handed, coherent, surveyed⟩ :=
    possible.carryOut_coherent.resolve_left fun overflows => absurd overflows.1 (by decide)
  rw [ran] at count
  rw [count] at handed
  obtain rfl : pids = [1, 2, 3] := handed
  exact ⟨possible, r, ran, count, coherent, surveyed⟩

end Roster
end KernelCore
