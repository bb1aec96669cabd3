import KernelCore.Proofs.Kernel.Contract
import KernelCore.Proofs.Task.Changes

namespace KernelCore

/-- What can have begun and not have come to its end. -/
inductive Activity where
  /-- A timer interrupt is served. -/
  | serving
  /-- A context is switched away from. -/
  | away
  /-- The processor is parked. -/
  | parked
deriving DecidableEq

/-- What was carried out, the oldest first. -/
abbrev Story := List Instruction

namespace Instruction

/-- What is going on after an instruction, the latest first. -/
def activities (ongoing : List Activity) : Instruction → List Activity
  | tick => .serving :: ongoing
  | switch .. => .away :: ongoing
  | wait => .parked :: ongoing
  | served | resume => ongoing.tail
  | mask | unmask | prepare .. | halt | table _ | sleep _ => ongoing

/-- The task table after an instruction. -/
def version (before : Table) : Instruction → Table
  | table t => t
  | _ => before

/-- An instruction that says nothing about the tasks. -/
def IsPlain : Instruction → Prop
  | table _ | switch .. => False
  | _ => True

end Instruction

namespace Story
variable {story before after earlier : Story} {instruction : Instruction} {t : Table} {i : Nat}

/-- What is going on after a story, the latest first. -/
def ongoing (story : Story) : List Activity := story.foldl Instruction.activities []

/-- The task table after a story. -/
def version (story : Story) : Table := story.foldl Instruction.version Table.empty

/-- After a story that ends with the choice of a task, the processor goes to that task: it was ready just
before, and another one was the current task. -/
def Prepares (story : Story) (handover : Handover) : Prop :=
  ∃ (earlier : Story) (t : Table), story = earlier ++ [.table t] ∧ handover.incoming ≠ handover.outgoing ∧
    earlier.version.current = some handover.outgoing ∧ earlier.version.stateAt handover.incoming = some .ready ∧
    t.current = some handover.incoming ∧ t.stateAt handover.incoming = some .running

/-- What may come after a story. Sleepers become ready only if the latest activity that goes on is to serve a
timer interrupt. -/
def Allows (story : Story) : Instruction → Prop
  | .table t => Table.Becomes (story.ongoing.head? = some .serving) story.version t ∧ t.Orderly
  | .switch _ handover _ => story.Prepares handover ∧ .parked ∉ story.ongoing
  | _ => True

/-- Everything in the story is allowed by what comes before it. -/
def Lawful (story : Story) : Prop :=
  ∀ (before : Story) instruction after, story = before ++ instruction :: after → before.Allows instruction

/-- A law holds of everything in the story, given what comes before it. -/
def Obeys (law : Story → Instruction → Prop) (story : Story) : Prop :=
  ∀ (before : Story) instruction after, story = before ++ instruction :: after → law before instruction

theorem obeys_nil (law : Story → Instruction → Prop) : Obeys law [] := by
  intro before instruction after split
  simp at split

theorem Obeys.concat {law : Story → Instruction → Prop} (obeys : Obeys law story) (next : law story instruction) :
    Obeys law (story ++ [instruction]) := by
  intro before instruction' after split
  rcases List.eq_nil_or_concat after with rfl | ⟨middle, last, rfl⟩
  · obtain ⟨rfl, same⟩ := List.append_inj' split rfl
    obtain rfl := List.singleton_inj.mp same
    exact next
  · rw [List.concat_eq_append, ← List.cons_append, ← List.append_assoc] at split
    exact obeys before instruction' middle (List.append_inj' split rfl).1

@[simp] theorem ongoing_concat (story : Story) (instruction : Instruction) :
    ongoing (story ++ [instruction]) = instruction.activities story.ongoing := by
  simp [ongoing]

@[simp] theorem version_concat (story : Story) (instruction : Instruction) :
    version (story ++ [instruction]) = instruction.version story.version := by
  simp [version]

theorem allows_of_isPlain (plain : instruction.IsPlain) (story : Story) : story.Allows instruction := by
  cases instruction with
  | table t => exact plain.elim
  | switch enabled handover saved => exact plain.elim
  | _ => trivial

theorem version_of_isPlain (plain : instruction.IsPlain) (t : Table) : instruction.version t = t := by
  cases instruction with
  | table t => exact plain.elim
  | _ => rfl

theorem lawful_nil : Lawful [] := obeys_nil Allows

theorem Lawful.concat (lawful : Lawful story) (allowed : story.Allows instruction) :
    Lawful (story ++ [instruction]) := Obeys.concat lawful allowed

/-- A task that has exited never changes its state again. -/
theorem Lawful.stateAt_of_terminated (lawful : Lawful (before ++ after))
    (exited : (version before).stateAt i = some .terminated) :
    (version (before ++ after)).stateAt i = some .terminated := by
  induction after generalizing before with
  | nil => rwa [List.append_nil]
  | cons instruction rest ih =>
    have split : before ++ instruction :: rest = (before ++ [instruction]) ++ rest := by simp
    have allowed := lawful before instruction rest rfl
    rw [split] at lawful ⊢
    refine ih lawful ?_
    rw [version_concat]
    cases instruction with
    | table t => exact allowed.1.stateAt_of_terminated exited
    | _ => exact exited

end Story

namespace Kernel
variable {k k' : Kernel} {ongoing : List Activity} {parked : Bool} {busy busy' : Prop} {instruction : Instruction}
  {t : Table}

/-- The story of a kernel so far. -/
def story (k : Kernel) : Story := k.cpu.trace.toList

/-- The story is lawful, and tells what the task table is. -/
structure Told (k : Kernel) : Prop where
  lawful : k.story.Lawful
  version : k.story.version = k.table
  orderly : k.table.Orderly

/-- What the state of a kernel is between two pieces of work: what goes on, whether the mark for the clock is
set, and whether the current task is known to be running. -/
structure Stands (ongoing : List Activity) (parked : Bool) (busy : Prop) (k : Kernel) : Prop where
  told : k.Told
  going : k.story.ongoing = ongoing
  flag : k.parked = parked
  awake : parked = false → .parked ∉ ongoing
  busy : busy → k.table.Busy

theorem Stands.congr (stands : Stands ongoing parked busy k) (story : k'.story = k.story)
    (table : k'.table = k.table) (flag : k'.parked = k.parked) : Stands ongoing parked busy k' := by
  obtain ⟨⟨lawful, version, orderly⟩, activities, set, awake, runs⟩ := stands
  refine ⟨⟨?_, ?_, ?_⟩, ?_, ?_, awake, ?_⟩
  · rwa [story]
  · rwa [story, table]
  · rwa [table]
  · rwa [story]
  · rwa [flag]
  · rwa [table]

theorem Stands.weaken (stands : Stands ongoing parked busy k) (less : busy' → busy) :
    Stands ongoing parked busy' k :=
  ⟨stands.told, stands.going, stands.flag, stands.awake, fun holds => stands.busy (less holds)⟩

/-- One more instruction that says nothing about the tasks. -/
theorem Stands.plain (stands : Stands ongoing parked busy k) (instruction : Instruction)
    (plain : instruction.IsPlain) (story : k'.story = k.story ++ [instruction]) (table : k'.table = k.table)
    (flag : k'.parked = k.parked)
    (awake : parked = false → .parked ∉ instruction.activities ongoing) :
    Stands (instruction.activities ongoing) parked busy k' := by
  obtain ⟨⟨lawful, version, orderly⟩, activities, set, -, runs⟩ := stands
  refine ⟨⟨?_, ?_, ?_⟩, ?_, ?_, awake, ?_⟩
  · rw [story]
    exact lawful.concat (Story.allows_of_isPlain plain _)
  · rw [story, Story.version_concat, Story.version_of_isPlain plain, version, table]
  · rwa [table]
  · rw [story, Story.ongoing_concat, activities]
  · rwa [flag]
  · rwa [table]

/-- The processor goes from one task to another. -/
theorem Stands.switch {handover : Handover} (stands : Stands ongoing false busy k)
    (prepares : k.story.Prepares handover) (saved : Nat) :
    Stands (.away :: ongoing) false busy { k with cpu := k.cpu.switch handover saved } := by
  obtain ⟨⟨lawful, version, orderly⟩, activities, set, awake, runs⟩ := stands
  have awake : Activity.parked ∉ ongoing := awake rfl
  have story : { k with cpu := k.cpu.switch handover saved }.story =
      k.story ++ [.switch k.cpu.enabled handover saved] := by
    simp [Kernel.story, Processor.switch, Processor.note]
  refine ⟨⟨?_, ?_, orderly⟩, ?_, set, fun _ => by simp [awake], runs⟩
  · rw [story]
    refine lawful.concat ⟨prepares, ?_⟩
    rwa [activities]
  · rw [story, Story.version_concat]
    exact version
  · rw [story, Story.ongoing_concat, activities]
    rfl

theorem story_note (k : Kernel) (instruction : Instruction) :
    k.cpu.trace.toList ++ [instruction] = (k.cpu.note instruction).trace.toList := by
  simp [Processor.note]

theorem story_withTable (k : Kernel) (t : Table) : (k.withTable t).story = k.story ++ [.table t] :=
  (story_note k _).symm

theorem Stands.withTable (stands : Stands ongoing parked busy k)
    (becomes : Table.Becomes (ongoing.head? = some .serving) k.table t) (orderly : t.Orderly)
    (runs : busy' → t.Busy) : Stands ongoing parked busy' (k.withTable t) := by
  obtain ⟨⟨lawful, version, -⟩, activities, set, awake, -⟩ := stands
  have story := story_withTable k t
  refine ⟨⟨?_, ?_, orderly⟩, ?_, set, awake, runs⟩
  · rw [story]
    refine lawful.concat ⟨?_, orderly⟩
    rw [activities, version]
    exact becomes
  · rw [story, Story.version_concat]
    rfl
  · rw [story, Story.ongoing_concat, activities]
    rfl

end Kernel
end KernelCore
