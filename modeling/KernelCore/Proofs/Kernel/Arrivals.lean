import KernelCore.Proofs.Kernel.Ownership
import KernelCore.Proofs.Kernel.Threads

namespace KernelCore
open Machine Kernel

/-- The task that the processor has gone to goes on with the stack pointer that was saved for it. If it never had the
processor before, it starts with its frame, which lies on its own stack. -/
inductive Kernel.Resumes (marks : Landmarks) (before : Story) (handover : Handover) (k : Kernel) : Prop where
  | again {task : Task} (here : before.version.tasks[handover.incoming]? = some task)
    (ran : before.Entered handover.incoming ∨ task.flags.contains TaskFlags.boot = true)
    (saved : before.lastSaved handover.incoming = some handover.next)
  | first {task : Task} {stack entry arg : Nat} {r : Region} {b : Block}
    (here : before.version.tasks[handover.incoming]? = some task) (never : ¬before.Entered handover.incoming)
    (other : task.flags.contains TaskFlags.boot = false) (unsaved : before.lastSaved handover.incoming = none)
    (prepared : before.Prepared handover.incoming handover.next entry arg) (own : task.stack = some stack)
    (region : k.arena.heap.region = some r) (allocated : b ∈ k.arena.allocated) (start : r.payload b.off = stack)
    (frame : Frame.LiesAt k.arena.memory stack b.header.size handover.next
      ⟨entry, arg, marks.onReturn, marks.trampoline⟩)

/-- The kernel right after a switch: the processor has gone from the current task to another one, nothing but the
outgoing task's stack pointer has changed in the table, and the incoming task goes on where it should. -/
structure Kernel.Arrives (marks : Landmarks) (before : Story) (enabled : Bool) (handover : Handover) (saved : Nat)
    (k : Kernel) : Prop where
  prepares : before.Prepares handover
  saves : ∃ task, before.version.tasks[handover.outgoing]? = some task ∧ k.story = before ++
    [.switch enabled handover saved, .table (before.version.put handover.outgoing { task with sp := saved })]
  next : handover.next ≠ 0
  resumes : k.Resumes marks before handover

/-- Every switch in a story was seen, and nothing else was seen between the switch and that. The sights stand in the order
in which they were seen, the latest first. -/
structure Story.Witnessed (marks : Landmarks) (sightings : List (Kernel × List Holding)) (story : Story) : Prop where
  past : ∀ sight ∈ sightings, sight.1.story <+: story
  arrivals : ∀ (before : Story) enabled handover saved after, story = before ++ .switch enabled handover saved :: after →
    ∃ later sight earlier, sightings = later ++ sight :: earlier ∧
      sight.1.Arrives marks before enabled handover saved ∧ ∀ old ∈ earlier, old.1.story <+: before

namespace Story
variable {marks : Landmarks} {sightings : List (Kernel × List Holding)} {story more : Story}

theorem Witnessed.append (witnessed : story.Witnessed marks sightings) (still : more.Still) :
    Witnessed marks sightings (story ++ more) := by
  refine ⟨fun sight member => (witnessed.past sight member).trans (List.prefix_append ..), ?_⟩
  intro before enabled handover saved after split
  rcases List.append_eq_append_iff.mp split with ⟨middle, -, rest⟩ | ⟨middle, whole, rest⟩
  · rw [rest] at still
    exact absurd trivial (still (.switch enabled handover saved) (by simp))
  · cases middle with
    | nil =>
      rw [List.nil_append] at rest
      rw [← rest] at still
      exact absurd trivial (still (.switch enabled handover saved) (by simp))
    | cons instruction middle =>
      obtain ⟨rfl, -⟩ := List.cons.inj rest
      exact witnessed.arrivals before enabled handover saved middle whole

/-- To look once more takes nothing back. -/
theorem Witnessed.look_again {k : Kernel} (witnessed : k.story.Witnessed marks sightings) (holdings : List Holding) :
    k.story.Witnessed marks ((k, holdings) :: sightings) := by
  refine ⟨List.forall_mem_cons.mpr ⟨List.prefix_refl _, witnessed.past⟩, ?_⟩
  intro before enabled handover saved after split
  obtain ⟨later, sight, earlier, order, arrives⟩ := witnessed.arrivals before enabled handover saved after split
  exact ⟨(k, holdings) :: later, sight, earlier, by rw [order, List.cons_append], arrives⟩

/-- Whoever looks at the kernel right after a switch witnesses it. -/
theorem Witnessed.look {before : Story} {enabled : Bool} {handover : Handover} {saved : Nat} {k : Kernel}
    (witnessed : before.Witnessed marks sightings) (arrives : k.Arrives marks before enabled handover saved)
    (holdings : List Holding) : k.story.Witnessed marks ((k, holdings) :: sightings) := by
  obtain ⟨task, -, story⟩ := arrives.saves
  have grows : before <+: k.story := by
    rw [story]
    exact List.prefix_append ..
  refine ⟨List.forall_mem_cons.mpr ⟨List.prefix_refl _, fun sight member => (witnessed.past sight member).trans grows⟩, ?_⟩
  intro before' enabled' handover' saved' after split
  have last : before' = before → ∃ later sight earlier, (k, holdings) :: sightings = later ++ sight :: earlier ∧
      sight.1.Arrives marks before' enabled' handover' saved' ∧ ∀ old ∈ earlier, old.1.story <+: before' := by
    rintro rfl
    obtain ⟨same, -⟩ := List.cons.inj (List.append_cancel_left (story.symm.trans split))
    obtain ⟨rfl, rfl, rfl⟩ := Instruction.switch.inj same
    exact ⟨[], (k, holdings), sightings, rfl, arrives, witnessed.past⟩
  have parts := story.symm.trans split
  rcases List.append_eq_append_iff.mp parts with ⟨middle, front, rest⟩ | ⟨middle, front, rest⟩
  · cases middle with
    | nil => exact last (by rw [front, List.append_nil])
    | cons instruction middle =>
      obtain ⟨-, tail⟩ := List.cons.inj rest
      cases middle with
      | nil => simp at tail
      | cons => simp at tail
  · cases middle with
    | nil => exact last (by rw [front, List.append_nil])
    | cons instruction middle =>
      obtain ⟨rfl, -⟩ := List.cons.inj rest
      obtain ⟨later, sight, earlier, order, seen⟩ := witnessed.arrivals before' enabled' handover' saved' middle front
      exact ⟨(k, holdings) :: later, sight, earlier, by rw [order, List.cons_append], seen⟩

end Story

namespace Kernel
open Table
variable {marks : Landmarks} {holdings : List Holding} {k : Kernel} {i : Nat} {task : Task} {handover : Handover}
  {t : Table}

/-- A task is chosen to get the processor, and another one still has it. -/
structure Torn (marks : Landmarks) (handover : Handover) (holdings : List Holding) (k : Kernel) : Prop where
  threads : k.Threads marks (some handover.outgoing) holdings
  current : k.table.current = some handover.incoming
  apart : handover.incoming ≠ handover.outgoing
  outgoing : ∃ task, k.table.tasks[handover.outgoing]? = some task
  next : ∃ task, k.table.tasks[handover.incoming]? = some task ∧ handover.next = task.sp

theorem story_switched (k : Kernel) (handover : Handover) (saved : Nat) (t : Table) :
    (k.switched handover saved t).story = k.story ++ [.switch k.cpu.enabled handover saved, .table t] := by
  simp [story, switched, withTable, Processor.switch, Processor.note]

theorem lastSaved_switched (k : Kernel) (handover : Handover) (saved : Nat) (t : Table) (i : Nat) :
    (k.switched handover saved t).story.lastSaved i =
      if handover.outgoing = i then some saved else k.story.lastSaved i := by
  have still : Story.Still [.table t] := Story.still_singleton id
  rw [story_switched, List.append_cons, Story.lastSaved_append still, Story.lastSaved_switch]

theorem entered_switched (k : Kernel) (handover : Handover) (saved : Nat) (t : Table) (i : Nat) :
    (k.switched handover saved t).story.Entered i ↔ k.story.Entered i ∨ handover.incoming = i := by
  have still : Story.Still [.table t] := Story.still_singleton id
  rw [story_switched, List.append_cons, Story.entered_append still, Story.entered_switch]

/-- The switch leaves the outgoing task with its stack pointer saved, and the incoming one with the processor. -/
theorem Torn.switched {saved : Nat} (torn : k.Torn marks handover holdings) (somewhere : saved ≠ 0)
    (out : k.table.tasks[handover.outgoing]? = some task) :
    (k.switched handover saved (k.table.put handover.outgoing { task with sp := saved })).Threads marks
      (some handover.incoming) holdings := by
  obtain ⟨⟨owns, landmarks, ready, unborn⟩, current, apart, -, next, here, -⟩ := torn
  have passes : k.Passes { k with cpu := k.cpu.switch handover saved } :=
    .onProcessor (.switch k.cpu.enabled handover saved) trivial rfl
  have insideOut := (Array.getElem?_eq_some_iff.mp out).1
  have insideIn := (Array.getElem?_eq_some_iff.mp here).1
  refine ⟨(owns.passes passes).withTable (lodges_of_view (view_put out rfl)), landmarks, ?_, ?_⟩
  · intro i task' there
    have before : (if i = handover.outgoing then some { task with sp := saved } else k.table.tasks[i]?) =
        some task' := (getElem?_put out _ i).symm.trans there
    -- A task leaves, comes, or is one that the switch does not concern.
    by_cases isOut : i = handover.outgoing
    · subst isOut
      rw [if_pos rfl] at before
      obtain rfl := Option.some.inj before
      rcases ready _ task out with ⟨elsewhere, -⟩ | ⟨ran, -⟩
      · exact absurd rfl elsewhere
      · refine Or.inr ⟨ran.imp_left fun entered => (entered_switched ..).mpr (Or.inl entered), Or.inr ⟨?_, ?_⟩⟩
        · rw [lastSaved_switched, if_pos rfl]
        · exact somewhere
    rw [if_neg isOut] at before
    by_cases isIn : i = handover.incoming
    · exact Or.inr ⟨Or.inl ((entered_switched ..).mpr (Or.inr isIn.symm)), Or.inl (congrArg some isIn.symm)⟩
    have entered : ∀ t, (k.switched handover saved t).story.Entered i ↔ k.story.Entered i := by
      intro t
      rw [entered_switched]
      exact or_iff_left fun same => isIn same.symm
    have last : ∀ t, (k.switched handover saved t).story.lastSaved i = k.story.lastSaved i := by
      intro t
      rw [lastSaved_switched, if_neg fun same => isOut same.symm]
    rcases ready i task' before with ⟨-, never, unsaved, other, stack, entry, arg, own, prepared, frame⟩ | ⟨ran, kept⟩
    · refine Or.inl ⟨fun same => isIn (Option.some.inj same).symm, mt (entered _).mp never, (last _).trans unsaved,
        other, stack, entry, arg, own, ?_, frame⟩
      rw [story_switched]
      exact prepared.append _
    · have value := kept.resolve_left fun same => isOut (Option.some.inj same).symm
      exact Or.inr ⟨ran.imp_left (entered _).mpr, Or.inr ⟨(last _).trans value.1, value.2⟩⟩
  · intro i behind
    have beyond : k.table.tasks.size ≤ i := (size_put k.table handover.outgoing _) ▸ behind
    obtain ⟨never, unsaved⟩ := unborn i beyond
    rw [entered_switched, lastSaved_switched, if_neg (by omega)]
    exact ⟨not_or.mpr ⟨never, by omega⟩, unsaved⟩

/-- The incoming task goes on where it should. -/
theorem Torn.arrives {saved : Nat} (torn : k.Torn marks handover holdings) (told : k.Told)
    (prepares : k.story.Prepares handover) (out : k.table.tasks[handover.outgoing]? = some task) :
    (k.switched handover saved (k.table.put handover.outgoing { task with sp := saved })).Arrives marks k.story
      k.cpu.enabled handover saved := by
  obtain ⟨⟨owns, landmarks, ready, unborn⟩, current, apart, -, incoming, here, next⟩ := torn
  have version := told.version
  have elsewhere : (some handover.outgoing : Option Nat) ≠ some handover.incoming :=
    fun same => apart (Option.some.inj same).symm
  have arrives : handover.next ≠ 0 ∧ (k.switched handover saved (k.table.put handover.outgoing
      { task with sp := saved })).Resumes marks k.story handover := by
    rcases ready _ incoming here with ⟨-, never, unsaved, other, stack, entry, arg, own, prepared, frame⟩ | ⟨ran, kept⟩
    · have member : incoming ∈ k.table.tasks := Array.mem_of_getElem? here
      obtain ⟨r, region, b, allocated, start, large⟩ := owns.lodged member own
      rw [← next] at prepared frame
      refine ⟨?_, .first (version ▸ here) never other unsaved prepared own region allocated start (frame.mono large)⟩
      have positive := r.start_pos
      have above := frame.inside.1
      unfold Region.payload at start
      omega
    · obtain ⟨last, positive⟩ := kept.resolve_left elsewhere
      rw [← next] at last positive
      exact ⟨positive, .again (version ▸ here) ran last⟩
  refine ⟨prepares, ⟨task, ?_, ?_⟩, arrives.1, arrives.2⟩
  · rw [version]
    exact out
  · rw [version]
    exact story_switched ..

end Kernel
end KernelCore
