import KernelCore.Proofs.Kernel.Deeds
import KernelCore.Proofs.Kernel.Upkeep
import KernelCore.Proofs.Task.Stacks
import KernelCore.Word.RoundingLemmas

namespace KernelCore
open Machine

/-- Room for a frame, and for what is lost when its address is rounded. -/
def Frame.room : Nat := 8 * wordCount + stackAlignment

/-- The frame of a new task ends at the last aligned address of its stack. -/
theorem Frame.pointer_add {stack size sp : Nat} (is : pointer stack size = .ok sp) :
    sp + 8 * wordCount = (stack + size) / stackAlignment * stackAlignment := by
  by_cases fits : stack + size < wordLimit
  · have rounded : Word.roundDown (stack + size) stackAlignment = (stack + size) / stackAlignment * stackAlignment :=
      Word.roundDown_two_pow (k := 4) (by decide) fits
    have taken : pointer stack size = Word.sub ((stack + size) / stackAlignment * stackAlignment) (8 * wordCount) := by
      rw [pointer, Word.add_of_lt fits, ← rounded]
      rfl
    have split := Word.sub_eq_ok_iff.mp (taken.symm.trans is)
    omega
  · rw [pointer, Word.add_of_not_lt fits] at is
    cases is

/-- It lies on the stack, if that has room for it. -/
theorem Frame.pointer_within {stack size sp : Nat} (large : room ≤ size) (is : pointer stack size = .ok sp) :
    stack ≤ sp ∧ sp + 8 * wordCount ≤ stack + size := by
  have top := pointer_add is
  unfold room stackAlignment at *
  omega

/-- To lay out a frame is to store its words from the stack pointer on. -/
theorem Frame.pointer_of_lay {m m' : Memory} {stack size sp : Nat} {start : Start}
    (laid : lay m stack size start = .ok (sp, m')) : pointer stack size = .ok sp ∧ m' = m.writeWords sp start.words := by
  unfold lay at laid
  cases is : pointer stack size with
  | error fault =>
    rw [is] at laid
    cases laid
  | ok top =>
    rw [is] at laid
    obtain ⟨rfl, written⟩ := Prod.mk.inj (Except.ok.inj laid)
    exact ⟨rfl, written.symm⟩

/-- Laying out the frame changes nothing but the stack. -/
theorem Frame.lay_within {m m' : Memory} {stack size sp : Nat} {start : Start} (large : room ≤ size)
    (laid : lay m stack size start = .ok (sp, m')) : (∀ addr n, m'.Covers addr n ↔ m.Covers addr n) ∧
      ∀ addr, addr < stack ∨ stack + size ≤ addr → m'.byte addr = m.byte addr := by
  obtain ⟨is, written⟩ := pointer_of_lay laid
  obtain ⟨lower, upper⟩ := pointer_within large is
  have words : start.words.length = wordCount := rfl
  rw [written]
  refine ⟨fun addr n => Memory.covers_writeWords .., fun addr outside => ?_⟩
  exact Memory.byte_writeWords_of_outside m start.words (by omega)

namespace Kernel
open Table
variable {k k' : Kernel} {t : Table} {b : Arena} {given holdings : List Holding} {stack : Nat}

/-- The heap backs the stacks of the tasks and what clients hold, every task has the stack that it needs, and no
stack was lost. -/
structure Owns (k : Kernel) (holdings : List Holding) : Prop where
  backs : k.arena.Backs (k.table.ownedStacks ++ holdings)
  housed : k.table.Housed
  clean : ∀ entry ∈ k.journal, ¬entry.2.IsLoss

theorem Owns.congr (owns : k.Owns holdings) (heap : k'.arena.heap = k.arena.heap)
    (memory : k'.arena.memory = k.arena.memory) (table : k'.table = k.table)
    (journal : ∀ entry ∈ k'.journal, entry ∈ k.journal ∨ ¬entry.2.IsLoss) : k'.Owns holdings where
  backs := by
    rw [table]
    exact owns.backs.congr heap memory
  housed := by
    rw [table]
    exact owns.housed
  clean entry member := (journal entry member).elim (owns.clean entry) id

theorem Owns.passes (owns : k.Owns holdings) (passes : k.Passes k') : k'.Owns holdings :=
  owns.congr (congrArg Arena.heap passes.arena) (congrArg Arena.memory passes.arena) passes.table passes.journal

/-- What clients hold became stacks of new tasks. -/
theorem Owns.withTable (owns : k.Owns (given ++ holdings)) (lodges : k.table.Lodges given t) :
    (k.withTable t).Owns holdings where
  backs := by
    have backs := owns.backs
    rw [← List.append_assoc, ← lodges.given] at backs
    exact backs
  housed := lodges.housed owns.housed
  clean := owns.clean

/-- What was the stack of a task became something that a client holds. -/
theorem Owns.vacated (owns : k.Owns holdings) (housed : k.table.Housed → t.Housed)
    (perm : k.table.ownedStacks.Perm (t.ownedStacks ++ given)) : (k.withTable t).Owns (given ++ holdings) where
  backs := owns.backs.perm (by
    rw [← List.append_assoc]
    exact perm.append_right holdings)
  housed := housed owns.housed
  clean := owns.clean

theorem Owns.withArena (owns : k.Owns holdings) (backs : b.Backs (k.table.ownedStacks ++ given)) :
    (k.withArena b).Owns given where
  backs := backs.drained
  housed := owns.housed
  clean entry member := (mem_journal_withArena member).elim (owns.clean entry) id

theorem perm_last (deeds holdings : List Holding) (h : Holding) :
    (deeds ++ holdings ++ [h]).Perm (deeds ++ h :: holdings) := by
  rw [List.append_assoc]
  exact (List.perm_append_singleton h holdings).append_left deeds

theorem meets_allocateStack (owns : k.Owns holdings) (size : Nat) :
    (tryHeap (Arena.allocate size)).Meets k (Splits (fun _ k' => k'.Owns holdings)
      fun stack k' => k'.Owns (⟨stack, size, false⟩ :: holdings)) fun _ => True := by
  refine meets_onArena.mpr ((owns.backs.allocate size).mono ?_ fun _ _ => trivial)
  intro result b backs
  cases result with
  | error cause => exact owns.withArena backs
  | ok stack => exact owns.withArena (backs.perm (perm_last ..))

theorem meets_releaseOfStack (owns : k.Owns (.ofStack stack :: holdings)) :
    (tryHeap (Arena.release stack)).Meets k (Splits (fun _ _ => False) fun _ k' => k'.Owns holdings) fun _ => True := by
  have backs := owns.backs.perm (perm_last ..).symm
  refine meets_onArena.mpr (backs.release.mono ?_ fun _ => False.elim)
  rintro _ b ⟨rfl, backs⟩
  exact owns.withArena backs

theorem meets_prepareStack_owns {size : Nat} (large : Frame.room ≤ size)
    (owns : k.Owns (⟨stack, size, false⟩ :: holdings)) (entry arg : Nat) :
    (prepareStack stack size entry arg).Meets k (fun _ k' => k'.Owns (⟨stack, size, false⟩ :: holdings))
      fun _ => True := by
  refine meets_prepareStack_of (fun _ _ => trivial) fun sp m laid => ?_
  obtain ⟨covers, byte⟩ := Frame.lay_within large laid
  have member : ⟨stack, size, false⟩ ∈ k.table.ownedStacks ++ ⟨stack, size, false⟩ :: holdings := by simp
  have stored := owns.backs.stored member covers byte
  have notes : k.Passes { k with cpu := k.cpu.note (.prepare sp entry arg) } := .note k trivial
  exact (owns.passes notes).withArena stored

theorem meets_newStack_owns (owns : k.Owns holdings) (entry arg : Nat) :
    (newStack entry arg).Meets k (Splits (fun _ k' => k'.Owns holdings)
      fun fresh k' => k'.Owns (.ofStack fresh.1 :: holdings)) fun _ => True := by
  have large : Frame.room ≤ Config.taskStackSize := by decide
  unfold Holding.ofStack
  obtain ⟨size, same⟩ : ∃ size, Config.taskStackSize = size := ⟨_, rfl⟩
  rw [same] at large ⊢
  exact meets_newStack_of same (meets_allocateStack owns size) (fun _ l owns => owns.passes (.report l id))
    fun stack _ owns => meets_prepareStack_owns large owns entry arg

theorem meets_releaseStack_owns (owns : k.Owns (.ofStack stack :: holdings)) :
    (releaseStack stack).Meets k (fun _ k' => k'.Owns holdings) fun _ => True :=
  meets_releaseStack_of (meets_releaseOfStack owns) fun _ _ => False.elim

/-- The stack becomes that of a new task, unless that is refused. -/
theorem meets_tryTable_owns {α : Type} {action : TableAction α} (owns : k.Owns (.ofStack stack :: holdings))
    (lodges : action.run.Meets k.table (k.table.Lodged stack) fun _ => True) :
    (tryTable action).Meets k (Splits (fun _ k' => k'.Owns (.ofStack stack :: holdings))
      fun _ k' => k'.Owns holdings) fun _ => True := by
  refine meets_onTable.mpr (lodges.mono ?_ fun _ => id)
  intro result t lodges
  cases result with
  | error cause => exact owns.withTable lodges
  | ok a => exact owns.withTable lodges

theorem meets_boot_owns (owns : k.Owns holdings) : boot.Meets k (fun _ k' => k'.Owns holdings) fun _ => True :=
  meets_boot_of owns (meets_newStack_owns owns _ _)
    (fun stack sp _ owns => meets_tryTable_owns owns (meets_adopt_lodges stack sp))
    (fun _ _ => meets_releaseStack_owns) fun l _ kept owns => owns.passes (.report l kept)

theorem meets_create_owns (owns : k.Owns holdings) (entry arg : Nat) :
    (create entry arg).Meets k (fun _ k' => k'.Owns holdings) fun _ => True :=
  meets_create_of owns (meets_newStack_owns owns entry arg)
    (fun stack sp _ owns => meets_tryTable_owns owns (meets_add_lodges stack sp rfl))
    (fun _ _ => meets_releaseStack_owns) fun l _ kept owns => owns.passes (.report l kept)

theorem meets_adoptBoot_owns (owns : k.Owns holdings) :
    (tryTable Table.adoptBoot).Meets k (fun _ k' => k'.Owns holdings) fun _ => True :=
  meets_onTable.mpr (meets_adoptBoot_lodges.mono (fun _ _ lodges => owns.withTable lodges) fun _ => id)

/-- The stack of the running task goes back to the heap. -/
theorem meets_retire_owns (owns : k.Owns holdings) (busy : k.table.Busy) :
    retire.Meets k (fun _ k' => k'.Owns holdings) fun _ => True := by
  have exits : (onTable terminateCurrent).Meets k (fun stack k' =>
      k'.Owns ((stack.map Holding.ofStack).toList ++ holdings)) fun _ => True :=
    meets_onTable.mpr ((meets_terminateCurrent_lodges busy).mono
      (fun _ _ ⟨housed, perm⟩ => owns.vacated housed perm) fun _ _ => trivial)
  exact meets_retire_of (fun _ _ => trivial) exits (fun _ => id) (fun _ _ owns => meets_releaseOfStack owns)
    (fun _ _ _ => False.elim) fun _ l owns => owns.passes (.report l id)

end Kernel
end KernelCore
