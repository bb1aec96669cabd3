import KernelCore.Proofs.Kernel.Succession
import Mathlib.Order.Bounds.Defs

namespace KernelCore.Frame
variable {m m' : Memory} {stack size sp : Nat} {start : Start}

/-- The bytes that a stack is said to need at least. -/
def leastSize : Nat := 64

/-- A stack of the least size has an aligned address with the length of a frame below it. -/
theorem exists_lay (large : leastSize ≤ size) (fits : stack + size < wordLimit) (m : Memory) (start : Start) :
    ∃ sp m', lay m stack size start = .ok (sp, m') := by
  have rounded : Word.roundDown (stack + size) stackAlignment = (stack + size) / stackAlignment * stackAlignment :=
    Word.roundDown_two_pow (k := 4) (by decide) fits
  have enough : 8 * wordCount ≤ (stack + size) / stackAlignment * stackAlignment := by
    simp only [leastSize, stackAlignment, wordCount] at *
    omega
  obtain ⟨sp, is⟩ : ∃ sp, pointer stack size = .ok sp := by
    rw [pointer, Word.add_of_lt fits]
    exact ⟨_, (congrArg (Word.sub · (8 * wordCount)) rounded).trans (Word.sub_of_le enough)⟩
  refine ⟨sp, m.writeWords sp start.words, ?_⟩
  rw [lay, is]
  rfl

/-- The frame ends at the largest aligned address that is not behind the stack. -/
theorem isGreatest_of_pointer (is : pointer stack size = .ok sp) :
    IsGreatest {top | stackAlignment ∣ top ∧ top ≤ stack + size} (sp + 8 * wordCount) := by
  rw [pointer_add is]
  refine ⟨⟨Nat.dvd_mul_left .., Nat.div_mul_le_self ..⟩, ?_⟩
  rintro top ⟨⟨k, rfl⟩, below⟩
  have whole : k ≤ (stack + size) / stackAlignment := (Nat.le_div_iff_mul_le (by decide)).mpr (by rwa [Nat.mul_comm])
  rw [Nat.mul_comm]
  exact Nat.mul_le_mul_right _ whole

/-- It starts on the stack exactly if the stack has room for what the rounding takes away. -/
theorem le_pointer_iff (large : leastSize ≤ size) (is : pointer stack size = .ok sp) :
    (stack ≤ sp ↔ 8 * wordCount + (stack + size) % stackAlignment ≤ size) ∧ stack < sp + 8 := by
  have top := pointer_add is
  simp only [leastSize, wordCount, stackAlignment] at *
  omega

/-- On a stack of at least the least size a frame can be laid out. It ends at the largest multiple of sixteen in the
stack, its seven words are those of the task, and every byte outside of it is as it was. It starts on the stack
exactly if the stack has room for it and for what the rounding takes away, in particular if the stack starts at a
multiple of eight; otherwise it starts less than eight bytes in front of the stack. -/
theorem lay_exact (large : leastSize ≤ size) (fits : stack + size < wordLimit) (covered : m.Covers stack size)
    (words : ∀ word ∈ start.words, word < wordLimit) :
    ∃ sp m', lay m stack size start = .ok (sp, m') ∧
      IsGreatest {top | stackAlignment ∣ top ∧ top ≤ stack + size} (sp + 8 * wordCount) ∧
      (∀ addr, addr < sp ∨ sp + 8 * wordCount ≤ addr → m'.byte addr = m.byte addr) ∧
      (stack ≤ sp →
        m'.words sp wordCount = [0, start.onReturn, start.arg, start.entry, 0, 0, start.trampoline]) ∧
      (stack ≤ sp ↔ 8 * wordCount + (stack + size) % stackAlignment ≤ size) ∧
      (stack % 8 = 0 → stack ≤ sp) ∧ stack < sp + 8 := by
  obtain ⟨sp, m', laid⟩ := exists_lay large fits m start
  obtain ⟨is, written⟩ := pointer_of_lay laid
  have greatest := isGreatest_of_pointer is
  obtain ⟨inside, near⟩ := le_pointer_iff large is
  refine ⟨sp, m', laid, greatest, ?_, ?_, inside, ?_, near⟩
  · intro addr outside
    rw [written]
    exact Memory.byte_writeWords_of_outside m start.words outside
  · intro lower
    have covers : m.Covers sp (8 * start.words.length) :=
      ⟨Nat.le_trans covered.1 lower, Nat.le_trans greatest.1.2 covered.2⟩
    have same : start.words.map (· % wordLimit) = start.words := calc
      _ = start.words.map id := List.map_congr_left fun word member => Nat.mod_eq_of_lt (words word member)
      _ = start.words := List.map_id _
    have read := Memory.words_writeWords covers
    rwa [same, ← written] at read
  · intro aligned
    rw [inside]
    simp only [leastSize, wordCount, stackAlignment] at *
    omega

/-- A start with a word of its own in each place. -/
def sampleStart : Start := ⟨4194304, 7, 4198400, 4202496⟩

/-- On a stack of the least size that starts eight bytes behind a multiple of sixteen. -/
theorem lay_exact_of_offset_eight : ∃ sp m', lay (Memory.zeroed 4096 128) 4104 64 sampleStart = .ok (sp, m') ∧
    4104 ≤ sp ∧ sp + 8 * wordCount ≤ 4168 ∧ m'.words sp wordCount = [0, 4198400, 7, 4194304, 0, 0, 4202496] := by
  have covered : (Memory.zeroed 4096 128).Covers 4104 64 := by decide +kernel
  have words : ∀ word ∈ sampleStart.words, word < wordLimit := by decide
  obtain ⟨sp, m', laid, greatest, -, stored, -, inside, -⟩ := lay_exact (by decide) (by decide) covered words
  exact ⟨sp, m', laid, inside rfl, greatest.1.2, stored (inside rfl)⟩

/-- A window in which no byte is zero. -/
def filled : Memory := ⟨4096, ⟨Array.replicate 128 255⟩⟩

/-- On a stack of the least size that starts nine bytes behind a multiple of sixteen, the first byte of the frame lies
in front of the stack. -/
theorem lay_in_front_of_stack : ¬∀ (m : Memory) (stack size : Nat) (start : Start), leastSize ≤ size →
    stack + size < wordLimit → m.Covers stack size → ∀ sp m', lay m stack size start = .ok (sp, m') →
      ∀ addr, addr < stack ∨ stack + size ≤ addr → m'.byte addr = m.byte addr := by
  intro confined
  have overwritten : (lay filled 4105 64 sampleStart).map (fun result => result.2.byte 4104) = .ok 0 := by decide +kernel
  have before : filled.byte 4104 = 255 := by decide +kernel
  cases laid : lay filled 4105 64 sampleStart with
  | error fault =>
    rw [laid] at overwritten
    cases overwritten
  | ok result =>
    rw [laid] at overwritten
    have after : result.2.byte 4104 = 0 := Except.ok.inj overwritten
    have same := confined filled 4105 64 sampleStart (by decide) (by decide) (by decide +kernel) result.1 result.2 laid
      4104 (Or.inl (by decide))
    rw [after, before] at same
    exact absurd same (by decide)

end KernelCore.Frame
