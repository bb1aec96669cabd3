import KernelCore.Proofs.Kernel.Housing

namespace KernelCore

namespace Memory

theorem words_congr {m m' : Memory} {addr count : Nat}
    (same : ∀ a, addr ≤ a → a < addr + 8 * count → m'.byte a = m.byte a) :
    m'.words addr count = m.words addr count := by
  refine List.map_congr_left ?_
  intro i member
  have within := List.mem_range.mp member
  exact readNat_congr fun a above below => same a (by omega) (by omega)

/-- Words that were stored read as they were. -/
theorem words_writeWords {m : Memory} {addr : Nat} {stored : List Nat} (covered : m.Covers addr (8 * stored.length)) :
    (m.writeWords addr stored).words addr stored.length = stored.map (· % wordLimit) := by
  induction stored generalizing m addr with
  | nil =>
    rw [List.map_nil]
    rfl
  | cons word rest ih =>
    have lower := covered.1
    have upper := covered.2
    rw [List.length_cons] at upper
    have behind : (m.writeNat addr 8 word).Covers (addr + 8) (8 * rest.length) :=
      (covers_writeNat ..).mpr ⟨by omega, by omega⟩
    have later := ih behind
    have here : ((m.writeNat addr 8 word).writeWords (addr + 8) rest).readNat addr 8 = word % wordLimit := by
      rw [readNat_congr fun a _ below => byte_writeWords_of_outside _ rest (Or.inl (by omega)),
        readNat_writeNat_self _ _ ⟨lower, by omega⟩]
      rfl
    rw [writeWords_cons, List.map_cons, ← later, words, words, List.length_cons, List.range_succ_eq_map, List.map_cons,
      List.map_map]
    refine congrArg₂ List.cons here (List.map_congr_left ?_)
    intro i _
    rw [Function.comp_apply, Nat.mul_succ, Nat.add_comm (8 * i) 8, Nat.add_assoc]

end Memory

namespace Frame
variable {m m' : Memory} {stack size sp : Nat} {start : Start}

/-- The frame of a task that has not started lies at `sp` on the stack, and ends at an aligned address. -/
structure LiesAt (m : Memory) (stack size sp : Nat) (start : Start) : Prop where
  words : m.words sp wordCount = start.words.map (· % wordLimit)
  inside : stack ≤ sp ∧ sp + 8 * wordCount ≤ stack + size
  aligned : (sp + 8 * wordCount) % stackAlignment = 0

theorem LiesAt.congr (lies : LiesAt m stack size sp start)
    (same : ∀ addr, stack ≤ addr → addr < stack + size → m'.byte addr = m.byte addr) :
    LiesAt m' stack size sp start := by
  obtain ⟨words, inside, aligned⟩ := lies
  refine ⟨Eq.trans (Memory.words_congr ?_) words, inside, aligned⟩
  intro addr above below
  exact same addr (by omega) (by omega)

theorem LiesAt.mono {more : Nat} (lies : LiesAt m stack size sp start) (larger : size ≤ more) :
    LiesAt m stack more sp start :=
  ⟨lies.words, ⟨lies.inside.1, Nat.le_trans lies.inside.2 (Nat.add_le_add_left larger stack)⟩, lies.aligned⟩

theorem liesAt_of_lay (large : room ≤ size) (covered : m.Covers stack size)
    (laid : lay m stack size start = .ok (sp, m')) : LiesAt m' stack size sp start := by
  obtain ⟨is, written⟩ := pointer_of_lay laid
  obtain ⟨lower, upper⟩ := pointer_within large is
  have covers : m.Covers sp (8 * start.words.length) :=
    ⟨Nat.le_trans covered.1 lower, Nat.le_trans upper covered.2⟩
  rw [written]
  refine ⟨Memory.words_writeWords covers, ⟨lower, upper⟩, ?_⟩
  rw [pointer_add is]
  exact Nat.mul_mod_left ..

end Frame

namespace Instruction

def IsSwitch : Instruction → Prop
  | switch .. => True
  | _ => False

/-- The stack pointer that was saved last for the task in a slot, after an instruction. -/
def saves (i : Nat) (last : Option Nat) : Instruction → Option Nat
  | switch _ handover saved => if handover.outgoing = i then some saved else last
  | _ => last

theorem saves_of_still {instruction : Instruction} (still : ¬instruction.IsSwitch) (i : Nat) (last : Option Nat) :
    instruction.saves i last = last := by
  cases instruction with
  | switch => exact absurd trivial still
  | _ => rfl

end Instruction

namespace Story
variable {story more before after : Story} {i sp entry arg : Nat} {handover : Handover} {enabled : Bool} {saved : Nat}

/-- The stack pointer that was saved last for the task in a slot. -/
def lastSaved (story : Story) (i : Nat) : Option Nat := story.foldl (Instruction.saves i) none

/-- The processor has gone to the task in a slot. -/
def Entered (story : Story) (i : Nat) : Prop :=
  ∃ enabled handover saved, .switch enabled handover saved ∈ story ∧ handover.incoming = i

/-- A frame was laid out at `sp`, and then the task in a slot was added to the table as the last one. -/
def Prepared (story : Story) (i sp entry arg : Nat) : Prop :=
  ∃ (before : Story) (t : Table) (after : Story), story = before ++ .prepare sp entry arg :: .table t :: after ∧
    before.version.tasks.size ≤ i ∧ t.tasks.size = i + 1

/-- No instruction switches. -/
def Still (story : Story) : Prop := ∀ instruction ∈ story, ¬instruction.IsSwitch

theorem lastSaved_append (still : more.Still) (story : Story) (i : Nat) :
    lastSaved (story ++ more) i = lastSaved story i := by
  have skips : ∀ last, more.foldl (Instruction.saves i) last = last := by
    intro last
    induction more with
    | nil => rfl
    | cons first rest ih =>
      obtain ⟨stillFirst, stillRest⟩ := List.forall_mem_cons.mp still
      rw [List.foldl_cons, Instruction.saves_of_still stillFirst]
      exact ih stillRest
  rw [lastSaved, List.foldl_append, skips]
  rfl

theorem lastSaved_switch (story : Story) (i : Nat) :
    lastSaved (story ++ [.switch enabled handover saved]) i =
      if handover.outgoing = i then some saved else lastSaved story i := by
  rw [lastSaved, List.foldl_append]
  rfl

theorem Entered.append (entered : story.Entered i) (more : Story) : Entered (story ++ more) i := by
  obtain ⟨enabled, handover, saved, member, incoming⟩ := entered
  exact ⟨enabled, handover, saved, List.mem_append_left more member, incoming⟩

theorem entered_append (still : more.Still) : Entered (story ++ more) i ↔ Entered story i := by
  refine ⟨?_, fun entered => entered.append more⟩
  rintro ⟨enabled, handover, saved, member, incoming⟩
  rcases List.mem_append.mp member with old | new
  · exact ⟨enabled, handover, saved, old, incoming⟩
  · exact absurd trivial (still _ new)

theorem entered_switch : Entered (story ++ [.switch enabled handover saved]) i ↔
    Entered story i ∨ handover.incoming = i := by
  constructor
  · rintro ⟨enabled', handover', saved', member, incoming⟩
    rcases List.mem_append.mp member with old | new
    · exact Or.inl ⟨enabled', handover', saved', old, incoming⟩
    · obtain ⟨-, rfl, -⟩ := Instruction.switch.inj (List.mem_singleton.mp new)
      exact Or.inr incoming
  · rintro (entered | incoming)
    · exact entered.append _
    · exact ⟨enabled, handover, saved, by simp, incoming⟩

theorem Prepared.append (prepared : story.Prepared i sp entry arg) (more : Story) :
    Prepared (story ++ more) i sp entry arg := by
  obtain ⟨before, t, after, rfl, sizes⟩ := prepared
  exact ⟨before, t, after ++ more, by simp, sizes⟩

theorem still_of_idle (idle : ∀ instruction ∈ more, instruction.IsIdle) : more.Still := by
  intro instruction member
  have isIdle := idle instruction member
  cases instruction with
  | switch => exact isIdle.elim
  | _ => exact id

theorem still_nil : Still [] := by simp [Still]

theorem still_singleton {instruction : Instruction} (still : ¬instruction.IsSwitch) : Still [instruction] := by
  simpa [Still] using still

end Story
end KernelCore
