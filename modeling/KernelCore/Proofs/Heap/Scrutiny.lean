import KernelCore.Proofs.Heap.Passing

namespace KernelCore

namespace Region
variable {r : Region} {m : Memory} {off : Nat} {fault : Fault}

/-- The blocks from the start of the region on, no two neighbours of which are free, lead to one without an end. -/
def Overflows (r : Region) (m : Memory) : Prop :=
  ∃ blocks stop, r.Passes m 0 blocks stop ∧ Block.Separated blocks ∧ r.Overlong m stop

/-- Where the blocks lead to one without an end, the walk over them is stopped there. -/
theorem Overlong.auditBlocks (overlong : r.Overlong m off) (count : Nat) (freeBefore : Bool) :
    r.auditBlocks m off count freeBefore = .error .addOverflow := by
  obtain ⟨holds, intact, whole, large⟩ := overlong
  have wide : 0 < Header.width := by decide
  have room := holds.2
  rw [Region.auditBlocks, dif_pos (by omega), if_pos holds]
  dsimp only
  rw [if_neg (by simp [intact]), if_neg (not_not.mpr whole), if_pos large]

theorem auditBlocks_eq_error_iff : r.auditBlocks m 0 0 false = .error fault ↔ fault = .addOverflow ∧ r.Overflows m := by
  constructor
  · intro stopped
    obtain ⟨blocks, stop, passes, separated, -, ⟨-, ended⟩ | ⟨overlong, overflow⟩⟩ :=
      passes_of_auditBlocks stopped (by simp) (Nat.zero_le _)
    · cases ended
    · exact ⟨Except.error.inj overflow, blocks, stop, passes, separated, overlong⟩
  · rintro ⟨rfl, blocks, stop, passes, separated, overlong⟩
    rw [auditBlocks_of_passes 0 passes rfl separated (by simp), overlong.auditBlocks]

theorem audit_eq_error_iff {first : Option Nat} :
    r.audit m first = .error fault ↔ fault = .addOverflow ∧ r.Overflows m := by
  rw [← auditBlocks_eq_error_iff]
  unfold audit
  cases r.auditBlocks m 0 0 false with
  | error other => simp [bind, Except.bind]
  | ok outcome =>
    rcases outcome with defect | found
    · simp [bind, Except.bind, pure, Except.pure]
    · cases listed : r.auditList m (found + 1) none first <;> simp [bind, Except.bind, pure, Except.pure, listed]

end Region

namespace Arena
open Machine
variable {a : Arena} {r : Region}

/-- Whatever the memory holds, a check changes nothing but the log, and says that all is well or that the heap is
corrupted, unless the blocks from the start of the region on lead to one whose end is no word. Then, and only then, the
check is stopped by a fault, namely when it computes this end. -/
theorem attempt_check_exact (region : a.heap.region = some r) :
    (r.Overflows a.memory → attempt check a = (.error .addOverflow, a)) ∧
      (¬r.Overflows a.memory → attempt check a = (.ok (.ok ()), a) ∨
        ∃ notice, attempt check a = (.ok (.error .corrupted), { a with notices := a.notices.push notice })) := by
  rw [attempt_check_of_region region]
  by_cases overflows : r.Overflows a.memory
  · rw [Region.audit_eq_error_iff.mpr ⟨rfl, overflows⟩]
    exact ⟨fun _ => rfl, fun bounded => absurd overflows bounded⟩
  · refine ⟨fun other => absurd other overflows, fun _ => ?_⟩
    rcases audited : r.audit a.memory a.heap.first with fault | defect | _
    · exact absurd (Region.audit_eq_error_iff.mp audited).2 overflows
    · exact Or.inr ⟨_, rfl⟩
    · exact Or.inl rfl

/-- The only block of the heap has a size that takes its end beyond the words. -/
def swollen : Arena :=
  ⟨⟨some strayRegion, some 0, 0⟩,
    (⟨Config.heapMagic, 1, wordLimit - 8, none, none⟩ : Header).write (Memory.zeroed 4096 256) 4096, #[]⟩

theorem overflows_swollen : strayRegion.Overflows swollen.memory :=
  ⟨[], 0, rfl, trivial, ⟨strayRegion.holdsHeader_zero, by decide +kernel, by decide +kernel, by decide +kernel⟩⟩

/-- A check does not always come to an answer. -/
theorem check_stopped_by_size : ¬∀ (a : Arena) (r : Region), a.heap.region = some r → a.memory.Covers r.start r.size →
    (attempt check a).1 = .ok (.ok ()) ∨ (attempt check a).1 = .ok (.error .corrupted) := by
  intro answers
  have answer := answers swollen strayRegion rfl (by decide +kernel)
  rw [attempt_check_of_region (r := strayRegion) rfl, Region.audit_eq_error_iff.mpr ⟨rfl, overflows_swollen⟩] at answer
  simp at answer

/-- The check is stopped at the swollen size, and changes nothing. -/
theorem attempt_check_exact_of_swollen : swollen.heap.region = some strayRegion ∧
    attempt check swollen = (.error .addOverflow, swollen) :=
  ⟨rfl, (attempt_check_exact (r := strayRegion) rfl).1 overflows_swollen⟩

end Arena
end KernelCore
