import KernelCore.Kernel.StateLemmas
import KernelCore.Proofs.Contract

namespace KernelCore
open Machine
variable {ω α : Type}

namespace Kernel
variable {k : Kernel} {post : α → Kernel → Prop} {stopped : Kernel → Prop}

theorem meets_onProcessor {change : Processor → Processor} {post : Unit → Kernel → Prop} :
    (onProcessor change).Meets k post stopped ↔ post () { k with cpu := change k.cpu } := Iff.rfl

/-- What becomes of the task table is noted. -/
def withTable (k : Kernel) (table : Table) : Kernel := { k with table, cpu := k.cpu.note (.table table) }

theorem meets_onTable {action : Machine Table α} :
    (onTable action).Meets k post stopped ↔
      action.Meets k.table (fun a table => post a (k.withTable table)) fun table => stopped (k.withTable table) := by
  unfold Meets
  rw [runFrom_onTable]
  rcases action.runFrom k.table with ⟨_ | _, _⟩ <;> rfl

/-- The notices of the heap go to the journal. -/
def withArena (k : Kernel) (arena : Arena) : Kernel :=
  { k with
    arena := { arena with notices := #[] }
    journal := k.journal ++ arena.notices.map fun notice => (k.ticks, Notice.heap notice) }

theorem meets_onArena {action : Machine Arena α} :
    (onArena action).Meets k post stopped ↔
      action.Meets k.arena (fun a arena => post a (k.withArena arena)) fun arena => stopped (k.withArena arena) := by
  unfold Meets
  rw [runFrom_onArena]
  rcases action.runFrom k.arena with ⟨_ | _, _⟩ <;> rfl

end Kernel

namespace System
variable {s : System ω} {post : α → System ω → Prop} {stopped : System ω → Prop}

theorem meets_onKernel {action : Machine Kernel α} :
    (onKernel action).Meets s post stopped ↔
      action.Meets s.kernel (fun a kernel => post a { s with kernel }) fun kernel => stopped { s with kernel } := by
  unfold Meets
  rw [runFrom_onKernel]
  rcases action.runFrom s.kernel with ⟨_ | _, _⟩ <;> rfl

theorem meets_masked_of_disabled {body : Machine (System ω) α} (disabled : s.kernel.cpu.enabled = false) :
    (masked body).Meets s post stopped ↔ body.Meets s post stopped := by
  unfold Meets
  rw [runFrom_masked_of_disabled body disabled]

theorem meets_masked_of_enabled {body : Machine (System ω) α} (enabled : s.kernel.cpu.enabled = true) :
    (masked body).Meets s post stopped ↔
      body.Meets { s with kernel.cpu := s.kernel.cpu.mask }
        (fun a t => post a { t with kernel.cpu := t.kernel.cpu.unmask }) stopped := by
  unfold Meets
  rw [runFrom_masked_of_enabled body enabled]
  rcases body.runFrom { s with kernel.cpu := s.kernel.cpu.mask } with ⟨_ | _, _⟩ <;> rfl

/-- Masking does not show to what looks at the rest of the system alone. -/
theorem meets_masked {body : Machine (System ω) α}
    (blind : ∀ a t, post a t → post a { t with kernel.cpu := t.kernel.cpu.unmask })
    (meets : body.Meets s post stopped)
    (meetsMasked : body.Meets { s with kernel.cpu := s.kernel.cpu.mask } post stopped) :
    (masked body).Meets s post stopped := by
  cases enabled : s.kernel.cpu.enabled with
  | false => exact (meets_masked_of_disabled enabled).mpr meets
  | true => exact (meets_masked_of_enabled enabled).mpr (meetsMasked.mono blind fun _ => id)

/-- What an operation of the heap does to its arena, it does to the arena of the kernel. -/
theorem meets_onHeap {action : HeapAction α} {post : Except HeapError α → Arena → Prop} {excuse : Prop}
    (meets : action.run.Meets s.kernel.arena post fun _ => excuse) :
    (onHeap action).Meets s (fun result t => ∃ b, post result b ∧ t.kernel.arena = { b with notices := #[] })
      fun _ => excuse := by
  have works : ∀ t : System ω, t.kernel.arena = s.kernel.arena →
      (onKernel (Kernel.tryHeap action)).Meets t (fun result t =>
        ∃ b, post result b ∧ t.kernel.arena = { b with notices := #[] }) fun _ => excuse := by
    intro t same
    refine meets_onKernel.mpr (Kernel.meets_onArena.mpr ?_)
    rw [same]
    exact meets.mono (fun result b holds => ⟨b, holds, rfl⟩) fun _ => id
  exact meets_masked (fun _ _ => id) (works s rfl) (works _ rfl)

end System
end KernelCore
