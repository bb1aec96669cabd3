import KernelCore.Kernel.Scheduling

namespace KernelCore

namespace Kernel
open Machine
variable {α : Type}

@[simp] theorem runFrom_report (notice : Notice) (k : Kernel) :
    (report notice).runFrom k = (.ok (), { k with journal := k.journal.push (k.ticks, notice) }) := rfl

@[simp] theorem runFrom_onProcessor (change : Processor → Processor) (k : Kernel) :
    (onProcessor change).runFrom k = (.ok (), { k with cpu := change k.cpu }) := rfl

theorem runFrom_onTable (action : Machine Table α) (k : Kernel) :
    (onTable action).runFrom k =
      ((action.runFrom k.table).1,
        { k with
          table := (action.runFrom k.table).2
          cpu := k.cpu.note (.table (action.runFrom k.table).2) }) := rfl

/-- The notices of the heap go to the journal. -/
theorem runFrom_onArena (action : Machine Arena α) (k : Kernel) :
    (onArena action).runFrom k =
      ((action.runFrom k.arena).1,
        { k with
          arena := { (action.runFrom k.arena).2 with notices := #[] }
          journal := k.journal ++
            (action.runFrom k.arena).2.notices.map fun notice => (k.ticks, Notice.heap notice) }) :=
  rfl

end Kernel

namespace System
open Machine
variable {ω α : Type}

theorem runFrom_onKernel (action : Machine Kernel α) (s : System ω) :
    (onKernel action).runFrom s =
      ((action.runFrom s.kernel).1, { s with kernel := (action.runFrom s.kernel).2 }) := rfl

/-- Masking does nothing where interrupts are masked already. -/
theorem runFrom_masked_of_disabled {s : System ω} (body : Machine (System ω) α)
    (disabled : s.kernel.cpu.enabled = false) : (masked body).runFrom s = body.runFrom s := by
  unfold masked
  simp only [runFrom_bind, runFrom_get, disabled, Bool.false_eq_true, if_false, runFrom_pure]
  rcases body.runFrom s with ⟨_ | _, t⟩ <;> rfl

/-- Interrupts are unmasked again only if the body comes to its end. -/
theorem runFrom_masked_of_enabled {s : System ω} (body : Machine (System ω) α)
    (enabled : s.kernel.cpu.enabled = true) :
    (masked body).runFrom s =
      match body.runFrom { s with kernel.cpu := s.kernel.cpu.mask } with
      | (.ok a, t) => (.ok a, { t with kernel.cpu := t.kernel.cpu.unmask })
      | (.error fault, t) => (.error fault, t) := by
  unfold masked
  simp only [runFrom_bind, runFrom_get, enabled, if_true, runFrom_onKernel, Kernel.runFrom_onProcessor,
    runFrom_pure]
  rcases body.runFrom { s with kernel.cpu := s.kernel.cpu.mask } with ⟨_ | _, t⟩ <;> rfl

end System
end KernelCore
