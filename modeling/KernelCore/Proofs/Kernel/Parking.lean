import Mathlib.Logic.Relation
import KernelCore.Proofs.Kernel.Programs

namespace KernelCore
open Machine Kernel

namespace Table
variable {t : Table} {c i now : Nat}

theorem isInitialized_of_current (at_c : t.current = some c) : t.isInitialized = true := by
  rw [isInitialized, at_c, Option.isSome_some]

/-- The table after the deadlines up to a tick have passed. -/
def roused (t : Table) (now : Nat) : Table := { t with tasks := t.tasks.map (woken now) }

theorem runFrom_wakeDue (t : Table) (now : Nat) :
    (wakeDue now).runFrom t = (.ok (t.tasks.countP (isDue now)), t.roused now) := rfl

theorem getElem?_roused (t : Table) (now i : Nat) : (t.roused now).tasks[i]? = t.tasks[i]?.map (woken now) :=
  Array.getElem?_map ..

theorem stateAt_roused_of_terminated (gone : t.stateAt i = some .terminated) :
    (t.roused now).stateAt i = some .terminated := by
  obtain ⟨task, here, state⟩ := exists_of_stateAt gone
  have same : woken now task = task := by simp [woken, isDue, state]
  rw [stateAt, getElem?_roused, here, Option.map_some, Option.map_some, same, state]

end Table

namespace Kernel
variable {k k' l : Kernel}

/-- The memory is as it was, and the processor has not gone to another task. -/
structure Lingers (k k' : Kernel) : Prop where
  arena : k'.arena = k.arena
  switches : k'.cpu.switches = k.cpu.switches

theorem Lingers.refl (k : Kernel) : k.Lingers k := ⟨rfl, rfl⟩

theorem Lingers.trans (first : k.Lingers l) (second : l.Lingers k') : k.Lingers k' :=
  ⟨second.arena.trans first.arena, second.switches.trans first.switches⟩

/-- The clock went on by a tick, the sleepers whose time has come are ready, and nothing else happened. -/
structure Ticked (k k' : Kernel) : Prop extends Lingers k k' where
  table : k'.table = k.table.roused (k.ticks + 1)
  ticks : k'.ticks = k.ticks + 1
  told : k'.ticks < wordLimit
  parked : k'.parked = k.parked
  enabled : k'.cpu.enabled = k.cpu.enabled
  waits : k'.cpu.waits = k.cpu.waits
  waitLimit : k'.cpu.waitLimit = k.cpu.waitLimit

theorem Ticked.current (ticked : k.Ticked k') : k'.table.current = k.table.current := by
  rw [ticked.table, Table.roused]

/-- Some ticks have arrived while the processor was parked. -/
abbrev Elapses : Kernel → Kernel → Prop := Relation.ReflTransGen Ticked

theorem Elapses.parked (elapses : k.Elapses k') : k'.parked = k.parked := by
  induction elapses with
  | refl => rfl
  | tail _ ticked ih => exact ticked.parked.trans ih

theorem Elapses.current (elapses : k.Elapses k') : k'.table.current = k.table.current := by
  induction elapses with
  | refl => rfl
  | tail _ ticked ih => exact ticked.current.trans ih

theorem Elapses.lingers (elapses : k.Elapses k') : k.Lingers k' := by
  induction elapses with
  | refl => exact .refl k
  | tail _ ticked ih => exact ih.trans ticked.toLingers

theorem Elapses.stateAt_of_terminated {i : Nat} (elapses : k.Elapses k') (gone : k.table.stateAt i = some .terminated) :
    k'.table.stateAt i = some .terminated := by
  induction elapses with
  | refl => exact gone
  | tail _ ticked ih =>
    rw [ticked.table]
    exact Table.stateAt_roused_of_terminated ih

/-- The processor is parked, and interrupts can arrive. -/
def resting (k : Kernel) : Kernel := { k with cpu := { k.cpu.wait with enabled := true } }

/-- The processor goes on after it was parked. -/
def awoken (k : Kernel) : Kernel := { k with cpu := { k.cpu with enabled := false }.note .resume }

end Kernel

namespace System
variable {ω : Type} {s : System ω} {env : Surroundings ω}

/-- What a tick has done after it was noted, and before it is served. -/
theorem meets_serve {now : Nat} (parked : s.kernel.parked = true) (initialized : s.kernel.table.current ≠ none) :
    (do
      if (← get).kernel.table.isInitialized then
        let woken ← onKernel (onTable (Table.wakeDue now))
        if 0 < woken then onKernel (report (.woke now woken))
        if (← get).kernel.parked = false then reschedule env : Machine (System ω) Unit).Meets s
      (fun _ t => ∃ journal, t = { s with kernel := { s.kernel.withTable (s.kernel.table.roused now) with journal } })
      fun _ => False := by
  have isInitialized : s.kernel.table.isInitialized = true := Option.isSome_iff_ne_none.mpr initialized
  rw [meets_bind, meets_get]
  dsimp only
  rw [if_pos isInitialized, meets_bind, meets_onKernel, meets_onTable]
  refine .of_runFrom (Table.runFrom_wakeDue ..) ?_
  have chooses : ∀ (_ : Unit) (t : System ω), (∃ journal, t =
      { s with kernel := { s.kernel.withTable (s.kernel.table.roused now) with journal } }) →
      (do if (← get).kernel.parked = false then reschedule env : Machine (System ω) Unit).Meets t
        (fun _ t => ∃ journal, t = { s with kernel := { s.kernel.withTable (s.kernel.table.roused now) with journal } })
        fun _ => False := by
    rintro _ t ⟨journal, rfl⟩
    rw [meets_bind, meets_get, if_neg (by simp [withTable, parked])]
    exact ⟨journal, rfl⟩
  split
  · exact (meets_bind ..).mpr (chooses ⟨⟩ _ ⟨_, rfl⟩)
  · exact chooses ⟨⟩ _ ⟨_, rfl⟩

/-- While the scheduler waits, a tick gives the processor to nobody. -/
theorem meets_tick_of_parked (parked : s.kernel.parked = true) (initialized : s.kernel.table.current ≠ none)
    (env : Surroundings ω) : (tick env).Meets s (fun _ t => s.kernel.Ticked t.kernel ∧ t.outside = s.outside)
      fun t => wordLimit ≤ s.kernel.ticks + 1 ∧ s.kernel.Lingers t.kernel := by
  unfold tick
  rw [meets_bind, meets_onKernel, meets_onProcessor, meets_bind, meets_get, meets_bind, meets_onKernel, meets_modify]
  dsimp only
  rw [meets_bind]
  by_cases fits : s.kernel.ticks + 1 < wordLimit
  · have next : Word.wrappingAdd s.kernel.ticks 1 = s.kernel.ticks + 1 := Nat.mod_eq_of_lt fits
    rw [Word.add_of_lt fits, meets_lift_ok, next, meets_bind]
    cases enabled : s.kernel.cpu.enabled with
    | false =>
      rw [meets_masked_of_disabled (by exact enabled)]
      refine (meets_serve (by exact parked) (by exact initialized)).mono ?_ fun _ => False.elim
      rintro _ t ⟨journal, rfl⟩
      rw [meets_onKernel, meets_onProcessor]
      exact ⟨⟨⟨rfl, rfl⟩, rfl, rfl, fits, rfl, rfl, rfl, rfl⟩, rfl⟩
    | true =>
      rw [meets_masked_of_enabled (by exact enabled)]
      refine (meets_serve (by exact parked) (by exact initialized)).mono ?_ fun _ => False.elim
      rintro _ t ⟨journal, rfl⟩
      rw [meets_onKernel, meets_onProcessor]
      exact ⟨⟨⟨rfl, rfl⟩, rfl, rfl, fits, rfl, enabled.symm, rfl, rfl⟩, rfl⟩
  · rw [Word.add_of_not_lt fits]
    exact ⟨Nat.le_of_not_lt fits, rfl, rfl⟩

/-- To park is to let happen outside what happens while the processor rests, if it may be parked that often. -/
theorem meets_park {post : Unit → System ω → Prop} {stopped : System ω → Prop}
    (limited : s.kernel.cpu.waitLimit ≤ s.kernel.cpu.waits + 1 → stopped { s with kernel.cpu := s.kernel.cpu.wait })
    (rests : env.whileParked.Meets { s with kernel := s.kernel.resting }
      (fun _ t => post () { t with kernel := t.kernel.awoken }) stopped) : (park env).Meets s post stopped := by
  unfold park
  rw [meets_bind, meets_onKernel, meets_onProcessor, meets_bind, meets_get]
  dsimp only
  split
  · rename_i exhausted
    exact limited exhausted
  rw [meets_bind, setEnabled, meets_onKernel, meets_onProcessor, meets_bind]
  refine rests.mono ?_ fun _ => id
  intro _ t holds
  rw [meets_bind, setEnabled, meets_onKernel, meets_onProcessor, resume, meets_onKernel, meets_onProcessor]
  exact holds

end System

/-- While the processor is parked nothing happens but that ticks arrive. -/
theorem Clockwork.elapses {ω α : Type} {action : Machine (System ω) α} (clockwork : Clockwork action) {s : System ω}
    (parked : s.kernel.parked = true) (initialized : s.kernel.table.current ≠ none) :
    action.Meets s (fun _ t => s.kernel.Elapses t.kernel) fun t => s.kernel.Lingers t.kernel := by
  induction clockwork generalizing s with
  | pure a => exact .refl
  | throw fault => exact .refl _
  | bind _ _ first rest =>
    refine (first parked initialized).bind ?_
    intro a t elapses
    exact (rest a (elapses.parked.trans parked) (elapses.current ▸ initialized)).mono
      (fun _ _ => elapses.trans) fun _ => elapses.lingers.trans
  | get => exact .refl
  | outside change => exact .refl
  | tick inner =>
    exact (System.meets_tick_of_parked parked initialized inner).mono (fun _ _ after => .single after.1)
      fun _ => And.right

end KernelCore
