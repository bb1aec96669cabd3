import KernelCore.Proofs.Kernel.Regimen

namespace KernelCore
open Machine Kernel

/-- An instruction that concerns neither the task table nor the clock. -/
def Instruction.IsQuiet : Instruction → Prop
  | table _ | sleep _ | tick => False
  | mask | unmask | prepare .. | switch .. | wait | resume | halt | served => True

namespace Kernel
variable {k k' l : Kernel} {instruction : Instruction}

/-- Work that neither the tasks nor the clock notice. -/
structure Echoes (k k' : Kernel) : Prop where
  table : k'.table = k.table
  ticks : k'.ticks = k.ticks
  story : ∃ more : List Instruction, k'.story = k.story ++ more ∧ ∀ instruction ∈ more, instruction.IsQuiet

theorem Echoes.refl (k : Kernel) : k.Echoes k := ⟨rfl, rfl, [], (List.append_nil _).symm, by simp⟩

theorem Echoes.trans (first : k.Echoes l) (second : l.Echoes k') : k.Echoes k' := by
  obtain ⟨table, ticks, more, story, quiet⟩ := first
  obtain ⟨table', ticks', more', story', quiet'⟩ := second
  refine ⟨table'.trans table, ticks'.trans ticks, more ++ more', ?_, ?_⟩
  · rw [story', story, List.append_assoc]
  · intro instruction member
    exact (List.mem_append.mp member).elim (quiet instruction) (quiet' instruction)

/-- Work that the heap does not notice either, and that loses no stack. -/
structure Passes (k k' : Kernel) : Prop extends Echoes k k' where
  arena : k'.arena = k.arena
  journal : ∀ entry ∈ k'.journal, entry ∈ k.journal ∨ ¬entry.2.IsLoss

theorem Passes.onProcessor {cpu : Processor} (instruction : Instruction) (quiet : instruction.IsQuiet)
    (trace : cpu.trace = k.cpu.trace.push instruction) : k.Passes { k with cpu } :=
  ⟨⟨rfl, rfl, [instruction], by simp [Kernel.story, trace], by simpa using quiet⟩, rfl, fun _ => Or.inl⟩

theorem quiet_of_isIdle (idle : instruction.IsIdle) : instruction.IsQuiet := by
  cases instruction with
  | table | sleep | tick | prepare | switch => exact idle.elim
  | _ => trivial

theorem Idles.passes (idles : k.Idles k') : k.Passes k' := by
  obtain ⟨more, story, idle⟩ := idles.story
  exact ⟨⟨idles.table, idles.ticks, more, story, fun instruction member => quiet_of_isIdle (idle instruction member)⟩,
    idles.arena, idles.journal⟩

theorem Passes.note (k : Kernel) (quiet : instruction.IsQuiet) : k.Passes { k with cpu := k.cpu.note instruction } :=
  .onProcessor instruction quiet rfl

theorem Passes.mask (k : Kernel) : k.Passes { k with cpu := k.cpu.mask } := (Idles.mask k).passes

theorem Passes.unmask (k : Kernel) : k.Passes { k with cpu := k.cpu.unmask } := (Idles.unmask k).passes

theorem Passes.report (k : Kernel) {notice : Notice} (kept : ¬notice.IsLoss) :
    k.Passes { k with journal := k.journal.push (k.ticks, notice) } := (Idles.report k kept).passes

/-- What the heap reports is no loss. -/
theorem mem_journal_withArena {arena : Arena} {entry : Nat × Notice} (member : entry ∈ (k.withArena arena).journal) :
    entry ∈ k.journal ∨ ¬entry.2.IsLoss := by
  rcases Array.mem_append.mp member with old | new
  · exact Or.inl old
  · obtain ⟨notice, -, rfl⟩ := Array.mem_map.mp new
    exact Or.inr id

end Kernel

/-- An invariant `keeps` of the system, what is left of it while a tick has not been acted on, and what is left
of it after a fault. The other fields say that the single pieces of work keep it. -/
structure Upkeep (ω : Type) where
  keeps : System ω → Prop
  rings : System ω → Prop
  stopped : System ω → Prop
  excuse : ∀ s, keeps s → stopped s
  passes : ∀ s k, keeps s → s.kernel.Passes k → keeps { s with kernel := k }
  dispatches : ∀ s i, keeps s → s.kernel.table.Orderly → s.kernel.table.Eligible i →
    (Table.dispatch i).Meets s.kernel.table (fun _ t => keeps { s with kernel := s.kernel.withTable t })
      fun _ => False
  saves : ∀ s i sp, keeps s → (Table.saveStackPointer i sp).Meets s.kernel.table
    (fun _ t => keeps { s with kernel := s.kernel.withTable t })
    fun t => stopped { s with kernel := s.kernel.withTable t }
  sleeps : ∀ s ms, ms ≠ 0 → keeps s → s.kernel.table.Orderly → s.kernel.table.Busy →
    (Table.blockCurrent (Ticks.saturate (s.kernel.ticks + Ticks.ofMs ms))).Meets s.kernel.table
      (fun done t => if done then keeps { s with kernel := s.kernel.asleep ms t }
        else keeps { s with kernel := s.kernel.withTable t }) fun _ => False
  retires : ∀ s, keeps s → s.kernel.table.Orderly → s.kernel.table.Busy →
    (System.onKernel retire).Meets s (fun _ => keeps) stopped
  ticks : ∀ s, keeps s →
    if s.kernel.ticks + 1 < wordLimit then rings { s with kernel := s.kernel.rung }
    else stopped { s with kernel := s.kernel.rung }
  masks : ∀ s, rings s → rings { s with kernel.cpu := s.kernel.cpu.mask }
  wakes : ∀ s, rings s → (Table.wakeDue s.kernel.ticks).Meets s.kernel.table
    (fun _ t => keeps { s with kernel := s.kernel.withTable t }) fun _ => False
  nobody : ∀ s, rings s → s.kernel.table.current = none → keeps s

namespace Upkeep
variable {ω α : Type} {u : Upkeep ω} {pre post : System ω → Prop} {ongoing ongoing' : List Activity}
  {parked parked' : Bool} {busy busy' : Prop} {env : Surroundings ω} {s : System ω}

/-- The invariant is kept at each stage, also while the processor goes from one task to another. -/
def regimen (u : Upkeep ω) : Regimen ω where
  keeps := u.keeps
  torn _ := u.keeps
  lands := u.keeps
  rings := u.rings
  stopped := u.stopped
  excuse := u.excuse
  idles s k keeps idles := u.passes s k keeps idles.passes
  dispatches s i keeps told eligible := (u.dispatches s i keeps told.orderly eligible).mono
    (fun handover _ after => by cases handover <;> exact after) fun _ => id
  switches s handover saved _ keeps _ _ :=
    u.saves { s with kernel.cpu := s.kernel.cpu.switch handover saved } handover.outgoing saved
      (u.passes s _ keeps (.onProcessor (.switch _ handover _) trivial rfl))
  sleeps s ms lasts keeps told busy := u.sleeps s ms lasts keeps told.orderly busy
  retires s keeps told busy := u.retires s keeps told.orderly busy
  ticks := u.ticks
  masks := u.masks
  wakes := u.wakes
  nobody := u.nobody

/-- From a system as in `pre` the work comes to one as in `post`. -/
abbrev Carries (u : Upkeep ω) (action : Machine (System ω) α) (pre post : System ω → Prop) : Prop :=
  u.regimen.Carries action pre post

/-- The invariant holds, and the kernel stands as between two pieces of work. -/
abbrev Holds (u : Upkeep ω) : List Activity → Bool → Prop → System ω → Prop := u.regimen.Holds

/-- What happens outside keeps the invariant as the operations do. -/
abbrev Faithful (u : Upkeep ω) (env : Surroundings ω) : Prop := u.regimen.Faithful env

theorem Holds.mask (s : System ω) (holds : u.Holds ongoing parked busy s) :
    u.Holds ongoing parked busy { s with kernel.cpu := s.kernel.cpu.mask } := Regimen.Holds.mask s holds

theorem Holds.unmask (s : System ω) (holds : u.Holds ongoing parked busy s) :
    u.Holds ongoing parked busy { s with kernel.cpu := s.kernel.cpu.unmask } := Regimen.Holds.unmask s holds

/-- What the tasks allow and the invariant survives. -/
theorem carries_of_stands {action : Machine (System ω) α}
    (stands : action.Carries (Stands ongoing parked busy) (Stands ongoing' parked' busy'))
    (keeps : ∀ s, u.Holds ongoing parked busy s → action.Meets s (fun _ => u.keeps) u.stopped) :
    u.Carries action (u.Holds ongoing parked busy) (u.Holds ongoing' parked' busy') :=
  Regimen.carries_of_stands stands keeps

theorem carries_masked {body : Machine (System ω) α}
    (mask : ∀ s, pre s → pre { s with kernel.cpu := s.kernel.cpu.mask })
    (unmask : ∀ s, post s → post { s with kernel.cpu := s.kernel.cpu.unmask }) (carries : u.Carries body pre post) :
    u.Carries (System.masked body) pre post := Regimen.carries_masked mask unmask carries

theorem carries_tick (faithful : parked = false → u.Faithful env) :
    u.Carries (System.tick env) (u.Holds ongoing parked busy) (u.Holds ongoing parked (parked = false)) :=
  Regimen.carries_tick faithful

/-- What gives the processor away keeps the invariant. -/
theorem carries_turn (faithful : u.Faithful env) (turn : Turn) :
    u.Carries (turn.perform env) (u.Holds ongoing false True) (u.Holds ongoing false True) :=
  Regimen.carries_turn faithful turn

end Upkeep
end KernelCore
