import KernelCore.Proofs.Kernel.Tables

namespace KernelCore
open Machine Kernel

/-- The task table that an instruction tells. -/
def Instruction.table? : Instruction → Option Table
  | table t => some t
  | mask | unmask | prepare .. | switch .. | wait | resume | halt | sleep _ | tick | served => none

/-- The task tables of a story, one after the other. -/
def Story.tables (story : Story) : List Table := story.filterMap Instruction.table?

namespace Story

theorem tables_append (story more : Story) : tables (story ++ more) = tables story ++ tables more :=
  List.filterMap_append ..

theorem tables_append_of_silent {more : Story} (silent : ∀ instruction ∈ more, instruction.table? = none)
    (story : Story) : tables (story ++ more) = tables story := by
  rw [tables_append, tables, tables, List.filterMap_eq_nil_iff.mpr silent, List.append_nil]

end Story

/-- What holds of the tables of a story and of the table after it, and is kept by whatever is done with the tasks. -/
structure Chronicle (holds : List Table → Table → Prop) : Prop where
  empty : holds [] Table.empty
  dispatches : ∀ tables t i, holds tables t → t.Orderly → t.Eligible i →
    (Table.dispatch i).Meets t (fun _ u => holds (tables ++ [u]) u) fun _ => False
  saves : ∀ tables t i sp, holds tables t → (Table.saveStackPointer i sp).Meets t
    (fun _ u => holds (tables ++ [u]) u) fun u => holds (tables ++ [u]) u
  sleeps : ∀ tables t wake, wake < wordLimit → holds tables t → t.Orderly → t.Busy →
    (Table.blockCurrent wake).Meets t (fun _ u => holds (tables ++ [u]) u) fun _ => False
  ends : ∀ tables t, holds tables t → t.Orderly → t.Busy →
    Table.terminateCurrent.Meets t (fun _ u => holds (tables ++ [u]) u) fun _ => False
  wakes : ∀ tables t now, holds tables t →
    (Table.wakeDue now).Meets t (fun _ u => holds (tables ++ [u]) u) fun _ => False
  boots : ∀ tables t, holds tables t → Table.adoptBoot.run.Meets t (fun _ u => holds (tables ++ [u]) u) fun _ => False
  founds : ∀ tables t stack sp, holds tables t →
    (adopt stack sp).run.Meets t (fun _ u => holds (tables ++ [u]) u) fun _ => False
  adds : ∀ tables t stack sp, holds tables t →
    (Table.add (some stack) sp .none).run.Meets t (fun _ u => holds (tables ++ [u]) u) fun _ => False

namespace Kernel
variable {α : Type} {k k' : Kernel} {holds : List Table → Table → Prop}

/-- The story of the kernel and its table are as a chronicle says. -/
def Recorded (holds : List Table → Table → Prop) (k : Kernel) : Prop := holds k.story.tables k.table

theorem Recorded.echoes (recorded : k.Recorded holds) (echoes : k.Echoes k') : k'.Recorded holds := by
  obtain ⟨more, story, quiet⟩ := echoes.story
  unfold Recorded at *
  rw [echoes.table, story, Story.tables_append_of_silent ?_]
  · exact recorded
  · intro instruction member
    have quiet := quiet instruction member
    cases instruction with
    | table => exact quiet.elim
    | _ => rfl

theorem lasts_recorded (holds : List Table → Table → Prop) : Lasts (Recorded holds) := by
  intro k k' recorded spares
  obtain ⟨more, story, plain⟩ := spares.story
  unfold Recorded at *
  rw [spares.table, story, Story.tables_append_of_silent ?_]
  · exact recorded
  · intro instruction member
    have plain := (plain instruction member).1
    cases instruction with
    | table => exact plain.elim
    | _ => rfl

theorem recorded_withTable_iff {t : Table} : (k.withTable t).Recorded holds ↔ holds (k.story.tables ++ [t]) t := by
  rw [Recorded, story_withTable, Story.tables_append]
  rfl

theorem recorded_note_iff (k : Kernel) {instruction : Instruction} (silent : instruction.table? = none) :
    Recorded holds { k with cpu := k.cpu.note instruction } ↔ k.Recorded holds := by
  have story : Kernel.story { k with cpu := k.cpu.note instruction } = k.story ++ [instruction] :=
    (story_note k instruction).symm
  rw [Recorded, story, Story.tables_append_of_silent (by simpa using silent)]
  rfl

/-- A piece of work on the table is noted. -/
theorem recorded_of_meets {action : Machine Table α} {stopped : Table → Prop}
    (meets : action.Meets k.table (fun _ t => holds (k.story.tables ++ [t]) t) stopped) :
    action.Meets k.table (fun _ t => (k.withTable t).Recorded holds) stopped :=
  meets.mono (fun _ _ => recorded_withTable_iff.mpr) fun _ => id

end Kernel

namespace Chronicle
variable {holds : List Table → Table → Prop} {ω α : Type}

/-- A chronicle is an invariant of the system. -/
def upkeep (chronicle : Chronicle holds) (ω : Type) : Upkeep ω where
  keeps s := s.kernel.Recorded holds
  rings s := s.kernel.Recorded holds
  stopped s := s.kernel.Recorded holds
  excuse _ recorded := recorded
  passes _ _ recorded passes := recorded.echoes passes.toEchoes
  dispatches s i recorded orderly eligible :=
    recorded_of_meets (chronicle.dispatches _ s.kernel.table i recorded orderly eligible)
  saves s i sp recorded := (chronicle.saves _ s.kernel.table i sp recorded).mono
    (fun _ _ => recorded_withTable_iff.mpr) fun _ => recorded_withTable_iff.mpr
  sleeps s ms _ recorded orderly busy := by
    have below : Ticks.saturate (s.kernel.ticks + Ticks.ofMs ms) < wordLimit :=
      Nat.lt_of_le_of_lt (Nat.min_le_right ..) (by decide)
    refine (recorded_of_meets (chronicle.sleeps _ s.kernel.table _ below recorded orderly busy)).mono ?_ fun _ => id
    rintro (_ | _) t recorded
    · exact recorded
    · exact (recorded_note_iff (s.kernel.withTable t) rfl).mpr recorded
  retires s recorded orderly busy := System.meets_onKernel.mpr <|
    (lasts_recorded holds).meets_retire recorded (fun _ => id)
      (recorded_of_meets (chronicle.ends _ s.kernel.table recorded orderly busy))
  ticks s recorded := by
    have rung : s.kernel.rung.Recorded holds := (recorded_note_iff s.kernel rfl).mpr recorded
    split <;> exact rung
  masks s recorded := (recorded_note_iff s.kernel rfl).mpr recorded
  wakes s recorded := recorded_of_meets (chronicle.wakes _ s.kernel.table _ recorded)
  nobody _ recorded _ := recorded

theorem hosts (chronicle : Chronicle holds) : (chronicle.upkeep ω).Hosts (Recorded holds) where
  keeps _ := Iff.rfl
  stopped _ := Iff.rfl
  lasts := lasts_recorded holds
  boots k recorded := recorded_of_meets (chronicle.boots _ k.table recorded)
  founds k stack sp recorded := recorded_of_meets (chronicle.founds _ k.table stack sp recorded)
  adds k stack sp recorded := recorded_of_meets (chronicle.adds _ k.table stack sp recorded)

/-- It is true along every run of a program. -/
theorem recorded (chronicle : Chronicle holds) {program : Machine (System ω) α} (isProgram : Program program)
    {m : Memory} {cpu : Processor} (unused : cpu.trace = #[]) {outside : ω} {outcome : Except Fault α} {s : System ω}
    (ran : program.runFrom ⟨Kernel.initial m cpu, outside⟩ = (outcome, s)) : s.kernel.Recorded holds := by
  have untold : (Kernel.initial m cpu).story = [] := by rw [Kernel.story, Kernel.initial, unused]
  have first : (Kernel.initial m cpu).Recorded holds := by
    rw [Recorded, untold]
    exact chronicle.empty
  have upholds := isProgram.upholds chronicle.hosts [] ⟨Kernel.initial m cpu, outside⟩ ⟨stands_initial m unused, first⟩
  cases outcome with
  | error fault => exact upholds.fault ran
  | ok a => exact (upholds.result ran).keeps

end Chronicle
end KernelCore
