import KernelCore.Proofs.Kernel.Masking
import KernelCore.Proofs.Kernel.Sleeping
import KernelCore.Proofs.Task.Moves

namespace KernelCore
open Machine Kernel

namespace Table
variable {α : Type} {t : Table} {i : Nat}

/-- What a move carries out leads on, if it comes to its end. -/
theorem Reached.meets_move {action : Machine Table α} {post : α → Table → Prop} (reached : t.Reached) (move : Move)
    (performs : move.perform = do let _ ← action; pure []) (meets : action.Meets t post fun _ => False) :
    action.Meets t (fun _ => Reached) fun _ => False := by
  obtain ⟨a, u, ran, -⟩ := meets.returns fun _ => id
  have moved : move.perform.runFrom t = (.ok [], u) := by
    rw [performs, runFrom_bind, ran]
    rfl
  exact .of_runFrom ran (.move reached moved)

theorem Eligible.lt_size (eligible : t.Eligible i) : i < t.tasks.size := by
  have handed : ∀ state, t.stateAt i = some state → i < t.tasks.size := by
    intro state here
    obtain ⟨task, atI, -⟩ := exists_of_stateAt here
    exact (Array.getElem?_eq_some_iff.mp atI).1
  rcases eligible with ⟨-, state, here, -⟩ | ⟨c, -, -, here⟩
  · exact handed state here
  · exact handed .ready here

theorem Reached.meets_dispatch (reached : t.Reached) (eligible : t.Eligible i) :
    (Table.dispatch i).Meets t (fun _ => Reached) fun _ => False := by
  obtain ⟨c, now⟩ : ∃ c, t.current = some c := by
    rcases eligible with ⟨now, -⟩ | ⟨c, now, -⟩
    · exact ⟨i, now⟩
    · exact ⟨c, now⟩
  obtain ⟨handover, u, ran, -⟩ :=
    (meets_dispatch_rests reached.regular.manned now eligible.lt_size).returns fun _ => id
  exact .of_runFrom ran (.dispatch reached ran)

theorem Reached.meets_saveStackPointer (reached : t.Reached) (i sp : Nat) :
    (saveStackPointer i sp).Meets t (fun _ => Reached) Reached := by
  rcases ran : (saveStackPointer i sp).runFrom t with ⟨_ | ⟨⟩, u⟩
  · have unchanged : (saveStackPointer i sp).Meets t (fun _ _ => True) (· = t) := meets_update (fun _ _ => trivial) rfl
    obtain rfl : u = t := unchanged.fault ran
    rw [Meets, ran]
    exact reached
  · exact .of_runFrom ran (.save reached ran)

theorem Reached.meets_adoptBoot (reached : t.Reached) : adoptBoot.run.Meets t (fun _ => Reached) fun _ => False :=
  reached.meets_move .adopt rfl (meets_adoptBoot_ringed reached.regular.ringed)

theorem Reached.meets_add (reached : t.Reached) (stack : Option Nat) (sp : Nat) (flags : TaskFlags) :
    (add stack sp flags).run.Meets t (fun _ => Reached) fun _ => False :=
  reached.meets_move (.add stack sp flags) rfl (meets_add_grown reached.regular.ringed stack sp flags)

theorem Reached.meets_adopt (reached : t.Reached) (stack sp : Nat) :
    (adopt stack sp).run.Meets t (fun _ => Reached) fun _ => False := by
  unfold adopt
  refine reached.meets_adoptBoot.run_bind ?_ fun _ _ reached => reached
  intro boot u reached
  exact (reached.meets_add (some stack) sp .idle).run_bind (fun _ _ reached => reached) fun _ _ reached => reached

theorem Reached.meets_blockCurrent (reached : t.Reached) (wake : Nat) :
    (blockCurrent wake).Meets t (fun _ => Reached) fun _ => False :=
  reached.meets_move (.block wake) rfl (meets_blockCurrent_alone reached.regular.manned wake)

theorem Reached.meets_terminateCurrent (reached : t.Reached) :
    terminateCurrent.Meets t (fun _ => Reached) fun _ => False :=
  reached.meets_move .terminate rfl (meets_terminateCurrent_alone reached.regular.manned)

theorem Reached.meets_wakeDue (reached : t.Reached) (now : Nat) :
    (wakeDue now).Meets t (fun _ => Reached) fun _ => False :=
  reached.meets_move (.wake now) rfl (meets_wakeDue_rests now)

end Table

namespace Kernel
variable {α : Type} {k k' l : Kernel} {inv : Kernel → Prop}

/-- Work that leaves the tasks alone, and in which the processor stays with the running one. -/
structure Spares (k k' : Kernel) : Prop where
  table : k'.table = k.table
  ticks : k'.ticks = k.ticks
  story : ∃ more : Story, k'.story = k.story ++ more ∧ ∀ instruction ∈ more, instruction.IsPlain ∧ ¬instruction.GivesWay

theorem Spares.note (k : Kernel) {instruction : Instruction} (plain : instruction.IsPlain)
    (stays : ¬instruction.GivesWay) : k.Spares { k with cpu := k.cpu.note instruction } :=
  ⟨rfl, rfl, [instruction], (story_note k instruction).symm, by simpa using ⟨plain, stays⟩⟩

theorem spares_of_echoes (echoes : k.Echoes k') (acts : k.Acts k') : k.Spares k' := by
  obtain ⟨more, story, quiet⟩ := echoes.story
  obtain ⟨same, story', asides⟩ := acts.story
  obtain rfl := List.append_cancel_left (story.symm.trans story')
  refine ⟨echoes.table, echoes.ticks, more, story, ?_⟩
  intro instruction member
  have quiet := quiet instruction member
  have aside := asides instruction member
  cases instruction with
  | table => exact quiet.elim
  | switch | wait => exact aside.elim
  | _ => exact ⟨trivial, id⟩

/-- Work that goes unnoticed by the tasks, the clock and the interrupt flag. -/
structure Eludes (k k' : Kernel) : Prop extends Echoes k k' where
  acts : k.Acts k'

theorem Eludes.spares (eludes : k.Eludes k') : k.Spares k' := spares_of_echoes eludes.toEchoes eludes.acts

theorem eludes_report (k : Kernel) (notice : Notice) :
    k.Eludes { k with journal := k.journal.push (k.ticks, notice) } :=
  ⟨echoes_report k notice, .of_eq rfl rfl rfl⟩

theorem Spares.report (k : Kernel) (notice : Notice) :
    k.Spares { k with journal := k.journal.push (k.ticks, notice) } :=
  (eludes_report k notice).spares

theorem meets_newStack_eludes (entry arg : Nat) : (newStack entry arg).Meets k (fun _ => k.Eludes) k.Eludes :=
  ((meets_newStack_echoes entry arg).both (isActing_newStack entry arg k)).mono
    (fun _ _ both => ⟨both.1, both.2⟩) fun _ both => ⟨both.1, both.2⟩

theorem meets_releaseStack_eludes (stack : Nat) : (releaseStack stack).Meets k (fun _ => k.Eludes) k.Eludes :=
  ((meets_releaseStack_echoes stack).both (isActing_releaseStack stack k)).mono
    (fun _ _ both => ⟨both.1, both.2⟩) fun _ both => ⟨both.1, both.2⟩

theorem meets_onArena_eludes (action : Machine Arena α) : (onArena action).Meets k (fun _ => k.Eludes) k.Eludes :=
  ((meets_onArena_echoes action).both (isActing_onArena action k)).mono
    (fun _ _ both => ⟨both.1, both.2⟩) fun _ both => ⟨both.1, both.2⟩

/-- What survives all work that goes unnoticed. -/
def Bears (inv : Kernel → Prop) : Prop := ∀ k k' : Kernel, inv k → k.Eludes k' → inv k'

theorem Bears.meets {action : Machine Kernel α} (bears : Bears inv) (holds : inv k)
    (eludes : action.Meets k (fun _ => k.Eludes) k.Eludes) : action.Meets k (fun _ => inv) inv :=
  eludes.mono (fun _ k' => bears k k' holds) fun k' => bears k k' holds

theorem Bears.meets_report (bears : Bears inv) (holds : inv k) (notice : Notice) :
    (report notice).Meets k (fun _ => inv) inv :=
  bears _ _ holds (eludes_report k notice)

/-- The boot task and the idle task are added, or nothing becomes of the tasks. -/
theorem Bears.meets_boot (bears : Bears inv) (holds : inv k) (adopts : ∀ k stack sp, inv k →
    (adopt stack sp).run.Meets k.table (fun _ t => inv (k.withTable t)) fun _ => False) :
    boot.Meets k (fun _ => inv) inv :=
  meets_boot_of holds (bears.meets holds (meets_newStack_eludes _ _)).splits
    (fun stack sp l holds => (Kernel.meets_onTable.mpr (adopts l stack sp holds).excused).splits)
    (fun stack _ holds => bears.meets holds (meets_releaseStack_eludes stack)) fun _ notice _ holds =>
      bears.meets_report holds notice

/-- A task is added, or nothing becomes of the tasks. -/
theorem Bears.meets_create (bears : Bears inv) (holds : inv k) (adds : ∀ k stack sp, inv k →
    (Table.add (some stack) sp .none).run.Meets k.table (fun _ t => inv (k.withTable t)) fun _ => False)
    (entry arg : Nat) : (create entry arg).Meets k (fun _ => inv) inv :=
  meets_create_of holds (bears.meets holds (meets_newStack_eludes _ _)).splits
    (fun stack sp l holds => (Kernel.meets_onTable.mpr (adds l stack sp holds).excused).splits)
    (fun stack _ holds => bears.meets holds (meets_releaseStack_eludes stack)) fun _ notice _ holds =>
      bears.meets_report holds notice

/-- Of a task that exits nothing else is of concern to the tasks. -/
theorem Bears.meets_retire {pre : Kernel → Prop} (bears : Bears inv) (holds : pre k) (less : ∀ k, pre k → inv k)
    (ends : Table.terminateCurrent.Meets k.table (fun _ t => inv (k.withTable t)) fun _ => False) :
    retire.Meets k (fun _ => inv) inv :=
  meets_retire_of (fun _ _ => less k holds) (Kernel.meets_onTable.mpr ends.excused) (fun _ => id)
    (fun _ _ holds => (bears.meets holds (meets_onArena_eludes _)).splits)
    (fun _ _ _ holds => bears.meets_report holds _) fun _ _ holds => bears.meets_report holds _

/-- What survives all work that is of no concern to the tasks. -/
def Lasts (inv : Kernel → Prop) : Prop := ∀ k k' : Kernel, inv k → k.Spares k' → inv k'

theorem Lasts.bears (lasts : Lasts inv) : Bears inv := fun k k' holds eludes => lasts k k' holds eludes.spares

theorem meets_newStack_spares (entry arg : Nat) : (newStack entry arg).Meets k (fun _ => k.Spares) k.Spares :=
  (meets_newStack_eludes entry arg).mono (fun _ _ => Eludes.spares) fun _ => Eludes.spares

theorem meets_releaseStack_spares (stack : Nat) : (releaseStack stack).Meets k (fun _ => k.Spares) k.Spares :=
  (meets_releaseStack_eludes stack).mono (fun _ _ => Eludes.spares) fun _ => Eludes.spares

theorem meets_onArena_spares (action : Machine Arena α) : (onArena action).Meets k (fun _ => k.Spares) k.Spares :=
  (meets_onArena_eludes action).mono (fun _ _ => Eludes.spares) fun _ => Eludes.spares

theorem Lasts.meets {action : Machine Kernel α} (lasts : Lasts inv) (holds : inv k)
    (spares : action.Meets k (fun _ => k.Spares) k.Spares) : action.Meets k (fun _ => inv) inv :=
  spares.mono (fun _ k' => lasts k k' holds) fun k' => lasts k k' holds

theorem Lasts.meets_boot (lasts : Lasts inv) (holds : inv k) (adopts : ∀ k stack sp, inv k →
    (adopt stack sp).run.Meets k.table (fun _ t => inv (k.withTable t)) fun _ => False) :
    boot.Meets k (fun _ => inv) inv :=
  lasts.bears.meets_boot holds adopts

theorem Lasts.meets_create (lasts : Lasts inv) (holds : inv k) (adds : ∀ k stack sp, inv k →
    (Table.add (some stack) sp .none).run.Meets k.table (fun _ t => inv (k.withTable t)) fun _ => False)
    (entry arg : Nat) : (create entry arg).Meets k (fun _ => inv) inv :=
  lasts.bears.meets_create holds adds entry arg

theorem Lasts.meets_retire {pre : Kernel → Prop} (lasts : Lasts inv) (holds : pre k) (less : ∀ k, pre k → inv k)
    (ends : Table.terminateCurrent.Meets k.table (fun _ t => inv (k.withTable t)) fun _ => False) :
    retire.Meets k (fun _ => inv) inv :=
  lasts.bears.meets_retire holds less ends

end Kernel

theorem lasts_reached : Lasts fun k => k.table.Reached := by
  intro k k' reached spares
  rwa [spares.table]

/-- The table is one of those that can come about. -/
def attainment (ω : Type) : Upkeep ω where
  keeps s := s.kernel.table.Reached
  rings s := s.kernel.table.Reached
  stopped s := s.kernel.table.Reached
  excuse _ reached := reached
  passes _ _ reached passes := passes.table ▸ reached
  dispatches _ _ reached _ eligible := reached.meets_dispatch eligible
  saves _ i sp reached := reached.meets_saveStackPointer i sp
  sleeps _ _ _ reached _ _ := (reached.meets_blockCurrent _).mono
    (fun done _ reached => by cases done <;> exact reached) fun _ => id
  retires s reached _ _ := System.meets_onKernel.mpr <|
    lasts_reached.meets_retire reached (fun _ => id) reached.meets_terminateCurrent
  ticks _ reached := by split <;> exact reached
  masks _ reached := reached
  wakes _ reached := reached.meets_wakeDue _
  nobody _ reached _ := reached

variable {ω α : Type} {u : Upkeep ω} {inv : Kernel → Prop}

/-- The invariant speaks of the kernel alone, and what programs do besides giving the processor away keeps it. -/
structure Upkeep.Shelters (u : Upkeep ω) (inv : Kernel → Prop) : Prop where
  keeps : ∀ s, u.keeps s ↔ inv s.kernel
  stopped : ∀ s, u.stopped s ↔ inv s.kernel
  bears : Bears inv
  boots : ∀ k, inv k → Table.adoptBoot.run.Meets k.table (fun _ t => inv (k.withTable t)) fun _ => False
  founds : ∀ k stack sp, inv k → (adopt stack sp).run.Meets k.table (fun _ t => inv (k.withTable t)) fun _ => False
  adds : ∀ k stack sp, inv k →
    (Table.add (some stack) sp .none).run.Meets k.table (fun _ t => inv (k.withTable t)) fun _ => False

namespace Upkeep.Shelters

theorem congr (shelters : u.Shelters inv) {s t : System ω} (keeps : u.keeps s) (same : t.kernel = s.kernel) :
    u.keeps t :=
  (shelters.keeps t).mpr (same ▸ (shelters.keeps s).mp keeps)

/-- Of what works on the kernel alone it is known what it means for the tasks. -/
theorem carries (shelters : u.Shelters inv) {action : Machine Kernel α} {ongoing : List Activity}
    (stands : (System.onKernel action : Machine (System ω) α).Carries (Stands ongoing false True)
      (Stands ongoing false True)) (works : ∀ k, inv k → action.Meets k (fun _ => inv) inv) :
    u.Carries (System.onKernel action) (u.Holds ongoing false True) (u.Holds ongoing false True) :=
  Upkeep.carries_of_stands stands fun s holds => System.meets_onKernel.mpr <|
    (works s.kernel ((shelters.keeps s).mp holds.keeps)).mono (fun _ k => (shelters.keeps { s with kernel := k }).mpr)
      fun k => (shelters.stopped { s with kernel := k }).mpr

end Upkeep.Shelters

theorem Clockwork.sheltered (shelters : u.Shelters inv) {action : Machine (System ω) α} (clockwork : Clockwork action)
    (ongoing : List Activity) : u.Carries action (u.Holds ongoing true False) (u.Holds ongoing true False) := by
  induction clockwork with
  | pure a => exact fun s holds => holds
  | throw fault => exact fun s holds => holds.excuse
  | bind _ _ first rest => exact first.bind rest
  | get => exact fun s holds => holds
  | outside change => exact fun s holds => ⟨holds.stands, shelters.congr holds.keeps rfl⟩
  | tick env =>
    exact fun s holds => (Upkeep.carries_tick (by simp) s holds).mono (fun _ _ holdsT => holdsT.weaken False.elim)
      fun _ => id

theorem Program.sheltered (shelters : u.Shelters inv) {program : Machine (System ω) α} (isProgram : Program program)
    (ongoing : List Activity) : u.Carries program (u.Holds ongoing false True) (u.Holds ongoing false True) := by
  induction isProgram generalizing ongoing with
  | pure a => exact fun s holds => holds
  | throw fault => exact fun s holds => holds.excuse
  | bind _ _ first rest => exact (first ongoing).bind fun a => rest a ongoing
  | get => exact fun s holds => holds
  | outside change => exact fun s holds => ⟨holds.stands, shelters.congr holds.keeps rfl⟩
  | mask => exact fun s holds => holds.mask
  | unmask => exact fun s holds => holds.unmask
  | report notice =>
    exact shelters.carries ((Program.report notice).carries ongoing) fun _ holds =>
      shelters.bears.meets_report holds notice
  | heap action =>
    exact shelters.carries ((Program.heap action).carries ongoing) fun _ holds =>
      shelters.bears.meets holds (meets_onArena_eludes action)
  | adopt =>
    exact shelters.carries (Program.adopt.carries ongoing) fun k holds =>
      meets_onTable.mpr (shelters.boots k holds).excused
  | boot =>
    exact Upkeep.carries_masked Upkeep.Holds.mask Upkeep.Holds.unmask <|
      shelters.carries (carries_onKernel fun _ stands => Kernel.meets_boot stands) fun _ holds =>
        shelters.bears.meets_boot holds shelters.founds
  | create entry arg =>
    exact Upkeep.carries_masked Upkeep.Holds.mask Upkeep.Holds.unmask <|
      shelters.carries (carries_onKernel fun _ stands => Kernel.meets_create stands entry arg) fun _ holds =>
        shelters.bears.meets_create holds shelters.adds entry arg
  | turn env turn parked _ away =>
    exact Upkeep.carries_turn ⟨fun ongoing => parked.sheltered shelters _, fun ongoing => away _⟩ turn

/-- The same of an invariant that survives even more. -/
structure Upkeep.Hosts (u : Upkeep ω) (inv : Kernel → Prop) : Prop where
  keeps : ∀ s, u.keeps s ↔ inv s.kernel
  stopped : ∀ s, u.stopped s ↔ inv s.kernel
  lasts : Lasts inv
  boots : ∀ k, inv k → Table.adoptBoot.run.Meets k.table (fun _ t => inv (k.withTable t)) fun _ => False
  founds : ∀ k stack sp, inv k → (adopt stack sp).run.Meets k.table (fun _ t => inv (k.withTable t)) fun _ => False
  adds : ∀ k stack sp, inv k →
    (Table.add (some stack) sp .none).run.Meets k.table (fun _ t => inv (k.withTable t)) fun _ => False

theorem Upkeep.Hosts.shelters (hosts : u.Hosts inv) : u.Shelters inv :=
  ⟨hosts.keeps, hosts.stopped, hosts.lasts.bears, hosts.boots, hosts.founds, hosts.adds⟩

theorem Program.upholds (hosts : u.Hosts inv) {program : Machine (System ω) α} (isProgram : Program program)
    (ongoing : List Activity) : u.Carries program (u.Holds ongoing false True) (u.Holds ongoing false True) :=
  isProgram.sheltered hosts.shelters ongoing

theorem hosts_attainment : (attainment ω).Hosts fun k => k.table.Reached where
  keeps _ := Iff.rfl
  stopped _ := Iff.rfl
  lasts := lasts_reached
  boots _ reached := reached.meets_adoptBoot
  founds _ stack sp reached := reached.meets_adopt stack sp
  adds _ stack sp reached := reached.meets_add (some stack) sp .none

/-- Along every run of a program the task table is one of those that can come about, and no task runs but the current
one. -/
theorem Program.table_reached {program : Machine (System ω) α} (isProgram : Program program) {m : Memory}
    {cpu : Processor} (unused : cpu.trace = #[]) {outside : ω} {outcome : Except Fault α} {s : System ω}
    (ran : program.runFrom ⟨Kernel.initial m cpu, outside⟩ = (outcome, s)) :
    s.kernel.table.Reached ∧ s.kernel.Told := by
  have start : (attainment ω).Holds [] false True ⟨Kernel.initial m cpu, outside⟩ :=
    ⟨stands_initial m unused, .empty⟩
  have attains := isProgram.upholds hosts_attainment [] _ start
  have told := isProgram.carries [] ⟨Kernel.initial m cpu, outside⟩ start.stands
  cases outcome with
  | error fault => exact ⟨attains.fault ran, told.fault ran⟩
  | ok a => exact ⟨(attains.result ran).keeps, (told.result ran).told⟩

end KernelCore
