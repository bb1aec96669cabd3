import KernelCore.Proofs.Kernel.Contract

namespace KernelCore

/-- A notice that the heap refused to take back the stack of a task. -/
def Kernel.Notice.IsLoss : Kernel.Notice → Prop
  | stackNotReleased .. | exitStackNotReleased .. => True
  | heap _ | booted .. | stackRefused _ | tableFull | created .. | exited _ | selfWait _ | task _ | woke .. => False

namespace Kernel
open Machine
variable {k : Kernel} {stopped : Kernel → Prop} {giveUp : Nat → Machine Kernel Unit} {entry arg : Nat}

theorem meets_prepareStack_of {stack size : Nat} {post : Nat → Kernel → Prop}
    (faults : ∀ fault, Frame.lay k.arena.memory stack size
      ⟨entry, arg, k.cpu.landmarks.onReturn, k.cpu.landmarks.trampoline⟩ = .error fault → stopped k)
    (lays : ∀ sp m, Frame.lay k.arena.memory stack size
      ⟨entry, arg, k.cpu.landmarks.onReturn, k.cpu.landmarks.trampoline⟩ = .ok (sp, m) →
        post sp (withArena { k with cpu := k.cpu.note (.prepare sp entry arg) } { k.arena with memory := m })) :
    (prepareStack stack size entry arg).Meets k post stopped := by
  unfold prepareStack
  rw [meets_bind, meets_get]
  dsimp only
  rw [meets_bind]
  cases laid : Frame.lay k.arena.memory stack size _ with
  | error fault => exact faults fault laid
  | ok frame => exact lays frame.1 frame.2 laid

/-- The stages on the way to a stack: it is `given` by the heap, or that is `declined`. The size of a stack is a
parameter, so that nothing computes with it. -/
theorem meets_newStack_of {size : Nat} (same : Config.taskStackSize = size) {declined : HeapError → Kernel → Prop}
    {given : Nat → Kernel → Prop} {refused : TaskError → Kernel → Prop} {fresh : Nat × Nat → Kernel → Prop}
    (allocates : (tryHeap (Arena.allocate size)).Meets k (Splits declined given) stopped)
    (reports : ∀ cause l, declined cause l →
      (report (.stackRefused cause)).Meets l (fun _ => refused (.stackAllocation cause)) stopped)
    (prepares : ∀ stack l, given stack l →
      (prepareStack stack size entry arg).Meets l (fun sp => fresh (stack, sp)) stopped) :
    (newStack entry arg).Meets k (Splits refused fresh) stopped := by
  unfold newStack
  rw [same]
  refine allocates.bind ?_
  rintro (cause | stack) l holds
  · exact (reports cause l holds).bind fun _ _ holds => holds
  · exact (prepares stack l holds).bind fun _ _ holds => holds

theorem meets_releaseStack_of {stack : Nat} {post : Kernel → Prop} {lost : HeapError → Kernel → Prop}
    (gives : (tryHeap (Arena.release stack)).Meets k (Splits lost fun _ => post) stopped)
    (loses : ∀ cause l, lost cause l → (report (.stackNotReleased stack cause)).Meets l (fun _ => post) stopped) :
    (releaseStack stack).Meets k (fun _ => post) stopped := by
  unfold releaseStack
  refine gives.bind ?_
  rintro (cause | ⟨⟩) l holds
  · exact loses cause l holds
  · exact holds

/-- Makes the first tasks as `boot` does, but for what is done with a stack that no task was started on. -/
def bootOr (giveUp : Nat → Machine Kernel Unit) : Machine Kernel (Except TaskError Nat) := do
  let k ← get
  if 0 < k.table.tasks.size then return .error .alreadyInitialized
  match ← newStack k.cpu.landmarks.idleEntry 0 with
  | .error cause => pure (.error cause)
  | .ok (stack, sp) =>
    match ← tryTable (adopt stack sp) with
    | .ok (boot, idle) =>
      report (.booted boot idle)
      pure (.ok boot)
    | .error cause =>
      giveUp stack
      pure (.error cause)

/-- Makes a task as `create` does, but for what is done with a stack that no task was started on. -/
def createOr (giveUp : Nat → Machine Kernel Unit) (entry arg : Nat) : Machine Kernel (Except TaskError Nat) := do
  let k ← get
  if k.table.isInitialized = false then return .error .notInitialized
  if k.table.isFull then
    report .tableFull
    return .error .tableFull
  match ← newStack entry arg with
  | .error cause => pure (.error cause)
  | .ok (stack, sp) =>
    match ← tryTable (Table.add (some stack) sp TaskFlags.none) with
    | .ok pid =>
      report (.created pid stack sp)
      pure (.ok pid)
    | .error cause =>
      giveUp stack
      pure (.error cause)

theorem bootOr_releaseStack : bootOr releaseStack = boot := rfl

theorem createOr_releaseStack : createOr releaseStack = create := rfl

/-- The stages on the way to the first tasks: there is a `fresh` stack for the idle task, and the tasks have `joined`
the table, or it has `refused` them. -/
theorem meets_bootOr_of {post : Except TaskError Nat → Kernel → Prop} {fresh joined : Nat × Nat → Kernel → Prop}
    {refused : Nat → TaskError → Kernel → Prop}
    (used : 0 < k.table.tasks.size → post (.error .alreadyInitialized) k)
    (makes : k.table.tasks.size = 0 → (newStack k.cpu.landmarks.idleEntry 0).Meets k
      (Splits (fun cause => post (.error cause)) fresh) stopped)
    (adopts : ∀ stack sp l, fresh (stack, sp) l →
      (tryTable (adopt stack sp)).Meets l (Splits (refused stack) joined) stopped)
    (gives : ∀ stack cause l, refused stack cause l → (giveUp stack).Meets l (fun _ => post (.error cause)) stopped)
    (reports : ∀ boot idle l, joined (boot, idle) l →
      (report (.booted boot idle)).Meets l (fun _ => post (.ok boot)) stopped) :
    (bootOr giveUp).Meets k post stopped := by
  unfold bootOr
  rw [meets_bind, meets_get]
  split
  · exact used ‹_›
  rename_i vacant
  refine (makes (Nat.eq_zero_of_not_pos vacant)).bind ?_
  rintro (cause | ⟨stack, sp⟩) l made
  · exact made
  refine (adopts stack sp l made).bind ?_
  rintro (cause | ⟨boot, idle⟩) l adopted
  · exact (gives stack cause l adopted).bind fun _ _ holds => holds
  · exact (reports boot idle l adopted).bind fun _ _ holds => holds

/-- The stages on the way to one more task. -/
theorem meets_createOr_of {post : Except TaskError Nat → Kernel → Prop} {fresh : Nat × Nat → Kernel → Prop}
    {refused : Nat → TaskError → Kernel → Prop} {joined : Nat → Kernel → Prop}
    (early : k.table.isInitialized = false → post (.error .notInitialized) k)
    (late : k.table.isFull = true → (report .tableFull).Meets k (fun _ => post (.error .tableFull)) stopped)
    (makes : k.table.isInitialized = true → k.table.isFull = false →
      (newStack entry arg).Meets k (Splits (fun cause => post (.error cause)) fresh) stopped)
    (adds : ∀ stack sp l, fresh (stack, sp) l →
      (tryTable (Table.add (some stack) sp .none)).Meets l (Splits (refused stack) joined) stopped)
    (gives : ∀ stack cause l, refused stack cause l → (giveUp stack).Meets l (fun _ => post (.error cause)) stopped)
    (reports : ∀ pid stack sp l, joined pid l →
      (report (.created pid stack sp)).Meets l (fun _ => post (.ok pid)) stopped) :
    (createOr giveUp entry arg).Meets k post stopped := by
  unfold createOr
  rw [meets_bind, meets_get]
  split
  · exact early ‹_›
  rename_i initialized
  split
  · exact (late ‹_›).bind fun _ _ holds => holds
  rename_i room
  refine (makes (eq_true_of_ne_false initialized) (eq_false_of_ne_true room)).bind ?_
  rintro (cause | ⟨stack, sp⟩) l made
  · exact made
  refine (adds stack sp l made).bind ?_
  rintro (cause | pid) l added
  · exact (gives stack cause l added).bind fun _ _ holds => holds
  · exact (reports pid stack sp l added).bind fun _ _ holds => holds

/-- What one thing is true of at every stage is true of at the end. -/
theorem meets_boot_of {post : Kernel → Prop} {fresh : Nat × Nat → Kernel → Prop} {refused : Nat → Kernel → Prop}
    (holds : post k)
    (makes : (newStack k.cpu.landmarks.idleEntry 0).Meets k (Splits (fun _ => post) fresh) stopped)
    (adopts : ∀ stack sp l, fresh (stack, sp) l →
      (tryTable (adopt stack sp)).Meets l (Splits (fun _ => refused stack) fun _ => post) stopped)
    (gives : ∀ stack l, refused stack l → (releaseStack stack).Meets l (fun _ => post) stopped)
    (reports : ∀ l (notice : Notice), ¬notice.IsLoss → post l → (report notice).Meets l (fun _ => post) stopped) :
    boot.Meets k (fun _ => post) stopped :=
  bootOr_releaseStack ▸ meets_bootOr_of (fun _ => holds) (fun _ => makes) adopts (fun stack _ => gives stack)
    fun _ _ l => reports l _ id

theorem meets_create_of {post : Kernel → Prop} {fresh : Nat × Nat → Kernel → Prop} {refused : Nat → Kernel → Prop}
    (holds : post k) (makes : (newStack entry arg).Meets k (Splits (fun _ => post) fresh) stopped)
    (adds : ∀ stack sp l, fresh (stack, sp) l →
      (tryTable (Table.add (some stack) sp .none)).Meets l (Splits (fun _ => refused stack) fun _ => post) stopped)
    (gives : ∀ stack l, refused stack l → (releaseStack stack).Meets l (fun _ => post) stopped)
    (reports : ∀ l (notice : Notice), ¬notice.IsLoss → post l → (report notice).Meets l (fun _ => post) stopped) :
    (create entry arg).Meets k (fun _ => post) stopped :=
  createOr_releaseStack ▸ meets_createOr_of (fun _ => holds) (fun _ => reports k _ id holds) (fun _ _ => makes)
    adds (fun stack _ => gives stack) fun _ _ _ l => reports l _ id

/-- The stages on the way out: the running task has exited and its stack, if it has one, is left over, and then goes
back to the heap. -/
theorem meets_retire_of {post : Kernel → Prop} {left : Option Nat → Kernel → Prop} {lost : HeapError → Kernel → Prop}
    (unknown : ∀ fault, k.table.currentPid = .error fault → stopped k)
    (ends : (onTable Table.terminateCurrent).Meets k left stopped) (without : ∀ l, left none l → post l)
    (gives : ∀ stack l, left (some stack) l →
      (tryHeap (Arena.release stack)).Meets l (Splits lost fun _ => post) stopped)
    (loses : ∀ pid cause l, lost cause l → (report (.exitStackNotReleased pid cause)).Meets l (fun _ => post) stopped)
    (reports : ∀ pid l, post l → (report (.exited pid)).Meets l (fun _ => post) stopped) :
    retire.Meets k (fun _ => post) stopped := by
  unfold retire currentPid
  rw [meets_bind, meets_bind, meets_get]
  cases known : k.table.currentPid with
  | error fault => exact unknown fault known
  | ok pid =>
    refine ends.bind ?_
    rintro (none | stack) l vacated
    · exact reports pid l (without l vacated)
    refine (gives stack l vacated).bind ?_
    rintro (cause | ⟨⟩) l holds
    · exact (loses pid cause l holds).bind fun _ l => reports pid l
    · exact reports pid l holds

end Kernel
end KernelCore
