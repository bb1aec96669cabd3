import KernelCore.Proofs.Heap.Planned
import KernelCore.Proofs.Kernel.Frames
import KernelCore.Proofs.Kernel.Tables
import KernelCore.Proofs.Task.Newcomers

namespace KernelCore
open Machine

theorem Machine.Meets.runFrom_bind_congr {σ α β : Type} {action : Machine σ α} {next next' : α → Machine σ β} {s : σ}
    {mid : α → σ → Prop} {stopped : σ → Prop} (first : action.Meets s mid stopped)
    (same : ∀ a t, mid a t → (next a).runFrom t = (next' a).runFrom t) :
    (action >>= next).runFrom s = (action >>= next').runFrom s := by
  rw [runFrom_bind, runFrom_bind]
  rcases ran : action.runFrom s with ⟨_ | a, t⟩
  · rfl
  · exact same a t (first.result ran)

namespace Arena
open Parcel
variable {a b : Arena} {r : Region} {plan plan' : List Parcel} {x : Parcel} {deeds : List Holding} {size ptr : Nat}

/-- The heap has no region yet, or it is as its operations leave it. -/
inductive Ready (a : Arena) : Prop where
  | bare (none : a.heap.region = none)
  | proper {r : Region} {blocks : List Block} (proper : a.Proper r blocks)

theorem Backs.ready (backs : a.Backs deeds) : a.Ready := by
  cases backs with
  | bare none => exact .bare none
  | sound sound perm => exact .proper sound.arena.proper

/-- One more block is allocated, with at least `size` bytes from the address `ptr` on. What the blocks hold that were
allocated before is the same. -/
structure Grants (size : Nat) (a : Arena) (ptr : Nat) (b : Arena) : Prop where
  region : b.heap.region = a.heap.region
  fresh : ∃ r block, a.heap.region = some r ∧ ptr = r.payload block.off ∧ size ≤ block.header.size ∧
    b.allocated.Perm (block :: a.allocated)
  kept : ∀ r, a.heap.region = some r → ∀ block ∈ a.allocated, ∀ addr, block.Holds r addr →
    b.memory.byte addr = a.memory.byte addr
  ready : b.Ready

theorem Granted.grants (sound : a.Sound r plan) (granted : Granted r plan size a x plan' b) :
    a.Grants size (r.payload x.off) b where
  region := granted.sound.shows.region.trans sound.shows.region.symm
  fresh := by
    refine ⟨r, ⟨x.off, Config.heapMagic, 0, x.size, none, none⟩, sound.shows.region, rfl, granted.enough, ?_⟩
    rw [granted.sound.allocated_eq_map, sound.allocated_eq_map]
    exact granted.trade.after.map _
  kept r' region block member addr holds := by
    obtain rfl := Option.some.inj (region.symm.trans sound.shows.region)
    rw [sound.allocated_eq] at member
    obtain ⟨q, inTakens, rfl⟩ := List.mem_map.mp member
    exact granted.trade.byte q inTakens addr ((sound.holds_block inTakens).mp holds)
  ready := .proper granted.sound.proper

theorem Granted.drained (granted : Granted r plan size a x plan' b) : Granted r plan size a x plan' b.drained :=
  ⟨granted.sound.drained, ⟨granted.trade.before, granted.trade.after, granted.trade.byte⟩, granted.nonempty,
    granted.enough⟩

/-- A size that the heap can compute with is granted or refused, and nothing has changed if it is refused. -/
theorem Ready.meets_allocate (ready : a.Ready) {need : Nat}
    (rounded : Word.roundUp? size Config.heapAlignment = some need) (gauged : Gauged need) :
    (allocate size).run.Meets a (fun result b =>
      match result with
      | .error _ => b = a
      | .ok ptr => ∃ r plan x plan', a.Sound r plan ∧ ptr = r.payload x.off ∧ Granted r plan size a x plan' b)
      fun _ => False := by
  cases ready with
  | bare none =>
    refine (meets_allocate_bare none size).mono ?_ fun _ => id
    rintro _ b ⟨rfl, cause, rfl⟩
    rfl
  | proper proper =>
    refine ((meets_grant proper.sound size).both (Arena.meets_allocate proper.sound size)).mono ?_ ?_
    · rintro (cause | ptr) b ⟨post, -⟩
      · exact post
      · obtain ⟨x, plan', address, granted⟩ := post
        exact ⟨_, _, x, plan', proper.sound, address, granted⟩
    · rintro b ⟨-, p, -, need', rounded', -, large⟩
      obtain rfl := Option.some.inj (rounded.symm.trans rounded')
      exact large gauged

end Arena

namespace Kernel
open Table
variable {k k' : Kernel} {entry arg stack sp : Nat}

/-- The tasks, the heap, the memory and the code that tasks start with are the same. -/
structure Untouched (k k' : Kernel) : Prop where
  table : k'.table = k.table
  heap : k'.arena.heap = k.arena.heap
  memory : k'.arena.memory = k.arena.memory
  landmarks : k'.cpu.landmarks = k.cpu.landmarks

/-- One block was taken from the heap as the stack of a new task, and the frame of the task lies on it. -/
structure Equips (entry arg stack sp : Nat) (k k' : Kernel) : Prop where
  grants : k.arena.Grants Config.taskStackSize stack k'.arena
  frame : Frame.LiesAt k'.arena.memory stack Config.taskStackSize sp
    ⟨entry, arg, k.cpu.landmarks.onReturn, k.cpu.landmarks.trampoline⟩

theorem meets_prepareStack_equips {r : Region} {plan plan' : List Parcel} {x : Parcel} {a : Arena} {size : Nat}
    (sound : a.Sound r plan) (granted : Arena.Granted r plan size a x plan' k.arena) (large : Frame.room ≤ size)
    (entry arg : Nat) : (prepareStack (r.payload x.off) size entry arg).Meets k (fun sp k' => k'.table = k.table ∧
      a.Grants size (r.payload x.off) k'.arena ∧ Frame.LiesAt k'.arena.memory (r.payload x.off) size sp
        ⟨entry, arg, k.cpu.landmarks.onReturn, k.cpu.landmarks.trampoline⟩) fun _ => False := by
  have fits : r.payload x.off + size < wordLimit := by
    have within := (granted.sound.shows.spans.bounds (Parcel.mem_takens.mp granted.mem).1).2
    have enough := granted.enough
    have limit := r.fits
    unfold Parcel.stop at within
    unfold Region.payload
    omega
  obtain ⟨_, _, lays⟩ := Frame.exists_lay (Nat.le_trans (by decide) large) fits k.arena.memory
    ⟨entry, arg, k.cpu.landmarks.onReturn, k.cpu.landmarks.trampoline⟩
  refine meets_prepareStack_of (fun _ failed => by simp [lays] at failed) fun sp m laid => ?_
  obtain ⟨covers, byte⟩ := Frame.lay_within large laid
  exact ⟨rfl, (granted.stored_onMemory covers byte).drained.grants sound, Frame.liesAt_of_lay large granted.covers laid⟩

/-- A stack is refused, and then nothing has changed, or a block of the heap becomes one. -/
theorem meets_newStack_equips (ready : k.arena.Ready) (entry arg : Nat) :
    (newStack entry arg).Meets k (Splits (fun _ => k.Untouched)
      fun fresh k' => k'.table = k.table ∧ k.Equips entry arg fresh.1 fresh.2 k') fun _ => False := by
  have rounded : Word.roundUp? Config.taskStackSize Config.heapAlignment = some Config.taskStackSize := by decide
  have gauged : Parcel.Gauged Config.taskStackSize := by
    unfold Parcel.Gauged
    decide
  have large : Frame.room ≤ Config.taskStackSize := by decide
  have equips : ∀ k' stack sp, k.arena.Grants Config.taskStackSize stack k'.arena ∧
      Frame.LiesAt k'.arena.memory stack Config.taskStackSize sp
        ⟨entry, arg, k.cpu.landmarks.onReturn, k.cpu.landmarks.trampoline⟩ → k.Equips entry arg stack sp k' :=
    fun _ _ _ both => ⟨both.1, both.2⟩
  unfold newStack
  -- The size of a stack is of no concern but for these facts.
  generalize Config.taskStackSize = size at *
  rw [meets_bind, tryHeap, meets_onArena]
  refine (ready.meets_allocate rounded gauged).mono ?_ fun _ => False.elim
  rintro (cause | stack) b post
  · obtain rfl : b = k.arena := post
    exact ⟨rfl, rfl, rfl, rfl⟩
  · obtain ⟨r, plan, x, plan', sound, rfl, granted⟩ := post
    have prepares := meets_prepareStack_equips (k := k.withArena b) sound granted.drained large entry arg
    refine prepares.bind ?_
    rintro sp k' ⟨table, both⟩
    exact ⟨table, equips k' _ sp both⟩

/-- The first tasks have been made, or nothing has changed. -/
def Boots (k : Kernel) (result : Except TaskError Nat) (k' : Kernel) : Prop :=
  match result with
  | .error _ => k.Untouched k'
  | .ok pid => pid = 1 ∧ k.table.tasks.size = 0 ∧ ∃ stack sp, k'.table = founded stack sp ∧
    k.Equips k.cpu.landmarks.idleEntry 0 stack sp k'

/-- One more task has been made, or nothing has changed. -/
def Creates (entry arg : Nat) (k : Kernel) (result : Except TaskError Nat) (k' : Kernel) : Prop :=
  match result with
  | .error _ => k.Untouched k'
  | .ok pid => pid = k.table.tasks.size + 1 ∧ ∃ stack sp,
    k'.table = k.table.joined (k.table.fresh (some stack) sp .none) ∧ k.Equips entry arg stack sp k'

theorem runFrom_tryTable_adopt (regular : k.table.Regular) (vacant : k.table.tasks.size = 0) (stack sp : Nat) :
    (tryTable (adopt stack sp)).runFrom k = (.ok (.ok (1, 2)), k.withTable (founded stack sp)) := by
  rw [tryTable, runFrom_onTable, regular.runFrom_adopt vacant]
  rfl

theorem runFrom_tryTable_add (regular : k.table.Regular) (somebody : k.table.current ≠ none)
    (room : k.table.isFull = false) (stack sp : Nat) : (tryTable (Table.add (some stack) sp .none)).runFrom k =
      (.ok (.ok (k.table.tasks.size + 1)), k.withTable (k.table.joined (k.table.fresh (some stack) sp .none))) := by
  rw [tryTable, runFrom_onTable, regular.runFrom_add somebody room rfl]
  rfl

theorem meets_bootOr (regular : k.table.Regular) (ready : k.arena.Ready) (giveUp : Nat → Machine Kernel Unit) :
    (bootOr giveUp).Meets k k.Boots fun _ => False := by
  have makes : k.table.tasks.size = 0 → (newStack k.cpu.landmarks.idleEntry 0).Meets k
      (Splits (fun _ => k.Untouched) fun fresh l => k.table.tasks.size = 0 ∧ l.table = k.table ∧
        k.Equips k.cpu.landmarks.idleEntry 0 fresh.1 fresh.2 l) fun _ => False := by
    refine fun vacant => (meets_newStack_equips ready _ _).mono ?_ fun _ => id
    rintro (cause | fresh) l post
    · exact post
    · exact ⟨vacant, post⟩
  have adopts : ∀ stack sp l, k.table.tasks.size = 0 ∧ l.table = k.table ∧
      k.Equips k.cpu.landmarks.idleEntry 0 stack sp l → (tryTable (adopt stack sp)).Meets l
        (Splits (fun _ _ => False) fun pids l => k.Boots (.ok pids.1) l) fun _ => False := by
    rintro stack sp l ⟨vacant, table, equips⟩
    refine .of_runFrom (runFrom_tryTable_adopt (table ▸ regular) (table ▸ vacant) stack sp) ?_
    exact ⟨rfl, vacant, stack, sp, rfl, equips.grants, equips.frame⟩
  refine meets_bootOr_of (fun _ => ⟨rfl, rfl, rfl, rfl⟩) makes adopts (fun _ _ _ => False.elim) ?_
  rintro boot idle l ⟨first, vacant, stack, sp, table, equips⟩
  exact ⟨first, vacant, stack, sp, table, equips.grants, equips.frame⟩

theorem meets_createOr (regular : k.table.Regular) (ready : k.arena.Ready) (giveUp : Nat → Machine Kernel Unit)
    (entry arg : Nat) : (createOr giveUp entry arg).Meets k (k.Creates entry arg) fun _ => False := by
  have makes : k.table.isInitialized = true → k.table.isFull = false → (newStack entry arg).Meets k
      (Splits (fun _ => k.Untouched) fun fresh l => (k.table.current ≠ none ∧ k.table.isFull = false) ∧
        l.table = k.table ∧ k.Equips entry arg fresh.1 fresh.2 l) fun _ => False := by
    refine fun initialized room => (meets_newStack_equips ready _ _).mono ?_ fun _ => id
    rintro (cause | fresh) l post
    · exact post
    · exact ⟨⟨by simpa [isInitialized, Option.isSome_iff_ne_none] using initialized, room⟩, post⟩
  have adds : ∀ stack sp l, (k.table.current ≠ none ∧ k.table.isFull = false) ∧ l.table = k.table ∧
      k.Equips entry arg stack sp l → (tryTable (Table.add (some stack) sp .none)).Meets l
        (Splits (fun _ _ => False) fun pid l => k.Creates entry arg (.ok pid) l) fun _ => False := by
    rintro stack sp l ⟨⟨somebody, room⟩, table, equips⟩
    refine .of_runFrom (runFrom_tryTable_add (table ▸ regular) (table ▸ somebody) (table ▸ room) stack sp) ?_
    rw [table]
    exact ⟨rfl, stack, sp, rfl, equips.grants, equips.frame⟩
  refine meets_createOr_of (fun _ => ⟨rfl, rfl, rfl, rfl⟩) (fun _ => ⟨rfl, rfl, rfl, rfl⟩) makes adds
    (fun _ _ _ => False.elim) ?_
  rintro pid _ _ l ⟨next, stack, sp, table, equips⟩
  exact ⟨next, stack, sp, table, equips.grants, equips.frame⟩

/-- It makes no difference what is done with a stack that the table refuses: no stack is refused. -/
theorem runFrom_bootOr (regular : k.table.Regular) (ready : k.arena.Ready) (giveUp : Nat → Machine Kernel Unit) :
    (bootOr giveUp).runFrom k = boot.runFrom k := by
  rw [← bootOr_releaseStack]
  unfold bootOr
  rw [runFrom_bind, runFrom_bind, runFrom_get]
  dsimp only
  split
  · rfl
  rename_i vacant
  refine (meets_newStack_equips ready _ _).runFrom_bind_congr ?_
  rintro (cause | ⟨stack, sp⟩) l post
  · rfl
  · obtain ⟨table, -⟩ := post
    dsimp only
    rw [runFrom_bind, runFrom_bind,
      runFrom_tryTable_adopt (table ▸ regular) (table ▸ Nat.eq_zero_of_not_pos vacant) stack sp]

theorem runFrom_createOr (regular : k.table.Regular) (ready : k.arena.Ready) (giveUp : Nat → Machine Kernel Unit)
    (entry arg : Nat) : (createOr giveUp entry arg).runFrom k = (create entry arg).runFrom k := by
  rw [← createOr_releaseStack]
  unfold createOr
  rw [runFrom_bind, runFrom_bind, runFrom_get]
  dsimp only
  split
  · rfl
  rename_i initialized
  split
  · rfl
  rename_i room
  have somebody : k.table.current ≠ none := by simpa [isInitialized] using initialized
  refine (meets_newStack_equips ready _ _).runFrom_bind_congr ?_
  rintro (cause | ⟨stack, sp⟩) l post
  · rfl
  · obtain ⟨table, -⟩ := post
    dsimp only
    rw [runFrom_bind, runFrom_bind, runFrom_tryTable_add (table ▸ regular) (table ▸ somebody)
      (by simpa [table] using room) stack sp]

/-- The heap, the tasks and the code that tasks start with are the same. -/
structure Resembles (k k' : Kernel) : Prop where
  arena : k'.arena = k.arena
  table : k'.table = k.table
  landmarks : k'.cpu.landmarks = k.cpu.landmarks

theorem Resembles.symm (alike : k.Resembles k') : k'.Resembles k :=
  ⟨alike.arena.symm, alike.table.symm, alike.landmarks.symm⟩

theorem Resembles.trans {l : Kernel} (first : k.Resembles l) (second : l.Resembles k') : k.Resembles k' :=
  ⟨second.arena.trans first.arena, second.table.trans first.table, second.landmarks.trans first.landmarks⟩

/-- Work that comes to the same wherever the heap, the tasks and the code that tasks start with are the same. -/
def Blind {α : Type} (action : Machine Kernel α) : Prop :=
  ∀ k k' : Kernel, k.Resembles k' → (action.runFrom k').1 = (action.runFrom k).1 ∧
    (action.runFrom k).2.Resembles (action.runFrom k').2

section
variable {α β : Type}

theorem Blind.bind {action : Machine Kernel α} {next : α → Machine Kernel β} (first : Blind action)
    (rest : ∀ a, Blind (next a)) : Blind (action >>= next) := by
  intro k k' alike
  obtain ⟨outcome, after⟩ := first k k' alike
  rw [runFrom_bind, runFrom_bind]
  rcases ran : action.runFrom k with ⟨_ | a, l⟩
  · rcases ran' : action.runFrom k' with ⟨_ | a', l'⟩
    · rw [ran, ran'] at outcome after
      exact ⟨congrArg Except.error (Except.error.inj outcome), after⟩
    · simp [ran, ran'] at outcome
  · rcases ran' : action.runFrom k' with ⟨_ | a', l'⟩
    · simp [ran, ran'] at outcome
    · rw [ran, ran'] at outcome after
      obtain rfl := Except.ok.inj outcome
      exact rest a' l l' after

theorem blind_pure (a : α) : Blind (pure a) := fun _ _ alike => ⟨rfl, alike⟩

theorem blind_lift (outcome : Except Fault α) : Blind (liftM outcome : Machine Kernel α) := fun _ _ alike => ⟨rfl, alike⟩

theorem blind_report (notice : Notice) : Blind (report notice) :=
  fun _ _ alike => ⟨rfl, alike.arena, alike.table, alike.landmarks⟩

theorem blind_note (instruction : Instruction) : Blind (onProcessor (·.note instruction)) :=
  fun _ _ alike => ⟨rfl, alike.arena, alike.table, alike.landmarks⟩

theorem blind_onTable (action : Machine Table α) : Blind (onTable action) := by
  intro k k' alike
  rw [runFrom_onTable, runFrom_onTable, alike.table]
  exact ⟨rfl, alike.arena, rfl, alike.landmarks⟩

theorem blind_onArena (action : Machine Arena α) : Blind (onArena action) := by
  intro k k' alike
  rw [runFrom_onArena, runFrom_onArena, alike.arena]
  exact ⟨rfl, rfl, alike.table, alike.landmarks⟩

theorem blind_get_bind {next : Kernel → Machine Kernel α} (same : ∀ k k', k.Resembles k' → next k' = next k)
    (rest : ∀ k, Blind (next k)) : Blind (get >>= next) := by
  intro k k' alike
  rw [runFrom_bind, runFrom_bind, runFrom_get, runFrom_get]
  dsimp only
  rw [same k k' alike]
  exact rest k k k' alike

end

theorem blind_prepareStack (stack size entry arg : Nat) : Blind (prepareStack stack size entry arg) := by
  refine blind_get_bind ?_ fun k => (blind_lift _).bind ?_
  · intro k k' alike
    rw [alike.arena, alike.landmarks]
  · rintro ⟨sp, m⟩
    exact (blind_note _).bind fun _ => (blind_onArena _).bind fun _ => blind_pure sp

theorem blind_newStack (entry arg : Nat) : Blind (newStack entry arg) := by
  refine (blind_onArena _).bind ?_
  rintro (cause | stack)
  · exact (blind_report _).bind fun _ => blind_pure _
  · exact (blind_prepareStack stack _ entry arg).bind fun _ => blind_pure _

theorem blind_releaseStack (stack : Nat) : Blind (releaseStack stack) := by
  refine (blind_onArena _).bind ?_
  rintro (cause | ⟨⟩)
  · exact blind_report _
  · exact blind_pure _

theorem blind_boot : Blind boot := by
  refine blind_get_bind ?_ ?_
  · intro k k' alike
    rw [alike.table, alike.landmarks]
  intro k
  split
  · exact blind_pure _
  refine (blind_newStack _ _).bind ?_
  rintro (cause | ⟨stack, sp⟩)
  · exact blind_pure _
  refine (blind_onTable _).bind ?_
  rintro (cause | ⟨boot, idle⟩)
  · exact (blind_releaseStack stack).bind fun _ => blind_pure _
  · exact (blind_report _).bind fun _ => blind_pure _

theorem blind_create (entry arg : Nat) : Blind (create entry arg) := by
  refine blind_get_bind ?_ ?_
  · intro k k' alike
    rw [alike.table]
  intro k
  split
  · exact blind_pure _
  split
  · exact (blind_report _).bind fun _ => blind_pure _
  refine (blind_newStack entry arg).bind ?_
  rintro (cause | ⟨stack, sp⟩)
  · exact blind_pure _
  refine (blind_onTable _).bind ?_
  rintro (cause | pid)
  · exact (blind_releaseStack stack).bind fun _ => blind_pure _
  · exact (blind_report _).bind fun _ => blind_pure _

theorem Untouched.resembles {l : Kernel} (untouched : k.Untouched l) (alike : l.Resembles k') : k.Untouched k' :=
  ⟨alike.table.trans untouched.table, alike.arena ▸ untouched.heap, alike.arena ▸ untouched.memory,
    alike.landmarks.trans untouched.landmarks⟩

theorem Equips.resembles {l : Kernel} (equips : k.Equips entry arg stack sp l) (alike : l.Resembles k') :
    k.Equips entry arg stack sp k' :=
  ⟨alike.arena ▸ equips.grants, alike.arena ▸ equips.frame⟩

theorem Boots.resembles {l : Kernel} {result : Except TaskError Nat} (boots : k.Boots result l)
    (alike : l.Resembles k') : k.Boots result k' := by
  cases result with
  | error cause => exact Untouched.resembles boots alike
  | ok pid =>
    obtain ⟨first, vacant, stack, sp, table, equips⟩ := boots
    exact ⟨first, vacant, stack, sp, alike.table.trans table, equips.resembles alike⟩

theorem Creates.resembles {l : Kernel} {result : Except TaskError Nat} (creates : k.Creates entry arg result l)
    (alike : l.Resembles k') : k.Creates entry arg result k' := by
  cases result with
  | error cause => exact Untouched.resembles creates alike
  | ok pid =>
    obtain ⟨next, stack, sp, table, equips⟩ := creates
    exact ⟨next, stack, sp, alike.table.trans table, equips.resembles alike⟩

end Kernel

namespace System
open Kernel Table
variable {ω α : Type} {s s' : System ω} {action action' : Machine Kernel α}

/-- With interrupts masked it comes to the same. -/
theorem runFrom_masked_of_blind (blind : Blind action) (s : System ω) : ∃ t : System ω,
    (masked (onKernel action)).runFrom s = ((action.runFrom s.kernel).1, t) ∧ t.outside = s.outside ∧
      (action.runFrom s.kernel).2.Resembles t.kernel := by
  cases enabled : s.kernel.cpu.enabled with
  | false =>
    rw [runFrom_masked_of_disabled _ enabled]
    exact ⟨_, rfl, rfl, rfl, rfl, rfl⟩
  | true =>
    obtain ⟨outcome, alike⟩ := blind s.kernel { s.kernel with cpu := s.kernel.cpu.mask } ⟨rfl, rfl, rfl⟩
    rw [runFrom_masked_of_enabled _ enabled, runFrom_onKernel, ← outcome]
    rcases ran : action.runFrom { s.kernel with cpu := s.kernel.cpu.mask } with ⟨_ | a, k⟩
    · rw [ran] at alike
      exact ⟨_, rfl, rfl, alike⟩
    · rw [ran] at alike
      exact ⟨_, rfl, rfl, alike.arena, alike.table, alike.landmarks⟩

theorem runFrom_masked_congr
    (same : ∀ k : Kernel, k.table = s.kernel.table → k.arena = s.kernel.arena → action.runFrom k = action'.runFrom k) :
    (masked (onKernel action)).runFrom s = (masked (onKernel action')).runFrom s := by
  cases enabled : s.kernel.cpu.enabled with
  | false =>
    rw [runFrom_masked_of_disabled _ enabled, runFrom_masked_of_disabled _ enabled, runFrom_onKernel, runFrom_onKernel,
      same s.kernel rfl rfl]
  | true =>
    rw [runFrom_masked_of_enabled _ enabled, runFrom_masked_of_enabled _ enabled, runFrom_onKernel, runFrom_onKernel,
      same { s.kernel with cpu := s.kernel.cpu.mask } rfl rfl]

/-- After a first call was refused, another one comes to what a first call would come to on the heap of that time. -/
def Retries (s t : System ω) : Prop :=
  ∀ s' : System ω, s'.kernel.table = t.kernel.table → s'.kernel.cpu.landmarks = t.kernel.cpu.landmarks →
    (boot.runFrom s').1 = (boot.runFrom { s with kernel.arena := s'.kernel.arena }).1 ∧
      (boot.runFrom { s with kernel.arena := s'.kernel.arena }).2.kernel.Resembles (boot.runFrom s').2.kernel

theorem retries_of_untouched {t : System ω} (untouched : s.kernel.Untouched t.kernel) : s.Retries t := by
  intro s' table landmarks
  obtain ⟨outcome, alike⟩ := blind_boot { s.kernel with arena := s'.kernel.arena } s'.kernel
    ⟨rfl, table.trans untouched.table, landmarks.trans untouched.landmarks⟩
  obtain ⟨u, first, -, alikeFirst⟩ := runFrom_masked_of_blind blind_boot { s with kernel.arena := s'.kernel.arena }
  obtain ⟨u', again, -, alikeAgain⟩ := runFrom_masked_of_blind blind_boot s'
  unfold boot
  rw [first, again]
  exact ⟨outcome, alikeFirst.symm.trans (alike.trans alikeAgain)⟩

/-- Tasks are created as a whole or not at all. A call that is refused leaves the tasks, the heap and the memory as they
were, and the first tasks can then still be made as if nothing had been tried. One that succeeds allocates one block,
and adds just the tasks asked for; no task changes but the last one of the ring, which is now followed by the new one.
What is to be done with a stack that no task was started on does not matter, as there never is one. -/
theorem creation_atomic (reached : s.kernel.table.Reached) (ready : s.kernel.arena.Ready) (entry arg : Nat) :
    (∃ result t, (create entry arg).runFrom s = (.ok result, t) ∧ t.outside = s.outside ∧
      s.kernel.Creates entry arg result t.kernel) ∧
    (∃ result t, boot.runFrom s = (.ok result, t) ∧ t.outside = s.outside ∧ s.kernel.Boots result t.kernel ∧
      (result.toBool = false → s.Retries t)) ∧
    ∀ giveUp : Nat → Machine Kernel Unit,
      (masked (onKernel (createOr giveUp entry arg))).runFrom s = (create entry arg).runFrom s ∧
      (masked (onKernel (bootOr giveUp))).runFrom s = boot.runFrom s := by
  have regular := reached.regular
  refine ⟨?_, ?_, ?_⟩
  · obtain ⟨result, k, ran, creates⟩ := (meets_createOr regular ready releaseStack entry arg).returns fun _ => id
    obtain ⟨t, ranT, outside, alike⟩ := runFrom_masked_of_blind (blind_create entry arg) s
    rw [← createOr_releaseStack, ran] at ranT alike
    exact ⟨result, t, ranT, outside, creates.resembles alike⟩
  · obtain ⟨result, k, ran, boots⟩ := (meets_bootOr regular ready releaseStack).returns fun _ => id
    obtain ⟨t, ranT, outside, alike⟩ := runFrom_masked_of_blind blind_boot s
    rw [← bootOr_releaseStack, ran] at ranT alike
    refine ⟨result, t, ranT, outside, boots.resembles alike, ?_⟩
    intro refused
    cases result with
    | error cause => exact retries_of_untouched (boots.resembles alike)
    | ok pid => cases refused
  · intro giveUp
    refine ⟨runFrom_masked_congr ?_, runFrom_masked_congr ?_⟩
    · intro k table arena
      exact runFrom_createOr (table ▸ regular) (arena ▸ ready) giveUp entry arg
    · intro k table arena
      exact runFrom_bootOr (table ▸ regular) (arena ▸ ready) giveUp

set_option maxRecDepth 100000 in
/-- Next to the boot task there is memory for the stack of one more task. -/
theorem creation_of_neighbour : ∃ s : System Unit, s.kernel.table.Reached ∧ s.kernel.arena.Ready ∧
    (∃ t, (create 7 8).runFrom s = (.ok (.ok 2), t) ∧ s.kernel.Creates 7 8 (.ok 2) t.kernel) ∧
    ∃ t, boot.runFrom s = (.ok (.error .alreadyInitialized), t) ∧ s.kernel.Untouched t.kernel ∧ s.Retries t := by
  -- The arena has a name, so that the kernel computes it once.
  obtain ⟨a, made⟩ : ∃ a, (attempt (Arena.establish 4096 16440) (.ofMemory (.zeroed 4096 16440))).2 = a := ⟨_, rfl⟩
  generalize start : (⟨⟨a, ⟨#[{ bootTask with next := 0 }], some 0, none, some 0⟩, 0, false, .initial 0 ⟨0, 0, 0⟩, #[]⟩,
    ()⟩ : System Unit) = s
  obtain ⟨opens, makes, refuses⟩ :
      (attempt (Arena.establish 4096 16440) (.ofMemory (.zeroed 4096 16440))).1 = .ok (.ok ()) ∧
      ((create 7 8).runFrom s).1 = .ok (.ok 2) ∧
      (boot.runFrom s).1 = .ok (.error .alreadyInitialized) := by
    subst start made
    decide +kernel
  have reached : s.kernel.table.Reached := by
    subst start
    exact Reached.empty.meets_adoptBoot.result (rfl : adoptBoot.run.runFrom Table.empty = (.ok (.ok 1), _))
  have opened := made ▸ attempt_eq_of_outcome opens
  have ready : s.kernel.arena.Ready := by
    obtain ⟨r, -, sound⟩ := Tenancy.sound_of_establish (Memory.covers_zeroed 4096 16440) opened
    subst start
    exact .proper sound.arena.proper
  obtain ⟨⟨result, t, ran, -, creates⟩, ⟨result', t', ran', -, boots, retries⟩, -⟩ := creation_atomic reached ready 7 8
  rw [ran] at makes
  rw [ran'] at refuses
  obtain rfl := Except.ok.inj makes
  obtain rfl := Except.ok.inj refuses
  exact ⟨s, reached, ready, ⟨t, ran, creates⟩, t', ran', boots, retries rfl⟩

end System
end KernelCore
