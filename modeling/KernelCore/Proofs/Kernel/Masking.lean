import KernelCore.Proofs.Kernel.Course
import KernelCore.Proofs.Kernel.Programs

namespace KernelCore
open Machine Kernel

namespace Kernel
variable {α β : Type} {k : Kernel} {free : Bool} {base : List Activity}

/-- Work that only acts, whatever it comes to. -/
def IsActing (action : Machine Kernel α) : Prop := ∀ k : Kernel, action.Meets k (fun _ => k.Acts) k.Acts

theorem IsActing.bind {action : Machine Kernel α} {next : α → Machine Kernel β} (first : IsActing action)
    (rest : ∀ a, IsActing (next a)) : IsActing (action >>= next) :=
  fun k => (first k).bind fun a l acts => (rest a l).mono (fun _ _ => acts.trans) fun _ => acts.trans

theorem isActing_pure (a : α) : IsActing (pure a) := .refl

theorem isActing_lift (outcome : Except Fault α) : IsActing (liftM outcome : Machine Kernel α) := by
  intro k
  cases outcome with
  | error fault => exact .refl k
  | ok a => exact .refl k

theorem isActing_get_bind {next : Kernel → Machine Kernel α} (rest : ∀ k, IsActing (next k)) :
    IsActing (get >>= next) := fun k => (meets_bind ..).mpr (rest k k)

theorem isActing_report (notice : Notice) : IsActing (report notice) := fun _ => .of_eq rfl rfl rfl

theorem acts_note (instruction : Instruction) (aside : instruction.IsAside) (k : Kernel) :
    k.Acts { k with cpu := k.cpu.note instruction } :=
  ⟨rfl, rfl, [instruction], (story_note k instruction).symm, by simpa using aside⟩

theorem isActing_note (instruction : Instruction) (aside : instruction.IsAside) :
    IsActing (onProcessor (·.note instruction)) := fun k => acts_note instruction aside k

theorem acts_withTable (k : Kernel) (table : Table) : k.Acts (k.withTable table) :=
  ⟨rfl, rfl, [.table table], (story_note k _).symm, by simp [Instruction.IsAside]⟩

theorem isActing_onTable (action : Machine Table α) : IsActing (onTable action) := by
  intro k
  rw [meets_onTable]
  unfold Meets
  rcases action.runFrom k.table with ⟨_ | a, t⟩ <;> exact acts_withTable k t

theorem isActing_onArena (action : Machine Arena α) : IsActing (onArena action) := by
  intro k
  rw [meets_onArena]
  unfold Meets
  rcases action.runFrom k.arena with ⟨_ | a, b⟩ <;> exact .of_eq rfl rfl rfl

theorem IsActing.after {action : Machine Kernel α} (isActing : IsActing action) {l : Kernel} (acts : k.Acts l) :
    action.Meets l (fun _ => k.Acts) k.Acts := (isActing l).mono (fun _ _ => acts.trans) fun _ => acts.trans

theorem isActing_prepareStack (stack size entry arg : Nat) : IsActing (prepareStack stack size entry arg) := fun k =>
  meets_prepareStack_of (fun _ _ => .refl k) fun sp _ _ =>
    (acts_note (.prepare sp entry arg) trivial k).trans (.of_eq rfl rfl rfl)

theorem isActing_newStack (entry arg : Nat) : IsActing (newStack entry arg) := by
  intro k
  obtain ⟨size, same⟩ : ∃ size, Config.taskStackSize = size := ⟨_, rfl⟩
  exact Meets.merged <| meets_newStack_of same (isActing_onArena _ k).splits (fun _ _ => (isActing_report _).after)
    fun stack _ => (isActing_prepareStack stack size entry arg).after

theorem isActing_releaseStack (stack : Nat) : IsActing (releaseStack stack) := fun k =>
  meets_releaseStack_of (isActing_onArena _ k).splits fun _ _ => (isActing_report _).after

theorem isActing_boot : IsActing boot := fun k =>
  meets_boot_of (.refl k) (isActing_newStack _ _ k).splits
    (fun _ _ _ acts => ((isActing_onTable _).after acts).splits) (fun stack _ => (isActing_releaseStack stack).after)
    fun _ notice _ => (isActing_report notice).after

theorem isActing_create (entry arg : Nat) : IsActing (create entry arg) := fun k =>
  meets_create_of (.refl k) (isActing_newStack _ _ k).splits
    (fun _ _ _ acts => ((isActing_onTable _).after acts).splits) (fun stack _ => (isActing_releaseStack stack).after)
    fun _ notice _ => (isActing_report notice).after

theorem isActing_currentPid : IsActing currentPid := isActing_get_bind fun k => isActing_lift k.table.currentPid

theorem isActing_retire : IsActing retire := fun k =>
  meets_retire_of (fun _ _ => .refl k) (isActing_onTable _ k) (fun _ => id)
    (fun _ _ acts => ((isActing_onArena _).after acts).splits) (fun _ _ _ => (isActing_report _).after)
    fun _ _ => (isActing_report _).after

theorem isActing_describeTasks : IsActing describeTasks := by
  have each : ∀ tasks : List Task, IsActing (tasks.forM fun task => report (.task task)) := by
    intro tasks
    induction tasks with
    | nil => exact isActing_pure _
    | cons task rest ih => exact (isActing_report _).bind fun _ => ih
  exact isActing_get_bind fun k => each _

end Kernel

/-- From a kernel as in `pre` the work keeps its course, and if it comes to its end it is at one as in `post`. -/
def Machine.Steers {ω α : Type} (free : Bool) (pre : Kernel → Prop) (action : Machine (System ω) α)
    (post : Kernel → Prop) : Prop :=
  ∀ (base : List Activity) (s : System ω), pre s.kernel → action.Meets s
    (fun _ t => post t.kernel ∧ Leads free base s.kernel t.kernel) fun t => Strays free base s.kernel t.kernel

namespace Machine
variable {ω α β : Type} {free : Bool} {pre mid post : Kernel → Prop}

theorem Steers.bind {action : Machine (System ω) α} {next : α → Machine (System ω) β} (first : Steers free pre action mid)
    (rest : ∀ a, Steers free mid (next a) post) : Steers free pre (action >>= next) post := by
  intro base s holds
  refine (meets_bind ..).mpr ((first base s holds).mono ?_ fun _ => id)
  rintro a t ⟨holdsT, leads⟩
  refine (rest a base t holdsT).mono ?_ fun _ strays => .prepend leads strays
  rintro b u ⟨holdsU, more⟩
  exact ⟨holdsU, leads.trans more⟩

theorem Steers.mono {action : Machine (System ω) α} {pre' post' : Kernel → Prop} (steers : Steers free pre action post)
    (less : ∀ k, pre' k → pre k) (more : ∀ k, post k → post' k) : Steers free pre' action post' :=
  fun base s holds => (steers base s (less _ holds)).mono (fun _ _ ⟨after, leads⟩ => ⟨more _ after, leads⟩) fun _ => id

theorem steers_get_bind {next : System ω → Machine (System ω) α}
    (rest : ∀ s, pre s.kernel → Steers free pre (next s) post) : Steers free pre (get >>= next) post :=
  fun base s holds => (meets_bind ..).mpr (rest s holds base s holds)

theorem steers_pure (a : α) (less : ∀ k, pre k → post k) : Steers free pre (pure a : Machine (System ω) α) post :=
  fun _ s holds => ⟨less _ holds, .refl s.kernel⟩

theorem steers_throw (fault : Fault) : Steers free pre (throw fault : Machine (System ω) α) post :=
  fun _ s _ => (Leads.refl s.kernel).strays

theorem steers_lift (outcome : Except Fault α) : Steers free pre (liftM outcome : Machine (System ω) α) pre := by
  intro base s holds
  cases outcome with
  | error fault => exact (Leads.refl s.kernel).strays
  | ok a => exact ⟨holds, .refl s.kernel⟩

end Machine

namespace Kernel

/-- If the processor is known to be parked, the clock has been told. -/
def Marked (parked : Bool) (k : Kernel) : Prop := parked = true → k.parked = true

structure Masked (parked : Bool) (k : Kernel) : Prop where
  masked : k.cpu.enabled = false
  marked : k.Marked parked

theorem Acts.masked {k l : Kernel} {parked : Bool} (acts : k.Acts l) (masked : k.Masked parked) : l.Masked parked :=
  ⟨acts.flag.trans masked.masked, fun waits => acts.parked.trans (masked.marked waits)⟩

theorem marked_false (k : Kernel) : k.Marked false := fun waits => absurd waits Bool.false_ne_true

end Kernel

/-- What happens outside keeps its course, as the operations do. -/
structure Surroundings.Disciplined {ω : Type} (free : Bool) (env : Surroundings ω) : Prop where
  parked : Steers free (Marked true) env.whileParked (Marked true)
  away : Steers free (Marked false) env.whileAway (Marked false)

namespace System
variable {ω α : Type} {free parked : Bool} {env : Surroundings ω}

theorem steers_acting {action : Machine Kernel α} (acting : IsActing action) :
    Steers free (Masked parked) (onKernel action : Machine (System ω) α) (Masked parked) := by
  intro base s masked
  refine meets_onKernel.mpr ((acting s.kernel).mono ?_ fun l acts => (acts.leads masked.masked).strays)
  intro a l acts
  exact ⟨acts.masked masked, acts.leads masked.masked⟩

theorem steers_report (notice : Notice) :
    Steers free (Marked parked) (onKernel (report notice) : Machine (System ω) Unit) (Marked parked) :=
  fun _ _ marked => ⟨marked, .of_eq rfl rfl⟩

/-- What nothing has to be masked for. -/
theorem steers_note (instruction : Instruction) (aside : instruction.IsAside) (harmless : ¬instruction.IsGuarded) :
    Steers free (Marked parked) (onKernel (onProcessor (·.note instruction)) : Machine (System ω) Unit)
      (Marked parked) := fun _ s marked =>
  ⟨marked, .note rfl (story_note s.kernel instruction).symm aside fun guarded => absurd guarded harmless⟩

/-- Whatever keeps its course with interrupts masked does so when it is run masked. -/
theorem steers_masked {body : Machine (System ω) α} (steers : Steers free (Masked parked) body (Marked parked)) :
    Steers free (Marked parked) (masked body) (Marked parked) := by
  intro base s marked
  cases enabled : s.kernel.cpu.enabled with
  | false =>
    rw [meets_masked_of_disabled enabled]
    exact steers base s ⟨enabled, marked⟩
  | true =>
    rw [meets_masked_of_enabled enabled]
    have masks : Course.Permits free true base ⟨true, base⟩ .mask := ⟨List.suffix_rfl, by simp, False.elim, by simp⟩
    have begins : s.kernel.story ++ [.mask] = { s.kernel with cpu := s.kernel.cpu.mask }.story := story_note _ _
    refine (steers base { s with kernel.cpu := s.kernel.cpu.mask } ⟨rfl, marked⟩).mono ?_ ?_
    · rintro a t ⟨markedT, -, more, story, runs⟩
      have unmasks : Course.Permits free true base ⟨t.kernel.cpu.enabled, base⟩ .unmask :=
        ⟨List.suffix_rfl, by simp, False.elim, by simp⟩
      have ends : t.kernel.story ++ [.unmask] = { t.kernel with cpu := t.kernel.cpu.unmask }.story := story_note _ _
      refine ⟨markedT, fun _ => enabled.symm, .mask :: more ++ [.unmask], ?_, ?_⟩
      · rw [← ends, story, ← begins]
        simp
      · rw [enabled]
        exact .cons masks ((runs.looser (by simp)).append (.one unmasks))
    · rintro t ⟨more, d, story, runs⟩
      refine ⟨.mask :: more, d, ?_, ?_⟩
      · rw [story, ← begins]
        simp
      · rw [enabled]
        exact .cons masks (runs.looser (by simp))

/-- While others run, the flag is theirs. -/
theorem steers_switch (away : Steers free (Marked false) env.whileAway (Marked false)) (handover : Handover) :
    Steers free (Masked false) (switch env handover) (Marked false) := by
  rintro base s ⟨masked, -⟩
  generalize pointer : env.savedPointer s = saved
  have opens : Opens free base .away s.kernel { s.kernel with cpu := s.kernel.cpu.switch handover saved }
      (.switch s.kernel.cpu.enabled handover saved) := by
    refine ⟨masked, (story_note s.kernel _).symm, ⟨List.suffix_rfl, fun _ _ _ => id, fun _ => rfl, ?_⟩, ?_⟩
    · rintro enabled h saved ⟨⟩
      exact masked
    · exact congrArg (Course.mk · _) masked.symm
  have saves : Steers free (Masked false) (onKernel (onTable (Table.saveStackPointer handover.outgoing saved)) :
      Machine (System ω) Unit) (Masked false) := steers_acting (isActing_onTable _)
  unfold switch
  rw [meets_bind, meets_get, pointer, meets_bind, meets_onKernel, meets_onProcessor, meets_bind]
  have stored := saves (.away :: base) { s with kernel.cpu := s.kernel.cpu.switch handover saved }
    ⟨masked, marked_false _⟩
  refine stored.mono ?_ fun _ => opens.strays
  rintro _ t ⟨-, saves⟩
  rw [meets_bind]
  refine (away (.away :: base) t (marked_false _)).mono ?_ fun _ strays => opens.strays (strays.prepend saves)
  rintro _ u ⟨-, leads⟩
  have inside := saves.trans leads
  refine ⟨marked_false _, opens.leads inside (story_note u.kernel .resume).symm (by simp [Processor.note]) ?_⟩
  intro bound
  exact (inside.flag bound).trans masked

/-- While the processor is parked interrupts are unmasked; afterwards they are masked again. -/
theorem steers_park (ticking : Steers free (Marked true) env.whileParked (Marked true)) :
    Steers free (Masked true) (park env) (Masked true) := by
  rintro base s ⟨masked, marked⟩
  have permits : Course.Permits free false base ⟨false, base⟩ .wait :=
    ⟨List.suffix_rfl, fun _ _ _ => id, fun _ => rfl, by simp⟩
  unfold park
  rw [meets_bind, meets_onKernel, meets_onProcessor, meets_bind, meets_get]
  dsimp only
  split
  · refine ⟨[.wait], Instruction.wait.course ⟨false, base⟩, (story_note s.kernel .wait).symm, ?_⟩
    rw [masked]
    exact .one permits
  · unfold setEnabled
    rw [meets_bind, meets_onKernel, meets_onProcessor, meets_bind]
    have waits : Opens free base .parked s.kernel
        { s.kernel with cpu := { s.kernel.cpu.wait with enabled := true } } .wait :=
      ⟨masked, (story_note s.kernel .wait).symm, permits, rfl⟩
    have ticks := ticking (.parked :: base) { s with kernel.cpu := { s.kernel.cpu.wait with enabled := true } } marked
    refine ticks.mono ?_ fun _ => waits.strays
    rintro _ t ⟨markedT, leads⟩
    rw [meets_bind, meets_onKernel, meets_onProcessor]
    exact ⟨⟨rfl, markedT⟩,
      waits.leads leads (story_note t.kernel .resume).symm (by simp [Processor.note]) fun _ => rfl⟩

theorem steers_setParked {known : Bool} (flag : Bool) :
    Steers free (Masked known) (setParked flag : Machine (System ω) Unit) (Masked flag) :=
  fun _ _ masked => ⟨⟨masked.masked, id⟩, .of_eq rfl rfl⟩

theorem steers_rescheduleFor (disciplined : env.Disciplined free) (rounds : Nat) :
    Steers free (Masked false) (rescheduleFor env rounds) (Marked false) := by
  induction rounds with
  | zero => exact steers_throw _
  | succ rounds ih =>
    unfold rescheduleFor
    refine steers_get_bind fun s _ => ?_
    dsimp only
    split
    · refine (steers_lift s.kernel.table.pick).bind ?_
      rintro (none | slot)
      · exact (steers_setParked true).bind fun _ => (steers_park disciplined.parked).bind fun _ =>
          (steers_setParked false).bind fun _ => ih
      · refine (steers_acting (isActing_onTable _)).bind ?_
        rintro (none | handover)
        · exact steers_pure _ fun _ => Masked.marked
        · exact steers_switch disciplined.away handover
    · exact steers_pure _ fun _ => Masked.marked

theorem steers_reschedule (disciplined : env.Disciplined free) :
    Steers free (Masked false) (reschedule env) (Marked false) :=
  steers_get_bind fun _ _ => steers_rescheduleFor disciplined _

theorem steers_yield (disciplined : env.Disciplined free) :
    Steers free (Marked false) (yield env) (Marked false) := steers_masked (steers_reschedule disciplined)

/-- A timer interrupt lets the next task run, unless the scheduler does so itself. -/
theorem steers_tick (disciplined : parked = false → env.Disciplined free) :
    Steers free (Marked parked) (tick env) (Marked parked) := by
  have chooses : ∀ flag : Bool, (parked = true → flag = true) → Steers free (Masked parked)
      (if flag = false then reschedule env else pure ()) (Marked parked) := by
    intro flag known
    cases flag with
    | true => exact steers_pure _ fun _ => Masked.marked
    | false =>
      have running : parked = false := by simpa using known
      subst running
      exact steers_reschedule (disciplined rfl)
  have counts : Steers free (Marked parked) (onKernel (modify fun k => { k with ticks := Word.wrappingAdd k.ticks 1 }) :
      Machine (System ω) PUnit) (Marked parked) := fun _ _ marked => ⟨marked, .of_eq rfl rfl⟩
  unfold tick
  refine (steers_note .tick trivial id).bind fun _ => steers_get_bind fun s _ => ?_
  refine counts.bind fun _ => (steers_lift _).bind fun now => ?_
  refine (steers_masked (steers_get_bind fun s _ => ?_)).bind fun _ => steers_note .served trivial id
  split
  · refine (steers_acting (isActing_onTable _)).bind fun woken => ?_
    split
    · exact (steers_acting (isActing_report _)).bind fun _ => steers_get_bind fun s masked =>
        chooses s.kernel.parked masked.marked
    · exact steers_get_bind fun s masked => chooses s.kernel.parked masked.marked
  · exact steers_pure _ fun _ => Masked.marked

theorem steers_sleep (disciplined : env.Disciplined free) (ms : Nat) :
    Steers free (Marked false) (sleep env ms) (Marked false) := by
  unfold sleep
  split
  · exact steers_yield disciplined
  have notes : IsActing (onProcessor (·.note (.sleep ms))) := isActing_note _ trivial
  refine steers_masked (steers_get_bind fun s _ => ?_)
  refine (steers_acting (isActing_onTable _)).bind ?_
  rintro (_ | _)
  · exact steers_pure _ fun _ => Masked.marked
  · exact (steers_acting notes).bind fun _ => steers_reschedule disciplined

/-- What only acts may be done masked. -/
theorem steers_masked_acting {action : Machine Kernel α} (acting : IsActing action) :
    Steers free (Marked parked) (masked (onKernel action) : Machine (System ω) α) (Marked parked) :=
  steers_masked ((steers_acting acting).mono (fun _ => id) fun _ => Masked.marked)

theorem steers_taskState (pid : Nat) :
    Steers free (Marked parked) (taskState pid : Machine (System ω) (Option TaskState)) (Marked parked) :=
  steers_masked (steers_get_bind fun _ _ => steers_pure _ fun _ => Masked.marked)

theorem steers_waitFor (disciplined : env.Disciplined free) (pid : Nat) :
    Steers free (Marked false) (waitFor env pid) (Marked false) := by
  have rounds : ∀ n, Steers free (Marked false) (waitForRounds env pid n) (Marked false) := by
    intro n
    induction n with
    | zero => exact steers_throw _
    | succ n ih =>
      unfold waitForRounds
      refine (steers_taskState pid).bind fun state => ?_
      split
      · exact (steers_sleep disciplined _).bind fun _ => ih
      · exact steers_pure _ fun _ => id
  unfold waitFor
  refine (steers_masked_acting isActing_currentPid).bind fun current => ?_
  split
  · exact steers_report _
  · exact steers_get_bind fun s _ => rounds _

/-- A task that exits masks interrupts and leaves them so. -/
theorem steers_exit (disciplined : env.Disciplined true) : Steers true (Marked false) (exit env) (Marked false) := by
  have masks : Steers true (Marked false) (onKernel (onProcessor Processor.mask) : Machine (System ω) Unit)
      (Masked false) := fun _ s marked => ⟨⟨rfl, marked⟩, .toggle (story_note s.kernel .mask).symm trivial rfl⟩
  have halts : Steers true (Marked false) (onKernel (onProcessor Processor.halt) : Machine (System ω) Unit)
      (Marked false) := fun _ s marked =>
    ⟨marked, .note rfl (story_note s.kernel .halt).symm trivial False.elim⟩
  unfold exit
  exact masks.bind fun _ => (steers_acting isActing_retire).bind fun _ =>
    (steers_reschedule disciplined).bind fun _ => halts

/-- What gives the processor away keeps its course. To exit is free. -/
theorem steers_turn (disciplined : env.Disciplined free) (turn : Turn) (mayExit : turn = .exit → free = true) :
    Steers free (Marked false) (turn.perform env) (Marked false) := by
  cases turn with
  | yield => exact steers_yield disciplined
  | sleep ms => exact steers_sleep disciplined ms
  | waitFor pid => exact steers_waitFor disciplined pid
  | exit =>
    have may := mayExit rfl
    subst may
    exact steers_exit disciplined
  | tick => exact steers_tick fun _ => disciplined

end System

/-- Operations of the kernel, one after the other. While the processor is parked the clock ticks, and while a
context is switched away from other tasks run such operations too. Only those that are `free` may end a task, or mask
and unmask interrupts themselves. -/
inductive Routine {ω : Type} (free : Bool) : (parked : Bool) → {α : Type} → Machine (System ω) α → Prop where
  | pure {parked : Bool} {α : Type} (a : α) : Routine free parked (pure a)
  | throw {parked : Bool} {α : Type} (fault : Fault) : Routine free parked (throw fault : Machine (System ω) α)
  | bind {parked : Bool} {α β : Type} {action : Machine (System ω) α} {next : α → Machine (System ω) β}
    (first : Routine free parked action) (rest : ∀ a, Routine free parked (next a)) :
    Routine free parked (action >>= next)
  | get {parked : Bool} : Routine free parked (get : Machine (System ω) (System ω))
  | outside {parked : Bool} (change : ω → ω) : Routine free parked
    (modify fun s => { s with outside := change s.outside } : Machine (System ω) PUnit)
  | store {parked : Bool} (change : Memory → Memory) :
    Routine free parked (System.onKernel (onArena (Arena.onMemory change)))
  | heap {parked : Bool} {α : Type} (action : HeapAction α) : Routine free parked (System.onHeap action)
  | boot {parked : Bool} : Routine free parked System.boot
  | create {parked : Bool} (entry arg : Nat) : Routine free parked (System.create entry arg)
  | currentPid {parked : Bool} : Routine free parked System.currentPid
  | taskState {parked : Bool} (pid : Nat) : Routine free parked (System.taskState pid)
  | describeTasks {parked : Bool} : Routine free parked System.describeTasks
  | mask {parked : Bool} (mayMask : free = true) : Routine free parked (System.onKernel (onProcessor Processor.mask))
  | unmask {parked : Bool} (mayMask : free = true) :
    Routine free parked (System.onKernel (onProcessor Processor.unmask))
  | tick (env : Surroundings ω) : Routine free true (System.tick env)
  | turn (env : Surroundings ω) (turn : Turn) (mayExit : turn = .exit → free = true)
    (parked : Routine free true env.whileParked) (away : Routine free false env.whileAway) :
    Routine free false (turn.perform env)

namespace Routine
variable {ω α : Type} {free parked : Bool}

theorem steers {program : Machine (System ω) α} (routine : Routine free parked program) :
    Steers free (Marked parked) program (Marked parked) := by
  induction routine with
  | pure a => exact steers_pure a fun _ => id
  | throw fault => exact steers_throw fault
  | bind _ _ first rest => exact first.bind rest
  | get => exact fun _ s marked => ⟨marked, .refl s.kernel⟩
  | outside change => exact fun _ s marked => ⟨marked, .refl s.kernel⟩
  | store change => exact fun _ s marked => ⟨marked, .of_eq rfl rfl⟩
  | heap action => exact System.steers_masked_acting (isActing_onArena _)
  | boot => exact System.steers_masked_acting isActing_boot
  | create entry arg => exact System.steers_masked_acting (isActing_create entry arg)
  | currentPid => exact System.steers_masked_acting isActing_currentPid
  | taskState pid => exact System.steers_taskState pid
  | describeTasks => exact System.steers_masked_acting isActing_describeTasks
  | mask mayMask =>
    subst mayMask
    exact fun _ s marked => ⟨marked, .toggle (story_note s.kernel .mask).symm trivial rfl⟩
  | unmask mayMask =>
    subst mayMask
    exact fun _ s marked => ⟨marked, .toggle (story_note s.kernel .unmask).symm trivial rfl⟩
  | tick env => exact System.steers_tick (by simp)
  | turn env turn mayExit _ _ parked away =>
    -- What runs while the caller is parked or away are routines too, so the induction hypotheses are about them.
    exact System.steers_turn ⟨parked, away⟩ turn mayExit

/-- What is asked of the kernel as the allocator is such an operation. -/
theorem request (request : Request) : Routine free parked (request.perform : Machine (System ω) Nat) :=
  request.perform_induction .pure .bind .heap .store

/-- Whatever an operation comes to, interrupts are masked at each switch. All that is guarded is done with
interrupts masked. Who enters with interrupts masked issues no instruction of its own to mask or unmask them, and at
the end the interrupt flag is as it was, unless the operation is a free one. -/
theorem interrupt_discipline {program : Machine (System ω) α} (routine : Routine free false program) {s t : System ω}
    {outcome : Except Fault α} (ran : program.runFrom s = (outcome, t)) :
    ∃ more, t.kernel.story = s.kernel.story ++ more ∧
      (∀ before instruction after, more = before ++ instruction :: after →
        let here := Story.course ⟨s.kernel.cpu.enabled, []⟩ before
        (instruction.IsGuarded → here.enabled = false) ∧
          (∀ enabled handover saved, instruction = .switch enabled handover saved → enabled = false) ∧
          (free = false → s.kernel.cpu.enabled = false → here.below = [] → ¬instruction.IsToggle)) ∧
      ∀ a, outcome = .ok a → Story.course ⟨s.kernel.cpu.enabled, []⟩ more = ⟨t.kernel.cpu.enabled, []⟩ ∧
        (free = false → t.kernel.cpu.enabled = s.kernel.cpu.enabled) := by
  have steers := routine.steers [] s (marked_false _)
  have permitted : ∀ {more : Story} {d : Course}, Runs free s.kernel.cpu.enabled [] ⟨s.kernel.cpu.enabled, []⟩ more d →
      ∀ before instruction after, more = before ++ instruction :: after →
        let here := Story.course ⟨s.kernel.cpu.enabled, []⟩ before
        (instruction.IsGuarded → here.enabled = false) ∧
          (∀ enabled handover saved, instruction = .switch enabled handover saved → enabled = false) ∧
          (free = false → s.kernel.cpu.enabled = false → here.below = [] → ¬instruction.IsToggle) := by
    intro more d runs before instruction after split
    have permits := runs.permits split
    refine ⟨permits.guarded, ?_, permits.own⟩
    rintro enabled handover saved rfl
    rw [permits.noted enabled handover saved rfl, permits.guarded trivial]
  cases outcome with
  | error fault =>
    obtain ⟨more, d, story, runs⟩ := steers.fault ran
    exact ⟨more, story, permitted runs, by simp⟩
  | ok a =>
    obtain ⟨-, flag, more, story, runs⟩ := steers.result ran
    exact ⟨more, story, permitted runs, fun _ _ => ⟨runs.course_eq, flag⟩⟩

end Routine

/-- Once the boot task sleeps another one runs, until the clock ticks. -/
def sleepUntilTick : Machine (System Unit) Unit := System.sleep (.doing (pure ()) (System.tick .still)) 10

/-- A kernel with two tasks, on a processor with interrupts unmasked. -/
def unmaskedPair : System Unit :=
  ⟨{ Kernel.initial (Memory.zeroed 0 0) { Processor.initial 0 ⟨0, 0, 0⟩ with enabled := true } with
      table := ⟨#[⟨1, .running, .boot, 0, none, 1, 1⟩, ⟨2, .ready, .none, 64, none, 0, 0⟩], some 0, none, some 1⟩ }, ()⟩

theorem disciplined_of_sleep_until_tick : ∃ t,
    sleepUntilTick.runFrom unmaskedPair = (.ok (), t) ∧ t.kernel.cpu.switches = 2 ∧
    t.kernel.cpu.enabled = true ∧ ∀ before instruction after, t.kernel.story = before ++ instruction :: after →
      instruction.IsGuarded → (Story.course ⟨true, []⟩ before).enabled = false := by
  have ticks : Routine false false (System.tick Surroundings.still) :=
    .turn .still .tick (by simp) (.tick _) (.pure ())
  have routine : Routine false false sleepUntilTick :=
    .turn (.doing (pure ()) (System.tick .still)) (.sleep 10) (by simp) (.pure ()) ticks
  obtain ⟨comes, switched⟩ : (sleepUntilTick.runFrom unmaskedPair).1.toBool = true ∧
      (sleepUntilTick.runFrom unmaskedPair).2.kernel.cpu.switches = 2 := by decide +kernel
  obtain ⟨⟨⟩, ran⟩ := exists_of_toBool comes
  obtain ⟨more, story, permitted, ends⟩ := Routine.interrupt_discipline routine ran
  refine ⟨_, ran, switched, (ends () rfl).2 rfl, ?_⟩
  intro before instruction after split
  exact (permitted before instruction after (story.symm.trans split)).1

end KernelCore
