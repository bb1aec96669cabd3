import KernelCore.Proofs.Kernel.Programs

namespace KernelCore
open Machine Kernel

/-- An instruction that leaves the processor where it is, and concerns neither the tasks nor the clock. -/
def Instruction.IsIdle : Instruction → Prop
  | table _ | sleep _ | tick | prepare .. | switch .. => False
  | mask | unmask | wait | resume | halt | served => True

namespace Kernel
variable {k k' : Kernel} {instruction : Instruction}

/-- Work that concerns neither the heap nor the tasks nor the clock, and leaves the processor where it is. -/
structure Idles (k k' : Kernel) : Prop where
  arena : k'.arena = k.arena
  table : k'.table = k.table
  ticks : k'.ticks = k.ticks
  landmarks : k'.cpu.landmarks = k.cpu.landmarks
  journal : ∀ entry ∈ k'.journal, entry ∈ k.journal ∨ ¬entry.2.IsLoss
  story : ∃ more : List Instruction, k'.story = k.story ++ more ∧ ∀ instruction ∈ more, instruction.IsIdle

theorem Idles.setParked (k : Kernel) (parked : Bool) : k.Idles { k with parked } :=
  ⟨rfl, rfl, rfl, rfl, fun _ => Or.inl, [], (List.append_nil _).symm, by simp⟩

theorem Idles.setEnabled (k : Kernel) (enabled : Bool) : k.Idles { k with cpu := { k.cpu with enabled } } :=
  ⟨rfl, rfl, rfl, rfl, fun _ => Or.inl, [], (List.append_nil _).symm, by simp⟩

theorem Idles.onProcessor {cpu : Processor} (instruction : Instruction) (landmarks : cpu.landmarks = k.cpu.landmarks)
    (idle : instruction.IsIdle) (trace : cpu.trace = k.cpu.trace.push instruction) : k.Idles { k with cpu } :=
  ⟨rfl, rfl, rfl, landmarks, fun _ => Or.inl, [instruction], by simp [Kernel.story, trace], by simpa using idle⟩

theorem Idles.note (k : Kernel) (idle : instruction.IsIdle) : k.Idles { k with cpu := k.cpu.note instruction } :=
  .onProcessor instruction rfl idle rfl

theorem Idles.mask (k : Kernel) : k.Idles { k with cpu := k.cpu.mask } :=
  .onProcessor .mask rfl trivial rfl

theorem Idles.unmask (k : Kernel) : k.Idles { k with cpu := k.cpu.unmask } :=
  .onProcessor .unmask rfl trivial rfl

theorem Idles.report (k : Kernel) {notice : Notice} (kept : ¬notice.IsLoss) :
    k.Idles { k with journal := k.journal.push (k.ticks, notice) } := by
  refine ⟨rfl, rfl, rfl, rfl, ?_, [], (List.append_nil _).symm, by simp⟩
  intro entry member
  rcases Array.mem_push.mp member with old | rfl
  · exact Or.inl old
  · exact Or.inr kept

theorem Stands.mask {ongoing : List Activity} {parked : Bool} {busy : Prop} (stands : Stands ongoing parked busy k) :
    Stands ongoing parked busy { k with cpu := k.cpu.mask } :=
  (stands.note .mask trivial rfl).congr rfl rfl rfl

theorem Stands.unmask {ongoing : List Activity} {parked : Bool} {busy : Prop} (stands : Stands ongoing parked busy k) :
    Stands ongoing parked busy { k with cpu := k.cpu.unmask } :=
  (stands.note .unmask trivial rfl).congr rfl rfl rfl

/-- The clock goes on. -/
def rung (k : Kernel) : Kernel :=
  { k with cpu := k.cpu.note .tick, ticks := Word.wrappingAdd k.ticks 1 }

/-- The running task has gone to sleep. -/
def asleep (k : Kernel) (ms : Nat) (table : Table) : Kernel :=
  { k.withTable table with cpu := (k.withTable table).cpu.note (.sleep ms) }

/-- The processor has gone to another task, and the stack pointer of the task that had it is saved in the table. -/
def switched (k : Kernel) (handover : Handover) (saved : Nat) (table : Table) : Kernel :=
  { k with cpu := k.cpu.switch handover saved }.withTable table

end Kernel

/-- An invariant `keeps` of the system, what is left of it once a task is chosen to get the processor, what that
task finds when it gets it, what is left of the invariant while a tick has not been acted on, and what is left
after a fault. The other fields say that the single pieces of work keep it. -/
structure Regimen (ω : Type) where
  keeps : System ω → Prop
  torn : Handover → System ω → Prop
  lands : System ω → Prop
  rings : System ω → Prop
  stopped : System ω → Prop
  excuse : ∀ s, keeps s → stopped s
  idles : ∀ s k, keeps s → s.kernel.Idles k → keeps { s with kernel := k }
  dispatches : ∀ s i, keeps s → s.kernel.Told → s.kernel.table.Eligible i →
    (Table.dispatch i).Meets s.kernel.table (fun handover t =>
      match handover with
      | none => keeps { s with kernel := s.kernel.withTable t }
      | some handover => torn handover { s with kernel := s.kernel.withTable t }) fun _ => False
  switches : ∀ s handover saved, saved ≠ 0 → torn handover s → s.kernel.Told → s.kernel.story.Prepares handover →
    (Table.saveStackPointer handover.outgoing saved).Meets s.kernel.table
      (fun _ t => lands { s with kernel := s.kernel.switched handover saved t })
      fun t => stopped { s with kernel := s.kernel.switched handover saved t }
  sleeps : ∀ s ms, ms ≠ 0 → keeps s → s.kernel.Told → s.kernel.table.Busy →
    (Table.blockCurrent (Ticks.saturate (s.kernel.ticks + Ticks.ofMs ms))).Meets s.kernel.table
      (fun done t => if done then keeps { s with kernel := s.kernel.asleep ms t }
        else keeps { s with kernel := s.kernel.withTable t }) fun _ => False
  retires : ∀ s, keeps s → s.kernel.Told → s.kernel.table.Busy →
    (System.onKernel retire).Meets s (fun _ => keeps) stopped
  ticks : ∀ s, keeps s →
    if s.kernel.ticks + 1 < wordLimit then rings { s with kernel := s.kernel.rung }
    else stopped { s with kernel := s.kernel.rung }
  masks : ∀ s, rings s → rings { s with kernel.cpu := s.kernel.cpu.mask }
  wakes : ∀ s, rings s → (Table.wakeDue s.kernel.ticks).Meets s.kernel.table
    (fun _ t => keeps { s with kernel := s.kernel.withTable t }) fun _ => False
  nobody : ∀ s, rings s → s.kernel.table.current = none → keeps s

namespace Regimen
open KernelCore.System Table
variable {ω α β : Type} {g : Regimen ω} {pre mid post inv inv' : System ω → Prop} {ongoing ongoing' : List Activity}
  {parked parked' : Bool} {busy busy' : Prop} {env : Surroundings ω}

/-- The kernel stands as between two pieces of work, and the system is as in `inv`. -/
structure Stage (inv : System ω → Prop) (ongoing : List Activity) (parked : Bool) (busy : Prop)
    (s : System ω) : Prop where
  stands : Stands ongoing parked busy s.kernel
  keeps : inv s

/-- From a system as in `pre` the work comes to one as in `post`. -/
def Carries (g : Regimen ω) (action : Machine (System ω) α) (pre post : System ω → Prop) : Prop :=
  ∀ s, pre s → action.Meets s (fun _ => post) g.stopped

/-- The invariant holds, and the kernel stands as between two pieces of work. -/
abbrev Holds (g : Regimen ω) : List Activity → Bool → Prop → System ω → Prop := Stage g.keeps

theorem Carries.bind {action : Machine (System ω) α} {next : α → Machine (System ω) β}
    (first : g.Carries action pre mid) (rest : ∀ a, g.Carries (next a) mid post) :
    g.Carries (action >>= next) pre post :=
  fun s holds => (first s holds).bind fun a t => rest a t

theorem Holds.excuse {s : System ω} (holds : g.Holds ongoing parked busy s) : g.stopped s :=
  g.excuse s holds.keeps

theorem Holds.weaken {s : System ω} (holds : g.Holds ongoing parked busy s) (less : busy' → busy) :
    g.Holds ongoing parked busy' s := ⟨holds.stands.weaken less, holds.keeps⟩

theorem Carries.congr {action : Machine (System ω) α}
    (carries : g.Carries action (g.Holds ongoing parked busy) (g.Holds ongoing parked busy)) (same : busy ↔ busy') :
    g.Carries action (g.Holds ongoing parked busy') (g.Holds ongoing parked busy') := by
  rwa [propext same] at carries

/-- What the tasks allow and the invariant survives. -/
theorem carries_of_stands {action : Machine (System ω) α}
    (stands : action.Carries (Stands ongoing parked busy) (Stands ongoing' parked' busy'))
    (keeps : ∀ s, Stage inv ongoing parked busy s → action.Meets s (fun _ => inv') g.stopped) :
    g.Carries action (Stage inv ongoing parked busy) (Stage inv' ongoing' parked' busy') := by
  intro s holds
  have both := (stands s holds.stands).both (keeps s holds)
  exact both.mono (fun _ _ ⟨standsT, keepsT⟩ => ⟨standsT, keepsT⟩) fun _ => And.right

theorem carries_of_idles {change : Kernel → Kernel}
    (stands : ∀ k, Stands ongoing parked busy k → Stands ongoing' parked' busy' (change k))
    (idles : ∀ k : Kernel, k.Idles (change k)) :
    g.Carries (onKernel (modify change)) (g.Holds ongoing parked busy) (g.Holds ongoing' parked' busy') :=
  fun s holds => meets_onKernel.mpr ⟨stands _ holds.stands, g.idles s _ holds.keeps (idles _)⟩

theorem carries_masked {body : Machine (System ω) α}
    (mask : ∀ s, pre s → pre { s with kernel.cpu := s.kernel.cpu.mask })
    (unmask : ∀ s, post s → post { s with kernel.cpu := s.kernel.cpu.unmask }) (carries : g.Carries body pre post) :
    g.Carries (masked body) pre post :=
  fun s holds => meets_masked (fun _ t => unmask t) (carries s holds) (carries _ (mask s holds))

theorem Holds.mask (s : System ω) (holds : g.Holds ongoing parked busy s) :
    g.Holds ongoing parked busy { s with kernel.cpu := s.kernel.cpu.mask } :=
  ⟨holds.stands.mask, g.idles s _ holds.keeps (.mask _)⟩

theorem Holds.unmask (s : System ω) (holds : g.Holds ongoing parked busy s) :
    g.Holds ongoing parked busy { s with kernel.cpu := s.kernel.cpu.unmask } :=
  ⟨holds.stands.unmask, g.idles s _ holds.keeps (.unmask _)⟩

/-- What happens outside keeps the invariant as the operations do, and restores it when the processor has come to
another task. -/
structure Faithful (g : Regimen ω) (env : Surroundings ω) : Prop where
  parked : ∀ ongoing, g.Carries env.whileParked (g.Holds (.parked :: ongoing) true False)
    (g.Holds (.parked :: ongoing) true False)
  away : ∀ ongoing, g.Carries env.whileAway (Stage g.lands (.away :: ongoing) false True)
    (g.Holds (.away :: ongoing) false True)

theorem carries_resume {activity : Activity} (awake : parked = false → .parked ∉ ongoing) :
    g.Carries resume (g.Holds (activity :: ongoing) parked busy) (g.Holds ongoing parked busy) :=
  carries_of_stands (System.carries_resume awake) fun s holds =>
    g.idles s _ holds.keeps (.note _ trivial)

theorem carries_setEnabled (enabled : Bool) :
    g.Carries (setEnabled enabled) (g.Holds ongoing parked busy) (g.Holds ongoing parked busy) :=
  carries_of_stands (System.carries_setEnabled enabled) fun s holds =>
    g.idles s _ holds.keeps (.setEnabled _ enabled)

theorem carries_setParked (flag : Bool) (awake : flag = false → .parked ∉ ongoing) :
    g.Carries (setParked flag) (g.Holds ongoing parked busy) (g.Holds ongoing flag busy) :=
  carries_of_stands (System.carries_setParked flag awake) fun s holds =>
    g.idles s _ holds.keeps (.setParked _ flag)

theorem carries_park (faithful : g.Faithful env) :
    g.Carries (park env) (g.Holds ongoing true False) (g.Holds ongoing true False) := by
  have waits : g.Carries (onKernel (onProcessor Processor.wait)) (g.Holds ongoing true False)
      (g.Holds (.parked :: ongoing) true False) := fun s holds => meets_onKernel.mpr <| meets_onProcessor.mpr
    ⟨holds.stands.plain .wait trivial (story_note _ .wait).symm rfl rfl (by simp),
      g.idles s _ holds.keeps (.onProcessor .wait rfl trivial rfl)⟩
  refine waits.bind ?_
  intro _ s holds
  rw [meets_bind, meets_get]
  dsimp only
  split
  · exact holds.excuse
  · exact ((carries_setEnabled true).bind fun _ => (faithful.parked ongoing).bind fun _ =>
      (carries_setEnabled false).bind fun _ => carries_resume (by simp)) s holds

theorem carries_switch (faithful : g.Faithful env) (handover : Handover) :
    g.Carries (switch env handover)
      (fun s => Stage (g.torn handover) ongoing false True s ∧ s.kernel.story.Prepares handover)
      (g.Holds ongoing false True) := by
  rintro s ⟨holds, prepares⟩
  unfold switch
  rw [meets_bind, meets_get]
  have awake : Activity.parked ∉ ongoing := holds.stands.awake rfl
  have stands := holds.stands.switch prepares (env.savedPointer s)
  have saves := g.switches s handover _ (env.savedPointer_ne_zero s) holds.keeps holds.stands.told prepares
  rw [meets_bind, meets_onKernel, meets_onProcessor, meets_bind, meets_onKernel]
  have lands : (onTable (saveStackPointer handover.outgoing (env.savedPointer s))).Meets
      { s.kernel with cpu := s.kernel.cpu.switch handover (env.savedPointer s) }
      (fun _ k => Stands (.away :: ongoing) false True k ∧ g.lands { s with kernel := k })
      fun k => k.Told ∧ g.stopped { s with kernel := k } :=
    (meets_onTable_of_extends stands (meets_saveStackPointer ..)).both (Kernel.meets_onTable.mpr saves)
  refine lands.mono ?_ fun _ => And.right
  rintro _ k ⟨standsK, landsK⟩
  exact ((faithful.away ongoing).bind fun _ => carries_resume fun _ => awake) _ ⟨standsK, landsK⟩

theorem carries_rescheduleFor (faithful : g.Faithful env) (rounds : Nat) :
    g.Carries (rescheduleFor env rounds) (g.Holds ongoing false False) (g.Holds ongoing false True) := by
  induction rounds with
  | zero => exact fun s holds => holds.excuse
  | succ rounds ih =>
    intro s holds
    unfold rescheduleFor
    rw [meets_bind, meets_get]
    dsimp only
    split
    · rw [meets_bind]
      cases picked : s.kernel.table.pick with
      | error fault => exact holds.excuse
      | ok choice =>
        rw [meets_lift_ok]
        cases choice with
        | some slot =>
          have eligible := eligible_of_pick picked
          have keeps : (onKernel (onTable (Table.dispatch slot))).Meets s (fun handover t =>
              match handover with
              | none => g.keeps t
              | some handover => g.torn handover t) g.stopped :=
            meets_onKernel.mpr (meets_onTable.mpr (g.dispatches s slot holds.keeps holds.stands.told eligible).excused)
          have stands : (onKernel (onTable (Table.dispatch slot))).Meets s (fun handover t =>
              Stands ongoing false True t.kernel ∧ ∀ h, handover = some h → t.kernel.story.Prepares h)
              fun t => t.kernel.Told := meets_onKernel.mpr (meets_onDispatch holds.stands picked)
          refine ((stands.both keeps).mono (fun _ _ => id) fun _ => And.right).bind ?_
          rintro (none | handover) t ⟨⟨standsT, prepares⟩, keepsT⟩
          · exact ⟨standsT, keepsT⟩
          · exact carries_switch faithful handover t ⟨⟨standsT, keepsT⟩, prepares handover rfl⟩
        | none =>
          -- Nobody is ready: the scheduler parks, and looks again with one round less to go.
          have awake : Activity.parked ∉ ongoing := holds.stands.awake rfl
          exact ((carries_setParked true (by simp)).bind fun _ => (carries_park faithful).bind fun _ =>
            (carries_setParked false fun _ => awake).bind fun _ => ih) s holds
    · rename_i uninitialized
      refine (meets_pure ..).mpr ⟨holds.stands.busy_of_uninitialized ?_, holds.keeps⟩
      simpa [isInitialized] using uninitialized

theorem carries_reschedule (faithful : g.Faithful env) :
    g.Carries (reschedule env) (g.Holds ongoing false busy) (g.Holds ongoing false True) := by
  intro s holds
  unfold reschedule
  rw [meets_bind, meets_get]
  exact carries_rescheduleFor faithful _ s (holds.weaken False.elim)

theorem carries_yield (faithful : g.Faithful env) :
    g.Carries (yield env) (g.Holds ongoing false True) (g.Holds ongoing false True) :=
  carries_masked Holds.mask Holds.unmask (carries_reschedule faithful)

/-- While a tick has not been acted on, less is left of the invariant. -/
structure Rung (g : Regimen ω) (ongoing : List Activity) (parked : Bool) (busy : Prop) (now : Nat) (s : System ω) :
    Prop where
  stands : Stands ongoing parked busy s.kernel
  rings : g.rings s
  now : s.kernel.ticks = now

theorem Rung.mask {now : Nat} (s : System ω) (rung : g.Rung ongoing parked busy now s) :
    g.Rung ongoing parked busy now { s with kernel.cpu := s.kernel.cpu.mask } :=
  ⟨rung.stands.mask, g.masks s rung.rings, rung.now⟩

theorem carries_choice (faithful : parked = false → g.Faithful env) :
    g.Carries (do if (← get).kernel.parked = false then reschedule env) (g.Holds ongoing parked False)
      (g.Holds ongoing parked (parked = false)) := by
  intro s holds
  rw [meets_bind, meets_get]
  have flag := holds.stands.flag
  cases parked with
  | false =>
    rw [if_pos flag]
    exact (carries_reschedule (faithful rfl) s holds).mono (fun _ _ holdsT => holdsT.weaken fun _ => trivial)
      fun _ => id
  | true =>
    rw [if_neg (by simp [flag])]
    exact (meets_pure ..).mpr (holds.weaken (by simp))

theorem carries_report {notice : Notice} (kept : ¬notice.IsLoss) :
    g.Carries (onKernel (report notice)) (g.Holds ongoing parked busy) (g.Holds ongoing parked busy) :=
  carries_of_idles (fun _ stands => stands.congr rfl rfl rfl) fun k => .report k kept

/-- Sleepers are woken, and then some task is chosen. -/
theorem carries_serve (faithful : parked = false → g.Faithful env) (now : Nat) :
    g.Carries (do
      if (← get).kernel.table.isInitialized then
        let woken ← onKernel (onTable (wakeDue now))
        if 0 < woken then onKernel (report (.woke now woken))
        if (← get).kernel.parked = false then reschedule env)
      (g.Rung (.serving :: ongoing) parked busy now) (g.Holds (.serving :: ongoing) parked (parked = false)) := by
  intro s rung
  rw [meets_bind, meets_get]
  split
  · have keeps := g.wakes s rung.rings
    rw [rung.now] at keeps
    have wakes : (onKernel (onTable (wakeDue now))).Meets s (fun _ => g.Holds (.serving :: ongoing) parked False)
        g.stopped := by
      have kept : (onKernel (onTable (wakeDue now))).Meets s (fun _ => g.keeps) g.stopped :=
        meets_onKernel.mpr (meets_onTable.mpr keeps.excused)
      exact ((System.carries_wakeDue now s rung.stands).both kept).mono
        (fun _ _ ⟨standsT, keepsT⟩ => ⟨standsT, keepsT⟩) fun _ => And.right
    refine wakes.bind ?_
    intro woken t holds
    split
    · exact ((carries_report (by simp [Notice.IsLoss])).bind fun _ => carries_choice faithful) t holds
    · exact carries_choice faithful t holds
  · rename_i uninitialized
    have nobody : s.kernel.table.current = none := by simpa [isInitialized] using uninitialized
    exact (meets_pure ..).mpr
      ⟨(rung.stands.busy_of_uninitialized nobody).weaken fun _ => trivial, g.nobody s rung.rings nobody⟩

theorem carries_tick (faithful : parked = false → g.Faithful env) :
    g.Carries (tick env) (g.Holds ongoing parked busy) (g.Holds ongoing parked (parked = false)) := by
  intro s holds
  have served : g.Carries (onKernel (onProcessor (·.note .served)))
      (g.Holds (.serving :: ongoing) parked (parked = false)) (g.Holds ongoing parked (parked = false)) :=
    carries_of_idles (fun k stands => stands.plain .served trivial (story_note k .served).symm rfl rfl
      fun awake => List.not_mem_of_not_mem_cons (stands.awake awake)) fun k => .note k trivial
  have noted : Stands (.serving :: ongoing) parked busy { s.kernel with cpu := s.kernel.cpu.note .tick } :=
    holds.stands.plain .tick trivial (story_note s.kernel .tick).symm rfl rfl
      fun awake => by simp [Instruction.activities, holds.stands.awake awake]
  have arrived : Stands (.serving :: ongoing) parked busy s.kernel.rung := noted.congr rfl rfl rfl
  have clock := g.ticks s holds.keeps
  unfold tick
  rw [meets_bind, meets_onKernel, meets_onProcessor, meets_bind, meets_get, meets_bind, meets_onKernel, meets_modify]
  dsimp only
  rw [meets_bind]
  by_cases fits : s.kernel.ticks + 1 < wordLimit
  · rw [if_pos fits] at clock
    rw [Word.add_of_lt fits, meets_lift_ok]
    refine ((carries_masked Rung.mask Holds.unmask (carries_serve faithful _)).bind fun _ => served) _
      ⟨arrived, clock, ?_⟩
    exact Nat.mod_eq_of_lt fits
  · rw [if_neg fits] at clock
    rw [Word.add_of_not_lt fits]
    exact clock

theorem carries_sleep (faithful : g.Faithful env) (ms : Nat) :
    g.Carries (sleep env ms) (g.Holds ongoing false True) (g.Holds ongoing false True) := by
  unfold sleep
  split
  · exact carries_yield faithful
  rename_i lasts
  refine carries_masked Holds.mask Holds.unmask ?_
  intro s holds
  have orderly := holds.stands.told.orderly
  have busy := holds.stands.busy trivial
  have sleeps := g.sleeps s ms lasts holds.keeps holds.stands.told busy
  rw [meets_bind, meets_get]
  dsimp only
  rw [meets_bind, meets_onKernel, meets_onTable]
  generalize Ticks.saturate _ = deadline at sleeps ⊢
  have blocks : (blockCurrent deadline).Meets s.kernel.table
      (fun done t => Becomes (ongoing.head? = some .serving) s.kernel.table t ∧ t.Orderly ∧
        (done = false → t.current = none)) fun _ => False := meets_blockCurrent orderly busy deadline
  refine (sleeps.and blocks).mono ?_ fun _ => False.elim
  rintro (_ | _) t ⟨keeps, becomes, orderlyT, idle⟩
  · have stands := holds.stands.withTable becomes orderlyT False.elim
    exact ⟨stands.busy_of_uninitialized (idle rfl), keeps⟩
  · have stands := holds.stands.withTable becomes orderlyT False.elim
    simp only [if_true]
    rw [meets_bind, meets_onKernel, meets_onProcessor]
    exact carries_reschedule faithful _ ⟨stands.note (.sleep ms) trivial rfl, keeps⟩

theorem carries_currentPid :
    g.Carries currentPid (g.Holds ongoing parked busy) (g.Holds ongoing parked busy) := by
  refine carries_masked Holds.mask Holds.unmask ?_
  intro s holds
  rw [meets_onKernel]
  unfold Kernel.currentPid
  rw [meets_bind, meets_get]
  cases s.kernel.table.currentPid with
  | error fault => exact holds.excuse
  | ok pid => exact holds

theorem carries_waitForRounds (faithful : g.Faithful env) (pid rounds : Nat) :
    g.Carries (waitForRounds env pid rounds) (g.Holds ongoing false True) (g.Holds ongoing false True) := by
  have looks : g.Carries (taskState pid) (g.Holds ongoing false True) (g.Holds ongoing false True) :=
    carries_masked Holds.mask Holds.unmask fun s holds => holds
  induction rounds with
  | zero => exact fun s holds => holds.excuse
  | succ rounds ih =>
    unfold waitForRounds
    refine looks.bind ?_
    intro state
    split
    · exact (carries_sleep faithful _).bind fun _ => ih
    · exact fun s holds => holds

theorem carries_waitFor (faithful : g.Faithful env) (pid : Nat) :
    g.Carries (waitFor env pid) (g.Holds ongoing false True) (g.Holds ongoing false True) := by
  unfold waitFor
  refine carries_currentPid.bind ?_
  intro current
  split
  · exact carries_report (by simp [Notice.IsLoss])
  · intro s holds
    rw [meets_bind, meets_get]
    exact carries_waitForRounds faithful pid _ s holds

theorem carries_exit (faithful : g.Faithful env) :
    g.Carries (exit env) (g.Holds ongoing false True) (g.Holds ongoing false True) := by
  have masks : g.Carries (onKernel (onProcessor Processor.mask)) (g.Holds ongoing false True)
      (g.Holds ongoing false True) := fun s holds => meets_onKernel.mpr (meets_onProcessor.mpr (Holds.mask s holds))
  have halts : g.Carries (onKernel (onProcessor Processor.halt)) (g.Holds ongoing false True)
      (g.Holds ongoing false True) :=
    carries_of_idles (fun _ stands => (stands.note .halt trivial rfl).congr rfl rfl rfl)
      fun _ => .onProcessor .halt rfl trivial rfl
  have retires : g.Carries (onKernel retire) (g.Holds ongoing false True) (g.Holds ongoing false False) :=
    carries_of_stands (carries_onKernel fun _ stands => meets_retire stands) fun s holds =>
      g.retires s holds.keeps holds.stands.told (holds.stands.busy trivial)
  unfold exit
  exact masks.bind fun _ => retires.bind fun _ => (carries_reschedule faithful).bind fun _ => halts

/-- What gives the processor away keeps the invariant. -/
theorem carries_turn (faithful : g.Faithful env) (turn : Turn) :
    g.Carries (turn.perform env) (g.Holds ongoing false True) (g.Holds ongoing false True) := by
  cases turn with
  | yield => exact carries_yield faithful
  | sleep ms => exact carries_sleep faithful ms
  | waitFor pid => exact carries_waitFor faithful pid
  | exit => exact carries_exit faithful
  | tick =>
    exact fun s holds => (carries_tick (fun _ => faithful) s holds).mono
      (fun _ _ holdsT => holdsT.weaken fun _ => rfl) fun _ => id

end Regimen
end KernelCore
