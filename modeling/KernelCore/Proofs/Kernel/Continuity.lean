import KernelCore.Proofs.Kernel.Arrivals

namespace KernelCore
open Machine

namespace Kernel
open Table
variable {α : Type} {marks : Landmarks} {sightings : List (Kernel × List Holding)} {holdings given : List Holding}
  {k k' : Kernel} {t : Table} {b : Arena} {stack sp entry arg i : Nat} {flags : TaskFlags} {task : Task}
  {handover : Handover}

/-- Every task can go on, and every switch so far was seen. -/
structure Continuous (marks : Landmarks) (sightings : List (Kernel × List Holding)) (holdings : List Holding)
    (k : Kernel) : Prop where
  threads : k.Threads marks k.table.current holdings
  witnessed : k.story.Witnessed marks sightings

theorem Tends.witnessed {c : Option Nat} (tends : k.Tends c k') (witnessed : k.story.Witnessed marks sightings) :
    k'.story.Witnessed marks sightings := by
  obtain ⟨more, story, still⟩ := tends.story
  rw [story]
  exact witnessed.append still

theorem Continuous.witnessed_withTable (continuous : k.Continuous marks sightings holdings) (t : Table) :
    (k.withTable t).story.Witnessed marks sightings :=
  Tends.witnessed (tends_withTable (c := k.table.current) k t) continuous.witnessed

theorem Continuous.keep (continuous : k.Continuous marks sightings holdings) (tends : k.Tends k.table.current k')
    (owns : k'.Owns given) (view : k'.table.view Task.bearing = k.table.view Task.bearing)
    (current : k'.table.current = k.table.current) : k'.Continuous marks sightings given := by
  refine ⟨?_, tends.witnessed continuous.witnessed⟩
  rw [current]
  exact continuous.threads.keep tends owns view

theorem Continuous.idles (continuous : k.Continuous marks sightings holdings) (idles : k.Idles k') :
    k'.Continuous marks sightings holdings := by
  have table := idles.table
  exact continuous.keep idles.tends (continuous.threads.owns.passes idles.passes) (by rw [table]) (by rw [table])

theorem Continuous.withTable (continuous : k.Continuous marks sightings holdings) (lodges : k.table.Lodges [] t)
    (same : t.view Task.bearing = k.table.view Task.bearing ∧ t.current = k.table.current) :
    (k.withTable t).Continuous marks sightings holdings :=
  continuous.keep (tends_withTable k t) (continuous.threads.owns.withTable lodges) same.1 same.2

theorem tends_withArena {c : Option Nat} (retains : k.arena.Retains k.table.ownedStacks b) :
    k.Tends c (k.withArena b) :=
  tends_of_retains rfl ⟨[], (List.append_nil _).symm, Story.still_nil⟩ retains

theorem Continuous.withArena (continuous : k.Continuous marks sightings holdings)
    (backs : b.Backs (k.table.ownedStacks ++ given)) (retains : k.arena.Retains k.table.ownedStacks b) :
    (k.withArena b).Continuous marks sightings given :=
  continuous.keep (tends_withArena retains) (continuous.threads.owns.withArena backs) rfl rfl

/-- Work on the heap that leaves the stacks of the tasks alone. -/
theorem Continuous.meets_tryHeap {action : HeapAction α} {given : Except HeapError α → List Holding}
    (continuous : k.Continuous marks sightings holdings)
    (backs : action.run.Meets k.arena (fun result b => b.Backs (k.table.ownedStacks ++ given result)) fun _ => True)
    (retains : action.run.Meets k.arena (fun _ b => k.arena.Retains k.table.ownedStacks b) fun _ => True) :
    (tryHeap action).Meets k
      (fun result k' => k'.Continuous marks sightings (given result) ∧ k'.story = k.story ∧ k'.table = k.table)
      fun k' => k'.story.Witnessed marks sightings := by
  refine meets_onArena.mpr ((backs.both retains).mono ?_ fun _ _ => continuous.witnessed)
  intro result b both
  exact ⟨continuous.withArena both.1 both.2, rfl, rfl⟩

theorem Continuous.meets_allocateStack (continuous : k.Continuous marks sightings holdings) (size : Nat) :
    (tryHeap (Arena.allocate size)).Meets k (Splits (fun _ k' => k'.Continuous marks sightings holdings)
      fun stack k' => k'.Continuous marks sightings (⟨stack, size, false⟩ :: holdings) ∧ k'.story = k.story ∧
        k'.table = k.table)
      fun k' => k'.story.Witnessed marks sightings := by
  have backs := continuous.threads.owns.backs
  have allocates : (tryHeap (Arena.allocate size)).Meets k (fun result k' => k'.Continuous marks sightings
      ((result.toOption.map fun stack => (⟨stack, size, false⟩ : Holding)).toList ++ holdings) ∧
        k'.story = k.story ∧ k'.table = k.table) fun k' => k'.story.Witnessed marks sightings := by
    refine continuous.meets_tryHeap ((backs.allocate size).mono ?_ fun _ => id) (backs.allocate_retains size)
    intro result b given
    cases result with
    | error cause => exact given
    | ok stack => exact given.perm (perm_last ..)
  refine allocates.mono ?_ fun _ => id
  rintro (cause | stack) l post
  · exact post.1
  · exact post

theorem Continuous.meets_releaseOfStack (continuous : k.Continuous marks sightings (.ofStack stack :: holdings)) :
    (tryHeap (Arena.release stack)).Meets k
      (Splits (fun _ _ => False) fun _ k' => k'.Continuous marks sightings holdings)
      fun k' => k'.story.Witnessed marks sightings := by
  have backs := continuous.threads.owns.backs
  have retains := backs.release_retains (List.mem_cons_self ..) rfl
  have releases : (Arena.release stack).run.Meets k.arena
      (fun result b => result = .ok () ∧ b.Backs (k.table.ownedStacks ++ holdings)) fun _ => True :=
    (backs.perm (perm_last ..).symm).release.excused
  refine meets_onArena.mpr ((releases.both retains).mono ?_ fun _ _ => continuous.witnessed)
  rintro _ b ⟨⟨rfl, backs⟩, retains⟩
  exact continuous.withArena backs retains

theorem Continuous.meets_releaseStack (continuous : k.Continuous marks sightings (.ofStack stack :: holdings)) :
    (releaseStack stack).Meets k (fun _ k' => k'.Continuous marks sightings holdings)
      fun k' => k'.story.Witnessed marks sightings :=
  meets_releaseStack_of continuous.meets_releaseOfStack fun _ _ => False.elim

/-- The frame of a task that is still to be added to the table lies on a stack that no task has yet. -/
structure Furnished (marks : Landmarks) (sightings : List (Kernel × List Holding)) (holdings : List Holding)
    (t : Table) (stack sp entry arg : Nat) (k : Kernel) : Prop where
  continuous : k.Continuous marks sightings (.ofStack stack :: holdings)
  table : k.table = t
  prepared : ∃ before : Story, k.story = before ++ [.prepare sp entry arg] ∧ before.version = t
  frame : Frame.LiesAt k.arena.memory stack Config.taskStackSize sp ⟨entry, arg, marks.onReturn, marks.trampoline⟩

theorem Continuous.meets_prepareStack {size : Nat} (large : Frame.room ≤ size)
    (continuous : k.Continuous marks sightings (⟨stack, size, false⟩ :: holdings)) (entry arg : Nat) :
    (prepareStack stack size entry arg).Meets k (fun sp k' =>
      k'.Continuous marks sightings (⟨stack, size, false⟩ :: holdings) ∧ k'.table = k.table ∧
        k'.story = k.story ++ [.prepare sp entry arg] ∧
        Frame.LiesAt k'.arena.memory stack size sp ⟨entry, arg, marks.onReturn, marks.trampoline⟩)
      fun k' => k'.story.Witnessed marks sightings := by
  refine meets_prepareStack_of (fun _ _ => continuous.witnessed) fun sp m laid => ?_
  rw [continuous.threads.landmarks] at laid
  have owns := continuous.threads.owns
  have member : ⟨stack, size, false⟩ ∈ k.table.ownedStacks ++ ⟨stack, size, false⟩ :: holdings := by simp
  obtain ⟨covers, byte⟩ := Frame.lay_within large laid
  have stored := owns.backs.stored member covers byte
  have story : Kernel.story { k with cpu := k.cpu.note (.prepare sp entry arg) } =
      k.story ++ [.prepare sp entry arg] := (story_note k _).symm
  have notes : k.Passes { k with cpu := k.cpu.note (.prepare sp entry arg) } := .note k trivial
  have owned := (owns.passes notes).withArena stored
  -- The new stack is apart from the stacks that there are, so the frame is laid out on none of them.
  have retains : k.arena.Retains k.table.ownedStacks { k.arena with memory := m } := by
    intro h inFront addr above below
    have apart : h.addr + h.size ≤ stack ∨ stack + size ≤ h.addr :=
      (List.pairwise_append.mp owns.backs.disjoint).2.2 h inFront _ (List.mem_cons_self ..)
    exact byte addr (by omega)
  refine ⟨continuous.keep ?_ owned rfl rfl, rfl, story, ?_⟩
  · exact tends_of_retains rfl ⟨_, story, Story.still_singleton id⟩ retains
  · exact Frame.liesAt_of_lay large (owns.backs.covers member) laid

theorem Continuous.meets_newStack (continuous : k.Continuous marks sightings holdings)
    (version : k.story.version = k.table) (entry arg : Nat) :
    (newStack entry arg).Meets k (Splits (fun _ k' => k'.Continuous marks sightings holdings)
      fun fresh k' => k'.Furnished marks sightings holdings k.table fresh.1 fresh.2 entry arg)
      fun k' => k'.story.Witnessed marks sightings := by
  have large : Frame.room ≤ Config.taskStackSize := by decide
  -- Nothing below computes with the size of a stack but that it has room for a frame.
  obtain ⟨size, same⟩ : ∃ size, Config.taskStackSize = size := ⟨_, rfl⟩
  rw [same] at large
  refine meets_newStack_of same (continuous.meets_allocateStack size)
    (fun _ l continuous => continuous.idles (.report l id)) ?_
  rintro stack l ⟨continuous, story, table⟩
  refine (continuous.meets_prepareStack large entry arg).mono ?_ fun _ => id
  rintro sp l' ⟨continuous, same', prepared, frame⟩
  subst same
  exact ⟨continuous, same'.trans table, ⟨k.story, by rw [prepared, story], version⟩, frame⟩

theorem Continuous.grow {extra : List (Nat × TaskFlags × Option Nat)}
    (continuous : k.Continuous marks sightings (given ++ holdings)) (lodges : k.table.Lodges given t)
    (view : t.view Task.bearing = k.table.view Task.bearing ++ extra)
    (current : ∀ i, i < k.table.tasks.size → (t.current = some i ↔ k.table.current = some i))
    (new : ∀ (i : Nat) (task : Task), extra[i]? = some task.bearing →
      Ready marks t.current (k.withTable t) (k.table.tasks.size + i) task) :
    (k.withTable t).Continuous marks sightings holdings := by
  have tends : k.Tends k.table.current (k.withTable t) := tends_withTable k t
  exact ⟨continuous.threads.grow tends (continuous.threads.owns.withTable lodges) view current new,
    tends.witnessed continuous.witnessed⟩

/-- Once a task is added to the table as the last one, with a frame on its stack, it can start. -/
theorem Furnished.fresh (furnished : k.Furnished marks sightings holdings k.table stack sp entry arg)
    (behind : k.table.tasks.size ≤ i) (last : t.tasks.size = i + 1) (bearing : task.bearing = (sp, flags, some stack))
    (other : flags.contains TaskFlags.boot = false) : (k.withTable t).Fresh marks i task := by
  obtain ⟨continuous, -, ⟨before, story, version⟩, frame⟩ := furnished
  obtain ⟨rfl, both⟩ := Prod.mk.inj bearing
  obtain ⟨rfl, own⟩ := Prod.mk.inj both
  obtain ⟨never, unsaved⟩ := continuous.threads.unborn i behind
  have still : Story.Still [.table t] := Story.still_singleton id
  have told : (k.withTable t).story = before ++ .prepare task.sp entry arg :: [.table t] := by
    rw [story_withTable, story, List.append_assoc, List.singleton_append]
  refine ⟨?_, ?_, other, stack, entry, arg, own, ⟨before, t, [], told, ?_, last⟩, frame⟩
  · rw [story_withTable, Story.entered_append still]
    exact never
  · rw [story_withTable, Story.lastSaved_append still]
    exact unsaved
  · rwa [version]

/-- The stack goes to a new task. If that is refused, it is left over. -/
abbrev Enrolls (marks : Landmarks) (sightings : List (Kernel × List Holding)) (holdings : List Holding) (stack : Nat) :
    Except TaskError α → Kernel → Prop :=
  Splits (fun _ k => k.Continuous marks sightings (.ofStack stack :: holdings))
    fun _ k => k.Continuous marks sightings holdings

theorem Furnished.meets_add (furnished : k.Furnished marks sightings holdings k.table stack sp entry arg)
    (orderly : k.table.Orderly) :
    (tryTable (Table.add (some stack) sp .none)).Meets k (Enrolls marks sightings holdings stack)
      fun k' => k'.story.Witnessed marks sightings := by
  have continuous := furnished.continuous
  have lodges : (Table.add (some stack) sp .none).run.Meets k.table (k.table.Lodged stack) fun _ => True :=
    meets_add_lodges stack sp rfl
  have adds := meets_add_view (t := k.table) Task.steady_bearing (some stack) sp .none
  refine meets_onTable.mpr ((lodges.both adds).mono ?_ fun t _ => continuous.witnessed_withTable t)
  intro result t post
  obtain ⟨lodges, adds⟩ := post
  cases result with
  | error cause =>
    obtain rfl : t = k.table := adds
    exact continuous.withTable lodges ⟨rfl, rfl⟩
  | ok pid =>
    obtain ⟨view, current⟩ := adds
    have sizes := congrArg List.length view
    rw [size_view, List.length_append, size_view, List.length_singleton] at sizes
    refine continuous.grow lodges view (fun i _ => by rw [current]) ?_
    intro i task bearing
    rw [List.getElem?_singleton] at bearing
    split at bearing
    · rename_i first
      subst first
      have apart : t.current ≠ some (k.table.tasks.size + 0) := by
        intro same
        exact absurd (orderly.current _ (current.symm.trans same)) (Nat.lt_irrefl _)
      have bearing : task.bearing = (sp, .none, some stack) := (Option.some.inj bearing).symm
      exact Or.inl ⟨apart, furnished.fresh (Nat.le_refl _) sizes bearing rfl⟩
    · simp at bearing

theorem ready_of_boot (boot : task.flags = .boot) : Ready marks (some i) k i task :=
  Or.inr ⟨Or.inr (by rw [boot]; rfl), Or.inl rfl⟩

/-- What runs already goes on as the boot task. -/
theorem Continuous.adopt (continuous : k.Continuous marks sightings holdings) (lodges : k.table.Lodges [] t)
    (empty : k.table.tasks.size = 0) (view : t.view Task.bearing = [(0, .boot, none)]) (current : t.current = some 0) :
    (k.withTable t).Continuous marks sightings holdings := by
  have nobody : k.table.view Task.bearing = [] := List.eq_nil_of_length_eq_zero ((size_view ..).trans empty)
  have nothing : k.Continuous marks sightings ([] ++ holdings) := continuous
  refine nothing.grow lodges (by rw [nobody, view, List.nil_append]) (by omega) ?_
  intro i task bearing
  rw [List.getElem?_singleton] at bearing
  split at bearing
  · rename_i first
    have flags := (Prod.mk.inj (Prod.mk.inj (Option.some.inj bearing)).2).1
    rw [current, empty, first]
    exact ready_of_boot flags.symm
  · simp at bearing

theorem Continuous.meets_adoptBoot (continuous : k.Continuous marks sightings holdings) :
    (tryTable Table.adoptBoot).Meets k (fun _ k' => k'.Continuous marks sightings holdings)
      fun k' => k'.story.Witnessed marks sightings := by
  have lodges := meets_adoptBoot_lodges (t := k.table)
  have adopts := meets_adoptBoot_view (t := k.table) Task.steady_bearing
  refine meets_onTable.mpr ((lodges.both adopts).mono ?_ fun t _ => continuous.witnessed_withTable t)
  intro result t post
  obtain ⟨lodges, adopts⟩ := post
  cases result with
  | error cause =>
    obtain rfl : t = k.table := adopts
    exact continuous.withTable lodges ⟨rfl, rfl⟩
  | ok pid =>
    obtain ⟨empty, adds, current⟩ := adopts
    have nobody : k.table.view Task.bearing = [] := List.eq_nil_of_length_eq_zero ((size_view ..).trans empty)
    exact continuous.adopt lodges empty (by rw [adds, nobody]; rfl) current

theorem Furnished.meets_adopt (furnished : k.Furnished marks sightings holdings k.table stack sp entry arg) :
    (tryTable (adopt stack sp)).Meets k (Enrolls marks sightings holdings stack)
      fun k' => k'.story.Witnessed marks sightings := by
  have continuous := furnished.continuous
  have lodges := meets_adopt_lodges (t := k.table) stack sp
  have adopts := meets_adopt_bearing (t := k.table) stack sp
  refine meets_onTable.mpr ((lodges.both adopts).mono ?_ fun t _ => continuous.witnessed_withTable t)
  intro result t post
  obtain ⟨lodges, adopts⟩ := post
  cases result with
  | error cause =>
    rcases adopts with same | ⟨empty, view, current⟩
    · obtain rfl : t = k.table := same
      exact continuous.withTable lodges ⟨rfl, rfl⟩
    · exact continuous.adopt lodges empty view current
  | ok pids =>
    obtain ⟨empty, view, current⟩ := adopts
    have nobody : k.table.view Task.bearing = [] := List.eq_nil_of_length_eq_zero ((size_view ..).trans empty)
    have sizes : t.tasks.size = 2 := (size_view ..).symm.trans (congrArg List.length view)
    refine continuous.grow lodges (by rw [nobody, view, List.nil_append]) (by omega) ?_
    intro i task bearing
    rw [current, empty, Nat.zero_add]
    match i with
    | 0 =>
      have flags := (Prod.mk.inj (Prod.mk.inj (Option.some.inj bearing)).2).1
      exact ready_of_boot flags.symm
    | 1 => exact Or.inl ⟨by simp, furnished.fresh (by omega) sizes (Option.some.inj bearing).symm rfl⟩
    | i + 2 => simp at bearing

theorem Continuous.meets_boot (continuous : k.Continuous marks sightings holdings)
    (version : k.story.version = k.table) :
    boot.Meets k (fun _ k' => k'.Continuous marks sightings holdings) fun k' => k'.story.Witnessed marks sightings := by
  refine meets_boot_of continuous (continuous.meets_newStack version _ _) ?_
    (fun _ _ => Continuous.meets_releaseStack) fun l _ kept continuous => continuous.idles (.report l kept)
  intro stack sp l furnished
  exact (furnished.table ▸ furnished).meets_adopt

theorem Continuous.meets_create (continuous : k.Continuous marks sightings holdings)
    (version : k.story.version = k.table) (orderly : k.table.Orderly) (entry arg : Nat) :
    (create entry arg).Meets k (fun _ k' => k'.Continuous marks sightings holdings)
      fun k' => k'.story.Witnessed marks sightings := by
  refine meets_create_of continuous (continuous.meets_newStack version _ _) ?_
    (fun _ _ => Continuous.meets_releaseStack) fun l _ kept continuous => continuous.idles (.report l kept)
  intro stack sp l furnished
  have table := furnished.table
  rw [← table] at furnished orderly
  exact furnished.meets_add orderly

/-- The running task exits, and its stack is left over. -/
theorem Continuous.meets_terminateCurrent (continuous : k.Continuous marks sightings holdings) (busy : k.table.Busy) :
    (onTable terminateCurrent).Meets k
      (fun stack k' => k'.Continuous marks sightings ((stack.map Holding.ofStack).toList ++ holdings))
      fun _ => False := by
  refine meets_onTable.mpr (((meets_terminateCurrent_lodges busy).both (meets_terminateCurrent_bearing busy)).mono ?_
    fun _ => And.left)
  intro stack t post
  obtain ⟨⟨housed, perm⟩, current, sizes, old⟩ := post
  have tends : k.Tends k.table.current (k.withTable t) := tends_withTable k t
  have owns := continuous.threads.owns.vacated housed perm
  refine ⟨?_, tends.witnessed continuous.witnessed⟩
  refine continuous.threads.become tends owns sizes.ge ?_ (fun i task _ => old i task) ?_
  · intro i _
    exact iff_of_eq (congrArg (· = some i) current)
  · intro i task behind there
    have inside := (Array.getElem?_eq_some_iff.mp there).1
    exact absurd (sizes ▸ inside) (Nat.not_lt.mpr behind)

theorem Continuous.meets_retire (continuous : k.Continuous marks sightings holdings) (busy : k.table.Busy) :
    retire.Meets k (fun _ k' => k'.Continuous marks sightings holdings)
      fun k' => k'.story.Witnessed marks sightings :=
  meets_retire_of (fun _ _ => continuous.witnessed) (continuous.meets_terminateCurrent busy).excused (fun _ => id)
    (fun _ _ => Continuous.meets_releaseOfStack) (fun _ _ _ => False.elim)
    fun _ l continuous => continuous.idles (.report l id)

theorem Continuous.asleep (continuous : (k.withTable t).Continuous marks sightings holdings) (ms : Nat) :
    (k.asleep ms t).Continuous marks sightings holdings :=
  continuous.keep (tends_of_arena rfl ⟨[.sleep ms], (story_note _ _).symm, Story.still_singleton id⟩ rfl)
    (continuous.threads.owns.congr rfl rfl rfl fun _ => Or.inl) rfl rfl

theorem Continuous.rung (continuous : k.Continuous marks sightings holdings) :
    k.rung.Continuous marks sightings holdings :=
  continuous.keep (tends_of_arena rfl ⟨[.tick], (story_note _ _).symm, Story.still_singleton id⟩ rfl)
    (continuous.threads.owns.congr rfl rfl rfl fun _ => Or.inl) rfl rfl

theorem Continuous.meets_blockCurrent (continuous : k.Continuous marks sightings holdings) (busy : k.table.Busy)
    (ms wake : Nat) :
    (blockCurrent wake).Meets k.table (fun done t =>
      if done then (k.asleep ms t).Continuous marks sightings holdings
      else (k.withTable t).Continuous marks sightings holdings) fun _ => False := by
  refine ((meets_blockCurrent_lodges busy wake).and (meets_blockCurrent_bearing busy wake)).mono ?_ fun _ => id
  intro done t post
  have blocked := continuous.withTable post.1 post.2
  cases done with
  | false => exact blocked
  | true => exact blocked.asleep ms

theorem Continuous.meets_wakeDue (continuous : k.Continuous marks sightings holdings) (now : Nat) :
    (wakeDue now).Meets k.table (fun _ t => (k.withTable t).Continuous marks sightings holdings) fun _ => False :=
  ((meets_wakeDue_lodges now).and (meets_wakeDue_bearing now)).mono
    (fun _ _ post => continuous.withTable post.1 post.2) fun _ => id

/-- The processor has just come to a task. -/
structure Landed (marks : Landmarks) (sightings : List (Kernel × List Holding)) (holdings : List Holding)
    (k : Kernel) : Prop where
  threads : k.Threads marks k.table.current holdings
  arrives : ∃ (before : Story) (enabled : Bool) (handover : Handover) (saved : Nat),
    before.Witnessed marks sightings ∧ k.Arrives marks before enabled handover saved

theorem Continuous.meets_dispatch (continuous : k.Continuous marks sightings holdings) (told : k.Told)
    (eligible : k.table.Eligible i) :
    (dispatch i).Meets k.table (fun handover t =>
      match handover with
      | none => (k.withTable t).Continuous marks sightings holdings
      | some handover => (k.withTable t).Torn marks handover holdings ∧ (k.withTable t).story.Witnessed marks sightings)
      fun _ => False := by
  have orderly := told.orderly
  have bearings := meets_dispatch_view Task.steady_bearing orderly eligible
  have titles := meets_dispatch_view Task.lasting_title.toSteady orderly eligible
  refine (((Table.meets_dispatch True orderly eligible).and bearings).and titles).mono ?_ fun _ => id
  intro handover t post
  obtain ⟨⟨dispatched, view, current⟩, titles, -⟩ := post
  have lodges : k.table.Lodges [] t := lodges_of_view titles
  cases handover with
  | none => exact continuous.withTable lodges ⟨view, current.trans (dispatched.kept rfl).symm⟩
  | some handover =>
    obtain ⟨now, incoming, apart, -⟩ := dispatched.handover handover rfl
    obtain ⟨task, here, next⟩ := dispatched.next handover rfl
    obtain ⟨outgoing, out⟩ := orderly.exists_task now
    have shown : ∀ (j : Nat) (task : Task), k.table.tasks[j]? = some task →
        ∃ task', t.tasks[j]? = some task' ∧ task'.bearing = task.bearing := by
      intro j task here
      have bearing : (t.view Task.bearing)[j]? = some task.bearing := by rw [view, getElem?_view, here, Option.map_some]
      rw [getElem?_view] at bearing
      exact Option.map_eq_some_iff.mp bearing
    have threads := continuous.threads.keep (tends_withTable k t) (continuous.threads.owns.withTable lodges) view
    rw [now] at threads
    rw [← incoming] at current apart here
    obtain ⟨outgoing', out', -⟩ := shown _ _ out
    obtain ⟨task', here', bearing⟩ := shown _ _ here
    refine ⟨⟨threads, current, apart, ⟨outgoing', out'⟩, task', here', ?_⟩, continuous.witnessed_withTable t⟩
    rw [next]
    exact (Prod.mk.inj bearing).1.symm

theorem Torn.meets_saveStackPointer {saved : Nat} (torn : k.Torn marks handover holdings) (somewhere : saved ≠ 0)
    (witnessed : k.story.Witnessed marks sightings) (told : k.Told) (prepares : k.story.Prepares handover) :
    (saveStackPointer handover.outgoing saved).Meets k.table
      (fun _ t => (k.switched handover saved t).Landed marks sightings holdings) fun _ => False := by
  obtain ⟨task, out⟩ := torn.outgoing
  refine meets_update_of out ⟨?_, k.story, _, handover, _, witnessed, torn.arrives told prepares out⟩
  have threads := torn.switched somewhere out
  rw [← torn.current] at threads
  exact threads

end Kernel
end KernelCore
