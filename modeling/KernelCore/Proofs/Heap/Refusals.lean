import KernelCore.Proofs.Heap.Planned
import KernelCore.Proofs.Heap.Strays

namespace KernelCore.Arena
open Machine
variable {α β : Type} {a b c : Arena} {r : Region} {blocks : List Block} {plan : List Parcel} {action : HeapAction α}
  {next : α → HeapAction β}

/-- Apart from the notices all is the same. -/
structure Same (a b : Arena) : Prop where
  heap : b.heap = a.heap
  memory : b.memory = a.memory

theorem Same.refl (a : Arena) : a.Same a := ⟨rfl, rfl⟩

theorem Same.trans (first : a.Same b) (second : b.Same c) : a.Same c :=
  ⟨second.heap.trans first.heap, second.memory.trans first.memory⟩

/-- A computation that only reads and reports. -/
def Looks (action : HeapAction α) : Prop := ∀ a, action.run.Meets a (fun _ b => a.Same b) fun _ => True

/-- A computation that is not refused. -/
def Insists (action : HeapAction α) : Prop :=
  ∀ a, action.run.Meets a (fun result _ => ∃ value, result = .ok value) fun _ => True

/-- A computation that has changed nothing when it is refused. -/
def Yields (action : HeapAction α) : Prop :=
  ∀ a, action.run.Meets a (fun result b => ∀ cause, result = .error cause → a.Same b) fun _ => True

theorem looks_pure (value : α) : Looks (pure value) := fun a => Same.refl a

theorem looks_throw (cause : HeapError) : Looks (throw cause : HeapAction α) := fun a => Same.refl a

theorem looks_get : Looks (get : HeapAction Arena) := fun a => Same.refl a

theorem looks_report (notice : Heap.Notice) : Looks (report notice : HeapAction Unit) := fun _ => ⟨rfl, rfl⟩

theorem looks_lift_outcome (outcome : Except Fault α) : Looks (liftM outcome : HeapAction α) := by
  intro a
  rw [meets_run_lift_outcome]
  cases outcome
  · trivial
  · exact .refl a

theorem Looks.bind (looks : Looks action) (rest : ∀ value, Looks (next value)) : Looks (action >>= next) := by
  intro a
  refine (looks a).run_bind ?_ fun _ _ same => same
  intro value b same
  exact (rest value b).mono (fun _ _ => same.trans) fun _ => id

theorem insists_lift (action : Machine Arena α) : Insists (action : HeapAction α) := by
  intro a
  rw [meets_run_lift]
  unfold Meets
  split
  · exact ⟨_, rfl⟩
  · trivial

theorem insists_pure (value : α) : Insists (pure value) := fun _ => ⟨value, rfl⟩

theorem Insists.bind (insists : Insists action) (rest : ∀ value, Insists (next value)) :
    Insists (action >>= next) := by
  intro a
  refine (insists a).run_bind (fun value b _ => rest value b) ?_
  rintro cause b ⟨value, refused⟩
  cases refused

theorem Looks.yields (looks : Looks action) : Yields action :=
  fun a => (looks a).mono (fun _ _ same _ _ => same) fun _ => id

theorem Insists.yields (insists : Insists action) : Yields action := by
  intro a
  refine (insists a).mono ?_ fun _ => id
  rintro _ b ⟨value, rfl⟩ cause refused
  cases refused

/-- A computation may look first. -/
theorem Looks.bind_yields (looks : Looks action) (rest : ∀ value, Yields (next value)) : Yields (action >>= next) := by
  intro a
  refine (looks a).run_bind ?_ fun _ _ same _ _ => same
  intro value b same
  exact (rest value b).mono (fun _ _ yields cause refused => same.trans (yields cause refused)) fun _ => id

/-- It may go on with what is not refused. -/
theorem Yields.bind (yields : Yields action) (rest : ∀ value, Insists (next value)) : Yields (action >>= next) := by
  intro a
  refine (yields a).run_bind ?_ fun cause b same other refused => same cause rfl
  intro value b _
  refine (rest value b).mono ?_ fun _ => id
  rintro _ c ⟨value, rfl⟩ cause refused
  cases refused

theorem yields_throw_bind (cause : HeapError) (next : α → HeapAction β) : Yields (throw cause >>= next) :=
  fun a _ _ => Same.refl a

theorem Yields.unless {p : Prop} [Decidable p] {rest : PUnit → HeapAction α} (cause : HeapError)
    (yields : Yields (rest ⟨⟩)) : Yields (if p then throw cause >>= rest else rest ⟨⟩) := by
  split
  · exact yields_throw_bind cause rest
  · exact yields

theorem Yields.map (yields : Yields action) (change : α → β) : Yields (change <$> action) := by
  rw [map_eq_pure_bind]
  exact yields.bind fun _ => insists_pure _

theorem looks_region : Looks region := by
  refine looks_get.bind fun a => ?_
  cases a.heap.region with
  | none => exact looks_throw _
  | some r => exact looks_pure r

theorem looks_findFit (r : Region) (need : Nat) : Looks (findFit r need) := by
  refine looks_get.bind fun a => (looks_lift_outcome _).bind fun fit => ?_
  cases fit with
  | found off => exact looks_pure off
  | exhausted => exact looks_throw _
  | wildLink off => exact (looks_report _).bind fun _ => looks_throw _
  | badHeader off => exact (looks_report _).bind fun _ => looks_throw _

/-- An address is judged by what is there. -/
theorem looks_judge (r : Region) (ptr : Nat) : Looks (judge r ptr : HeapAction Standing) := by
  intro a
  rw [meets_run_lift]
  unfold judge
  rw [meets_bind, meets_get]
  cases r.blockOf a.memory ptr with
  | ok off =>
    dsimp only
    unfold Meets
    rw [runFrom_bind, runFrom_header]
    cases r.header a.memory off with
    | error fault => trivial
    | ok h => exact .refl a
  | error cause =>
    cases cause
    case corrupted =>
      dsimp only
      unfold Meets
      rw [runFrom_bind, runFrom_lift]
      cases r.swallows a.memory (ptr - r.start - Header.width) (r.size / Header.width) a.heap.first with
      | error fault => trivial
      | ok joined => cases joined <;> exact .refl a
    all_goals exact .refl a

theorem yields_establish (start size : Nat) : Yields (establish start size) := by
  refine looks_get.bind_yields fun a => .unless _ ?_
  dsimp only
  cases Region.ofRange start size with
  | error cause => exact yields_throw_bind cause _
  | ok r =>
    exact ((insists_pure r).bind fun r => (insists_lift (modify _)).bind fun _ => (insists_lift _).bind fun _ =>
      (insists_lift _).bind fun _ => (insists_lift _).bind fun _ => insists_lift _).yields

theorem yields_allocate (size : Nat) : Yields (allocate size) := by
  refine looks_region.bind_yields fun r => .unless _ ?_
  dsimp only
  split
  · exact (looks_throw _).yields
  · exact (looks_findFit r _).bind_yields fun off => (insists_lift _).yields

theorem yields_allocateZeroed (count size : Nat) : Yields (allocateZeroed count size) := by
  unfold allocateZeroed
  refine .unless _ ?_
  exact (yields_allocate _).bind fun ptr => (insists_lift _).bind fun _ => insists_pure ptr

theorem yields_allocateAligned (size align : Nat) : Yields (allocateAligned size align) := by
  unfold allocateAligned
  refine .unless _ ?_
  refine .unless _ ?_
  refine .unless _ ?_
  refine (yields_allocate _).bind fun raw => ?_
  exact (insists_lift _).bind fun least => (insists_lift _).bind fun aligned => (insists_lift _).bind fun _ =>
    insists_pure aligned

theorem yields_release (ptr : Nat) : Yields (release ptr) := by
  unfold release
  split
  swap
  · exact (looks_pure ()).yields
  refine looks_region.bind_yields fun r => (looks_judge r ptr).bind_yields fun standing => ?_
  cases standing with
  | live off h => exact (insists_lift _).yields
  | free => exact ((looks_report _).bind fun _ => looks_throw _).yields
  | stray cause => exact ((looks_report _).bind fun _ => looks_throw _).yields

theorem yields_releaseAligned (ptr : Nat) : Yields (releaseAligned ptr) := by
  unfold releaseAligned
  split
  swap
  · exact (looks_pure ()).yields
  refine looks_get.bind_yields fun a => ?_
  dsimp only
  split
  · exact yields_release _
  · exact ((looks_report _).bind fun _ => looks_throw _).yields

/-- Whatever the memory holds, a refused call but that for another size has changed nothing. -/
theorem yields_perform (call : Call) (kind : ∀ ptr size, call ≠ .resize ptr size) : Yields call.perform := by
  cases call with
  | allocate size => exact (yields_allocate size).map some
  | allocateZeroed count size => exact (yields_allocateZeroed count size).map some
  | resize ptr size => exact absurd rfl (kind ptr size)
  | release ptr => exact (yields_release ptr).map _
  | allocateAligned size align => exact (yields_allocateAligned size align).map some
  | releaseAligned ptr => exact (yields_releaseAligned ptr).map _
  | allocatePages size => exact (yields_allocateAligned size Config.pageSize).map some
  | releasePages ptr => exact (yields_releaseAligned ptr).map _

/-- The mark of a header is at an aligned address of the region only where a block starts. -/
def MarksBlocks (a : Arena) (r : Region) (blocks : List Block) : Prop :=
  ∀ addr, r.Contains addr → addr % Config.heapAlignment = 0 → a.memory.readNat addr 4 = Config.heapMagic →
    ∃ b ∈ blocks, addr = r.start + b.off

theorem Proper.guarded (proper : a.Proper r blocks) (marks : a.MarksBlocks r blocks) :
    a.Guarded r (blocks.map Block.parcel) := by
  refine ⟨proper.sound, fun off aligned within mark => ?_⟩
  have start := r.start_aligned
  simp only [Config.heapAlignment] at start aligned
  obtain ⟨b, member, place⟩ := marks (r.start + off) ⟨by omega, by unfold Region.stop; omega⟩
    (by simp only [Config.heapAlignment]; omega) mark
  obtain rfl : off = b.off := by omega
  exact List.mem_map_of_mem (List.mem_map_of_mem member)

theorem Guarded.marksBlocks (guarded : a.Guarded r plan) : a.MarksBlocks r a.blocks := by
  intro addr within aligned mark
  obtain ⟨off, rfl⟩ : ∃ off, addr = r.start + off := ⟨addr - r.start, by have := within.1; omega⟩
  have start := r.start_aligned
  simp only [Config.heapAlignment] at start aligned
  have inside : off < r.size := by
    have := within.2
    unfold Region.stop at this
    omega
  obtain ⟨p, member, rfl⟩ :=
    List.mem_map.mp (guarded.genuine off (by simp only [Config.heapAlignment]; omega) inside mark)
  rw [guarded.sound.blocks_eq]
  exact ⟨_, List.mem_map_of_mem member, rfl⟩

/-- The old block is given back after all else, and it is found as it was before. -/
theorem Guarded.same_of_resize {ptr size : Nat} {cause : HeapError} (guarded : a.Guarded r plan)
    (refused : attempt (resize ptr size) a = (.ok (.error cause), b)) : a.Same b := by
  by_cases zero : ptr = 0
  · subst zero
    exact ((yields_allocate size).map some a).result refused cause rfl
  by_cases empty : size = 0
  · subst empty
    rw [resize_to_zero zero] at refused
    exact ((yields_release ptr).map _ a).result refused cause rfl
  obtain ⟨verdict, -, answer⟩ := guarded.resize_verdict zero (Nat.pos_of_ne_zero empty)
  cases verdict with
  | none =>
    obtain ⟨-, rfl⟩ := answer.1 cause b refused
    exact .refl b
  | some other =>
    obtain ⟨c, ran, heap, memory⟩ := answer
    obtain ⟨-, rfl⟩ := Prod.mk.inj (ran.symm.trans refused)
    exact ⟨heap, memory⟩

/-- A refused call leaves the heap and every byte of the memory as they were. For all calls but the change of a size
it does not matter what the memory holds. The change of a size is refused so in a well-formed heap in which only
headers have the mark of one. -/
theorem same_of_refused {cause : HeapError} :
    (∀ start size, attempt (establish start size) a = (.ok (.error cause), b) → a.Same b) ∧
    (∀ call : Call, (∀ ptr size, call ≠ .resize ptr size) →
      attempt call.perform a = (.ok (.error cause), b) → a.Same b) ∧
    ∀ r blocks, a.Proper r blocks → a.MarksBlocks r blocks →
      ∀ ptr size, attempt (Call.resize ptr size).perform a = (.ok (.error cause), b) → a.Same b := by
  refine ⟨?_, ?_, ?_⟩
  · intro start size refused
    exact (yields_establish start size a).result refused cause rfl
  · intro call kind refused
    exact (yields_perform call kind a).result refused cause rfl
  · intro r blocks proper marks ptr size refused
    exact (proper.guarded marks).same_of_resize refused

set_option maxRecDepth 4000 in
/-- Once the only free block is too small, an allocated block cannot grow, and stays as it was. -/
theorem same_of_refused_growth : ∃ a r blocks b, a.Proper r blocks ∧ a.MarksBlocks r blocks ∧
    attempt (Call.resize 4128 1000).perform a = (.ok (.error .outOfMemory), b) ∧ a.Same b := by
  obtain ⟨a, b, c, opened, taken, refused⟩ : ∃ a b c,
      attempt (establish 4096 96) (ofMemory (Memory.zeroed 4096 96)) = (.ok (.ok ()), a) ∧
      attempt (Call.allocate 8).perform a = (.ok (.ok (some 4128)), b) ∧
      attempt (Call.resize 4128 1000).perform b = (.ok (.error .outOfMemory), c) :=
    ⟨_, _, _, attempt_eq_of_outcome rfl, attempt_eq_of_outcome rfl, attempt_eq_of_outcome rfl⟩
  obtain ⟨r, usable, -⟩ := Tenancy.sound_of_establish (Memory.covers_zeroed 4096 96) opened
  have run : Roams a b := (Roams.start a).call taken
  obtain ⟨plan, guarded⟩ := run.guarded (guarded_of_establish (Memory.covers_zeroed 4096 96) usable
    (Memory.unmarked_zeroed 4096 96 r.start r.stop) opened)
  have proper : b.Proper r b.blocks := by
    rw [guarded.sound.blocks_eq]
    exact guarded.sound.proper
  have marks := guarded.marksBlocks
  exact ⟨b, r, _, c, proper, marks, refused, same_of_refused.2.2 r _ proper marks 4128 1000 refused⟩

end KernelCore.Arena
