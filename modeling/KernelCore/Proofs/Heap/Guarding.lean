import KernelCore.Heap.Aligned
import KernelCore.Proofs.Heap.Alignment
import KernelCore.Proofs.Heap.Judging

namespace KernelCore.Arena
open Machine Parcel
variable {a b : Arena} {r : Region} {plan : List Parcel} {p x : Parcel} {ptr size : Nat}

/-- A sound heap whose marks are genuine. -/
structure Guarded (a : Arena) (r : Region) (plan : List Parcel) : Prop where
  sound : a.Sound r plan
  genuine : Genuine r a.memory plan

theorem Sound.payload_aligned (sound : a.Sound r plan) (member : p ∈ plan) :
    r.payload p.off % Config.heapAlignment = 0 := by
  have start := r.start_aligned
  have offset := (sound.shows.spans.aligned rfl member).1
  simp only [Region.payload, Header.width, Config.heapAlignment] at *
  omega

theorem Guarded.unmarked (guarded : a.Guarded r plan) (member : p ∈ plan) :
    a.memory.Unmarked (r.payload p.off) (r.payload p.off + p.size) := by
  intro addr lower upper aligned
  have start := r.start_aligned
  unfold Region.payload at lower upper
  obtain ⟨target, rfl⟩ : ∃ target, addr = r.start + target := ⟨addr - r.start, by omega⟩
  refine (guarded.genuine target).unmarked guarded.sound.shows.spans member ?_ ?_
  · simp only [Config.heapAlignment] at *
    omega
  · simp only [Parcel.stop, Header.width] at *
    omega

/-- What is written into a payload leaves marks genuine if it makes none there. -/
theorem Guarded.stored (guarded : a.Guarded r plan) (member : p ∈ plan) (stored : Stored r p a b)
    (unmarked : b.memory.Unmarked (r.payload p.off) (r.payload p.off + p.size)) : b.Guarded r plan := by
  refine ⟨guarded.sound.stored member stored, ?_⟩
  intro off aligned within mark
  have start := r.start_aligned
  have first := guarded.sound.payload_aligned member
  have whole := (guarded.sound.shows.spans.aligned rfl member).2
  simp only [Config.heapAlignment] at start first whole aligned
  by_cases inside : r.payload p.off ≤ r.start + off ∧ r.start + off < r.payload p.off + p.size
  · refine absurd mark (unmarked _ inside.1 inside.2 ?_)
    simp only [Config.heapAlignment]
    omega
  · refine guarded.genuine off (by simpa only [Config.heapAlignment] using aligned) within ?_
    rw [← mark]
    refine (Memory.readNat_congr ?_).symm
    intro addr lower upper
    refine stored.byte addr ?_
    rintro ⟨above, below⟩
    omega

theorem Guarded.onMemory {m : Memory} (guarded : a.Guarded r plan) (member : p ∈ plan)
    (covers : ∀ addr n, m.Covers addr n ↔ a.memory.Covers addr n)
    (byte : ∀ addr, addr < r.payload p.off ∨ r.payload p.off + p.size ≤ addr → m.byte addr = a.memory.byte addr)
    (unmarked : m.Unmarked (r.payload p.off) (r.payload p.off + p.size)) :
    Guarded { a with memory := m } r plan :=
  guarded.stored member ⟨rfl, rfl, covers, fun addr outside => byte addr (by
    unfold Holds at outside
    omega)⟩ unmarked

theorem Guarded.notices (guarded : a.Guarded r plan) (notices : Array Heap.Notice) :
    Guarded { a with notices } r plan :=
  ⟨⟨⟨guarded.sound.shows.region, guarded.sound.shows.covered, guarded.sound.shows.spans,
    guarded.sound.shows.first, guarded.sound.shows.recorded⟩, guarded.sound.settled, guarded.sound.used⟩,
    guarded.genuine⟩

/-- Why an allocation can be refused. -/
def Exhausts (cause : HeapError) : Prop := cause = .zeroSize ∨ cause = .overflow ∨ cause = .outOfMemory

/-- An allocation is refused, and then nothing has changed, or it gives the payload of a taken parcel and
leaves all others. -/
theorem Guarded.meets_allocate (guarded : a.Guarded r plan) (size : Nat) :
    (allocate size).run.Meets a (fun result b =>
      match result with
      | .error cause => b = a ∧ Exhausts cause
      | .ok ptr => ∃ x plan', ptr = r.payload x.off ∧ x ∈ takens plan' ∧ size ≤ x.size ∧
        takens plan ⊆ takens plan' ∧ b.Guarded r plan')
      fun _ => wordLimit ≤ r.size + Config.heapMinPayload := by
  refine (Arena.meets_allocate guarded.sound size).mono ?_ fun _ ⟨p, member, need, _, enough, large⟩ =>
    guarded.sound.shows.spans.le_of_not_gauged member enough large
  rintro (cause | ptr) b post
  · obtain ⟨same, refuses⟩ := post
    refine ⟨same, ?_⟩
    unfold Exhausts
    cases refuses <;> simp
  · obtain ⟨left, p, right, need, rfl, -, rounded, suits, -, rfl, -, soundB, -, stays⟩ := post
    obtain ⟨listed, enough⟩ : p.isListed = true ∧ need ≤ p.size := by simpa [Parcel.suits] using suits
    obtain ⟨-, -, covers, -⟩ := Word.roundUp?_eight_eq_some_iff.mp rounded
    have large := (size_fitted (p := p.become .taken) enough).1
    refine ⟨(p.become .taken).fitted need, _, by simp, ?_, by omega, ?_, soundB, stays.genuine guarded.genuine⟩
    · rw [takens_carved]
      simp
    · rw [takens_carved, takens_append, takens_cons_of_listed (isListed_iff.mp listed)]
      exact ((List.sublist_cons_self ..).append_left _).subset

/-- The heap stays guarded. -/
abbrev Guards (a : Arena) (r : Region) {α : Type} (action : HeapAction α) : Prop :=
  action.run.Meets a (fun _ b => ∃ plan', b.Guarded r plan')
    fun _ => wordLimit ≤ r.size + Config.heapMinPayload

theorem Guards.map {α β : Type} {action : HeapAction α} (guards : a.Guards r action) (change : α → β) :
    a.Guards r (change <$> action) :=
  (meets_run_map ..).mpr guards

theorem Guarded.guards_allocate (guarded : a.Guarded r plan) (size : Nat) : a.Guards r (allocate size) := by
  refine (guarded.meets_allocate size).mono ?_ fun _ => id
  rintro (cause | ptr) b post
  · obtain ⟨rfl, -⟩ := post
    exact ⟨plan, guarded⟩
  · obtain ⟨x, plan', -, -, -, -, guardedB⟩ := post
    exact ⟨plan', guardedB⟩

theorem Guarded.guards_allocateZeroed (guarded : a.Guarded r plan) (count size : Nat) :
    a.Guards r (allocateZeroed count size) := by
  unfold allocateZeroed
  by_cases large : wordLimit ≤ count * size
  · rw [if_pos large]
    exact ⟨plan, guarded⟩
  rw [if_neg large]
  dsimp only
  refine (guarded.meets_allocate _).run_bind ?_ ?_
  · rintro _ b ⟨x, plan', rfl, member, enough, -, guardedB⟩
    have inPlan := (mem_takens.mp member).1
    have covers := guardedB.sound.covers inPlan enough
    rw [meets_run_bind_of_attempt (attempt_onMemory ..), meets_run_pure]
    exact ⟨plan', guardedB.onMemory inPlan (fun _ _ => Memory.covers_fill ..)
      (fun _ outside => Memory.byte_fill_of_outside _ _ (by omega)) ((guardedB.unmarked inPlan).fill covers)⟩
  · rintro cause b ⟨rfl, -⟩
    exact ⟨plan, guarded⟩

/-- The word that leads back to a parcel lies so that it makes no mark. -/
theorem Guarded.guards_backLink {align : Nat} (guarded : a.Guarded r plan) (member : x ∈ takens plan)
    (enough : align + backLinkWidth ≤ x.size) (single : Word.isPowerOfTwo align = true) :
    a.Guards r (do
      let least ← Word.add (r.payload x.off) backLinkWidth
      let aligned ← Word.alignUp least align
      Arena.onMemory fun m => m.writeNat (aligned - backLinkWidth) 8 (r.payload x.off)
      pure aligned) := by
  have wide : backLinkWidth = 8 := rfl
  have inPlan := (mem_takens.mp member).1
  have reach := r.fits
  have within := (guarded.sound.shows.spans.bounds inPlan).2
  have raised : r.payload x.off + x.size < wordLimit := by
    unfold Region.payload
    unfold Parcel.stop at within
    omega
  have least : Word.add (r.payload x.off) backLinkWidth = .ok (r.payload x.off + backLinkWidth) :=
    Word.add_of_lt (by omega)
  have room : r.payload x.off + backLinkWidth + align < wordLimit := by omega
  obtain ⟨ptr, up, multiple, above, near⟩ := Word.exists_alignUp single room
  rw [Guards, least, meets_run_bind_ok, up, meets_run_bind_ok, meets_run_bind_of_attempt (attempt_onMemory ..),
    meets_run_pure]
  have first : r.payload x.off % 8 = 0 := guarded.sound.payload_aligned inPlan
  have whole := Word.eight_dvd_of_alignUp single (by omega) multiple above near
  have start : (ptr - backLinkWidth) % Config.heapAlignment = 0 := by
    simp only [Config.heapAlignment]
    omega
  obtain ⟨lower, upper⟩ := guarded.sound.covers inPlan enough
  have room : a.memory.Covers (ptr - backLinkWidth) 8 := ⟨by omega, by omega⟩
  refine ⟨plan, guarded.onMemory inPlan (fun _ _ => Memory.covers_writeNat ..) ?_
    ((guarded.unmarked inPlan).writeNat room first (by omega) start)⟩
  intro addr outside
  exact Memory.byte_writeNat_of_outside _ _ (by omega)

theorem Guarded.guards_allocateAligned (guarded : a.Guarded r plan) (size align : Nat) :
    a.Guards r (allocateAligned size align) := by
  unfold allocateAligned
  by_cases single : Word.isPowerOfTwo align = true
  swap
  · rw [if_pos (by simpa using single)]
    exact ⟨plan, guarded⟩
  rw [if_neg (by simp [single])]
  by_cases zero : size = 0
  · rw [if_pos zero]
    exact ⟨plan, guarded⟩
  rw [if_neg zero]
  by_cases large : wordLimit ≤ size + align + backLinkWidth
  · rw [if_pos large]
    exact ⟨plan, guarded⟩
  rw [if_neg large]
  dsimp only
  refine (guarded.meets_allocate _).run_bind ?_ ?_
  · rintro _ b ⟨x, plan', rfl, member, enough, -, guardedB⟩
    exact guardedB.guards_backLink member (by omega) single
  · rintro cause b ⟨rfl, -⟩
    exact ⟨plan, guarded⟩

/-- Why an address is refused, where one that names no allocated block for the second time is refused as
`twice`. -/
def refusal (twice : HeapError) : Standing → Option HeapError
  | .live .. => none
  | .free => some twice
  | .stray cause => some cause

theorem attempt_lift_judge {standing : Standing} (judged : (judge r ptr).runFrom a = (.ok standing, a)) :
    attempt (liftM (judge r ptr) : HeapAction Standing) a = (.ok (.ok standing), a) := by
  rw [attempt_lift, judged]
  rfl

/-- An address that is refused leaves a notice and nothing else. -/
theorem attempt_release_of_refusal {standing : Standing} {cause : HeapError} (region : a.heap.region = some r)
    (nonzero : ptr ≠ 0) (judged : (judge r ptr).runFrom a = (.ok standing, a))
    (refused : refusal .doubleFree standing = some cause) :
    ∃ notices, attempt (release ptr) a = (.ok (.error cause), { a with notices }) := by
  unfold release
  rw [if_pos nonzero, attempt_bind, attempt_region region]
  dsimp only
  rw [attempt_bind, attempt_lift_judge judged]
  cases standing with
  | live off h => simp [refusal] at refused
  | free =>
    obtain rfl := Option.some.inj refused
    exact ⟨_, rfl⟩
  | stray other =>
    obtain rfl := Option.some.inj refused
    exact ⟨_, rfl⟩

theorem attempt_resize_of_refusal {standing : Standing} {cause : HeapError} (region : a.heap.region = some r)
    (nonzero : ptr ≠ 0) (positive : 0 < size) (judged : (judge r ptr).runFrom a = (.ok standing, a))
    (refused : refusal .notAllocated standing = some cause) :
    ∃ notices, attempt (resize ptr size) a = (.ok (.error cause), { a with notices }) := by
  unfold resize
  rw [if_neg nonzero, if_neg (by omega), attempt_bind, attempt_get]
  simp only [region]
  rw [attempt_bind, attempt_lift_judge judged]
  cases standing with
  | live off h => simp [refusal] at refused
  | free =>
    obtain rfl := Option.some.inj refused
    exact ⟨_, rfl⟩
  | stray other =>
    obtain rfl := Option.some.inj refused
    exact ⟨_, rfl⟩

/-- Every address that is not outlying is judged by a parcel. -/
theorem Guarded.exists_standing (guarded : a.Guarded r plan) (near : ¬Outlying r ptr) :
    ∃ p ∈ plan, p.off ≤ ptr - r.start - Header.width ∧ ptr - r.start - Header.width < p.stop ∧
      (judge r ptr).runFrom a = (.ok (standing (ptr - r.start - Header.width) p), a) := by
  obtain ⟨place, aligned, room⟩ := payload_of_near near
  obtain ⟨p, member, lower, upper⟩ := guarded.sound.shows.spans.exists_parcel (Nat.zero_le _)
    (Nat.lt_of_le_of_lt (Nat.le_add_right ..) room)
  have judged := judge_of_extent guarded.sound.shows guarded.sound.settled.tight (guarded.genuine _) member
    aligned room ⟨lower, upper⟩
  rw [← place] at judged
  exact ⟨p, member, lower, upper, judged⟩

theorem Guarded.meets_release {left right : List Parcel} (guarded : a.Guarded r (left ++ p :: right))
    (taken : p.tenure = .taken) (room : p.off + Header.width < r.size) :
    (release (r.payload p.off)).run.Meets a (fun result b => result = .ok () ∧
      b.Guarded r (reclaimed left p right)) fun _ => False := by
  refine (Arena.meets_release guarded.sound taken room).mono ?_ fun _ => id
  rintro result b ⟨done, soundB, -, stays⟩
  exact ⟨done, soundB, stays.genuine guarded.genuine⟩

/-- The contents of a taken parcel are whole words, and have no marks, so they can be moved. -/
theorem Guarded.meets_relocate (guarded : a.Guarded r plan) (member : p ∈ plan) (taken : p.tenure = .taken)
    (room : p.off + Header.width < r.size) (larger : p.size ≤ size) :
    (relocate (r.payload p.off) (p.header none none) size).run.Meets a (fun result b =>
      match result with
      | .error cause => b = a ∧ Exhausts cause
      | .ok _ => ∃ plan', b.Guarded r plan')
      fun _ => wordLimit ≤ r.size + Config.heapMinPayload := by
  unfold relocate
  refine (guarded.meets_allocate size).run_bind ?_ fun _ _ => id
  rintro _ b ⟨x, plan', rfl, fresh, enough, keeps, guardedB⟩
  have inPlan := (mem_takens.mp fresh).1
  have memberB := (mem_takens.mp (keeps (mem_takens.mpr ⟨member, taken⟩))).1
  have whole := (guardedB.sound.shows.spans.aligned rfl memberB).2
  have covers := guardedB.sound.covers inPlan (Nat.le_trans larger enough)
  rw [meets_run_bind_of_attempt (attempt_onMemory ..), header_size, Nat.min_eq_left larger]
  have unmarked := (guardedB.unmarked inPlan).copy (guardedB.unmarked memberB) covers whole
    (guardedB.sound.payload_aligned inPlan) (guardedB.sound.payload_aligned memberB)
  have guardedC := guardedB.onMemory inPlan (fun _ _ => Memory.covers_copy ..)
    (fun _ outside => Memory.byte_copy_of_outside _ _ (by omega)) unmarked
  obtain ⟨left, right, rfl⟩ := List.append_of_mem memberB
  refine Meets.run_bind (guardedC.meets_release taken room).excused ?_ (by simp)
  rintro _ d ⟨-, guardedD⟩
  exact ⟨_, guardedD⟩

theorem Guarded.meets_resize (guarded : a.Guarded r plan) (member : p ∈ plan) (taken : p.tenure = .taken)
    (room : p.off + Header.width < r.size) (positive : 0 < size) :
    (resize (r.payload p.off) size).run.Meets a (fun result b =>
      match result with
      | .error cause => b = a ∧ Exhausts cause
      | .ok _ => ∃ plan', b.Guarded r plan')
      fun _ => wordLimit ≤ r.size + Config.heapMinPayload := by
  rw [meets_run_congr (attempt_resize_of_live guarded.sound.shows member taken room (Nat.ne_of_gt positive))]
  cases rounded : Word.roundUp? size Config.heapAlignment with
  | none => exact ⟨rfl, Or.inr (Or.inl rfl)⟩
  | some need =>
    obtain ⟨-, aligned, covers, near⟩ := Word.roundUp?_eight_eq_some_iff.mp rounded
    have whole := (guarded.sound.shows.spans.aligned rfl member).2
    dsimp only
    by_cases enough : need ≤ p.size
    · obtain ⟨left, right, rfl⟩ := List.append_of_mem member
      rw [if_pos enough, meets_run_bind, meets_run_lift]
      refine (meets_shrink guarded.sound taken aligned enough).mono ?_ fun _ =>
        guarded.sound.shows.spans.le_of_not_gauged (by simp) enough
      rintro - b ⟨soundB, -, stays⟩
      exact ⟨_, soundB, stays.genuine guarded.genuine⟩
    · have larger : p.size ≤ size := by
        simp only [Config.heapAlignment] at whole
        omega
      rw [if_neg enough, meets_run_map]
      refine (guarded.meets_relocate member taken room larger).mono ?_ fun _ => id
      rintro (cause | ptr) b post
      · exact post
      · exact post

end KernelCore.Arena
