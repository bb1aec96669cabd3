import KernelCore.Proofs.Heap.Histories

namespace KernelCore.Arena
open Machine Parcel
variable {α β : Type} {a b c d : Arena} {r : Region} {plan : List Parcel} {p : Parcel}

/-- Two runs of an operation come to the same: to one result, where their arenas are as in `post`, or to one refusal,
or to one fault. -/
inductive Concurs (post : α → Arena → Arena → Prop) :
    Except Fault (Except HeapError α) × Arena → Except Fault (Except HeapError α) × Arena → Prop
  | result {x : α} {b d : Arena} (holds : post x b d) : Concurs post (.ok (.ok x), b) (.ok (.ok x), d)
  | refusal (cause : HeapError) (b d : Arena) : Concurs post (.ok (.error cause), b) (.ok (.error cause), d)
  | fault (fault : Fault) (b d : Arena) : Concurs post (.error fault, b) (.error fault, d)

/-- An operation comes to the same in both arenas. -/
abbrev Agrees (action : HeapAction α) (a c : Arena) (post : α → Arena → Arena → Prop) : Prop :=
  Concurs post (attempt action a) (attempt action c)

theorem Agrees.bind {action : HeapAction α} {next : α → HeapAction β} {mid : α → Arena → Arena → Prop}
    {post : β → Arena → Arena → Prop} (first : Agrees action a c mid)
    (rest : ∀ x b d, mid x b d → Agrees (next x) b d post) : Agrees (action >>= next) a c post := by
  unfold Agrees at first ⊢
  rw [attempt_bind, attempt_bind]
  generalize attempt action a = run at first ⊢
  generalize attempt action c = run' at first ⊢
  cases first with
  | result holds => exact rest _ _ _ holds
  | refusal cause b d => exact .refusal cause b d
  | fault fault b d => exact .fault fault b d

theorem agrees_pure (x : α) {post : α → Arena → Arena → Prop} (holds : post x a c) : Agrees (pure x) a c post :=
  .result holds

theorem agrees_throw (cause : HeapError) {post : α → Arena → Arena → Prop} :
    Agrees (throw cause : HeapAction α) a c post := .refusal ..

theorem Agrees.map {action : HeapAction α} {post : α → Arena → Arena → Prop} {post' : β → Arena → Arena → Prop}
    (agrees : Agrees action a c post) (change : α → β) (holds : ∀ x b d, post x b d → post' (change x) b d) :
    Agrees (change <$> action) a c post' := by
  rw [map_eq_pure_bind]
  exact agrees.bind fun x b d post => agrees_pure (change x) (holds x b d post)

theorem Agrees.outcome_eq {action : HeapAction α} {post : α → Arena → Arena → Prop} (agrees : Agrees action a c post) :
    (attempt action a).1 = (attempt action c).1 := by
  unfold Agrees at agrees
  generalize attempt action a = run at agrees ⊢
  generalize attempt action c = run' at agrees ⊢
  cases agrees with
  | result | refusal | fault => rfl

/-- Both memories are worked on in the same way. -/
theorem agrees_onMemory_bind {change : Memory → Memory} {next : Unit → HeapAction α} {post : α → Arena → Arena → Prop}
    (rest : Agrees (next ()) { a with memory := change a.memory } { c with memory := change c.memory } post) :
    Agrees (liftM (onMemory change) >>= next) a c post := by
  unfold Agrees
  rw [attempt_bind, attempt_bind, attempt_onMemory, attempt_onMemory]
  exact rest

theorem agrees_ok_bind (x : α) {next : α → HeapAction β} {post : β → Arena → Arena → Prop}
    (rest : Agrees (next x) a c post) : Agrees (liftM (Except.ok x : Except Fault α) >>= next) a c post := by
  unfold Agrees
  rw [attempt_bind, attempt_bind, attempt_lift_outcome, attempt_lift_outcome]
  exact rest

/-- Work that one fault can stop, for a reason that does not depend on the arena. -/
theorem agrees_lift {action : Machine Arena α} {first second : α → Arena → Prop} {stuck : Prop}
    {post : α → Arena → Arena → Prop} (fault : Fault) (meets : action.Meets a first fun _ => stuck)
    (meetsC : action.Meets c second fun _ => stuck)
    (stops : stuck → ∃ b d, action.runFrom a = (.error fault, b) ∧ action.runFrom c = (.error fault, d))
    (same : ∀ x y b d, first x b → second y d → x = y ∧ post x b d) :
    Agrees (liftM action) a c post := by
  unfold Agrees
  rw [attempt_lift, attempt_lift]
  by_cases large : stuck
  · obtain ⟨b, d, ran, ranC⟩ := stops large
    rw [ran, ranC]
    exact .fault fault b d
  · obtain ⟨x, b, ran, holds⟩ := meets.returns fun _ => large
    obtain ⟨y, d, ranC, holdsC⟩ := meetsC.returns fun _ => large
    obtain ⟨rfl, post⟩ := same x y b d holds holdsC
    rw [ran, ranC]
    exact .result post

theorem runFrom_trim_of_large {off need : Nat} (holds : r.HoldsHeader off) (large : ¬Gauged need) :
    (trim r off need).runFrom a = (.error .addOverflow, a) := by
  unfold trim
  rw [runFrom_bind, runFrom_header, Region.header_of_holds _ holds, Word.add_of_not_lt large]
  rfl

theorem runFrom_shrink_of_large {need : Nat} {h : Header} (holds : r.HoldsHeader p.off) (large : ¬Gauged need) :
    (shrink r p.off h need).runFrom a = (.error .addOverflow, a) := by
  unfold shrink
  rw [runFrom_bind, runFrom_trim_of_large holds large]

theorem Sound.runFrom_carve_of_large {left right : List Parcel} {need : Nat}
    (sound : a.Sound r (left ++ p :: right)) (listed : p.tenure = .listed) (large : ¬Gauged need) :
    ∃ b, (carve r p.off need).runFrom a = (.error .addOverflow, b) := by
  have holds := sound.shows.holdsHeader (p := p) (by simp)
  obtain ⟨⟨⟩, b, detached, -⟩ := (meets_detach sound.shows listed).returns fun _ => id
  have stops := fun a => runFrom_trim_of_large (a := a) holds large
  unfold carve
  simp only [runFrom_bind, detached, runFrom_header, Region.header_of_holds _ holds,
    runFrom_setHeader_of_holds _ _ holds, stops]
  exact ⟨_, rfl⟩

/-- Both heaps are sound, and have the same plan. -/
def Alike (r : Region) (a c : Arena) : Prop := ∃ plan, a.Sound r plan ∧ c.Sound r plan

/-- A search of the plan finds the same parcel, and the same part of it is cut off. -/
theorem Sound.agrees_allocate (sound : a.Sound r plan) (soundC : c.Sound r plan) (size : Nat) :
    Agrees (allocate size) a c fun ptr b d => ∃ x plan', ptr = r.payload x.off ∧
      Granted r plan size a x plan' b ∧ Granted r plan size c x plan' d := by
  unfold allocate
  have regions := attempt_region sound.shows.region
  have regionsC := attempt_region soundC.shows.region
  unfold Agrees
  rw [attempt_bind, attempt_bind, regions, regionsC]
  dsimp only
  by_cases zero : size = 0
  · rw [if_pos zero]
    exact agrees_throw .zeroSize
  rw [if_neg zero]
  cases rounded : Word.roundUp? size Config.heapAlignment with
  | none => exact agrees_throw .overflow
  | some need =>
    obtain ⟨-, aligned, -, -⟩ := Word.roundUp?_eight_eq_some_iff.mp rounded
    dsimp only
    rw [attempt_bind, attempt_bind, attempt_findFit need sound.shows, attempt_findFit need soundC.shows]
    cases found : plan.find? (suits need) with
    | none => exact .refusal ..
    | some p =>
      obtain ⟨suits, left, right, rfl, -⟩ := List.find?_eq_some_iff_append.mp found
      obtain ⟨listed, enough⟩ : p.isListed = true ∧ need ≤ p.size := by simpa [Parcel.suits] using suits
      have listed := isListed_iff.mp listed
      refine agrees_lift .addOverflow (meets_carve sound listed aligned enough)
        (meets_carve soundC listed aligned enough) ?_ ?_
      · intro large
        obtain ⟨b, ran⟩ := sound.runFrom_carve_of_large listed large
        obtain ⟨d, ranC⟩ := soundC.runFrom_carve_of_large listed large
        exact ⟨b, d, ran, ranC⟩
      rintro _ _ b d ⟨rfl, -, soundB, wrote, -⟩ ⟨rfl, -, soundD, wroteD, -⟩
      exact ⟨rfl, (p.become .taken).fitted need, _, by simp, granted_of_carved sound zero rounded suits soundB wrote,
        granted_of_carved soundC zero rounded suits soundD wroteD⟩

theorem Sound.agrees_allocateZeroed (sound : a.Sound r plan) (soundC : c.Sound r plan) (count size : Nat) :
    Agrees (allocateZeroed count size) a c fun _ => Alike r := by
  unfold allocateZeroed
  by_cases large : wordLimit ≤ count * size
  · rw [if_pos large]
    exact agrees_throw .overflow
  rw [if_neg large]
  dsimp only
  refine (sound.agrees_allocate soundC _).bind ?_
  rintro _ b d ⟨x, plan', rfl, granted, grantedD⟩
  have zeroed := granted.stored_onMemory (fun _ _ => Memory.covers_fill ..) fun addr outside =>
    Memory.byte_fill_of_outside b.memory 0 outside
  have zeroedD := grantedD.stored_onMemory (fun _ _ => Memory.covers_fill ..) fun addr outside =>
    Memory.byte_fill_of_outside d.memory 0 outside
  exact .result ⟨plan', zeroed.sound, zeroedD.sound⟩

theorem Sound.agrees_allocateAligned (sound : a.Sound r plan) (soundC : c.Sound r plan) (size align : Nat) :
    Agrees (allocateAligned size align) a c fun _ => Alike r := by
  unfold allocateAligned
  by_cases single : Word.isPowerOfTwo align = true
  swap
  · rw [if_pos (by simpa using single)]
    exact agrees_throw .badAlignment
  rw [if_neg (by simp [single])]
  by_cases zero : size = 0
  · rw [if_pos zero]
    exact agrees_throw .zeroSize
  rw [if_neg zero]
  by_cases large : wordLimit ≤ size + align + backLinkWidth
  · rw [if_pos large]
    exact agrees_throw .overflow
  rw [if_neg large]
  dsimp only
  refine (sound.agrees_allocate soundC _).bind ?_
  rintro _ b d ⟨x, plan', rfl, granted, grantedD⟩
  obtain ⟨least, ptr, raised, -, up, below⟩ := granted.exists_aligned single
  have stashed := (granted.leadsBack up below).1
  have stashedD := (grantedD.leadsBack up below).1
  rw [least]
  refine agrees_ok_bind _ ?_
  rw [raised]
  refine agrees_ok_bind _ (agrees_onMemory_bind ?_)
  exact agrees_pure ptr ⟨plan', stashed.sound, stashedD.sound⟩

/-- What is given back is put where it was, and joined with the same neighbours. -/
theorem Sound.agrees_release (sound : a.Sound r plan) (soundC : c.Sound r plan) (member : p ∈ takens plan)
    (room : p.off + Header.width < r.size) : Agrees (release (r.payload p.off)) a c fun _ => Alike r := by
  obtain ⟨inPlan, taken⟩ := mem_takens.mp member
  obtain ⟨left, right, rfl⟩ := List.append_of_mem inPlan
  obtain ⟨result, b, ran, rfl, soundB, -⟩ := (meets_release sound taken room).returns fun _ => id
  obtain ⟨result, d, ranC, rfl, soundD, -⟩ := (meets_release soundC taken room).returns fun _ => id
  rw [runFrom_run] at ran ranC
  unfold Agrees
  rw [ran, ranC]
  exact .result ⟨reclaimed left p right, soundB, soundD⟩

theorem Sound.agrees_relocate (sound : a.Sound r plan) (soundC : c.Sound r plan) (member : p ∈ takens plan)
    (room : p.off + Header.width < r.size) (size : Nat) :
    Agrees (relocate (r.payload p.off) (p.header none none) size) a c fun _ => Alike r := by
  unfold relocate
  refine (sound.agrees_allocate soundC size).bind ?_
  rintro _ b d ⟨x, plan', rfl, granted, grantedD⟩
  refine agrees_onMemory_bind ?_
  have moved := granted.copied (r.payload p.off) (Nat.min_le_right (p.header none none).size size)
  have movedD := grantedD.copied (r.payload p.off) (Nat.min_le_right (p.header none none).size size)
  have still : p ∈ takens plan' := granted.trade.after.mem_iff.mpr (List.mem_append_right _ member)
  refine (moved.sound.agrees_release movedD.sound still room).bind ?_
  intro _ b' d' alike
  exact agrees_pure _ alike

theorem Sound.agrees_resize (sound : a.Sound r plan) (soundC : c.Sound r plan) (member : p ∈ takens plan)
    (room : p.off + Header.width < r.size) (size : Nat) : Agrees (resize (r.payload p.off) size) a c fun _ => Alike r := by
  obtain ⟨inPlan, taken⟩ := mem_takens.mp member
  by_cases zero : size = 0
  · unfold resize
    rw [if_neg (payload_ne_zero r p.off), if_pos zero]
    exact (sound.agrees_release soundC member room).bind fun _ _ _ alike => agrees_pure none alike
  unfold Agrees
  rw [attempt_resize_of_live sound.shows inPlan taken room zero,
    attempt_resize_of_live soundC.shows inPlan taken room zero]
  cases rounded : Word.roundUp? size Config.heapAlignment with
  | none => exact agrees_throw .overflow
  | some need =>
    obtain ⟨-, aligned, -, -⟩ := Word.roundUp?_eight_eq_some_iff.mp rounded
    dsimp only
    by_cases enough : need ≤ p.size
    · rw [if_pos enough]
      obtain ⟨left, right, rfl⟩ := List.append_of_mem inPlan
      have shrinks : Agrees (liftM (shrink r p.off (p.header none none) need)) a c fun _ => Alike r := by
        have holds := sound.shows.holdsHeader (p := p) (by simp)
        refine agrees_lift .addOverflow (meets_shrink sound taken aligned enough)
          (meets_shrink soundC taken aligned enough)
          (fun large => ⟨a, c, runFrom_shrink_of_large holds large, runFrom_shrink_of_large holds large⟩) ?_
        rintro ⟨⟩ ⟨⟩ b d ⟨soundB, -⟩ ⟨soundD, -⟩
        exact ⟨rfl, shrunk left p need right, soundB, soundD⟩
      exact shrinks.bind fun _ _ _ alike => agrees_pure _ alike
    · rw [if_neg enough]
      exact (sound.agrees_relocate soundC member room size).map some fun _ _ _ => id

end KernelCore.Arena
