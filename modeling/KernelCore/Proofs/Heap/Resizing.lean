import KernelCore.Proofs.Heap.FirstFit

namespace KernelCore
open Parcel

/-- What can be told of a parcel. -/
def Parcel.shape (p : Parcel) : Nat × Nat × Bool := (p.off, p.size, p.isListed)

@[simp] theorem Block.shape_parcel (b : Block) : b.parcel.shape = b.shape := by
  simp [Parcel.shape, Block.shape]

/-- The shapes of an allocated block that is cut down to `need` bytes, and of those that are behind it then. What is
left over becomes a free block if it can be one, together with the free block behind it if there is one. -/
def Block.trimmed (x : Block) (need : Nat) (after : List Block) : List (Nat × Nat × Bool) :=
  if need + (Header.width + Config.heapMinPayload) ≤ x.header.size then
    let rest := x.off + Header.width + need
    let left := x.header.size - need - Header.width
    (x.off, need, false) ::
      match after with
      | [] => [(rest, left, true)]
      | y :: behind =>
        if y.header.isFree then (rest, left + (Header.width + y.header.size), true) :: behind.map shape
        else (rest, left, true) :: (y :: behind).map shape
  else (x :: after).map shape

/-- A client that has not asked for an alignment holds the start of the payload of an allocated block. -/
theorem Tenancy.Sound.exists_payload {t : Tenancy} {r : Region} {plan : List Parcel} {pairs : List (Holding × Parcel)}
    {h : Holding} (sound : t.Sound r plan pairs) (member : h ∈ t.holdings) (plain : h.aligned = false) :
    ∃ before x after, t.arena.blocks = before ++ x :: after ∧ x.header.isFree = false ∧
      r.Contains (r.payload x.off) ∧ r.payload x.off = h.addr := by
  obtain ⟨p, inPairs⟩ := sound.exists_parcel member
  have inTakens := sound.parcels.mem_iff.mpr (List.mem_map_of_mem inPairs)
  have inAllocated : (⟨p.off, .allocated p.size⟩ : Block) ∈ t.arena.allocated := by
    rw [sound.arena.allocated_eq_map]
    exact List.mem_map.mpr ⟨p, inTakens, rfl⟩
  obtain ⟨inBlocks, allocated⟩ := Arena.mem_allocated.mp inAllocated
  obtain ⟨before, after, shape⟩ := List.append_of_mem inBlocks
  have room := sound.room inPairs
  refine ⟨before, _, after, shape, allocated, ⟨?_, ?_⟩, ((sound.backed _ inPairs).plain plain).symm⟩
  · unfold Region.payload
    omega
  · unfold Region.payload Region.stop
    dsimp only
    omega

namespace Arena
open Machine
variable {a b : Arena} {r : Region} {blocks before after : List Block} {x : Block}
  {plan plan' left right kept : List Parcel} {p y : Parcel} {need size ptr : Nat}

/-- From `a` to `b` the allocated block `x` was cut down to `need` bytes, if it was worth it. -/
structure Trims (r : Region) (before : List Block) (x : Block) (after : List Block) (need : Nat) (a b : Arena) :
    Prop where
  blocks : b.blocks.map Block.shape = before.map Block.shape ++ x.trimmed need after
  payload : ∀ addr, r.payload x.off ≤ addr → addr < r.payload x.off + need → b.memory.byte addr = a.memory.byte addr

/-- From `a` to `b` the contents of the allocated block `x` were moved to another one that has room for `size` bytes at
the address `ptr`, and `x` was given back. -/
structure Moves (r : Region) (x : Block) (size : Nat) (a : Arena) (ptr : Nat) (b : Arena) : Prop where
  fresh : ptr ≠ r.payload x.off
  capacity : ∃ capacity, b.capacity? ptr = some capacity ∧ size ≤ capacity
  contents : ∀ i, i < x.header.size → b.memory.byte (ptr + i) = a.memory.byte (r.payload x.off + i)
  allocated : ∃ y : Block, r.payload y.off = ptr ∧
    b.allocated.Perm (y :: a.allocated.filter fun block => block.off ≠ x.off)

/-- A request for `size` bytes is refused because of its size, or because there is no free block that is large enough,
and for no other reason. -/
structure Decides {α : Type} (counters : Heap.Statistics) (size : Nat) (result : Except HeapError α) : Prop where
  overflow : result = .error .overflow ↔ wordLimit ≤ needed size
  outOfMemory : needed size < wordLimit → (result = .error .outOfMemory ↔ counters.largestFree < needed size)
  served : needed size < wordLimit → needed size ≤ counters.largestFree → ∃ given, result = .ok given

/-- The heap is well-formed in `b`, and the allocated ones of some blocks are as they were in `a`. -/
structure Preserves (r : Region) (blocks : List Block) (a b : Arena) : Prop where
  proper : b.Proper r b.blocks
  allocated : ∀ c ∈ blocks, c.header.isFree = false → c ∈ b.allocated
  payload : ∀ c ∈ blocks, c.header.isFree = false → ∀ addr, c.Holds r addr → b.memory.byte addr = a.memory.byte addr

/-- A payload that has an address in the region does not begin at its end. -/
theorem room_of_contains {off : Nat} (inside : r.Contains (r.payload off)) : off + Header.width < r.size := by
  have := inside.2
  unfold Region.payload Region.stop at this
  omega

/-- A heap that took over so much less than the address space can compute with its sizes. -/
theorem spare_of_ofRange {start : Nat} (usable : Region.ofRange start size = .ok r)
    (small : size + Config.heapMinPayload < wordLimit) : r.size + Config.heapMinPayload < wordLimit := by
  have within := Tenancy.within_of_ofRange usable
  omega

theorem le_needed (size : Nat) : size ≤ needed size := by
  simp only [needed, Config.heapAlignment]
  omega

theorem takens_around (left right : List Parcel) (taken : p.tenure = .taken) :
    (takens (left ++ p :: right)).Perm (p :: (takens left ++ takens right)) := by
  rw [takens_append, takens_cons_of_taken taken]
  exact List.perm_middle

theorem Sound.shapes (sound : a.Sound r plan) : a.blocks.map Block.shape = plan.map Parcel.shape := by
  rw [sound.blocks_eq, List.map_map]
  exact List.map_congr_left fun p member => shape_block sound member

theorem shapes_shrunk (before : List Block) (x : Block) (need : Nat) (after : List Block)
    (allocated : x.header.isFree = false) :
    (shrunk (before.map Block.parcel) x.parcel need (after.map Block.parcel)).map Parcel.shape =
      before.map Block.shape ++ x.trimmed need after := by
  have same : ∀ blocks : List Block, (blocks.map Block.parcel).map Parcel.shape = blocks.map Block.shape := by
    intro blocks
    rw [List.map_map]
    exact List.map_congr_left fun b _ => b.shape_parcel
  unfold shrunk Block.trimmed fitted cutOff
  rw [List.map_append, same, List.map_cons]
  by_cases splits : need + (Header.width + Config.heapMinPayload) ≤ x.header.size
  · have first : (x.parcel.cut need).shape = (x.off, need, false) := by
      rw [← allocated, ← x.isListed_parcel]
      rfl
    simp only [Block.size_parcel, splits, if_true]
    rw [first]
    cases after with
    | nil => rfl
    | cons y behind =>
      simp only [List.map_cons, absorb, absorbed, Block.isListed_parcel]
      cases y.header.isFree
      · simp only [Bool.false_eq_true, if_false, List.map_cons, Block.shape_parcel, same]
        rfl
      · simp only [if_true, same]
        rfl
  · simp only [Block.size_parcel, splits, if_false, Block.shape_parcel, same, List.map_cons]

/-- A parcel that is large enough is cut down, and its client keeps it. -/
theorem Sound.exists_shrunk (sound : a.Sound r (left ++ p :: right)) (taken : p.tenure = .taken)
    (room : p.off + Header.width < r.size) (spare : r.size + Config.heapMinPayload < wordLimit)
    (positive : 0 < size) (enough : needed size ≤ p.size) :
    ∃ b, attempt (resize (r.payload p.off) size) a = (.ok (.ok (some (r.payload p.off))), b) ∧
      b.Sound r (shrunk left p (needed size) right) ∧
      Resized r (left ++ p :: right) p (takens left ++ takens right) (needed size) a (p.fitted (needed size))
        (shrunk left p (needed size) right) b := by
  have within := (sound.shows.spans.bounds (p := p) (by simp)).2
  unfold Parcel.stop at within
  have reaches := le_needed size
  have aligned : needed size % Config.heapAlignment = 0 := Nat.mul_mod_left ..
  have rounded := roundUp?_eq_some_iff.mpr ⟨rfl, (by omega : needed size < wordLimit)⟩
  have never : ∀ t : Arena, ¬¬Gauged (needed size) := by
    intro _ large
    have := sound.shows.spans.le_of_not_gauged (by simp) enough large
    omega
  obtain ⟨⟨⟩, b, ran, soundB, wrote, -⟩ := (meets_shrink sound taken aligned enough).returns never
  refine ⟨b, ?_, soundB, resized_of_shrunk sound soundB taken (takens_around left right taken) (by omega)
    (Nat.le_refl _) enough wrote⟩
  rw [attempt_resize_of_live sound.shows (by simp) taken room (Nat.ne_of_gt positive), rounded]
  dsimp only
  rw [if_pos enough, attempt_bind, attempt_lift, ran]
  rfl

theorem Decides.map {α β : Type} {counters : Heap.Statistics} {result : Except HeapError α}
    (decides : Decides counters size result) (change : α → β) : Decides counters size (result.map change) := by
  have same : ∀ cause, result.map change = .error cause ↔ result = .error cause := by
    intro cause
    cases result <;> simp [Except.map]
  refine ⟨(same _).trans decides.overflow, fun fits => (same _).trans (decides.outOfMemory fits), ?_⟩
  intro fits enough
  obtain ⟨given, rfl⟩ := decides.served fits enough
  exact ⟨change given, rfl⟩

theorem Proper.allocate_decides (proper : a.Proper r blocks) (spare : r.size + Config.heapMinPayload < wordLimit)
    (positive : 0 < size) : ∃ counters result b, a.statistics = .ok counters ∧
      attempt (allocate size) a = (.ok result, b) ∧ Decides counters size result ∧
      ∀ cause, result = .error cause → b = a := by
  obtain ⟨counters, result, b, counted, ran, large, full, served, same⟩ := proper.allocate_exact spare positive
  refine ⟨counters, result, b, counted, ran, ⟨large, full, fun fits enough => ?_⟩, same⟩
  obtain ⟨ptr, -, -, -, rfl, -⟩ := served fits enough
  exact ⟨ptr, rfl⟩

theorem Decides.of_overflow {α : Type} {counters : Heap.Statistics} (huge : wordLimit ≤ needed size) :
    Decides counters size (.error .overflow : Except HeapError α) where
  overflow := by simp [huge]
  outOfMemory fits := absurd huge (Nat.not_le_of_lt fits)
  served fits := absurd huge (Nat.not_le_of_lt fits)

/-- The contents of a parcel are moved exactly if an allocation finds a place for them. -/
theorem Proper.relocate_decides (proper : a.Proper r blocks) (spare : r.size + Config.heapMinPayload < wordLimit)
    (before : (takens (blocks.map Block.parcel)).Perm (p :: kept)) (room : p.off + Header.width < r.size)
    (positive : 0 < size) : ∃ counters result b, a.statistics = .ok counters ∧
      attempt (relocate (r.payload p.off) (p.header none none) size) a = (.ok result, b) ∧
      Decides counters size result ∧
      match result with
      | .error _ => b = a
      | .ok ptr => ∃ y plan', ptr = r.payload y.off ∧ y.off ≠ p.off ∧
        Resized r (blocks.map Block.parcel) p kept size a y plan' b := by
  obtain ⟨counters, result, b, counted, ran, decides, same⟩ := proper.allocate_decides spare positive
  unfold relocate
  rw [attempt_bind, ran]
  cases result with
  | error cause => exact ⟨counters, .error cause, b, counted, rfl, decides, same cause rfl⟩
  | ok ptr =>
    obtain ⟨y, plan', rfl, granted⟩ := (meets_grant proper.sound size).result ran
    obtain ⟨result, c, moved, rfl, plan'', resized⟩ := (granted.meets_move before room).returns fun _ => id
    have apart := granted.apart (before.mem_iff.mpr (List.mem_cons_self ..))
    exact ⟨counters, _, c, counted, moved, decides, y, plan'', rfl, apart.off_ne, resized⟩

/-- A size that is no word is refused before anything else is done. -/
theorem Proper.resize_decides (proper : a.Proper r blocks) (spare : r.size + Config.heapMinPayload < wordLimit)
    (before : (takens (blocks.map Block.parcel)).Perm (p :: kept)) (room : p.off + Header.width < r.size)
    (positive : 0 < size) (short : p.size < needed size) :
    ∃ (counters : Heap.Statistics) (result : Except HeapError Nat) (b : Arena), a.statistics = .ok counters ∧
      attempt (resize (r.payload p.off) size) a = (.ok (result.map some), b) ∧
      Decides counters size result ∧
      match result with
      | .error _ => b = a
      | .ok ptr => ∃ y plan', ptr = r.payload y.off ∧ y.off ≠ p.off ∧
        Resized r (blocks.map Block.parcel) p kept size a y plan' b := by
  obtain ⟨member, taken⟩ := mem_takens.mp (before.mem_iff.mpr (List.mem_cons_self ..))
  rw [attempt_resize_of_live proper.sound.shows member taken room (Nat.ne_of_gt positive)]
  cases rounded : Word.roundUp? size Config.heapAlignment with
  | none =>
    exact ⟨_, .error .overflow, a, proper.sound.statistics, rfl, .of_overflow (wordLimit_le_needed rounded), rfl⟩
  | some need =>
    obtain ⟨rfl, -⟩ := roundUp?_eq_some_iff.mp rounded
    obtain ⟨counters, result, b, counted, ran, outcome⟩ := proper.relocate_decides spare before room positive
    refine ⟨counters, result, b, counted, ?_, outcome⟩
    dsimp only
    rw [if_neg (Nat.not_le_of_lt short), map_eq_pure_bind, attempt_bind, ran]
    cases result <;> rfl

theorem Sound.mem_allocated_iff (sound : a.Sound r plan) :
    x ∈ a.allocated ↔ x.header = .allocated x.header.size ∧ x.parcel ∈ takens plan := by
  rw [sound.allocated_eq_map]
  constructor
  · intro member
    obtain ⟨⟨off, size, tenure⟩, inTakens, rfl⟩ := List.mem_map.mp member
    obtain rfl : tenure = .taken := (mem_takens.mp inTakens).2
    exact ⟨rfl, inTakens⟩
  · rintro ⟨header, inTakens⟩
    refine List.mem_map.mpr ⟨x.parcel, inTakens, ?_⟩
    obtain ⟨off, header'⟩ := x
    exact congrArg (Block.mk off) header.symm

/-- What clients keep in a trade stays allocated, and holds what it held. -/
theorem Trade.preserves {gone fresh : List Parcel} (trade : Trade r plan plan' gone fresh kept a b)
    (sound : b.Sound r plan') (keeps : ∀ c ∈ blocks, c.header.isFree = false →
      c.header = .allocated c.header.size ∧ c.parcel ∈ kept) : a.Preserves r blocks b where
  proper := sound.blocks_eq ▸ sound.proper
  allocated c member used := by
    obtain ⟨header, inKept⟩ := keeps c member used
    exact sound.mem_allocated_iff.mpr ⟨header, trade.after.mem_iff.mpr (List.mem_append_right _ inKept)⟩
  payload c member used := trade.byte c.parcel (keeps c member used).2

theorem Proper.preserves (proper : a.Proper r blocks) : a.Preserves r blocks a where
  proper := proper.blocks_eq ▸ proper
  allocated c member used := by
    rw [mem_allocated, proper.blocks_eq]
    exact ⟨member, used⟩
  payload _ _ _ _ _ := rfl

theorem Preserves.mono {few : List Block} (preserves : a.Preserves r blocks b) (subset : few ⊆ blocks) :
    a.Preserves r few b :=
  ⟨preserves.proper, fun c member => preserves.allocated c (subset member),
    fun c member => preserves.payload c (subset member)⟩

/-- What is allocated besides the block whose size is changed stays as it is. -/
theorem Resized.preserves (proper : a.Proper r (before ++ x :: after))
    (resized : Resized r plan p (takens (before.map Block.parcel) ++ takens (after.map Block.parcel)) size a y
      plan' b) : a.Preserves r (before ++ after) b := by
  refine resized.trade.preserves resized.sound fun c member used => ⟨?_, ?_⟩
  · have inBlocks := ((List.sublist_cons_self x after).append_left before).subset member
    rw [← proper.blocks_eq] at inBlocks
    exact (proper.sound.mem_allocated_iff.mp (mem_allocated.mpr ⟨inBlocks, used⟩)).1
  · rw [← takens_append, ← List.map_append, mem_takens]
    exact ⟨List.mem_map_of_mem member, Block.tenure_parcel_of_allocated used⟩

/-- What a client gets for its parcel is another block. -/
theorem Resized.moves (sound : a.Sound r (left ++ x.parcel :: right)) (taken : x.parcel.tenure = .taken)
    (fresh : y.off ≠ x.off) (short : x.header.size < size)
    (resized : Resized r (left ++ x.parcel :: right) x.parcel (takens left ++ takens right) size a y plan' b) :
    Moves r x size a (r.payload y.off) b := by
  obtain ⟨inPlan, tenure⟩ := mem_takens.mp
    (resized.trade.after.mem_iff.mpr (List.mem_append_left _ (List.mem_singleton_self y)))
  have enough := resized.enough
  refine ⟨?_, ⟨y.size, ?_, enough⟩, ?_, ⟨y.off, .allocated y.size⟩, rfl, ?_⟩
  · unfold Region.payload
    omega
  · exact resized.sound.shows.capacity?_eq inPlan tenure (resized.sound.shows.room inPlan (by omega))
  · exact fun i within => resized.contents i within (Nat.lt_trans within short)
  · rw [resized.sound.allocated_eq_map, ← x.off_parcel, sound.allocated_besides taken]
    exact resized.trade.after.map _

/-- An allocated block whose size is changed stays where it is if it is large enough. Otherwise it is moved if there is
a free block that is large enough, and else the request is refused and nothing changes. The heap stays well-formed,
and what is allocated besides stays as it is. -/
theorem Proper.resize_exact (proper : a.Proper r (before ++ x :: after))
    (spare : r.size + Config.heapMinPayload < wordLimit) (allocated : x.header.isFree = false)
    (inside : r.Contains (r.payload x.off)) (positive : 0 < size) :
    ∃ counters result b, a.statistics = .ok counters ∧ attempt (resize (r.payload x.off) size) a = (.ok result, b) ∧
      a.Preserves r (before ++ after) b ∧
      (needed size ≤ x.header.size →
        result = .ok (some (r.payload x.off)) ∧ Trims r before x after (needed size) a b) ∧
      (x.header.size < needed size → Decides counters size result ∧
        (∀ given, result = .ok given → ∃ ptr, given = some ptr ∧ Moves r x size a ptr b) ∧
        ∀ cause, result = .error cause → b = a) := by
  have taken := Block.tenure_parcel_of_allocated allocated
  have sound := proper.sound
  have room := room_of_contains inside
  have whole := (sound.shows.spans.aligned rfl (p := x.parcel) (by simp)).2
  have shape : (before ++ x :: after).map Block.parcel =
      before.map Block.parcel ++ x.parcel :: after.map Block.parcel := List.map_append
  by_cases enough : needed size ≤ x.header.size
  · rw [shape] at sound
    obtain ⟨b, ran, soundB, resized⟩ := sound.exists_shrunk taken room spare positive enough
    refine ⟨_, _, b, sound.statistics, ran, resized.preserves proper, fun _ => ⟨rfl, ?_, ?_⟩, fun short => by omega⟩
    · rw [soundB.shapes, shapes_shrunk before x _ after allocated]
    · intro addr lower upper
      obtain ⟨i, rfl⟩ : ∃ i, addr = r.payload x.off + i := ⟨addr - r.payload x.off, by omega⟩
      have same := resized.contents i (by rw [Block.size_parcel]; omega) (by omega)
      rwa [off_fitted, Block.off_parcel] at same
  · have short : x.header.size < size := by
      simp only [needed, Config.heapAlignment, Block.size_parcel] at enough whole
      omega
    have others := takens_around (before.map Block.parcel) (after.map Block.parcel) taken
    rw [← shape] at others
    obtain ⟨counters, result, b, counted, ran, decides, outcome⟩ :=
      proper.resize_decides spare others room positive (Nat.lt_of_not_le enough)
    refine ⟨counters, _, b, counted, ran, ?_, fun large => absurd large enough, fun _ => ⟨decides.map some, ?_⟩⟩
    · cases result with
      | error cause =>
        obtain rfl : b = a := outcome
        exact proper.preserves.mono ((List.sublist_cons_self ..).append_left before).subset
      | ok ptr =>
        obtain ⟨y, plan', -, -, resized⟩ := outcome
        exact resized.preserves proper
    · cases result with
      | error cause => exact ⟨by simp [Except.map], fun _ _ => outcome⟩
      | ok ptr =>
        obtain ⟨y, plan', rfl, fresh, resized⟩ := outcome
        rw [shape] at sound resized
        refine ⟨?_, by simp [Except.map]⟩
        rintro given made
        obtain rfl : some _ = given := Except.ok.inj made
        exact ⟨_, rfl, resized.moves sound taken fresh short⟩

set_option maxRecDepth 4000 in
/-- The second block grows into the free block behind it, which has just enough payload for it. -/
theorem resize_exact_of_growth : ∃ a r before x after, a.Proper r (before ++ x :: after) ∧
    r.size + Config.heapMinPayload < wordLimit ∧ x.header.isFree = false ∧ r.Contains (r.payload x.off) ∧ 0 < 16 ∧
    r.payload x.off = 4168 ∧ ∃ b, attempt (resize 4168 16) a = (.ok (.ok (some 4208)), b) ∧
      a.Preserves r (before ++ after) b ∧ Moves r x 16 a 4208 b := by
  -- The states have names, so that the kernel computes all of them at once.
  obtain ⟨a, made⟩ : ∃ a, (attempt (establish 4096 128) (ofMemory (Memory.zeroed 4096 128))).2 = a := ⟨_, rfl⟩
  obtain ⟨b, taken⟩ : ∃ b, (attempt (Call.allocate 8).perform a).2 = b := ⟨_, rfl⟩
  obtain ⟨c, filled⟩ : ∃ c, (attempt (Call.allocate 8).perform b).2 = c := ⟨_, rfl⟩
  obtain ⟨opens, takesFirst, takesSecond, grows⟩ :
      (attempt (establish 4096 128) (ofMemory (Memory.zeroed 4096 128))).1 = .ok (.ok ()) ∧
      (attempt (Call.allocate 8).perform a).1 = .ok (.ok (some 4128)) ∧
      (attempt (Call.allocate 8).perform b).1 = .ok (.ok (some 4168)) ∧
      (attempt (resize 4168 16) c).1 = .ok (.ok (some 4208)) := by
    subst made taken filled
    decide +kernel
  have opened := made ▸ attempt_eq_of_outcome opens
  have first := taken ▸ attempt_eq_of_outcome takesFirst
  have second := filled ▸ attempt_eq_of_outcome takesSecond
  have run := ((Tenancy.Run.start ⟨a, []⟩).next (.call (Or.inl rfl) first)).next (.call (Or.inl rfl) second)
  have held : (⟨4168, 8, false⟩ : Holding) ∈
      (Call.allocate 8).settle ((Call.allocate 8).settle [] (.ok (some 4128))) (.ok (some 4168)) := by decide
  obtain ⟨r, usable, sound⟩ := Tenancy.sound_of_establish (Memory.covers_zeroed 4096 128) opened
  obtain ⟨plan, pairs, sound⟩ := run.sound sound
  have spare := spare_of_ofRange usable (by decide)
  obtain ⟨before, x, after, shape, allocated, inside, place⟩ := sound.exists_payload held rfl
  have proper : c.Proper r c.blocks := by
    rw [sound.arena.blocks_eq]
    exact sound.arena.proper
  rw [shape] at proper
  obtain ⟨counters, result, d, -, ran, preserves, stays, moves⟩ :=
    proper.resize_exact spare allocated inside (by decide : 0 < 16)
  rw [place] at ran stays
  obtain rfl : result = .ok (some 4208) := by
    rw [ran] at grows
    exact Except.ok.inj grows
  have short : x.header.size < needed 16 := by
    refine Nat.lt_of_not_le fun enough => ?_
    exact absurd (stays enough).1 (by decide)
  obtain ⟨-, moved, -⟩ := moves short
  obtain ⟨ptr, same, moves⟩ := moved _ rfl
  obtain rfl := Option.some.inj same
  exact ⟨c, r, before, x, after, proper, spare, allocated, inside, by decide, place, d, ran, preserves, moves⟩

end Arena
end KernelCore
