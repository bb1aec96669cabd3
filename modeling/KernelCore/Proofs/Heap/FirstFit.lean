import KernelCore.Proofs.Heap.Planned

namespace KernelCore

namespace Parcel
variable {r : Region} {m : Memory} {plan right : List Parcel} {p : Parcel} {off stop need hops : Nat}
  {prev : Option Nat}

/-- The payload of the listed parcels. -/
def listedSize (plan : List Parcel) : Nat := ((plan.filter isListed).map size).sum

/-- The largest payload of a listed parcel, if there is one larger than `least`. -/
def largest (least : Nat) (plan : List Parcel) : Nat := ((plan.filter isListed).map size).foldl max least

theorem Spans.listedSize_le (spans : Spans off plan stop) :
    off + listedSize plan + Header.width * (plan.filter isListed).length ≤ stop := by
  induction plan generalizing off with
  | nil => exact Nat.le_of_eq spans
  | cons p rest ih =>
    have later := ih spans.2.2
    have start := spans.1
    simp only [listedSize, List.filter_cons, Parcel.stop] at *
    split
    · simp only [List.map_cons, List.sum_cons, List.length_cons, Header.width] at *
      omega
    · omega

/-- The counters of the heap go through the listed parcels. -/
theorem tally_of_recorded (recorded : Recorded r m prev plan none) (spans : Spans off plan r.size)
    (aligned : off % Config.heapAlignment = 0) (enough : plan.length < hops) (s : Heap.Statistics)
    (room : s.free + listedSize plan < wordLimit) (few : s.freeBlocks + (plan.filter isListed).length < wordLimit) :
    r.tally m hops s (firstLink plan none) = .ok { s with
      free := s.free + listedSize plan
      freeBlocks := s.freeBlocks + (plan.filter isListed).length
      largestFree := largest s.largestFree plan } := by
  induction plan generalizing prev off hops s with
  | nil => cases hops <;> rfl
  | cons p rest ih =>
    have holds := Arena.holdsHeader_of_spans spans aligned (Nat.le_refl _) (List.mem_cons_self ..)
    have first : Spans off [p] p.stop := ⟨spans.1, spans.2.1, rfl⟩
    have alignedStop := first.stop_aligned aligned
    obtain ⟨here, later⟩ := recorded
    rw [List.length_cons] at enough
    obtain ⟨hops, rfl⟩ : ∃ k, hops = k + 1 := ⟨hops - 1, by omega⟩
    cases listed : p.isListed with
    | true =>
      rw [header_of_listed (isListed_iff.mp listed)] at here
      simp only [listedSize, largest, List.filter_cons, listed, if_true, List.map_cons, List.sum_cons, List.length_cons,
        List.foldl_cons] at room few ⊢
      rw [firstLink_cons, link_of_listed listed, Region.tally, if_pos holds, here]
      simp only [Header.isIntact, BEq.rfl, if_true]
      rw [Word.add_of_lt (by omega), Word.add_of_lt (by omega)]
      simp only [bind, Except.bind]
      rw [ih later spans.2.2 alignedStop (by omega) _ (by simp only [listedSize]; omega) (by dsimp only; omega)]
      simp only [listedSize, largest, Nat.add_assoc, Nat.add_comm 1]
    | false =>
      rw [link_of_unlisted listed] at later
      simp only [listedSize, largest, List.filter_cons, listed, Bool.false_eq_true, if_false] at room few ⊢
      rw [firstLink_cons, link_of_unlisted listed]
      exact ih later spans.2.2 alignedStop (by omega) s room few

theorem le_foldl_max {sizes : List Nat} {least : Nat} :
    need ≤ sizes.foldl max least ↔ need ≤ least ∨ ∃ size ∈ sizes, need ≤ size := by
  induction sizes generalizing least with
  | nil => simp
  | cons size rest ih =>
    have either : need ≤ max least size ↔ need ≤ least ∨ need ≤ size := by omega
    rw [List.foldl_cons, ih, either, List.exists_mem_cons_iff, or_assoc]

/-- There is a parcel for a request exactly if the largest listed one is large enough. -/
theorem le_largest_iff (positive : 0 < need) : need ≤ largest 0 plan ↔ ∃ p ∈ plan, p.suits need = true := by
  rw [largest, le_foldl_max]
  simp only [suits, List.mem_map, List.mem_filter, Bool.and_eq_true, decide_eq_true_eq]
  constructor
  · rintro (none | ⟨_, ⟨p, ⟨member, listed⟩, rfl⟩, large⟩)
    · omega
    · exact ⟨p, member, listed, large⟩
  · rintro ⟨p, member, listed, large⟩
    exact Or.inr ⟨p.size, ⟨p, ⟨member, listed⟩, rfl⟩, large⟩

/-- The rest is joined with nothing where no listed parcel follows. -/
theorem cutOff_of_unlisted (apart : ∀ q ∈ right.head?, q.isListed = false)
    (splits : need + (Header.width + Config.heapMinPayload) ≤ p.size) :
    p.cutOff need right = p.rest need :: right := by
  rw [cutOff, if_pos splits]
  cases right with
  | nil => rfl
  | cons q rest =>
    have unlisted : q.isListed = false := apart q rfl
    simp [absorb, absorbed, unlisted]

/-- What follows a listed parcel follows it still, once it was cut. -/
theorem subset_cutOff (apart : ∀ q ∈ right.head?, q.isListed = false) : right ⊆ p.cutOff need right := by
  by_cases splits : need + (Header.width + Config.heapMinPayload) ≤ p.size
  · rw [cutOff_of_unlisted apart splits]
    exact List.subset_cons_self ..
  · rw [cutOff, if_neg splits]
    exact List.Subset.refl _

/-- What is left over is too small for a block. -/
theorem size_fitted_lt (p : Parcel) (need : Nat) :
    (p.fitted need).size < need + (Header.width + Config.heapMinPayload) := by
  unfold fitted
  split
  · simp only [cut, Header.width]
    omega
  · omega

end Parcel

/-- The header of an allocated block. -/
def Header.allocated (size : Nat) : Header := ⟨Config.heapMagic, 0, size, none, none⟩

namespace Block

/-- What can be told of a block without its links: its offset, the size of its payload, and whether it is free. -/
def shape (b : Block) : Nat × Nat × Bool := (b.off, b.header.size, b.header.isFree)

/-- What becomes of a free block whose first `need` bytes are given to a client. If enough is left over for another
block, that one has the old one's links. -/
def split (x : Block) (need : Nat) : List Block :=
  if need + (Header.width + Config.heapMinPayload) ≤ x.header.size then
    [⟨x.off, .allocated need⟩,
      ⟨x.off + Header.width + need, { x.header with size := x.header.size - need - Header.width }⟩]
  else [⟨x.off, .allocated x.header.size⟩]

end Block

namespace Arena
open Machine Parcel
variable {a b : Arena} {r : Region} {blocks before after : List Block} {x : Block} {plan left right : List Parcel}
  {p : Parcel} {need ptr : Nat}

theorem Sound.statistics (sound : a.Sound r plan) : a.statistics =
    .ok ⟨r.capacity, takenSize plan, listedSize plan, (plan.filter isListed).length, largest 0 plan⟩ := by
  have bound := sound.shows.spans.listedSize_le
  have small := r.size_lt
  simp only [Header.width] at bound
  have counted := tally_of_recorded sound.shows.recorded sound.shows.spans rfl
    (length_lt_hopLimit sound.shows.spans (Nat.le_refl _)) ⟨r.capacity, takenSize plan, 0, 0, 0⟩
    (by dsimp only; omega) (by dsimp only; omega)
  simp only [Nat.zero_add] at counted
  simp only [Arena.statistics, Heap.total, sound.shows.region, sound.used, sound.shows.first]
  exact counted

/-- From `a` to `b` the first `need` bytes of the free block `x` were given to a client, and `ptr` is their address.
No free block in front of it is large enough, and the blocks on both sides keep their shapes and their payloads. -/
structure Takes (r : Region) (before : List Block) (x : Block) (after : List Block) (need : Nat) (a : Arena) (ptr : Nat)
    (b : Arena) : Prop where
  free : x.header.isFree = true
  enough : need ≤ x.header.size
  lowest : ∀ c ∈ before, c.header.isFree = true → c.header.size < need
  address : ptr = r.start + x.off + Header.width
  blocks : ∃ front back, b.Proper r (front ++ (x.split need ++ back)) ∧
    front.map Block.shape = before.map Block.shape ∧ back.map Block.shape = after.map Block.shape
  capacity : ∃ size, b.capacity? ptr = some size ∧ need ≤ size ∧
    size < need + (Header.width + Config.heapMinPayload) ∧ b.heap.used = a.heap.used + size
  payload : ∀ addr, ptr ≤ addr → addr < ptr + need → b.memory.byte addr = a.memory.byte addr
  others : ∀ c ∈ before ++ after, ∀ addr, c.Holds r addr → b.memory.byte addr = a.memory.byte addr

theorem shape_block (sound : a.Sound r plan) (member : p ∈ plan) :
    (block r a.memory p).shape = (p.off, p.size, p.isListed) := by
  have free := isFree_block sound.shows.recorded sound.settled.tight member
  have size := sound.shows.size_read member
  simp only [Block.shape, free]
  simp only [block, size]

/-- The blocks of some parcels have the shapes of the blocks from which these were taken. -/
theorem map_shape (sound : b.Sound r plan) (subset : ∀ p ∈ blocks.map Block.parcel, p ∈ plan) :
    ((blocks.map Block.parcel).map (block r b.memory)).map Block.shape = blocks.map Block.shape := by
  rw [List.map_map, List.map_map]
  refine List.map_congr_left ?_
  intro c member
  have shape := shape_block sound (subset _ (List.mem_map_of_mem member))
  rwa [Block.isListed_parcel] at shape

/-- What memory tells of the two parts of a parcel, or of one that was taken whole. -/
theorem map_block_carved (sound : a.Sound r (left ++ p :: right)) (listed : p.tenure = .listed)
    (carved : b.Sound r (carved left p need right)) :
    ((p.become .taken).fitted need :: (p.become .taken).cutOff need right).map (block r b.memory) =
      (block r a.memory p).split need ++ right.map (block r b.memory) := by
  have old := (recorded_around.mp sound.shows.recorded).2.1
  rw [header_of_listed listed] at old
  have whole : block r a.memory p = ⟨p.off, Config.heapMagic, 1, p.size, firstLink right none, lastLink none left⟩ :=
    congrArg (Block.mk p.off) old
  obtain ⟨-, first, later⟩ := recorded_around.mp carved.shows.recorded
  rw [header_of_taken (by simp), off_fitted, off_become] at first
  rw [whole]
  unfold Block.split
  dsimp only
  by_cases splits : need + (Header.width + Config.heapMinPayload) ≤ p.size
  · have apart := ((settled_around_listed listed).mp sound.settled).2.2.2
    have cut : (p.become .taken).cutOff need right = p.rest need :: right := cutOff_of_unlisted apart splits
    have fitted : (p.become .taken).fitted need = (p.become .taken).cut need := if_pos splits
    rw [fitted] at first later ⊢
    rw [cut] at later ⊢
    -- The first part is in no list, so the rest is linked as the whole parcel was.
    rw [link_of_unlisted (by simp [isListed, Parcel.cut])] at later
    have second := later.1
    rw [header_of_listed (p := p.rest need) rfl] at second
    have given : block r b.memory ((p.become .taken).cut need) = ⟨p.off, .allocated need⟩ :=
      congrArg (Block.mk p.off) first
    have left : block r b.memory (p.rest need) = ⟨(p.rest need).off, _⟩ := congrArg (Block.mk (p.rest need).off) second
    rw [if_pos splits, List.map_cons, List.map_cons, given, left]
    rfl
  · have cut : (p.become .taken).cutOff need right = right := if_neg splits
    have fitted : (p.become .taken).fitted need = p.become .taken := if_neg splits
    rw [fitted] at first ⊢
    have given : block r b.memory (p.become .taken) = ⟨p.off, .allocated p.size⟩ := congrArg (Block.mk p.off) first
    rw [if_neg splits, cut, List.map_cons, given]
    rfl

/-- Carving writes neither into the bytes that are given away nor into the payloads on both sides. -/
theorem Sound.byte_of_carved (sound : a.Sound r (left ++ p :: right)) (listed : p.tenure = .listed)
    (enough : need ≤ p.size) (carvedB : b.Sound r (carved left p need right))
    (wrote : Wrote r ((left ++ p :: right ++ carved left p need right).map Parcel.off) a b) :
    (∀ addr, r.payload p.off ≤ addr → addr < r.payload p.off + need → b.memory.byte addr = a.memory.byte addr) ∧
      ∀ q ∈ left ++ right, ∀ addr, q.Holds r addr → b.memory.byte addr = a.memory.byte addr := by
  have apart := ((settled_around_listed listed).mp sound.settled).2.2.2
  have given : (p.become .taken).fitted need ∈ carved left p need right := by simp [carved]
  have size := size_fitted (p := p.become .taken) enough
  constructor
  · intro addr lower upper
    refine wrote.byte_of_holds sound.shows.spans carvedB.shows.spans (p := p) (by simp) given
      ⟨lower, ?_⟩ ⟨by rwa [off_fitted], ?_⟩
    · exact Nat.lt_of_lt_of_le upper (Nat.add_le_add_left enough _)
    · rw [off_fitted]
      exact Nat.lt_of_lt_of_le upper (Nat.add_le_add_left size.1 _)
  · intro q member addr holds
    refine wrote.byte_of_holds sound.shows.spans carvedB.shows.spans (p := q) (q := q) ?_ ?_ holds holds
    · rcases List.mem_append.mp member with inFront | later
      · exact List.mem_append_left _ inFront
      · exact List.mem_append_right _ (List.mem_cons_of_mem _ later)
    · rcases List.mem_append.mp member with inFront | later
      · exact List.mem_append_left _ inFront
      · exact List.mem_append_right _ (List.mem_cons_of_mem _ (subset_cutOff apart later))

/-- What is given away is as large as asked for, and too small for another block besides. -/
theorem Sound.capacity?_of_carved (sound : a.Sound r (left ++ p :: right)) (listed : p.tenure = .listed)
    (positive : 0 < need) (enough : need ≤ p.size) (carvedB : b.Sound r (carved left p need right)) :
    ∃ size, b.capacity? (r.payload p.off) = some size ∧ need ≤ size ∧
      size < need + (Header.width + Config.heapMinPayload) ∧ b.heap.used = a.heap.used + size := by
  have given : (p.become .taken).fitted need ∈ carved left p need right := by simp [carved]
  have size := size_fitted (p := p.become .taken) enough
  have told := carvedB.shows.capacity?_eq given (by simp) (carvedB.shows.room given (by omega))
  rw [off_fitted, off_become] at told
  refine ⟨_, told, size.1, size_fitted_lt .., ?_⟩
  rw [carvedB.used, sound.used, takenSize_carved, takenSize_append, takenSize_cons_of_listed listed]
  omega

/-- Carving the first parcel that suits is taking the first free block that is large enough. -/
theorem Proper.takes (proper : a.Proper r (before ++ x :: after)) (positive : 0 < need)
    (suits : x.parcel.suits need = true) (first : ∀ q ∈ before.map Block.parcel, q.suits need = false)
    (soundB : b.Sound r (carved (before.map Block.parcel) x.parcel need (after.map Block.parcel)))
    (wrote : Wrote r (((before ++ x :: after).map Block.parcel ++
      carved (before.map Block.parcel) x.parcel need (after.map Block.parcel)).map Parcel.off) a b) :
    Takes r before x after need a (r.payload x.off) b := by
  obtain ⟨isListed, large⟩ := (Bool.and_eq_true ..).mp suits
  have free : x.header.isFree = true := by rwa [Block.isListed_parcel] at isListed
  have enough : need ≤ x.header.size := of_decide_eq_true large
  have listed := Block.tenure_parcel_of_free free
  have sound := proper.sound
  have whole : block r a.memory x.parcel = x := by
    rw [block, Block.off_parcel, ← (Region.mem_of_tiles proper.tiles rfl (by simp)).2.1]
  have shape : (before ++ x :: after).map Block.parcel = before.map Block.parcel ++ x.parcel :: after.map Block.parcel :=
    List.map_append
  rw [shape] at sound wrote
  generalize lefts : before.map Block.parcel = left at *
  generalize rights : after.map Block.parcel = right at *
  have apart := ((settled_around_listed listed).mp sound.settled).2.2.2
  have behind : right ⊆ carved left x.parcel need right := fun q member =>
    List.mem_append_right _ (List.mem_cons_of_mem _ (subset_cutOff apart member))
  obtain ⟨payload, others⟩ := sound.byte_of_carved listed enough soundB wrote
  refine ⟨free, enough, ?_, rfl, ?_, sound.capacity?_of_carved listed positive enough soundB, payload, ?_⟩
  · intro c member free
    have small := first c.parcel (lefts ▸ List.mem_map_of_mem member)
    rw [Parcel.suits, Block.isListed_parcel, free, Bool.true_and] at small
    exact Nat.lt_of_not_le (of_decide_eq_false small)
  · refine ⟨left.map (block r b.memory), right.map (block r b.memory), ?_, ?_, ?_⟩
    · have proper := soundB.proper
      rwa [carved, List.map_append, map_block_carved sound listed soundB, whole] at proper
    · rw [← lefts]
      exact map_shape soundB fun q member => List.mem_append_left _ (lefts ▸ member)
    · rw [← rights]
      exact map_shape soundB fun q member => behind (rights ▸ member)
  · intro c member
    refine others c.parcel ?_
    rw [← lefts, ← rights, ← List.map_append]
    exact List.mem_map_of_mem member

/-- A number of bytes rounded up to a payload size. -/
def needed (size : Nat) : Nat := (size + (Config.heapAlignment - 1)) / Config.heapAlignment * Config.heapAlignment

theorem roundUp?_eq_some_iff {size need : Nat} :
    Word.roundUp? size Config.heapAlignment = some need ↔ need = needed size ∧ needed size < wordLimit := by
  have bounds : Word.roundUp? size 8 = some need ↔ _ := Word.roundUp?_eight_eq_some_iff
  simp only [needed, Config.heapAlignment] at *
  rw [bounds]
  omega

theorem wordLimit_le_needed {size : Nat} (large : Word.roundUp? size Config.heapAlignment = none) :
    wordLimit ≤ needed size := by
  refine Nat.le_of_not_lt fun fits => ?_
  rw [roundUp?_eq_some_iff.mpr ⟨rfl, fits⟩] at large
  simp at large

/-- A request is refused because of its size, or because it is larger than the largest free block, and then nothing has
changed; or it is given the first bytes of the free block with the lowest offset that is large enough. The one region
that is left out has all addresses but the first eight and the last eight, which is no room for the heap itself. -/
theorem Proper.allocate_exact (proper : a.Proper r blocks) (spare : r.size + Config.heapMinPayload < wordLimit)
    {size : Nat} (positive : 0 < size) :
    ∃ counters result b, a.statistics = .ok counters ∧ attempt (allocate size) a = (.ok result, b) ∧
      (result = .error .overflow ↔ wordLimit ≤ needed size) ∧
      (needed size < wordLimit → (result = .error .outOfMemory ↔ counters.largestFree < needed size)) ∧
      (needed size < wordLimit → needed size ≤ counters.largestFree → ∃ ptr before x after, result = .ok ptr ∧
        blocks = before ++ x :: after ∧ Takes r before x after (needed size) a ptr b) ∧
      ∀ cause, result = .error cause → b = a := by
  have sound := proper.sound
  have never : ∀ t : Arena, ¬Overtaxed (blocks.map Block.parcel) size := by
    rintro - ⟨p, member, need, -, enough, large⟩
    have vast := sound.shows.spans.le_of_not_gauged member enough large
    omega
  have reaches : 0 < needed size := by
    simp only [needed, Config.heapAlignment]
    omega
  obtain ⟨result, b, ran, post⟩ := (meets_allocate sound size).returns never
  refine ⟨_, result, b, sound.statistics, ran, ?_⟩
  dsimp only
  cases result with
  | error cause =>
    obtain ⟨rfl, refused⟩ := post
    cases refused with
    | zeroSize zero => omega
    | overflow _ large =>
      have huge := wordLimit_le_needed large
      exact ⟨by simp [huge], fun fits => by omega, fun fits => by omega, fun _ _ => rfl⟩
    | outOfMemory _ rounded full =>
      obtain ⟨rfl, fits⟩ := roundUp?_eq_some_iff.mp rounded
      have short : largest 0 (blocks.map Block.parcel) < needed size := by
        refine Nat.lt_of_not_le fun large => ?_
        obtain ⟨p, member, suits⟩ := (le_largest_iff reaches).mp large
        simp [full p member] at suits
      refine ⟨?_, fun _ => by simp [short], fun _ large => by omega, fun _ _ => rfl⟩
      simp only [Except.error.injEq, reduceCtorEq, false_iff]
      omega
  | ok ptr =>
    obtain ⟨left, p, right, need, shape, -, rounded, suits, first, rfl, -, soundB, wrote, -⟩ := post
    obtain ⟨rfl, fits⟩ := roundUp?_eq_some_iff.mp rounded
    have large : needed size ≤ largest 0 (blocks.map Block.parcel) :=
      (le_largest_iff reaches).mpr ⟨p, by rw [shape]; simp, suits⟩
    obtain ⟨before, behind, rfl, rfl, shape'⟩ := List.map_eq_append_iff.mp shape
    obtain ⟨x, after, rfl, rfl, rfl⟩ := List.map_eq_cons_iff.mp shape'
    refine ⟨?_, ?_, ?_, by simp⟩
    · simp only [reduceCtorEq, false_iff]
      omega
    · intro _
      simp only [reduceCtorEq, false_iff]
      omega
    · intro _ _
      exact ⟨_, before, x, after, rfl, rfl, proper.takes reaches suits first soundB wrote⟩

set_option maxRecDepth 4000 in
/-- The first block was given back and has just enough payload for twelve bytes and another block. -/
theorem allocate_exact_after_release : ∃ a r blocks, a.Proper r blocks ∧
    r.size + Config.heapMinPayload < wordLimit ∧ 0 < 12 ∧ a.statistics = .ok ⟨152, 8, 80, 2, 64⟩ ∧
    ∃ ptr b before x after, attempt (allocate 12) a = (.ok (.ok ptr), b) ∧ blocks = before ++ x :: after ∧
      Takes r before x after 16 a ptr b := by
  -- The states have names, so that the kernel computes all of them at once.
  obtain ⟨a, made⟩ : ∃ a, (attempt (establish 4096 184) (ofMemory (Memory.zeroed 4096 184))).2 = a := ⟨_, rfl⟩
  obtain ⟨b, taken⟩ : ∃ b, (attempt (Call.allocate 64).perform a).2 = b := ⟨_, rfl⟩
  obtain ⟨c, filled⟩ : ∃ c, (attempt (Call.allocate 8).perform b).2 = c := ⟨_, rfl⟩
  obtain ⟨d, freed⟩ : ∃ d, (attempt (Call.release 4128).perform c).2 = d := ⟨_, rfl⟩
  obtain ⟨opens, takesFirst, takesSecond, gives, told⟩ :
      (attempt (establish 4096 184) (ofMemory (Memory.zeroed 4096 184))).1 = .ok (.ok ()) ∧
      (attempt (Call.allocate 64).perform a).1 = .ok (.ok (some 4128)) ∧
      (attempt (Call.allocate 8).perform b).1 = .ok (.ok (some 4224)) ∧
      (attempt (Call.release 4128).perform c).1 = .ok (.ok none) ∧ d.statistics = .ok ⟨152, 8, 80, 2, 64⟩ := by
    subst made taken filled freed
    decide +kernel
  have opened := made ▸ attempt_eq_of_outcome opens
  have first := taken ▸ attempt_eq_of_outcome takesFirst
  have second := filled ▸ attempt_eq_of_outcome takesSecond
  have third := freed ▸ attempt_eq_of_outcome gives
  have held : (⟨4128, 64, false⟩ : Holding) ∈
      (Call.allocate 8).settle ((Call.allocate 64).settle [] (.ok (some 4128))) (.ok (some 4224)) := by decide
  have run := (((Tenancy.Run.start ⟨a, []⟩).next (.call (Or.inl rfl) first)).next (.call (Or.inl rfl) second)).next
    (.call (Or.inr ⟨_, held, rfl, rfl⟩) third)
  obtain ⟨r, usable, proper⟩ := Tenancy.Run.proper (Memory.covers_zeroed 4096 184) opened run
  have spare : r.size + Config.heapMinPayload < wordLimit := by
    have fits := (Tenancy.within_of_ofRange usable).2
    have limit : wordLimit = 2 ^ 64 := rfl
    simp only [Config.heapMinPayload]
    omega
  obtain ⟨counters, result, e, counted, ran, -, -, served, -⟩ := proper.allocate_exact spare (by decide : 0 < 12)
  obtain rfl := Except.ok.inj (told.symm.trans counted)
  obtain ⟨ptr, before, x, after, rfl, shape, takes⟩ := served (by decide) (by decide)
  exact ⟨d, r, _, proper, spare, by decide, told, ptr, e, before, x, after, ran, shape, takes⟩

end Arena
end KernelCore
