import KernelCore.Proofs.Heap.Isolation

namespace KernelCore
open Parcel

/-- The parcel that a block takes up. -/
def Block.parcel (b : Block) : Parcel := ⟨b.off, b.header.size, if b.header.isFree then .listed else .taken⟩

@[simp] theorem Block.off_parcel (b : Block) : b.parcel.off = b.off := rfl

@[simp] theorem Block.size_parcel (b : Block) : b.parcel.size = b.header.size := rfl

@[simp] theorem Block.isListed_parcel (b : Block) : b.parcel.isListed = b.header.isFree := by
  unfold parcel isListed
  cases b.header.isFree <;> simp

theorem Block.tenure_parcel_of_free {b : Block} (free : b.header.isFree = true) : b.parcel.tenure = .listed := by
  simp [parcel, free]

theorem Block.tenure_parcel_of_allocated {b : Block} (allocated : b.header.isFree = false) :
    b.parcel.tenure = .taken := by
  simp [parcel, allocated]

namespace Arena
variable {a : Arena} {r : Region} {m : Memory} {blocks : List Block} {plan : List Parcel} {off : Nat}
  {prev link : Option Nat}

/-- A well-formed arena in which every flag is one that the heap writes. -/
structure Proper (a : Arena) (r : Region) (blocks : List Block) : Prop extends a.WellFormed r blocks where
  flags : ∀ b ∈ blocks, b.header.tag ≤ 1

theorem spans_of_tiles (tiles : r.Tiles m off blocks) : Spans off (blocks.map Block.parcel) r.size := by
  induction blocks generalizing off with
  | nil => exact tiles
  | cons b rest ih =>
    obtain ⟨rfl, -, -, whole, later⟩ := tiles
    exact ⟨rfl, whole, ih later⟩

theorem settled_of_separated (separated : Block.Separated blocks) : Settled (blocks.map Block.parcel) := by
  induction blocks with
  | nil => exact ⟨by simp, List.isChain_nil⟩
  | cons b rest ih =>
    have firm : b.parcel.tenure ≠ .loose := by
      unfold Block.parcel
      split <;> simp
    cases rest with
    | nil => exact settled_cons.mpr ⟨firm, ih trivial, by simp⟩
    | cons c rest =>
      obtain ⟨apart, behind⟩ := separated
      exact settled_cons.mpr ⟨firm, ih behind, by simpa using apart⟩

/-- The list starts with the first free block. -/
theorem firstLink_of_linked (linked : Block.Linked prev link (blocks.filter fun b => b.header.isFree)) :
    firstLink (blocks.map Block.parcel) none = link := by
  induction blocks generalizing prev link with
  | nil => exact Eq.symm linked
  | cons b rest ih =>
    rw [List.map_cons, firstLink_cons]
    rw [List.filter_cons] at linked
    cases free : b.header.isFree with
    | true =>
      rw [free] at linked
      rw [link_of_listed (by rw [Block.isListed_parcel, free])]
      exact linked.1.symm
    | false =>
      rw [free] at linked
      rw [link_of_unlisted (by rw [Block.isListed_parcel, free])]
      exact ih linked

/-- A header that is intact is that of an allocated parcel, or that of a listed one between its links. -/
theorem recorded_of_linked (tiles : r.Tiles m off blocks)
    (linked : Block.Linked prev link (blocks.filter fun b => b.header.isFree))
    (unlinked : ∀ b ∈ blocks, b.header.isFree = false → b.header.next = none ∧ b.header.prev = none)
    (flags : ∀ b ∈ blocks, b.header.tag ≤ 1) : Recorded r m prev (blocks.map Block.parcel) none := by
  induction blocks generalizing off prev link with
  | nil => trivial
  | cons b rest ih =>
    obtain ⟨rfl, stored, intact, -, later⟩ := tiles
    obtain ⟨alone, unlinkedRest⟩ := List.forall_mem_cons.mp unlinked
    obtain ⟨flag, flagsRest⟩ := List.forall_mem_cons.mp flags
    have magic : b.header.magic = Config.heapMagic := by simpa [Header.isIntact] using intact
    have fields : b.header = ⟨b.header.magic, b.header.tag, b.header.size, b.header.next, b.header.prev⟩ := rfl
    rw [List.filter_cons] at linked
    cases free : b.header.isFree with
    | true =>
      rw [free] at linked
      obtain ⟨-, back, forth⟩ := linked
      have tag : b.header.tag = 1 := by
        have nonzero : b.header.tag ≠ 0 := by simpa [Header.isFree] using free
        omega
      rw [magic, tag, back] at fields
      refine ⟨?_, ?_⟩
      · rw [header_of_listed (Block.tenure_parcel_of_free free), firstLink_of_linked forth]
        exact stored.symm.trans fields
      · rw [link_of_listed (by rw [Block.isListed_parcel, free])]
        exact ih later forth unlinkedRest flagsRest
    | false =>
      rw [free] at linked
      obtain ⟨forth, back⟩ := alone free
      have tag : b.header.tag = 0 := by simpa [Header.isFree] using free
      rw [magic, tag, forth, back] at fields
      refine ⟨?_, ?_⟩
      · rw [header_of_taken (Block.tenure_parcel_of_allocated free)]
        exact stored.symm.trans fields
      · rw [link_of_unlisted (by rw [Block.isListed_parcel, free])]
        exact ih later linked unlinkedRest flagsRest

theorem takenSize_of_blocks (blocks : List Block) : takenSize (blocks.map Block.parcel) =
    ((blocks.filter fun b => !b.header.isFree).map fun b => b.header.size).sum := by
  have taken : (isTaken ∘ Block.parcel) = fun b => !b.header.isFree := by
    funext b
    cases free : b.header.isFree <;> simp [isTaken, Block.parcel, free]
  rw [takenSize, List.filter_map, taken, List.map_map]
  rfl

/-- The blocks of a proper arena make up a settled plan. -/
theorem Proper.sound (proper : a.Proper r blocks) : a.Sound r (blocks.map Block.parcel) where
  shows :=
    ⟨proper.region, proper.covered, spans_of_tiles proper.tiles, (firstLink_of_linked proper.linked).symm,
      recorded_of_linked proper.tiles proper.linked proper.unlinked proper.flags⟩
  settled := settled_of_separated proper.separated
  used := proper.used.trans (takenSize_of_blocks blocks).symm

/-- A settled plan shows a proper arena. -/
theorem Sound.proper (sound : a.Sound r plan) : a.Proper r (plan.map (block r a.memory)) where
  toWellFormed := sound.wellFormed
  flags b member := by
    obtain ⟨p, inPlan, rfl⟩ := List.mem_map.mp member
    obtain ⟨prev, next, here⟩ := sound.shows.recorded.of_mem inPlan
    rw [block, here]
    unfold Parcel.header
    split <;> simp [Header.free]

end Arena

/-- Along every run of clients the arena is proper. -/
theorem Tenancy.Run.proper {m : Memory} {a : Arena} {t : Tenancy} {start size : Nat} {events : List Event}
    (window : m.Covers start size)
    (opened : Machine.attempt (Arena.establish start size) (Arena.ofMemory m) = (.ok (.ok ()), a))
    (run : Run ⟨a, []⟩ events t) :
    ∃ r, Region.ofRange start size = .ok r ∧ t.arena.Proper r t.arena.blocks := by
  obtain ⟨r, usable, sound⟩ := Tenancy.sound_of_establish window opened
  obtain ⟨plan, pairs, sound⟩ := run.sound sound
  refine ⟨r, usable, ?_⟩
  rw [sound.arena.blocks_eq]
  exact sound.arena.proper

end KernelCore
