import KernelCore.Proofs.Heap.Auditing
import KernelCore.Proofs.Heap.Tenancy

namespace KernelCore

/-- An address lies in the payload of a block. -/
def Block.Holds (r : Region) (b : Block) (addr : Nat) : Prop :=
  r.payload b.off ≤ addr ∧ addr < r.payload b.off + b.header.size

/-- The offset behind a block. -/
def Block.stop (b : Block) : Nat := b.off + Header.width + b.header.size

namespace Arena
open Parcel
variable {a : Arena} {r : Region} {plan : List Parcel} {p : Parcel} {addr : Nat}

/-- The allocated blocks of the heap. -/
def allocated (a : Arena) : List Block := a.blocks.filter fun b => !b.header.isFree

theorem mem_allocated {b : Block} : b ∈ a.allocated ↔ b ∈ a.blocks ∧ b.header.isFree = false := by
  simp [allocated]

/-- The payloads of the allocated blocks are aligned parts of the region, apart from one another and from
all headers. -/
structure Isolates (a : Arena) (r : Region) : Prop where
  disjoint : a.allocated.Pairwise fun b c => ∀ addr, b.Holds r addr → ¬c.Holds r addr
  inside : ∀ b ∈ a.allocated, ∀ addr, b.Holds r addr → r.Contains addr
  aligned : ∀ b ∈ a.allocated, r.payload b.off % Config.heapAlignment = 0
  headerless : ∀ b ∈ a.allocated, ∀ c ∈ a.blocks, ∀ addr, b.Holds r addr →
    addr < r.start + c.off ∨ r.start + c.off + Header.width ≤ addr

theorem WellFormed.blocks_eq {blocks : List Block} (wellFormed : a.WellFormed r blocks) : a.blocks = blocks := by
  unfold Arena.blocks
  rw [wellFormed.region]
  exact Region.blocks_of_tiles wellFormed.tiles

theorem Sound.blocks_eq (sound : a.Sound r plan) : a.blocks = plan.map (block r a.memory) :=
  sound.wellFormed.blocks_eq

theorem Sound.stop_block (sound : a.Sound r plan) (member : p ∈ plan) : (block r a.memory p).stop = p.stop := by
  have size := sound.shows.size_read member
  simp only [Block.stop, block, size, Parcel.stop]

theorem Sound.allocated_eq (sound : a.Sound r plan) : a.allocated = (takens plan).map (block r a.memory) := by
  rw [allocated, sound.blocks_eq, List.filter_map, takens]
  congr 1
  refine List.filter_congr ?_
  intro p member
  rw [Function.comp_apply, isFree_block sound.shows.recorded sound.settled.tight member,
    ← not_isTaken (sound.settled.tight p member), Bool.not_not]

theorem Sound.block_eq (sound : a.Sound r plan) (member : p ∈ takens plan) :
    block r a.memory p = ⟨p.off, Config.heapMagic, 0, p.size, none, none⟩ := by
  obtain ⟨inPlan, taken⟩ := mem_takens.mp member
  obtain ⟨prev, next, here⟩ := sound.shows.recorded.of_mem inPlan
  rw [block, here, header_of_taken taken]

/-- The allocated blocks tell the places and the sizes of the taken parcels, and nothing else. -/
theorem Sound.allocated_eq_map (sound : a.Sound r plan) :
    a.allocated = (takens plan).map fun p => ⟨p.off, Config.heapMagic, 0, p.size, none, none⟩ := by
  rw [sound.allocated_eq]
  exact List.map_congr_left fun p member => sound.block_eq member

/-- Besides the block of a taken parcel, the allocated blocks are those of the taken parcels on both sides. -/
theorem Sound.allocated_besides {left right : List Parcel} (sound : a.Sound r (left ++ p :: right))
    (taken : p.tenure = .taken) : (a.allocated.filter fun block => block.off ≠ p.off) =
      (takens left ++ takens right).map fun q => ⟨q.off, Config.heapMagic, 0, q.size, none, none⟩ := by
  obtain ⟨before, -, behind⟩ := spans_around.mp sound.shows.spans
  have others : ∀ q ∈ takens left ++ takens right, q.off ≠ p.off := by
    intro q member same
    rcases List.mem_append.mp member with inLeft | inRight
    · have := (before.bounds (mem_takens.mp inLeft).1).2
      simp only [Parcel.stop, Header.width] at this
      omega
    · have := (behind.bounds (mem_takens.mp inRight).1).1
      simp only [Parcel.stop, Header.width] at this
      omega
  rw [sound.allocated_eq_map, takens_append, takens_cons_of_taken taken, List.filter_map, List.filter_append,
    List.filter_cons_of_neg (by simp), ← List.filter_append,
    List.filter_eq_self.mpr fun q member => by simpa using others q member]

theorem Sound.holds_block (sound : a.Sound r plan) (member : p ∈ takens plan) :
    (block r a.memory p).Holds r addr ↔ p.Holds r addr := by
  rw [sound.block_eq member]
  rfl

/-- A sound heap isolates its allocated blocks. -/
theorem Sound.isolates (sound : a.Sound r plan) : a.Isolates r where
  disjoint := by
    rw [sound.allocated_eq, List.pairwise_map]
    refine sound.pairwise.imp_of_mem ?_
    intro p q inP inQ apart addr holdsP holdsQ
    exact apart.not_holds ((sound.holds_block inP).mp holdsP) ((sound.holds_block inQ).mp holdsQ)
  inside b member addr holds := by
    rw [sound.allocated_eq] at member
    obtain ⟨p, inTakens, rfl⟩ := List.mem_map.mp member
    obtain ⟨lower, upper⟩ := (sound.holds_block inTakens).mp holds
    have within := (sound.shows.spans.bounds (mem_takens.mp inTakens).1).2
    simp only [Region.Contains, Region.stop, Region.payload, Parcel.stop] at *
    omega
  aligned b member := by
    rw [sound.allocated_eq] at member
    obtain ⟨p, inTakens, rfl⟩ := List.mem_map.mp member
    have start := r.start_aligned
    have offset := (sound.shows.spans.aligned rfl (mem_takens.mp inTakens).1).1
    simp only [block, Region.payload, Header.width, Config.heapAlignment] at *
    omega
  headerless b inAllocated c inBlocks addr holds := by
    rw [sound.allocated_eq] at inAllocated
    rw [sound.blocks_eq] at inBlocks
    obtain ⟨p, inTakens, rfl⟩ := List.mem_map.mp inAllocated
    obtain ⟨q, inPlan, rfl⟩ := List.mem_map.mp inBlocks
    exact sound.shows.spans.outside_of_holds (mem_takens.mp inTakens).1 inPlan
      ((sound.holds_block inTakens).mp holds)

end Arena

namespace Tenancy
open Arena Parcel Machine
variable {m : Memory} {start size : Nat} {a : Arena} {events : List Event} {t u : Tenancy}

/-- What a client holds lies in an allocated block. -/
theorem Sound.exists_block {r : Region} {plan : List Parcel} {pairs : List (Holding × Parcel)} {h : Holding}
    (sound : t.Sound r plan pairs) (member : h ∈ t.holdings) :
    ∃ b ∈ t.arena.allocated, ∀ addr, h.addr ≤ addr → addr < h.addr + h.size → b.Holds r addr := by
  obtain ⟨p, inPairs⟩ := sound.exists_parcel member
  have inTakens := sound.parcels.mem_iff.mpr (List.mem_map_of_mem inPairs)
  refine ⟨block r t.arena.memory p, ?_, ?_⟩
  · rw [sound.arena.allocated_eq]
    exact List.mem_map_of_mem inTakens
  · intro addr lower upper
    exact (sound.arena.holds_block inTakens).mpr ((sound.backed _ inPairs).holds lower upper)

/-- Along every run of clients the heap is well-formed: its blocks tile the region, no two neighbours are
free, the list holds exactly the free blocks in the order of their offsets, and what is in use is the
payload of the others. The heap's own check agrees. Every call comes to a result, as long as the largest
size of a block and the room for another one are a word together. -/
theorem Run.blocks_wellFormed (window : m.Covers start size)
    (opened : attempt (establish start size) (ofMemory m) = (.ok (.ok ()), a)) (run : Run ⟨a, []⟩ events t) :
    ∃ r, Region.ofRange start size = .ok r ∧ t.arena.WellFormed r t.arena.blocks ∧
      (t.arena.blocks.Pairwise fun b c => b.off < c.off) ∧
      attempt check t.arena = (.ok (.ok ()), t.arena) ∧
      ∀ call : Call, call.Legal t.holdings → r.size + Config.heapMinPayload < wordLimit →
        ∃ result b, attempt call.perform t.arena = (.ok result, b) := by
  obtain ⟨r, usable, sound⟩ := sound_of_establish window opened
  obtain ⟨plan, pairs, sound⟩ := run.sound sound
  have wellFormed := sound.arena.wellFormed
  refine ⟨r, usable, ?_, ?_, wellFormed.attempt_check, ?_⟩
  · rwa [wellFormed.blocks_eq]
  · rw [wellFormed.blocks_eq]
    exact (Region.pairwise_of_tiles wellFormed.tiles).2
  · intro call legal room
    obtain ⟨result, b, ran, -⟩ := (sound.serves call legal).returns fun _ => Nat.not_le_of_lt room
    exact ⟨result, b, ran⟩

set_option maxRecDepth 4000 in
/-- The run of one allocation in a small region. -/
theorem wellFormed_of_allocation :
    ∃ a t, attempt (establish 4096 96) (ofMemory (Memory.zeroed 4096 96)) = (.ok (.ok ()), a) ∧
      Run ⟨a, []⟩ [.called (.allocate 8) (.ok (some 4128))] t ∧
      ∃ r, Region.ofRange 4096 96 = .ok r ∧ t.arena.WellFormed r t.arena.blocks := by
  obtain ⟨a, b, opened, ran⟩ : ∃ a b,
      attempt (establish 4096 96) (ofMemory (Memory.zeroed 4096 96)) = (.ok (.ok ()), a) ∧
      attempt (Call.allocate 8).perform a = (.ok (.ok (some 4128)), b) :=
    ⟨_, _, attempt_eq_of_outcome rfl, attempt_eq_of_outcome rfl⟩
  have run : Run ⟨a, []⟩ [.called (.allocate 8) (.ok (some 4128))] _ := (Run.start _).next (.call (Or.inl rfl) ran)
  obtain ⟨r, usable, wellFormed, -⟩ := Run.blocks_wellFormed (Memory.covers_zeroed 4096 96) opened run
  exact ⟨a, _, opened, run, r, usable, wellFormed⟩

/-- What is allocated at any point of a run of clients is isolated. A call, whatever it comes to, leaves
every allocated block but the one of the address handed in, with every byte of it. So what a client
holds keeps its bytes until this client hands it in or writes to it. -/
theorem Run.isolated (window : m.Covers start size)
    (opened : attempt (establish start size) (ofMemory m) = (.ok (.ok ()), a)) (run : Run ⟨a, []⟩ events t) :
    ∃ r, Region.ofRange start size = .ok r ∧ t.arena.Isolates r ∧
      (∀ h ∈ t.holdings, ∃ b ∈ t.arena.allocated, ∀ addr, h.addr ≤ addr → addr < h.addr + h.size →
        b.Holds r addr) ∧
      (∀ (call : Call) result u, Step t (.called call result) u → ∀ b ∈ t.arena.allocated,
        ¬b.Holds r call.argument → b ∈ u.arena.allocated ∧
          ∀ addr, b.Holds r addr → u.arena.memory.byte addr = t.arena.memory.byte addr) ∧
      ∀ later u, Run t later u → ∀ h ∈ t.holdings, (∀ event ∈ later, event.Spares h) →
        h ∈ u.holdings ∧ u.arena.memory.slice h.addr h.size = t.arena.memory.slice h.addr h.size := by
  obtain ⟨r, usable, sound⟩ := sound_of_establish window opened
  obtain ⟨plan, pairs, sound⟩ := run.sound sound
  refine ⟨r, usable, sound.arena.isolates, fun h member => sound.exists_block member, ?_,
    fun later u more h member spared => more.keeps sound member spared⟩
  · rintro call result u step b member other
    rw [sound.arena.allocated_eq] at member
    obtain ⟨p, inTakens, rfl⟩ := List.mem_map.mp member
    obtain ⟨⟨h, p⟩, inPairs, rfl⟩ := List.mem_map.mp (sound.parcels.mem_iff.mp inTakens)
    cases step with
    | call legal ran =>
      obtain ⟨plan', pairs', after, keeps⟩ := sound.call legal ran
      have backed := sound.backed _ inPairs
      have apart : h.addr ≠ call.argument := by
        rintro same
        refine other ((sound.arena.holds_block inTakens).mpr ?_)
        rw [← same]
        exact backed.holds_addr
      obtain ⟨stays, bytes⟩ := keeps _ (mem_besides.mpr ⟨inPairs, apart⟩)
      have inAfter := after.parcels.mem_iff.mpr (List.mem_map_of_mem stays)
      refine ⟨?_, fun addr holds => bytes addr ((sound.arena.holds_block inTakens).mp holds)⟩
      rw [after.arena.allocated_eq, sound.arena.block_eq inTakens, ← after.arena.block_eq inAfter]
      exact List.mem_map_of_mem inAfter

set_option maxRecDepth 4000 in
/-- What was written into a first allocation is still there after a second one. -/
theorem isolated_of_allocations :
    ∃ a t u, attempt (establish 4096 96) (ofMemory (Memory.zeroed 4096 96)) = (.ok (.ok ()), a) ∧
      Run ⟨a, []⟩ [.called (.allocate 8) (.ok (some 4128)), .wrote 4128 [1, 2, 3]] t ∧
      Run t [.called (.allocate 8) (.ok (some 4168))] u ∧
      u.arena.memory.slice 4128 8 = t.arena.memory.slice 4128 8 := by
  obtain ⟨a, b, c, opened, first, second⟩ : ∃ a b c,
      attempt (establish 4096 96) (ofMemory (Memory.zeroed 4096 96)) = (.ok (.ok ()), a) ∧
      attempt (Call.allocate 8).perform a = (.ok (.ok (some 4128)), b) ∧
      attempt (Call.allocate 8).perform { b with memory := b.memory.writeBytes 4128 [1, 2, 3] } =
        (.ok (.ok (some 4168)), c) :=
    ⟨_, _, _, attempt_eq_of_outcome rfl, attempt_eq_of_outcome rfl, attempt_eq_of_outcome rfl⟩
  have member : (⟨4128, 8, false⟩ : Holding) ∈ (Call.allocate 8).settle [] (.ok (some 4128)) := by decide
  have run : Run ⟨a, []⟩ [.called (.allocate 8) (.ok (some 4128)), .wrote 4128 [1, 2, 3]] _ :=
    ((Run.start _).next (.call (Or.inl rfl) first)).next (.write member (by decide) (by decide))
  have more : Run ⟨_, _⟩ [.called (.allocate 8) (.ok (some 4168))] _ :=
    (Run.start _).next (.call (t := ⟨_, (Call.allocate 8).settle [] (.ok (some 4128))⟩) (Or.inl rfl) second)
  obtain ⟨r, -, -, -, -, keeps⟩ := Run.isolated (Memory.covers_zeroed 4096 96) opened run
  obtain ⟨-, same⟩ := keeps _ _ more _ member (by simp [Event.Spares, Call.argument])
  exact ⟨a, _, _, opened, run, more, same⟩

end Tenancy
end KernelCore
