import KernelCore.Proofs.Heap.Guarding
import KernelCore.Proofs.Heap.Isolation

namespace KernelCore

namespace Arena
open Parcel Machine
variable {a b c : Arena} {r : Region} {m : Memory} {plan : List Parcel} {p : Parcel} {ptr target start size : Nat}

/-- What an address is found to be: where it is refused, where it is accepted, and where it is refused
because it lies in a free block or inside an allocated one. -/
structure Verdict (a : Arena) (r : Region) (ptr : Nat) (twice : HeapError) (refused : Option HeapError) : Prop where
  outOfRange : refused = some .outOfRange ↔ Outlying r ptr
  accepted : refused = none ↔ ¬Outlying r ptr ∧ ∃ b ∈ a.allocated, b.off = ptr - r.start - Header.width
  inFree : refused = some twice ↔ ¬Outlying r ptr ∧ ∃ b ∈ a.blocks, b.header.isFree = true ∧
    b.off ≤ ptr - r.start - Header.width ∧ ptr - r.start - Header.width < b.stop
  inside : refused = some .corrupted ↔ ¬Outlying r ptr ∧ ∃ b ∈ a.allocated,
    b.off < ptr - r.start - Header.width ∧ ptr - r.start - Header.width < b.stop

/-- The only block around an offset is that of the parcel around it. -/
theorem Sound.exists_block_iff {fits : Block → Prop} (sound : a.Sound r plan) (member : p ∈ plan)
    (lower : p.off ≤ target) (upper : target < p.stop)
    (around : ∀ b, fits b → b.off ≤ target ∧ target < b.stop) :
    (∃ b ∈ a.blocks, fits b) ↔ fits (block r a.memory p) := by
  rw [sound.blocks_eq]
  constructor
  · rintro ⟨b, inBlocks, good⟩
    obtain ⟨q, inPlan, rfl⟩ := List.mem_map.mp inBlocks
    have near := around _ good
    rw [sound.stop_block inPlan] at near
    rw [sound.shows.spans.eq_of_shared member inPlan ⟨lower, upper⟩ near]
    exact good
  · intro good
    exact ⟨_, List.mem_map_of_mem member, good⟩

theorem Sound.verdict (sound : a.Sound r plan) (near : ¬Outlying r ptr) (member : p ∈ plan)
    (lower : p.off ≤ ptr - r.start - Header.width) (upper : ptr - r.start - Header.width < p.stop)
    {twice : HeapError} (far : twice ≠ .outOfRange) (whole : twice ≠ .corrupted) :
    a.Verdict r ptr twice (refusal twice (standing (ptr - r.start - Header.width) p)) := by
  generalize place : ptr - r.start - Header.width = target at *
  have stops := sound.stop_block member
  have free : (block r a.memory p).header.isFree = p.isListed :=
    isFree_block sound.shows.recorded sound.settled.tight member
  -- What is asked about the blocks is decided by the one parcel that the offset lies in.
  have atStart : (∃ b ∈ a.allocated, b.off = target) ↔ p.isListed = false ∧ p.off = target := by
    simp only [mem_allocated, and_assoc]
    rw [sound.exists_block_iff member lower upper, free]
    · rfl
    · rintro b ⟨-, rfl⟩
      simp only [Block.stop, Header.width]
      omega
  have inFree : (∃ b ∈ a.blocks, b.header.isFree = true ∧ b.off ≤ target ∧ target < b.stop) ↔
      p.isListed = true := by
    rw [sound.exists_block_iff member lower upper fun b good => good.2, free, stops]
    exact and_iff_left ⟨lower, upper⟩
  have inside : (∃ b ∈ a.allocated, b.off < target ∧ target < b.stop) ↔
      p.isListed = false ∧ p.off ≠ target := by
    simp only [mem_allocated, and_assoc]
    rw [sound.exists_block_iff member lower upper fun b good => ⟨Nat.le_of_lt good.2.1, good.2.2⟩, free, stops]
    refine and_congr_right fun _ => ⟨fun good => Nat.ne_of_lt good.1, fun other => ⟨?_, upper⟩⟩
    exact Nat.lt_of_le_of_ne lower other
  have refused : refusal twice (standing target p) =
      if p.isListed then some twice else if p.off = target then none else some .corrupted := by
    unfold standing
    split
    · rfl
    · split
      · rfl
      · rfl
  rw [refused]
  subst place
  constructor
  · simp only [near, iff_false]
    split_ifs <;> simp [far]
  · simp only [near, not_false_eq_true, true_and, atStart]
    split_ifs <;> simp_all
  · simp only [near, not_false_eq_true, true_and, inFree]
    split_ifs <;> simp_all [Ne.symm whole]
  · simp only [near, not_false_eq_true, true_and, inside]
    split_ifs <;> simp_all

/-- What an address is found to be does not depend on what is asked for it. A free block and the inside of
a block are never mistaken for an allocated block. -/
theorem Guarded.exists_verdict (guarded : a.Guarded r plan) (ptr : Nat) :
    ∃ standing, (judge r ptr).runFrom a = (.ok standing, a) ∧
      (∀ twice, twice ≠ .outOfRange → twice ≠ .corrupted → a.Verdict r ptr twice (refusal twice standing)) ∧
      ∀ twice, refusal twice standing = none → ∃ p ∈ plan, p.tenure = .taken ∧ ptr = r.payload p.off ∧
        p.off + Header.width < r.size := by
  by_cases near : Outlying r ptr
  · refine ⟨_, judge_of_outlying near, fun twice far _ => ?_, fun twice accepted => by simp [refusal] at accepted⟩
    have absent {fits : Prop} (good : ¬Outlying r ptr ∧ fits) : False := good.1 near
    refine ⟨⟨fun _ => near, fun _ => rfl⟩, ⟨fun same => ?_, fun good => (absent good).elim⟩,
      ⟨fun same => absurd (Option.some.inj same).symm far, fun good => (absent good).elim⟩,
      ⟨fun same => ?_, fun good => (absent good).elim⟩⟩
    · cases same
    · cases same
  · obtain ⟨p, member, lower, upper, judged⟩ := guarded.exists_standing near
    refine ⟨_, judged, fun twice far whole => guarded.sound.verdict near member lower upper far whole, ?_⟩
    intro twice accepted
    obtain ⟨place, -, room⟩ := payload_of_near near
    have firm := guarded.sound.settled.tight p member
    unfold standing at accepted
    split at accepted
    · simp [refusal] at accepted
    · rename_i unlisted
      have taken := tenure_of_unlisted firm (by simpa using unlisted)
      split at accepted
      · rename_i starts
        rw [← starts] at place room
        exact ⟨p, member, taken, place, room⟩
      · simp [refusal] at accepted

/-- The release of a taken parcel frees its block and no other. -/
theorem Sound.allocated_reclaimed {left right : List Parcel} (sound : a.Sound r (left ++ p :: right))
    (taken : p.tenure = .taken) (soundB : b.Sound r (reclaimed left p right)) :
    b.allocated = a.allocated.filter fun block => block.off ≠ p.off := by
  rw [soundB.allocated_eq_map, takens_reclaimed, sound.allocated_besides taken]

theorem Guarded.guards_release (guarded : a.Guarded r plan) (ptr : Nat) : a.Guards r (release ptr) := by
  by_cases zero : ptr = 0
  · rw [zero]
    exact Meets.of_runFrom (attempt_release_zero a) ⟨plan, guarded⟩
  obtain ⟨standing, judged, -, accepted⟩ := guarded.exists_verdict ptr
  cases refused : refusal .doubleFree standing with
  | none =>
    obtain ⟨p, member, taken, rfl, room⟩ := accepted _ refused
    obtain ⟨left, right, rfl⟩ := List.append_of_mem member
    exact (guarded.meets_release taken room).excused.mono (fun _ _ post => ⟨_, post.2⟩) fun _ => id
  | some cause =>
    obtain ⟨notices, ran⟩ := attempt_release_of_refusal guarded.sound.shows.region zero judged refused
    exact Meets.of_runFrom ran ⟨plan, guarded.notices notices⟩

theorem Guarded.guards_releaseAligned (guarded : a.Guarded r plan) (ptr : Nat) :
    a.Guards r (releaseAligned ptr) := by
  by_cases zero : ptr = 0
  · subst zero
    exact Meets.of_runFrom (by rfl : attempt (releaseAligned 0) a = (.ok (.ok ()), a)) ⟨plan, guarded⟩
  have released := attempt_releaseAligned_eq guarded.sound.shows.region zero
  by_cases inside : r.start + Header.width + backLinkWidth ≤ ptr ∧ ptr < r.stop
  · rw [if_pos inside] at released
    generalize a.backLink ptr = raw at released
    exact (meets_run_congr released).mpr (guarded.guards_release raw)
  · rw [if_neg inside] at released
    exact Meets.of_runFrom released ⟨plan, guarded.notices _⟩

theorem Guarded.guards_resize (guarded : a.Guarded r plan) (ptr size : Nat) : a.Guards r (resize ptr size) := by
  by_cases zero : ptr = 0
  · subst zero
    exact (guarded.guards_allocate size).map some
  by_cases empty : size = 0
  · subst empty
    rw [resize_to_zero zero]
    exact (guarded.guards_release ptr).map _
  obtain ⟨standing, judged, -, accepted⟩ := guarded.exists_verdict ptr
  cases refused : refusal .notAllocated standing with
  | none =>
    obtain ⟨p, member, taken, rfl, room⟩ := accepted _ refused
    refine (guarded.meets_resize member taken room (Nat.pos_of_ne_zero empty)).mono ?_ fun _ => id
    rintro (cause | given) b post
    · exact ⟨plan, post.1 ▸ guarded⟩
    · exact post
  | some cause =>
    obtain ⟨notices, ran⟩ := attempt_resize_of_refusal guarded.sound.shows.region zero
      (Nat.pos_of_ne_zero empty) judged refused
    exact Meets.of_runFrom ran ⟨plan, guarded.notices notices⟩

/-- Every call keeps the heap guarded, whatever it is called with. -/
theorem Guarded.guards_perform (guarded : a.Guarded r plan) (call : Call) : a.Guards r call.perform := by
  cases call with
  | allocate size => exact (guarded.guards_allocate size).map some
  | allocateZeroed count size => exact (guarded.guards_allocateZeroed count size).map some
  | resize ptr size => exact guarded.guards_resize ptr size
  | release ptr => exact (guarded.guards_release ptr).map _
  | allocateAligned size align => exact (guarded.guards_allocateAligned size align).map some
  | releaseAligned ptr => exact (guarded.guards_releaseAligned ptr).map _
  | allocatePages size => exact (guarded.guards_allocateAligned size Config.pageSize).map some
  | releasePages ptr => exact (guarded.guards_releaseAligned ptr).map _

/-- The runs of clients that hand in any address, and write into allocated blocks without leaving a mark. -/
inductive Roams : Arena → Arena → Prop where
  | start (a : Arena) : Roams a a
  | call {a b c : Arena} {call : Call} {result : Except HeapError (Option Nat)} (run : Roams a b)
    (ran : attempt call.perform b = (.ok result, c)) : Roams a c
  | write {a b : Arena} {r : Region} {block : Block} {addr : Nat} {bytes : List UInt8} (run : Roams a b)
    (region : b.heap.region = some r) (member : block ∈ b.allocated) (lower : r.payload block.off ≤ addr)
    (upper : addr + bytes.length ≤ r.payload block.off + block.header.size)
    (unmarked : (b.memory.writeBytes addr bytes).Unmarked (r.payload block.off)
      (r.payload block.off + block.header.size)) :
    Roams a { b with memory := b.memory.writeBytes addr bytes }

theorem Roams.guarded (run : Roams a b) (guarded : a.Guarded r plan) : ∃ plan', b.Guarded r plan' := by
  induction run with
  | start => exact ⟨plan, guarded⟩
  | call _ ran ih =>
    obtain ⟨plan', before⟩ := ih
    exact (before.guards_perform _).result ran
  | @write b s block addr bytes _ region member lower upper unmarked ih =>
    obtain ⟨plan', before⟩ := ih
    obtain rfl := Option.some.inj (before.sound.shows.region.symm.trans region)
    rw [before.sound.allocated_eq_map] at member
    obtain ⟨p, inTakens, rfl⟩ := List.mem_map.mp member
    exact ⟨plan', before.onMemory (mem_takens.mp inTakens).1 (fun _ _ => Memory.covers_writeBytes ..)
      (fun _ outside => Memory.byte_writeBytes_of_outside _ _ (by dsimp only at lower upper; omega)) unmarked⟩

/-- All that a heap writes when it takes over a region is the header of its first block. -/
theorem memory_of_establish (usable : Region.ofRange start size = .ok r)
    (opened : attempt (establish start size) b = (.ok (.ok ()), a)) :
    a.memory = (Header.free r.capacity).write b.memory r.start := by
  rw [attempt_establish, usable] at opened
  split at opened
  · simp at opened
  · obtain rfl := (Prod.mk.inj opened).2
    dsimp only

/-- A heap that took over a region without marks is guarded. -/
theorem guarded_of_establish (window : m.Covers start size) (usable : Region.ofRange start size = .ok r)
    (unmarked : m.Unmarked r.start r.stop)
    (opened : attempt (establish start size) (ofMemory m) = (.ok (.ok ()), a)) :
    a.Guarded r [⟨0, r.capacity, .listed⟩] := by
  obtain ⟨s, same, sound⟩ := Tenancy.sound_of_establish window opened
  obtain rfl := Except.ok.inj (usable.symm.trans same)
  have written := memory_of_establish usable opened
  dsimp only [ofMemory] at written
  have covers : ∀ addr n, a.memory.Covers addr n ↔ m.Covers addr n := by
    intro addr n
    rw [written, Header.covers_write]
  have byte : ∀ addr, (∀ off ∈ [0], addr < r.start + off ∨ r.start + off + Header.width ≤ addr) →
      a.memory.byte addr = m.byte addr := by
    intro addr outside
    rw [written]
    exact Header.byte_write_of_outside _ _ (outside 0 (List.mem_singleton_self 0))
  -- The first header is the only one, and it was written into a region without any.
  have rewrote : Rewrote r [0] { a with memory := m } a :=
    { region := rfl, notices := rfl, covers, byte, used := rfl }
  have nowhere : Genuine r ({ a with memory := m } : Arena).memory [] := by
    intro off aligned within mark
    have start := r.start_aligned
    refine absurd mark (unmarked _ (Nat.le_add_right ..) (by unfold Region.stop; omega) ?_)
    simp only [Config.heapAlignment] at *
    omega
  have shows : a.Shows r [⟨0, r.capacity, .listed⟩] := sound.arena.shows
  exact ⟨sound.arena, (rewrote.staysGenuine shows (by simp) (by simp)).genuine nowhere⟩

theorem Guarded.release_verdict (guarded : a.Guarded r plan) (nonzero : ptr ≠ 0) :
    ∃ refused c, a.Verdict r ptr .doubleFree refused ∧
      match refused with
      | some cause => attempt (release ptr) a = (.ok (.error cause), c) ∧ c.heap = a.heap ∧ c.memory = a.memory
      | none => attempt (release ptr) a = (.ok (.ok ()), c) ∧
        c.allocated = a.allocated.filter fun block => r.payload block.off ≠ ptr := by
  obtain ⟨standing, judged, verdict, accepted⟩ := guarded.exists_verdict ptr
  have told := verdict .doubleFree (by decide) (by decide)
  cases refused : refusal .doubleFree standing with
  | none =>
    obtain ⟨p, member, taken, rfl, room⟩ := accepted _ refused
    obtain ⟨left, right, rfl⟩ := List.append_of_mem member
    obtain ⟨result, c, ran, rfl, guardedC⟩ := (guarded.meets_release taken room).returns fun _ => id
    refine ⟨none, c, refused ▸ told, ran, ?_⟩
    rw [guarded.sound.allocated_reclaimed taken guardedC.sound]
    refine List.filter_congr fun block _ => ?_
    simp [Region.payload]
  | some cause =>
    obtain ⟨notices, ran⟩ := attempt_release_of_refusal guarded.sound.shows.region nonzero judged refused
    exact ⟨some cause, _, refused ▸ told, ran, rfl, rfl⟩

theorem Guarded.resize_verdict (guarded : a.Guarded r plan) (nonzero : ptr ≠ 0) (positive : 0 < size) :
    ∃ refused, a.Verdict r ptr .notAllocated refused ∧
      match refused with
      | some cause => ∃ c, attempt (resize ptr size) a = (.ok (.error cause), c) ∧ c.heap = a.heap ∧
        c.memory = a.memory
      | none => (∀ cause c, attempt (resize ptr size) a = (.ok (.error cause), c) → Exhausts cause ∧ c = a) ∧
        (r.size + Config.heapMinPayload < wordLimit →
          ∃ result c, attempt (resize ptr size) a = (.ok result, c)) := by
  obtain ⟨standing, judged, verdict, accepted⟩ := guarded.exists_verdict ptr
  have told := verdict .notAllocated (by decide) (by decide)
  cases refused : refusal .notAllocated standing with
  | none =>
    obtain ⟨p, member, taken, rfl, room⟩ := accepted _ refused
    have meets := guarded.meets_resize member taken room positive
    refine ⟨none, refused ▸ told, ?_, ?_⟩
    · intro cause c ran
      obtain ⟨same, exhausts⟩ := meets.result ran
      exact ⟨exhausts, same⟩
    · intro small
      obtain ⟨result, c, ran, -⟩ := meets.returns fun _ => Nat.not_le_of_lt small
      exact ⟨result, c, ran⟩
  | some cause =>
    obtain ⟨notices, ran⟩ := attempt_resize_of_refusal guarded.sound.shows.region nonzero positive judged refused
    exact ⟨some cause, refused ▸ told, _, ran, rfl, rfl⟩

/-- Where no aligned address of the region had the mark of a header to begin with, and no client leaves one,
the heap stays sound whatever is handed in. It tells any address apart: one that cannot be a payload is out
of range, the payload of an allocated block is accepted, and frees this one block, an address in a free block
is a double free, and one inside an allocated block is corrupted. A change of size refuses the same addresses.
Whatever is refused changes neither the heap nor the memory. -/
theorem Roams.verdicts (window : m.Covers start size) (usable : Region.ofRange start size = .ok r)
    (unmarked : m.Unmarked r.start r.stop)
    (opened : attempt (establish start size) (ofMemory m) = (.ok (.ok ()), a)) (run : Roams a b) :
    b.WellFormed r b.blocks ∧ attempt check b = (.ok (.ok ()), b) ∧ ∀ ptr, ptr ≠ 0 →
      (∃ refused c, b.Verdict r ptr .doubleFree refused ∧
        match refused with
        | some cause => attempt (release ptr) b = (.ok (.error cause), c) ∧ c.heap = b.heap ∧ c.memory = b.memory
        | none => attempt (release ptr) b = (.ok (.ok ()), c) ∧
          c.allocated = b.allocated.filter fun block => r.payload block.off ≠ ptr) ∧
      ∀ size, 0 < size → ∃ refused, b.Verdict r ptr .notAllocated refused ∧
        match refused with
        | some cause => ∃ c, attempt (resize ptr size) b = (.ok (.error cause), c) ∧ c.heap = b.heap ∧
          c.memory = b.memory
        | none => (∀ cause c, attempt (resize ptr size) b = (.ok (.error cause), c) → Exhausts cause ∧ c = b) ∧
          (r.size + Config.heapMinPayload < wordLimit →
            ∃ result c, attempt (resize ptr size) b = (.ok result, c)) := by
  obtain ⟨plan, guarded⟩ := run.guarded (guarded_of_establish window usable unmarked opened)
  have wellFormed := guarded.sound.wellFormed
  refine ⟨?_, wellFormed.attempt_check, ?_⟩
  · rwa [wellFormed.blocks_eq]
  · intro ptr nonzero
    exact ⟨guarded.release_verdict nonzero, fun size positive => guarded.resize_verdict nonzero positive⟩

set_option maxRecDepth 4000 in
/-- After one allocation in a small region, an address inside it is refused and nothing changes. -/
theorem verdict_of_interior :
    ∃ r a b c, Region.ofRange 4096 96 = .ok r ∧
      attempt (establish 4096 96) (ofMemory (Memory.zeroed 4096 96)) = (.ok (.ok ()), a) ∧ Roams a b ∧
      attempt (release 4136) b = (.ok (.error .corrupted), c) ∧ c.heap = b.heap ∧ c.memory = b.memory := by
  obtain ⟨a, b, opened, ran, outcome⟩ : ∃ a b,
      attempt (establish 4096 96) (ofMemory (Memory.zeroed 4096 96)) = (.ok (.ok ()), a) ∧
      attempt (Call.allocate 8).perform a = (.ok (.ok (some 4128)), b) ∧
      (attempt (release 4136) b).1 = .ok (.error .corrupted) :=
    ⟨_, _, attempt_eq_of_outcome rfl, attempt_eq_of_outcome rfl, rfl⟩
  obtain ⟨r, usable, -⟩ := Tenancy.sound_of_establish (Memory.covers_zeroed 4096 96) opened
  have run : Roams a b := (Roams.start a).call ran
  obtain ⟨-, -, verdicts⟩ := Roams.verdicts (Memory.covers_zeroed 4096 96) usable
    (Memory.unmarked_zeroed 4096 96 r.start r.stop) opened run
  obtain ⟨⟨refused, c, -, answer⟩, -⟩ := verdicts 4136 (by decide)
  cases refused with
  | none =>
    rw [answer.1] at outcome
    simp at outcome
  | some cause =>
    obtain ⟨answered, heap, memory⟩ := answer
    rw [answered] at outcome
    obtain rfl : cause = .corrupted := by simpa using outcome
    exact ⟨r, a, b, c, usable, opened, run, answered, heap, memory⟩

end Arena
end KernelCore
