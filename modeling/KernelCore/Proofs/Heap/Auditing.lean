import KernelCore.Heap.Audit
import KernelCore.Heap.BasicLemmas
import KernelCore.Heap.Layout

namespace KernelCore

namespace Region
variable {r : Region} {m : Memory} {off stop : Nat} {blocks : List Block} {b : Block}

theorem pairwise_of_tiles (tiles : r.Tiles m off blocks) :
    (∀ b ∈ blocks, off ≤ b.off) ∧ blocks.Pairwise fun b c => b.off < c.off := by
  induction blocks generalizing off with
  | nil => exact ⟨by simp, List.Pairwise.nil⟩
  | cons b rest ih =>
    obtain ⟨here, -, -, -, later⟩ := tiles
    obtain ⟨behind, ascending⟩ := ih later
    have wide : 0 < Header.width := by decide
    have after : ∀ c ∈ rest, b.off < c.off := by
      intro c member
      have := behind c member
      omega
    refine ⟨List.forall_mem_cons.mpr ⟨Nat.le_of_eq here.symm, ?_⟩, List.pairwise_cons.mpr ⟨after, ascending⟩⟩
    intro c member
    exact here ▸ Nat.le_of_lt (after c member)

/-- The header of a block is intact and lies inside the region. -/
theorem mem_of_tiles (tiles : r.Tiles m off blocks) (aligned : off % Config.heapAlignment = 0)
    (member : b ∈ blocks) :
    r.HoldsHeader b.off ∧ b.header = Header.read m (r.start + b.off) ∧ b.header.isIntact = true := by
  induction blocks generalizing off with
  | nil => simp at member
  | cons c rest ih =>
    obtain ⟨rfl, stored, intact, whole, later⟩ := tiles
    rcases List.mem_cons.mp member with rfl | behind
    · have within := tiles_le later
      exact ⟨⟨aligned, by omega⟩, stored, intact⟩
    · refine ih later ?_ behind
      simp only [Header.width, Config.heapAlignment] at *
      omega

/-- From the offset `off` on, these blocks follow one another inside the region up to the offset `stop`. -/
def Passes (r : Region) (m : Memory) : (off : Nat) → List Block → (stop : Nat) → Prop
  | off, [], stop => off = stop
  | off, b :: rest, stop =>
    b.off = off ∧ b.header = Header.read m (r.start + off) ∧ b.header.isIntact ∧
      b.header.size % Config.heapAlignment = 0 ∧ off + Header.width + b.header.size ≤ r.size ∧
      r.Passes m (off + Header.width + b.header.size) rest stop

/-- The header at an offset looks like that of a block, but the end of this block is no word. -/
structure Overlong (r : Region) (m : Memory) (off : Nat) : Prop where
  holds : r.HoldsHeader off
  intact : (Header.read m (r.start + off)).isIntact = true
  whole : (Header.read m (r.start + off)).size % Config.heapAlignment = 0
  large : wordLimit ≤ off + Header.width + (Header.read m (r.start + off)).size

theorem tiles_iff_passes : r.Tiles m off blocks ↔ r.Passes m off blocks r.size := by
  induction blocks generalizing off with
  | nil => exact Iff.rfl
  | cons b rest ih =>
    constructor
    · rintro ⟨here, stored, intact, whole, later⟩
      exact ⟨here, stored, intact, whole, tiles_le later, ih.mp later⟩
    · rintro ⟨here, stored, intact, whole, -, later⟩
      exact ⟨here, stored, intact, whole, ih.mpr later⟩

/-- The walk over the blocks passes such of which no two neighbours are free, and counts the free ones. -/
theorem auditBlocks_of_passes (count : Nat) {freeBefore : Bool} (passes : r.Passes m off blocks stop)
    (aligned : off % Config.heapAlignment = 0) (separated : Block.Separated blocks)
    (apart : freeBefore = true → ∀ b ∈ blocks.head?, b.header.isFree = false) :
    r.auditBlocks m off count freeBefore =
      r.auditBlocks m stop (count + blocks.countP fun b => b.header.isFree)
        (blocks.foldl (fun _ b => b.header.isFree) freeBefore) := by
  induction blocks generalizing off count freeBefore with
  | nil =>
    obtain rfl : off = stop := passes
    rfl
  | cons b rest ih =>
    obtain ⟨rfl, stored, intact, whole, fits, later⟩ := passes
    have small := r.fits
    have next : (b.off + Header.width + b.header.size) % Config.heapAlignment = 0 := by
      simp only [Header.width, Config.heapAlignment] at *
      omega
    have behind : Block.Separated rest := by
      cases rest with
      | nil => trivial
      | cons c rest => exact separated.2
    have apartNext : b.header.isFree = true → ∀ c ∈ rest.head?, c.header.isFree = false := by
      intro free c first
      cases rest with
      | nil => simp at first
      | cons d rest =>
        obtain rfl : d = c := by simpa using first
        exact separated.1.resolve_left (by simp [free])
    -- The flag of the walk says that the block before is free, and then this one is not.
    have alone : (b.header.isFree && freeBefore) = false := by
      cases before : freeBefore with
      | false => rw [Bool.and_false]
      | true => rw [apart before b rfl, Bool.false_and]
    have wide : 0 < Header.width := by decide
    rw [auditBlocks, dif_pos (by omega), if_pos ⟨aligned, by omega⟩]
    simp only [← stored, intact, whole, alone, Bool.true_eq_false, ne_eq, not_true_eq_false, if_false,
      Bool.false_eq_true]
    rw [if_neg (by omega), if_neg (by omega), ih _ later next behind apartNext, List.countP_cons, List.foldl_cons]
    congr 1
    cases b.header.isFree with
    | false => simp
    | true => simp; omega

/-- The walk over the blocks counts the free ones. -/
theorem auditBlocks_of_tiles (count : Nat) (freeBefore : Bool) (tiles : r.Tiles m off blocks)
    (aligned : off % Config.heapAlignment = 0) (separated : Block.Separated blocks)
    (apart : freeBefore = true → ∀ b ∈ blocks.head?, b.header.isFree = false) :
    r.auditBlocks m off count freeBefore = .ok (.ok (count + blocks.countP fun b => b.header.isFree)) := by
  rw [auditBlocks_of_passes count (tiles_iff_passes.mp tiles) aligned separated apart, auditBlocks,
    dif_neg (Nat.lt_irrefl _)]

/-- The walk along the list meets the blocks that are linked. -/
theorem auditList_of_linked (left : Nat) {prev link : Option Nat} (linked : Block.Linked prev link blocks)
    (sound : ∀ b ∈ blocks, r.HoldsHeader b.off ∧ b.header = Header.read m (r.start + b.off) ∧
      b.header.isIntact = true ∧ b.header.isFree = true)
    (ascending : blocks.Pairwise fun b c => b.off < c.off)
    (above : ∀ b ∈ blocks, ∀ off, prev = some off → off < b.off) :
    r.auditList m (blocks.length + left) prev link = .ok left := by
  induction blocks generalizing prev link with
  | nil =>
    obtain rfl : link = none := linked
    simp only [List.length_nil, Nat.zero_add, auditList]
  | cons b rest ih =>
    obtain ⟨rfl, back, later⟩ := linked
    obtain ⟨⟨holds, stored, intact, free⟩, soundRest⟩ := List.forall_mem_cons.mp sound
    obtain ⟨behind, ascendingRest⟩ := List.pairwise_cons.mp ascending
    have first := above b (List.mem_cons_self ..)
    have ordered : prev.any (b.off ≤ ·) = false := by
      cases prev with
      | none => rfl
      | some off =>
        have := first off rfl
        simp only [Option.any_some, decide_eq_false_iff_not]
        omega
    rw [List.length_cons, Nat.add_right_comm, auditList, if_pos holds]
    simp only [← stored, intact, free, back, ordered, Bool.true_eq_false, or_self, if_false, ne_eq,
      not_true_eq_false, Bool.false_eq_true]
    refine ih later soundRest ascendingRest ?_
    intro c member off same
    obtain rfl := Option.some.inj same
    exact behind c member

end Region

namespace Arena
variable {a : Arena} {r : Region} {blocks : List Block}

theorem WellFormed.verdict (wellFormed : a.WellFormed r blocks) : a.verdict = .ok (.ok none) := by
  obtain ⟨-, ascending⟩ := Region.pairwise_of_tiles wellFormed.tiles
  have walk := Region.auditBlocks_of_tiles 0 false wellFormed.tiles rfl
    wellFormed.separated (by simp)
  have list := Region.auditList_of_linked 1 wellFormed.linked (fun b member => by
    obtain ⟨inBlocks, free⟩ := List.mem_filter.mp member
    obtain ⟨holds, stored, intact⟩ := Region.mem_of_tiles wellFormed.tiles rfl inBlocks
    exact ⟨holds, stored, intact, free⟩) (ascending.filter _) (by simp)
  rw [← List.countP_eq_length_filter] at list
  rw [Nat.zero_add] at walk
  have audit : r.audit a.memory a.heap.first = .ok (.ok ()) := by
    unfold Region.audit
    simp only [walk, bind, Except.bind, list, if_true]
    rfl
  unfold Arena.verdict
  rw [wellFormed.region]
  dsimp only
  rw [audit]
  rfl

/-- A well-formed arena passes its own check, which changes nothing. -/
theorem WellFormed.attempt_check (wellFormed : a.WellFormed r blocks) :
    Machine.attempt check a = (.ok (.ok ()), a) := by
  unfold check
  rw [Machine.attempt_bind, Machine.attempt_get]
  dsimp only
  rw [wellFormed.verdict]
  rfl

end Arena
end KernelCore
