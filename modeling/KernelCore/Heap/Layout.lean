import KernelCore.Heap.BasicLemmas
import KernelCore.Heap.Blocks
import KernelCore.Heap.HeaderLemmas
import Mathlib.Algebra.Ring.Nat

namespace KernelCore

/-- The blocks from the offset `off` on follow one another to the end of the region, and their headers
in memory are intact. -/
def Region.Tiles (r : Region) (m : Memory) : (off : Nat) → List Block → Prop
  | off, [] => off = r.size
  | off, b :: rest =>
    b.off = off ∧ b.header = Header.read m (r.start + off) ∧ b.header.isIntact ∧
      b.header.size % Config.heapAlignment = 0 ∧ r.Tiles m (off + Header.width + b.header.size) rest

/-- Of two neighbours at least one is allocated. -/
def Block.Separated : List Block → Prop
  | b :: c :: rest => (b.header.isFree = false ∨ c.header.isFree = false) ∧ Block.Separated (c :: rest)
  | _ => True

/-- The blocks are linked in both directions, from a link behind the block at `prev` on. -/
def Block.Linked : (prev link : Option Nat) → List Block → Prop
  | _, link, [] => link = none
  | prev, link, b :: rest =>
    link = some b.off ∧ b.header.prev = prev ∧ Block.Linked (some b.off) b.header.next rest

/-- The heap of an arena is sound, and these are its region and its blocks. -/
structure Arena.WellFormed (a : Arena) (r : Region) (blocks : List Block) : Prop where
  region : a.heap.region = some r
  covered : a.memory.Covers r.start r.size
  tiles : r.Tiles a.memory 0 blocks
  separated : Block.Separated blocks
  linked : Block.Linked none a.heap.first (blocks.filter fun b => b.header.isFree)
  /-- An allocated block is in no list. -/
  unlinked : ∀ b ∈ blocks, b.header.isFree = false → b.header.next = none ∧ b.header.prev = none
  used : a.heap.used = ((blocks.filter fun b => !b.header.isFree).map fun b => b.header.size).sum

theorem Region.tiles_le {r : Region} {m : Memory} {off : Nat} {blocks : List Block}
    (tiles : r.Tiles m off blocks) : off ≤ r.size := by
  induction blocks generalizing off with
  | nil => exact Nat.le_of_eq tiles
  | cons b rest ih =>
    have := ih tiles.2.2.2.2
    omega

/-- The headers in memory tell the blocks of a sound heap. -/
theorem Region.blocks_of_tiles {r : Region} {m : Memory} {off : Nat} {blocks : List Block}
    (tiles : r.Tiles m off blocks) : r.blocks m off = blocks := by
  induction blocks generalizing off with
  | nil =>
    have stop : off = r.size := tiles
    unfold Region.blocks
    rw [dif_neg (by simp only [Header.width]; omega)]
  | cons b rest ih =>
    obtain ⟨at_off, stored, -, aligned, later⟩ := tiles
    have room := tiles_le later
    have rest_eq := ih later
    obtain ⟨b_off, h⟩ := b
    dsimp only at at_off stored aligned room rest_eq
    subst at_off
    subst stored
    unfold Region.blocks
    rw [dif_pos (by omega)]
    dsimp only
    rw [if_neg (by simp only [Header.width] at room; omega), rest_eq]

/-- The region as a single free block is sound. -/
theorem Arena.wellFormed_single {a : Arena} {r : Region} (region : a.heap.region = some r)
    (covered : a.memory.Covers r.start r.size)
    (stored : Header.read a.memory r.start = Header.free r.capacity)
    (first : a.heap.first = some 0) (used : a.heap.used = 0) :
    a.WellFormed r [⟨0, Header.free r.capacity⟩] where
  region := region
  covered := covered
  tiles := by
    have room := r.holds_block
    have aligned := r.size_aligned
    simp only [Header.width, Config.heapMinPayload, Config.heapAlignment] at room aligned
    refine ⟨rfl, stored.symm, rfl, ?_, ?_⟩
    · simp only [Header.free, Region.capacity, Header.width, Config.heapAlignment]
      omega
    · simp only [Region.Tiles, Header.free, Region.capacity, Header.width]
      omega
  separated := trivial
  linked := ⟨first, rfl, rfl⟩
  unlinked := by simp [Header.free, Header.isFree]
  used := by simp [used, Header.free, Header.isFree]

/-- A heap that takes over a region holds one free block. -/
theorem Arena.wellFormed_establish {a b : Arena} {start size : Nat}
    (ran : Machine.attempt (establish start size) a = (.ok (.ok ()), b))
    (covered : ∀ r, Region.ofRange start size = .ok r → a.memory.Covers r.start r.size) :
    ∃ r, Region.ofRange start size = .ok r ∧ b.WellFormed r [⟨0, Header.free r.capacity⟩] := by
  rw [attempt_establish] at ran
  split at ran
  · simp at ran
  · split at ran
    · simp at ran
    · rename_i r usable
      have fits : (Header.free r.capacity).Fits := Header.fits_free (by
        have := r.fits
        simp only [Region.capacity]
        omega)
      have room := r.holds_block
      have covers := covered r usable
      have place : a.memory.Covers r.start Header.width :=
        ⟨covers.1, by have := covers.2; omega⟩
      have stored := Header.read_write_self fits place
      have still : ((Header.free r.capacity).write a.memory r.start).Covers r.start r.size :=
        (Header.covers_write ..).mpr covers
      obtain rfl := (Prod.mk.inj ran).2
      refine ⟨r, usable, wellFormed_single rfl ?_ ?_ rfl rfl⟩
      · dsimp only
        exact still
      · dsimp only
        exact stored

end KernelCore
