import KernelCore.Proofs.Heap.Headers

namespace KernelCore

/-- No aligned address from `lo` up to `hi` has the mark of a header. -/
def Memory.Unmarked (m : Memory) (lo hi : Nat) : Prop :=
  ∀ addr, lo ≤ addr → addr < hi → addr % Config.heapAlignment = 0 → m.readNat addr 4 ≠ Config.heapMagic

/-- A word that ends in no mark: a multiple of the alignment, or the word for no link. -/
theorem Memory.readNat_ne_heapMagic {m : Memory} {addr : Nat}
    (word : m.readNat addr 8 % Config.heapAlignment = 0 ∨ m.readNat addr 8 = wordLimit - 1) :
    m.readNat addr 4 ≠ Config.heapMagic := by
  rw [← m.readNat_mod 8 addr (by decide)]
  rcases word with multiple | all
  · intro mark
    simp only [Config.heapAlignment, Config.heapMagic] at multiple mark
    omega
  · rw [all]
    decide

namespace Memory
variable {m : Memory} {lo hi size addr : Nat}

theorem unmarked_zeroed (base size lo hi : Nat) : (zeroed base size).Unmarked lo hi := by
  intro addr _ _ _
  have zero : ∀ a, (zeroed base size).byte a = 0 := by
    intro a
    rw [zeroed, byte_mk]
    split
    · exact Array.getElem_replicate ..
    · rfl
  simp only [readNat, zero, UInt8.toNat_zero, Config.heapMagic]
  decide

/-- Zeros make no mark, not even where they end inside a word. -/
theorem Unmarked.fill (unmarked : m.Unmarked lo hi) (covers : m.Covers lo size) :
    (m.fill lo 0 size).Unmarked lo hi := by
  intro addr lower upper aligned
  by_cases filled : addr < lo + size
  · have zero := byte_fill_of_inside m 0 covers lower filled
    intro mark
    simp only [readNat, zero, UInt8.toNat_zero, Config.heapMagic] at mark
    omega
  · rw [readNat_congr (m := m) fun a above below => byte_fill_of_outside m 0 (by omega)]
    exact unmarked addr lower upper aligned

theorem Unmarked.copy {source : Nat} (unmarked : m.Unmarked lo hi) (also : m.Unmarked source (source + size))
    (covers : m.Covers lo size) (whole : size % Config.heapAlignment = 0) (start : lo % Config.heapAlignment = 0)
    (first : source % Config.heapAlignment = 0) : (m.copy source lo size).Unmarked lo hi := by
  intro addr lower upper aligned
  simp only [Config.heapAlignment] at whole start first aligned
  by_cases copied : addr < lo + size
  · obtain ⟨i, rfl⟩ : ∃ i, addr = lo + i := ⟨addr - lo, by omega⟩
    have same : (m.copy source lo size).readNat (lo + i) 4 = m.readNat (source + i) 4 :=
      readNat_of_bytes fun k within => by
        rw [Nat.add_assoc, Nat.add_assoc]
        exact byte_copy_of_inside m source covers (by omega)
    rw [same]
    refine also (source + i) (by omega) (by omega) ?_
    simp only [Config.heapAlignment]
    omega
  · rw [readNat_congr (m := m) fun a above below => byte_copy_of_outside m source (by omega)]
    exact unmarked addr lower upper (by simpa only [Config.heapAlignment] using aligned)

/-- A multiple of the alignment, stored at one, makes no mark. -/
theorem Unmarked.writeNat {place value : Nat} (unmarked : m.Unmarked lo hi) (covers : m.Covers place 8)
    (multiple : value % Config.heapAlignment = 0) (word : value < wordLimit)
    (start : place % Config.heapAlignment = 0) : (m.writeNat place 8 value).Unmarked lo hi := by
  intro addr lower upper aligned
  by_cases here : addr = place
  · subst here
    refine readNat_ne_heapMagic (Or.inl ?_)
    rw [readNat_writeNat_self _ _ covers, Nat.mod_eq_of_lt (show value < 256 ^ 8 from word)]
    exact multiple
  · simp only [Config.heapAlignment] at start aligned
    rw [readNat_writeNat_of_disjoint _ _ (by omega)]
    exact unmarked addr lower upper (by simpa only [Config.heapAlignment] using aligned)

end Memory

/-- The size and the links of a header are multiples of the alignment. -/
structure Header.Regular (h : Header) : Prop where
  size : h.size % Config.heapAlignment = 0
  next : ∀ off, h.next = some off → off % Config.heapAlignment = 0
  prev : ∀ off, h.prev = some off → off % Config.heapAlignment = 0

theorem linkOfWord_regular {word : Nat} (regular : ∀ off, linkOfWord word = some off → off % Config.heapAlignment = 0) :
    word % Config.heapAlignment = 0 ∨ word = wordLimit - 1 := by
  unfold linkOfWord at regular
  split at regular
  · exact Or.inr ‹_›
  · exact Or.inl (regular word rfl)

/-- Behind its own mark, a regular header has no mark at an aligned address. -/
theorem Header.Regular.unmarked {m : Memory} {addr : Nat} (regular : (Header.read m addr).Regular)
    (aligned : addr % Config.heapAlignment = 0) : m.Unmarked (addr + 8) (addr + Header.width) := by
  intro place lower upper multiple
  have third : place = addr + 8 ∨ place = addr + 16 ∨ place = addr + 24 := by
    simp only [Config.heapAlignment, Header.width] at aligned multiple upper
    omega
  obtain ⟨size, next, prev⟩ := regular
  dsimp only [Header.read] at size next prev
  rcases third with same | same | same
  · rw [same]
    exact Memory.readNat_ne_heapMagic (Or.inl size)
  · rw [same]
    exact Memory.readNat_ne_heapMagic (linkOfWord_regular next)
  · rw [same]
    exact Memory.readNat_ne_heapMagic (linkOfWord_regular prev)

namespace Parcel
variable {p : Parcel}

theorem regular_header {prev next : Option Nat} (whole : p.size % Config.heapAlignment = 0)
    (forward : ∀ off, next = some off → off % Config.heapAlignment = 0)
    (backward : ∀ off, prev = some off → off % Config.heapAlignment = 0) : (p.header prev next).Regular := by
  unfold header
  split
  · exact ⟨whole, by simp, by simp⟩
  · exact ⟨whole, by simp [Header.free], by simp [Header.free]⟩
  · exact ⟨whole, forward, backward⟩

end Parcel

namespace Arena
open Parcel
variable {r : Region} {m m' : Memory} {a b c : Arena} {plan plan' : List Parcel} {p : Parcel}

/-- An aligned offset has the mark of a header only if a parcel starts there. -/
def GenuineAt (r : Region) (m : Memory) (plan : List Parcel) (off : Nat) : Prop :=
  off % Config.heapAlignment = 0 → off < r.size → m.readNat (r.start + off) 4 = Config.heapMagic →
    off ∈ plan.map Parcel.off

/-- No aligned offset has the mark of a header but where a parcel starts. -/
def Genuine (r : Region) (m : Memory) (plan : List Parcel) : Prop := ∀ off, GenuineAt r m plan off

/-- From `a` to `b` no mark was left where no parcel starts any more. -/
def StaysGenuine (r : Region) (plan plan' : List Parcel) (a b : Arena) : Prop :=
  ∀ off, GenuineAt r a.memory plan off → GenuineAt r b.memory plan' off

theorem StaysGenuine.refl : StaysGenuine r plan plan a a := fun _ => id

theorem StaysGenuine.trans {plan'' : List Parcel} (first : StaysGenuine r plan plan' a b)
    (second : StaysGenuine r plan' plan'' b c) : StaysGenuine r plan plan'' a c :=
  fun off genuine => second off (first off genuine)

theorem StaysGenuine.genuine (stays : StaysGenuine r plan plan' a b) (genuine : Genuine r a.memory plan) :
    Genuine r b.memory plan' :=
  fun off => stays off (genuine off)

theorem Shows.regular (shows : a.Shows r plan) {off : Nat} (member : off ∈ plan.map Parcel.off) :
    (Header.read a.memory (r.start + off)).Regular := by
  obtain ⟨p, inPlan, rfl⟩ := List.mem_map.mp member
  obtain ⟨left, right, rfl⟩ := List.append_of_mem inPlan
  have whole := (spans_around.mp shows.spans).2.1
  rw [(recorded_around.mp shows.recorded).2.1]
  refine regular_header whole ?_ ?_
  · intro off link
    obtain ⟨q, inRight, -, rfl⟩ := exists_of_firstLink link
    exact (shows.spans.aligned rfl (by simp [inRight])).1
  · intro off link
    obtain ⟨q, inLeft, -, rfl⟩ := exists_of_lastLink link
    exact (shows.spans.aligned rfl (by simp [inLeft])).1

/-- Marks stay genuine where headers of parcels were written, and every other header that was written has
lost its mark. -/
theorem Rewrote.staysGenuine {zone : List Nat} (rewrote : Rewrote r zone a b)
    (shows : b.Shows r plan') (starts : ∀ off ∈ plan.map Parcel.off, off ∈ zone ∨ off ∈ plan'.map Parcel.off)
    (wiped : ∀ off ∈ zone, off ∉ plan'.map Parcel.off → off % Config.heapAlignment = 0 ∧
      (Header.read b.memory (r.start + off)).magic = 0 ∧ (Header.read b.memory (r.start + off)).Regular) :
    StaysGenuine r plan plan' a b := by
  have zoned : ∀ z ∈ zone, z % Config.heapAlignment = 0 ∧ (Header.read b.memory (r.start + z)).Regular := by
    intro z inZone
    by_cases member : z ∈ plan'.map Parcel.off
    · obtain ⟨p, inPlan, rfl⟩ := List.mem_map.mp member
      exact ⟨(shows.spans.aligned rfl inPlan).1, shows.regular member⟩
    · obtain ⟨multiple, -, regular⟩ := wiped z inZone member
      exact ⟨multiple, regular⟩
  intro off genuine aligned within mark
  have start := r.start_aligned
  by_cases written : ∃ z ∈ zone, z ≤ off ∧ off < z + Header.width
  · obtain ⟨z, inZone, lower, upper⟩ := written
    obtain ⟨multiple, regular⟩ := zoned z inZone
    simp only [Config.heapAlignment] at aligned start multiple
    by_cases first : off = z
    · subst first
      by_contra other
      exact absurd (mark.symm.trans (wiped off inZone other).2.1) (by decide)
    · have quiet := regular.unmarked (by simp only [Config.heapAlignment]; omega)
      refine absurd mark (quiet (r.start + off) (by omega) (by omega) ?_)
      simp only [Config.heapAlignment]
      omega
  · have apart : ∀ z ∈ zone, off + 4 ≤ z ∨ z + Header.width ≤ off := by
      intro z inZone
      have multiple := (zoned z inZone).1
      have outside : ¬(z ≤ off ∧ off < z + Header.width) := fun inside => written ⟨z, inZone, inside⟩
      simp only [Config.heapAlignment] at aligned multiple
      omega
    have same : b.memory.readNat (r.start + off) 4 = a.memory.readNat (r.start + off) 4 :=
      Memory.readNat_congr fun addr lower upper => rewrote.byte addr fun z inZone => by
        have := apart z inZone
        omega
    rcases starts off (genuine aligned within (same ▸ mark)) with inZone | stays
    · have := apart off inZone
      simp only [Header.width] at this
      omega
    · exact stays

theorem Rewrote.staysGenuine_of_starts {zone : List Nat} (rewrote : Rewrote r zone a b)
    (shows : b.Shows r plan') (starts : plan.map Parcel.off ⊆ plan'.map Parcel.off)
    (subset : zone ⊆ plan'.map Parcel.off) : StaysGenuine r plan plan' a b :=
  rewrote.staysGenuine shows (fun _ member => Or.inr (starts member)) fun _ inZone other =>
    absurd (subset inZone) other

end Arena
end KernelCore
