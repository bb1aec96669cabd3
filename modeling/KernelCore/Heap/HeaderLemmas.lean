import KernelCore.Heap.Header
import KernelCore.Memory.Lemmas

namespace KernelCore

theorem linkOfWord_linkWord {link : Option Nat} (fits : ∀ off, link = some off → off < wordLimit - 1) :
    linkOfWord (linkWord link) = link := by
  cases link with
  | none => simp [linkWord, linkOfWord]
  | some off => simp [linkWord, linkOfWord, Nat.ne_of_lt (fits off rfl)]

theorem linkWord_linkOfWord (word : Nat) : linkWord (linkOfWord word) = word := by
  unfold linkOfWord
  split
  · simp [linkWord, *]
  · rfl

theorem linkWord_lt {link : Option Nat} (fits : ∀ off, link = some off → off < wordLimit - 1) :
    linkWord link < wordLimit := by
  cases link with
  | none => decide
  | some off => exact Nat.lt_of_lt_of_le (fits off rfl) (by decide)

namespace Header

/-- Each field can be stored in its place. -/
structure Fits (h : Header) : Prop where
  magic : h.magic < 2 ^ 32
  tag : h.tag < 2 ^ 32
  size : h.size < wordLimit
  next : ∀ off, h.next = some off → off < wordLimit - 1
  prev : ∀ off, h.prev = some off → off < wordLimit - 1

theorem linkOfWord_lt {word off : Nat} (isWord : word < wordLimit) (link : linkOfWord word = some off) :
    off < wordLimit - 1 := by
  unfold linkOfWord at link
  split at link
  · simp at link
  · rename_i other
    obtain rfl := Option.some.inj link
    omega

theorem readNat_four_lt (m : Memory) (addr : Nat) : m.readNat addr 4 < 2 ^ 32 :=
  Nat.lt_of_lt_of_le (m.readNat_lt addr 4) (by decide)

theorem readNat_eight_lt (m : Memory) (addr : Nat) : m.readNat addr 8 < wordLimit :=
  Nat.lt_of_lt_of_le (m.readNat_lt addr 8) (by decide)

/-- What is read from memory can be stored there. -/
theorem fits_read (m : Memory) (addr : Nat) : (read m addr).Fits := by
  unfold read
  refine ⟨readNat_four_lt m addr, readNat_four_lt m (addr + 4), readNat_eight_lt m (addr + 8), ?_, ?_⟩
  · intro off link
    dsimp only at link
    exact linkOfWord_lt (readNat_eight_lt m (addr + 16)) link
  · intro off link
    dsimp only at link
    exact linkOfWord_lt (readNat_eight_lt m (addr + 24)) link

theorem fits_free {size : Nat} (word : size < wordLimit) : (free size).Fits where
  magic := show Config.heapMagic < 2 ^ 32 by decide
  tag := show 1 < 2 ^ 32 by decide
  size := word
  next _ link := by simp [free] at link
  prev _ link := by simp [free] at link

@[simp] theorem covers_write (h : Header) (m : Memory) (addr a n : Nat) :
    (h.write m addr).Covers a n ↔ m.Covers a n := by
  simp [write]

theorem byte_write_of_outside {addr a : Nat} (h : Header) (m : Memory)
    (outside : a < addr ∨ addr + width ≤ a) : (h.write m addr).byte a = m.byte a := by
  unfold width at outside
  unfold write
  rw [Memory.byte_writeNat_of_outside _ _ (by omega), Memory.byte_writeNat_of_outside _ _ (by omega),
    Memory.byte_writeNat_of_outside _ _ (by omega), Memory.byte_writeNat_of_outside _ _ (by omega),
    Memory.byte_writeNat_of_outside _ _ (by omega)]

/-- A header depends on the bytes of its place alone. -/
theorem read_congr {m m' : Memory} {addr : Nat}
    (same : ∀ a, addr ≤ a → a < addr + width → m'.byte a = m.byte a) : read m' addr = read m addr := by
  unfold width at same
  have part (a n : Nat) (above : addr ≤ a) (below : a + n ≤ addr + 32) :
      m'.readNat a n = m.readNat a n :=
    Memory.readNat_congr fun b _ _ => same b (by omega) (by omega)
  unfold read
  rw [part addr 4 (by omega) (by omega), part (addr + 4) 4 (by omega) (by omega),
    part (addr + 8) 8 (by omega) (by omega), part (addr + 16) 8 (by omega) (by omega),
    part (addr + 24) 8 (by omega) (by omega)]

/-- A header reads as it was written. -/
theorem read_write_self {h : Header} {m : Memory} {addr : Nat} (fits : h.Fits)
    (covered : m.Covers addr width) : read (h.write m addr) addr = h := by
  have lower := covered.1
  have upper : addr + 32 ≤ m.base + m.bytes.size := covered.2
  have covers (a n : Nat) (above : addr ≤ a) (below : a + n ≤ addr + 32) : m.Covers a n :=
    ⟨by omega, by omega⟩
  have magic : (h.write m addr).readNat addr 4 = h.magic := by
    unfold write
    rw [Memory.readNat_writeNat_of_disjoint _ _ (by omega),
      Memory.readNat_writeNat_of_disjoint _ _ (by omega),
      Memory.readNat_writeNat_of_disjoint _ _ (by omega),
      Memory.readNat_writeNat_of_disjoint _ _ (by omega),
      Memory.readNat_writeNat_self _ _ (covers _ _ (by omega) (by omega)),
      Nat.mod_eq_of_lt (Nat.lt_of_lt_of_le fits.magic (by decide))]
  have tag : (h.write m addr).readNat (addr + 4) 4 = h.tag := by
    unfold write
    rw [Memory.readNat_writeNat_of_disjoint _ _ (by omega),
      Memory.readNat_writeNat_of_disjoint _ _ (by omega),
      Memory.readNat_writeNat_of_disjoint _ _ (by omega),
      Memory.readNat_writeNat_self _ _ (by simpa using covers _ _ (by omega) (by omega)),
      Nat.mod_eq_of_lt (Nat.lt_of_lt_of_le fits.tag (by decide))]
  have size : (h.write m addr).readNat (addr + 8) 8 = h.size := by
    unfold write
    rw [Memory.readNat_writeNat_of_disjoint _ _ (by omega),
      Memory.readNat_writeNat_of_disjoint _ _ (by omega),
      Memory.readNat_writeNat_self _ _ (by simpa using covers _ _ (by omega) (by omega)),
      Nat.mod_eq_of_lt (Nat.lt_of_lt_of_le fits.size (by decide))]
  have next : (h.write m addr).readNat (addr + 16) 8 = linkWord h.next := by
    unfold write
    rw [Memory.readNat_writeNat_of_disjoint _ _ (by omega),
      Memory.readNat_writeNat_self _ _ (by simpa using covers _ _ (by omega) (by omega)),
      Nat.mod_eq_of_lt (Nat.lt_of_lt_of_le (linkWord_lt fits.next) (by decide))]
  have prev : (h.write m addr).readNat (addr + 24) 8 = linkWord h.prev := by
    unfold write
    rw [Memory.readNat_writeNat_self _ _ (by simpa using covers _ _ (by omega) (by omega)),
      Nat.mod_eq_of_lt (Nat.lt_of_lt_of_le (linkWord_lt fits.prev) (by decide))]
  unfold read
  rw [magic, tag, size, next, prev, linkOfWord_linkWord fits.next, linkOfWord_linkWord fits.prev]

end Header
end KernelCore
