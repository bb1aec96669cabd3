import KernelCore.Memory.Basic
import Mathlib.Algebra.Group.Nat.Defs

namespace KernelCore.Memory

theorem covers_zeroed (base size : Nat) : (zeroed base size).Covers base size :=
  ⟨Nat.le_refl _, by simp [zeroed, ByteArray.size]⟩

@[simp] theorem base_setByte (m : Memory) (addr : Nat) (value : UInt8) :
    (m.setByte addr value).base = m.base := by
  unfold setByte
  split <;> rfl

@[simp] theorem size_setByte (m : Memory) (addr : Nat) (value : UInt8) :
    (m.setByte addr value).bytes.size = m.bytes.size := by
  rcases m with ⟨base, ⟨data⟩⟩
  unfold setByte
  split
  · exact Array.size_set ..
  · rfl

@[simp] theorem covers_setByte (m : Memory) (addr : Nat) (value : UInt8) (a size : Nat) :
    (m.setByte addr value).Covers a size ↔ m.Covers a size := by
  simp [Covers]

theorem byte_mk (base a : Nat) (data : Array UInt8) :
    byte ⟨base, ⟨data⟩⟩ a = if _ : base ≤ a ∧ a - base < data.size then data[a - base] else 0 := rfl

theorem byte_setByte (m : Memory) (addr : Nat) (value : UInt8) (a : Nat) :
    (m.setByte addr value).byte a = if a = addr ∧ m.Covers addr 1 then value else m.byte a := by
  rcases m with ⟨base, ⟨data⟩⟩
  unfold setByte Covers
  simp only [ByteArray.size, byte_mk]
  by_cases inside : base ≤ addr ∧ addr - base < data.size
  · have covered : base ≤ addr ∧ addr + 1 ≤ base + data.size := by omega
    simp only [inside, and_self, dif_pos, covered, and_true]
    simp only [ByteArray.set, byte_mk, Array.size_set, Array.getElem_set]
    by_cases same : a = addr
    · subst same; simp [inside]
    · simp only [same, if_false]
      split
      · rename_i within
        rw [if_neg (by omega)]
      · rfl
  · have uncovered : ¬(base ≤ addr ∧ addr + 1 ≤ base + data.size) := by omega
    simp only [dif_neg inside, uncovered, and_false, if_false, byte_mk]

theorem byte_setByte_of_ne {addr a : Nat} (m : Memory) (value : UInt8) (other : a ≠ addr) :
    (m.setByte addr value).byte a = m.byte a := by
  rw [byte_setByte, if_neg (by simp [other])]

theorem byte_setByte_self {addr : Nat} (m : Memory) (value : UInt8) (covered : m.Covers addr 1) :
    (m.setByte addr value).byte addr = value := by
  rw [byte_setByte, if_pos ⟨rfl, covered⟩]

@[simp] theorem covers_writeNat (m : Memory) (addr width value : Nat) (a size : Nat) :
    (m.writeNat addr width value).Covers a size ↔ m.Covers a size := by
  induction width generalizing m addr value with
  | zero => rfl
  | succ width ih => simp [writeNat, ih]

/-- Storing a number changes no byte outside its place. -/
theorem byte_writeNat_of_outside {addr width a : Nat} (m : Memory) (value : Nat)
    (outside : a < addr ∨ addr + width ≤ a) : (m.writeNat addr width value).byte a = m.byte a := by
  induction width generalizing m addr value with
  | zero => rfl
  | succ width ih =>
    rw [writeNat, ih _ _ (by omega), byte_setByte_of_ne _ _ (by omega)]

/-- A number depends on the bytes of its place alone. -/
theorem readNat_congr {m m' : Memory} {addr width : Nat}
    (same : ∀ a, addr ≤ a → a < addr + width → m'.byte a = m.byte a) :
    m'.readNat addr width = m.readNat addr width := by
  induction width generalizing addr with
  | zero => rfl
  | succ width ih =>
    rw [readNat, readNat, same addr (Nat.le_refl _) (by omega),
      ih fun a above below => same a (by omega) (by omega)]

/-- The same bytes at another address are the same number. -/
theorem readNat_of_bytes {m m' : Memory} {addr addr' width : Nat}
    (same : ∀ i, i < width → m'.byte (addr' + i) = m.byte (addr + i)) :
    m'.readNat addr' width = m.readNat addr width := by
  induction width generalizing addr addr' with
  | zero => rfl
  | succ width ih =>
    have rest : m'.readNat (addr' + 1) width = m.readNat (addr + 1) width := ih fun i within => by
      simpa only [Nat.add_assoc, Nat.add_comm 1] using same (i + 1) (by omega)
    have first : m'.byte addr' = m.byte addr := same 0 (by omega)
    rw [readNat, readNat, rest, first]

theorem readNat_lt (m : Memory) (addr width : Nat) : m.readNat addr width < 256 ^ width := by
  induction width generalizing addr with
  | zero => simp [readNat]
  | succ width ih =>
    have low := (m.byte addr).toNat_lt
    have high := ih (addr + 1)
    rw [readNat, Nat.pow_succ]
    omega

/-- The first bytes of a number hold its low end. -/
theorem readNat_mod {width : Nat} (wider : Nat) (m : Memory) (addr : Nat) (shorter : width ≤ wider) :
    m.readNat addr wider % 256 ^ width = m.readNat addr width := by
  induction width generalizing addr wider with
  | zero => simp [readNat, Nat.mod_one]
  | succ width ih =>
    obtain ⟨wider, rfl⟩ : ∃ k, wider = k + 1 := ⟨wider - 1, by omega⟩
    have low := (m.byte addr).toNat_lt
    have high := ih wider (addr + 1) (by omega)
    rw [readNat, readNat, ← high, Nat.pow_succ, Nat.mul_comm (256 ^ width) 256, Nat.mod_mul,
      Nat.add_mul_mod_self_left, Nat.mod_eq_of_lt (by omega : (m.byte addr).toNat < 256),
      Nat.add_mul_div_left _ _ (by decide), Nat.div_eq_of_lt (by omega), Nat.zero_add]

/-- A stored number reads as it was, as far as it fits into its place. -/
theorem readNat_writeNat_self {addr width : Nat} (m : Memory) (value : Nat)
    (covered : m.Covers addr width) :
    (m.writeNat addr width value).readNat addr width = value % 256 ^ width := by
  induction width generalizing m addr value with
  | zero => simp [readNat, Nat.mod_one]
  | succ width ih =>
    have first : m.Covers addr 1 := ⟨covered.1, by have := covered.2; omega⟩
    have rest : (m.setByte addr (UInt8.ofNat value)).Covers (addr + 1) width := by
      rw [covers_setByte]
      exact ⟨by have := covered.1; omega, by have := covered.2; omega⟩
    rw [writeNat, readNat, ih _ _ rest, byte_writeNat_of_outside _ _ (by omega),
      byte_setByte_self _ _ first, UInt8.toNat_ofNat', Nat.pow_succ]
    exact (Nat.mul_comm 256 (256 ^ width) ▸ Nat.mod_mul).symm

theorem readNat_writeNat_of_disjoint {addr width a size : Nat} (m : Memory) (value : Nat)
    (disjoint : a + size ≤ addr ∨ addr + width ≤ a) :
    (m.writeNat addr width value).readNat a size = m.readNat a size :=
  readNat_congr fun _ _ _ => byte_writeNat_of_outside m value (by omega)

@[simp] theorem covers_fill (m : Memory) (addr : Nat) (value : UInt8) (size a n : Nat) :
    (m.fill addr value size).Covers a n ↔ m.Covers a n := by
  induction size generalizing m addr with
  | zero => rfl
  | succ size ih => simp [fill, ih]

theorem byte_fill_of_outside {addr size a : Nat} (m : Memory) (value : UInt8)
    (outside : a < addr ∨ addr + size ≤ a) : (m.fill addr value size).byte a = m.byte a := by
  induction size generalizing m addr with
  | zero => rfl
  | succ size ih => rw [fill, ih _ (by omega), byte_setByte_of_ne _ _ (by omega)]

theorem byte_fill_of_inside {addr size a : Nat} (m : Memory) (value : UInt8)
    (covered : m.Covers addr size) (above : addr ≤ a) (below : a < addr + size) :
    (m.fill addr value size).byte a = value := by
  induction size generalizing m addr with
  | zero => omega
  | succ size ih =>
    have lower := covered.1
    have upper := covered.2
    rw [fill]
    by_cases first : a = addr
    · subst first
      rw [byte_fill_of_outside _ _ (by omega), byte_setByte_self _ _ ⟨lower, by omega⟩]
    · exact ih _ ((covers_setByte ..).mpr ⟨by omega, by omega⟩) (by omega) (by omega)

/-- Unfolded by name, because Lean would compare the memories on both sides byte by byte. -/
theorem writeWords_cons (m : Memory) (addr word : Nat) (rest : List Nat) :
    m.writeWords addr (word :: rest) = (m.writeNat addr 8 word).writeWords (addr + 8) rest := by
  delta writeWords
  with_reducible rfl

@[simp] theorem covers_writeWords (m : Memory) (addr : Nat) (words : List Nat) (a n : Nat) :
    (m.writeWords addr words).Covers a n ↔ m.Covers a n := by
  induction words generalizing m addr with
  | nil => rfl
  | cons word rest ih => rw [writeWords_cons, ih, covers_writeNat]

theorem byte_writeWords_of_outside {addr a : Nat} (m : Memory) (words : List Nat)
    (outside : a < addr ∨ addr + 8 * words.length ≤ a) : (m.writeWords addr words).byte a = m.byte a := by
  induction words generalizing m addr with
  | nil => rfl
  | cons word rest ih =>
    rw [List.length_cons] at outside
    rw [writeWords_cons, ih _ (by omega), byte_writeNat_of_outside _ _ (by omega)]

@[simp] theorem covers_writeBytes (m : Memory) (addr : Nat) (bytes : List UInt8) (a n : Nat) :
    (m.writeBytes addr bytes).Covers a n ↔ m.Covers a n := by
  induction bytes generalizing m addr with
  | nil => rfl
  | cons b rest ih => simp [writeBytes, ih]

theorem byte_writeBytes_of_outside {addr a : Nat} (m : Memory) (bytes : List UInt8)
    (outside : a < addr ∨ addr + bytes.length ≤ a) : (m.writeBytes addr bytes).byte a = m.byte a := by
  induction bytes generalizing m addr with
  | nil => rfl
  | cons b rest ih =>
    rw [List.length_cons] at outside
    rw [writeBytes, ih _ (by omega), byte_setByte_of_ne _ _ (by omega)]

theorem byte_writeBytes_of_inside {addr i : Nat} (m : Memory) (bytes : List UInt8)
    (covered : m.Covers addr bytes.length) (within : i < bytes.length) :
    (m.writeBytes addr bytes).byte (addr + i) = bytes[i] := by
  induction bytes generalizing m addr i with
  | nil => simp at within
  | cons b rest ih =>
    have lower := covered.1
    have upper := covered.2
    rw [List.length_cons] at upper within
    rw [writeBytes]
    cases i with
    | zero =>
      rw [byte_writeBytes_of_outside _ _ (by omega), Nat.add_zero,
        byte_setByte_self _ _ ⟨lower, by omega⟩]
      rfl
    | succ i =>
      have next : (m.setByte addr b).Covers (addr + 1) rest.length :=
        (covers_setByte ..).mpr ⟨by omega, by omega⟩
      rw [show addr + (i + 1) = addr + 1 + i by omega, ih _ next (by omega),
        List.getElem_cons_succ]

@[simp] theorem length_slice (m : Memory) (addr size : Nat) : (m.slice addr size).length = size := by
  simp [slice]

theorem getElem_slice (m : Memory) (addr size i : Nat) (within : i < (m.slice addr size).length) :
    (m.slice addr size)[i] = m.byte (addr + i) := by
  simp [slice]

@[simp] theorem covers_copy (m : Memory) (source target size a n : Nat) :
    (m.copy source target size).Covers a n ↔ m.Covers a n := by
  simp [copy]

theorem byte_copy_of_outside {target size a : Nat} (m : Memory) (source : Nat)
    (outside : a < target ∨ target + size ≤ a) : (m.copy source target size).byte a = m.byte a :=
  byte_writeBytes_of_outside m _ (by simpa using outside)

/-- A copy has the bytes that its source had before. -/
theorem byte_copy_of_inside {target size i : Nat} (m : Memory) (source : Nat)
    (covered : m.Covers target size) (within : i < size) :
    (m.copy source target size).byte (target + i) = m.byte (source + i) := by
  have inside : i < (m.slice source size).length := by simpa using within
  rw [copy, byte_writeBytes_of_inside m _ (by simpa using covered) inside, getElem_slice]

end KernelCore.Memory
