import KernelCore.Proofs.Heap.Trades
import KernelCore.Word.RoundingLemmas

namespace KernelCore.Arena
open Machine Parcel
variable {a b : Arena} {r : Region} {m m' : Memory} {plan : List Parcel} {p : Parcel}
  {ptr size align : Nat}

/-- The word in front of an address, which leads back to a block if the address was given with an alignment. -/
def backLink (a : Arena) (ptr : Nat) : Nat := a.memory.readNat (ptr - backLinkWidth) 8

/-- The `size` bytes from `ptr` on lie in the payload of a parcel, and the word below names that
parcel. -/
structure LeadsBack (r : Region) (m : Memory) (p : Parcel) (ptr size : Nat) : Prop where
  above : r.payload p.off + backLinkWidth ≤ ptr
  below : ptr + size ≤ r.payload p.off + p.size
  word : m.readNat (ptr - backLinkWidth) 8 = r.payload p.off

/-- The word stays as long as the bytes of its parcel below the address do. -/
theorem LeadsBack.congr (leads : LeadsBack r m p ptr size)
    (same : ∀ addr, p.Holds r addr → addr < ptr → m'.byte addr = m.byte addr) :
    LeadsBack r m' p ptr size := by
  obtain ⟨above, below, word⟩ := leads
  have wide : backLinkWidth = 8 := rfl
  refine ⟨above, below, (Memory.readNat_congr ?_).trans word⟩
  intro addr lower upper
  exact same addr ⟨by omega, by omega⟩ (by omega)

theorem Granted.payload_lt {size : Nat} (granted : Granted r plan size a p plan' b) :
    r.payload p.off + p.size < wordLimit := by
  have region := r.fits
  have within := (granted.sound.shows.spans.bounds (mem_takens.mp granted.mem).1).2
  unfold Parcel.stop at within
  unfold Region.payload
  omega

/-- The word below an address inside a granted parcel is made to lead back to the parcel. -/
theorem Granted.leadsBack {padded : Nat} (granted : Granted r plan padded a p plan' b)
    (above : r.payload p.off + backLinkWidth ≤ ptr) (below : ptr + size ≤ r.payload p.off + padded) :
    Granted r plan padded a p plan'
        { b with memory := b.memory.writeNat (ptr - backLinkWidth) 8 (r.payload p.off) } ∧
      LeadsBack r (b.memory.writeNat (ptr - backLinkWidth) 8 (r.payload p.off)) p ptr size := by
  have wide : backLinkWidth = 8 := rfl
  obtain ⟨lower, upper⟩ := granted.covers
  have enough := granted.enough
  have reach := granted.payload_lt
  have room : b.memory.Covers (ptr - backLinkWidth) 8 := ⟨by omega, by omega⟩
  refine ⟨granted.stored ⟨rfl, rfl, ?_, ?_⟩, above, by omega, ?_⟩
  · intro addr n
    dsimp only
    rw [Memory.covers_writeNat]
  · intro addr outside
    unfold Holds at outside
    dsimp only
    rw [Memory.byte_writeNat_of_outside _ _ (by omega)]
  · rw [Memory.readNat_writeNat_self _ _ room, Nat.mod_eq_of_lt]
    exact Nat.lt_of_le_of_lt (Nat.le_add_right _ _) reach

/-- A granted parcel has room for an aligned address and the word below it. -/
theorem Granted.exists_aligned (granted : Granted r plan (size + align + backLinkWidth) a p plan' b)
    (single : Word.isPowerOfTwo align = true) :
    Word.add (r.payload p.off) backLinkWidth = .ok (r.payload p.off + backLinkWidth) ∧
      ∃ ptr, Word.alignUp (r.payload p.off + backLinkWidth) align = .ok ptr ∧ ptr % align = 0 ∧
        r.payload p.off + backLinkWidth ≤ ptr ∧ ptr + size ≤ r.payload p.off + (size + align + backLinkWidth) := by
  have enough := granted.enough
  have reach := granted.payload_lt
  obtain ⟨ptr, raised, multiple, up, near⟩ : ∃ ptr, Word.alignUp (r.payload p.off + backLinkWidth) align = .ok ptr ∧
      ptr % align = 0 ∧ r.payload p.off + backLinkWidth ≤ ptr ∧ ptr < r.payload p.off + backLinkWidth + align :=
    Word.exists_alignUp single (by omega)
  exact ⟨Word.add_of_lt (by omega), ptr, raised, multiple, up, by omega⟩

/-- Once a parcel is granted, an aligned address in it is found, and the word below it is made to lead back. -/
theorem Granted.meets_align (granted : Granted r plan (size + align + backLinkWidth) a p plan' b)
    (single : Word.isPowerOfTwo align = true) :
    (do
      let least ← Word.add (r.payload p.off) backLinkWidth
      let aligned ← Word.alignUp least align
      Arena.onMemory fun m => m.writeNat (aligned - backLinkWidth) 8 (r.payload p.off)
      pure aligned : HeapAction Nat).run.Meets b (fun result c => ∃ ptr, result = .ok ptr ∧ ptr % align = 0 ∧
        Granted r plan (size + align + backLinkWidth) a p plan' c ∧ LeadsBack r c.memory p ptr size)
      fun _ => False := by
  obtain ⟨least, ptr, raised, multiple, up, below⟩ := granted.exists_aligned single
  obtain ⟨still, leads⟩ := granted.leadsBack up below
  rw [least, meets_run_bind_ok, raised, meets_run_bind_ok, meets_run_bind_of_attempt (attempt_onMemory ..),
    meets_run_pure]
  dsimp only
  exact ⟨ptr, rfl, multiple, still, leads⟩

/-- An allocation with an alignment is refused, and then nothing has changed, or it gives an address with
this alignment in a fresh parcel. -/
theorem meets_allocateAligned (sound : a.Sound r plan) (size align : Nat) :
    (allocateAligned size align).run.Meets a (fun result b =>
      match result with
      | .error _ => b = a
      | .ok ptr => 0 < size ∧ ptr % align = 0 ∧ ∃ x plan',
        Granted r plan (size + align + backLinkWidth) a x plan' b ∧ LeadsBack r b.memory x ptr size)
      fun _ => wordLimit ≤ r.size + Config.heapMinPayload := by
  unfold allocateAligned
  by_cases single : Word.isPowerOfTwo align = true
  swap
  · rw [if_pos (by simpa using single)]
    rfl
  rw [if_neg (by simp [single])]
  by_cases zero : size = 0
  · rw [if_pos zero]
    rfl
  rw [if_neg zero]
  by_cases large : wordLimit ≤ size + align + backLinkWidth
  · rw [if_pos large]
    rfl
  rw [if_neg large]
  dsimp only
  refine (meets_grant sound _).run_bind ?_ fun _ _ => id
  rintro _ b ⟨x, plan', rfl, granted⟩
  refine (granted.meets_align single).excused.mono ?_ fun _ => id
  rintro _ c ⟨ptr, rfl, multiple, still, leads⟩
  exact ⟨Nat.pos_of_ne_zero zero, multiple, x, plan', still, leads⟩

/-- Where the word in front of an address can be read, the release of the address is that of the word. -/
theorem attempt_releaseAligned_eq (region : a.heap.region = some r) (nonzero : ptr ≠ 0) :
    attempt (releaseAligned ptr) a =
      if r.start + Header.width + backLinkWidth ≤ ptr ∧ ptr < r.stop then attempt (release (a.backLink ptr)) a
      else (.ok (.error .outOfRange), { a with notices := a.notices.push (.invalidAlignedFree ptr) }) := by
  have inside : (a.heap.contains ptr = true ∧ a.heap.extent.1 + Header.width + backLinkWidth ≤ ptr) ↔
      r.start + Header.width + backLinkWidth ≤ ptr ∧ ptr < r.stop := by
    simp only [Heap.contains, Heap.extent, region, decide_eq_true_eq]
    unfold Region.Contains
    omega
  unfold releaseAligned
  rw [if_pos nonzero, attempt_bind, attempt_get]
  dsimp only
  by_cases reads : r.start + Header.width + backLinkWidth ≤ ptr ∧ ptr < r.stop
  · rw [if_pos (inside.mpr reads), if_pos reads, backLink]
  · rw [if_neg fun reads' => reads (inside.mp reads'), if_neg reads]
    rfl

/-- An address with an alignment is given back by the word below it. -/
theorem attempt_releaseAligned (region : a.heap.region = some r) (within : p.stop ≤ r.size)
    (leads : LeadsBack r a.memory p ptr size) (positive : 0 < size) :
    attempt (releaseAligned ptr) a = attempt (release (r.payload p.off)) a := by
  obtain ⟨above, below, word⟩ := leads
  have inside : r.start + Header.width + backLinkWidth ≤ ptr ∧ ptr < r.stop := by
    unfold Region.payload at above below
    unfold Parcel.stop at within
    unfold Region.stop
    omega
  rw [attempt_releaseAligned_eq region (by have := r.start_pos; omega), if_pos inside, backLink, word]

theorem meets_releaseAligned {kept : List Parcel} (sound : a.Sound r plan)
    (before : (takens plan).Perm (p :: kept)) (leads : LeadsBack r a.memory p ptr size) (positive : 0 < size) :
    (releaseAligned ptr).run.Meets a (fun result b => result = .ok () ∧
      ∃ plan', b.Sound r plan' ∧ Trade r plan plan' [p] [] kept a b) fun _ => False := by
  obtain ⟨member, -⟩ := mem_takens.mp (before.mem_iff.mpr (List.mem_cons_self ..))
  have nonempty : 0 < p.size := by
    have := leads.above
    have := leads.below
    omega
  have within := (sound.shows.spans.bounds member).2
  rw [meets_run_congr (attempt_releaseAligned sound.shows.region within leads positive)]
  exact meets_giveBack sound before (sound.shows.room member nonempty)

end KernelCore.Arena
