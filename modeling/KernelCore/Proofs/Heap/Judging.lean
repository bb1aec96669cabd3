import KernelCore.Proofs.Heap.Operations

namespace KernelCore

/-- Whether an offset lies in a listed parcel, but not at its start. -/
def Parcel.Buries (p : Parcel) (x : Nat) : Bool := p.isListed && decide (p.off < x ∧ x < p.stop)

namespace Arena
open Machine Parcel
variable {a : Arena} {r : Region} {m : Memory} {plan : List Parcel} {p : Parcel} {ptr target : Nat}

/-- The walk along the list finds the listed parcel in which an offset is buried. -/
theorem swallows_of_recorded {prev : Option Nat} {start hops : Nat} (target : Nat)
    (recorded : Recorded r m prev plan none) (spans : Spans start plan r.size)
    (aligned : start % Config.heapAlignment = 0) (enough : plan.length ≤ hops) :
    r.swallows m target hops (firstLink plan none) = .ok (plan.any (Buries · target)) := by
  induction plan generalizing prev start hops with
  | nil => cases hops <;> rfl
  | cons p rest ih =>
    obtain ⟨here, later⟩ := recorded
    have holds := holdsHeader_of_spans spans aligned (Nat.le_refl _) (List.mem_cons_self ..)
    have stops := blockEnd_of_le (spans.bounds (List.mem_cons_self ..)).2
    have behind := fun q (member : q ∈ rest) => (spans.2.2.bounds member).1
    have first : Spans start [p] p.stop := ⟨spans.1, spans.2.1, rfl⟩
    have alignedStop := first.stop_aligned aligned
    rw [List.length_cons] at enough
    obtain ⟨hops, rfl⟩ : ∃ k, hops = k + 1 := ⟨hops - 1, by omega⟩
    by_cases listed : p.isListed = true
    swap
    · have unlisted : p.isListed = false := by simpa using listed
      rw [link_of_unlisted unlisted] at later
      rw [firstLink_cons, link_of_unlisted unlisted, List.any_cons, Buries, unlisted, Bool.false_and,
        Bool.false_or]
      exact ih later spans.2.2 alignedStop (by omega)
    -- Parcels further on start behind this one, so none of them buries an offset before its end.
    have none_buries (early : target < p.stop) : rest.any (Buries · target) = false := by
      refine List.any_eq_false.mpr ?_
      intro q member
      have := behind q member
      simp only [Buries, Bool.and_eq_true, decide_eq_true_eq, not_and]
      omega
    rw [header_of_listed (isListed_iff.mp listed)] at here
    rw [firstLink_cons, link_of_listed listed, Region.swallows, List.any_cons, Buries, listed, Bool.true_and]
    by_cases reached : p.off ≤ target
    · rw [if_pos ⟨reached, holds⟩, here]
      simp only [Header.isIntact, BEq.rfl, if_true]
      rw [stops]
      by_cases early : target < p.stop
      · simp [bind, Except.bind, early, none_buries early]
      · simp only [bind, Except.bind, early, if_false, and_false, decide_false, Bool.false_or]
        rw [link_of_listed listed] at later
        exact ih later spans.2.2 alignedStop (by omega)
    · have early : target < p.stop := by unfold Parcel.stop; omega
      rw [if_neg (by omega), none_buries early]
      simp [Nat.le_of_not_le reached]

/-- An address that can be no payload: not in the region, not behind a header, or not aligned. -/
def Outlying (r : Region) (ptr : Nat) : Prop :=
  ptr < r.start + Header.width ∨ r.stop ≤ ptr ∨ (ptr - r.start - Header.width) % Config.heapAlignment ≠ 0

theorem payload_of_near (near : ¬Outlying r ptr) : ptr = r.payload (ptr - r.start - Header.width) ∧
    (ptr - r.start - Header.width) % Config.heapAlignment = 0 ∧
    ptr - r.start - Header.width + Header.width < r.size := by
  simp only [Outlying, not_or, Nat.not_lt, Nat.not_le, Decidable.not_not] at near
  obtain ⟨above, below, aligned⟩ := near
  simp only [Region.stop, Region.payload] at below ⊢
  omega

/-- What an offset of a parcel is judged to be. -/
def standing (target : Nat) (p : Parcel) : Standing :=
  if p.isListed then .free else if p.off = target then .live target (p.header none none) else .stray .corrupted

theorem judge_of_outlying (outlying : Outlying r ptr) :
    (judge r ptr).runFrom a = (.ok (.stray .outOfRange), a) := by
  have block : r.blockOf a.memory ptr = .error .outOfRange := by
    unfold Region.blockOf
    by_cases outside : ptr < r.start + Header.width ∨ r.stop ≤ ptr
    · rw [if_pos outside]
    · rw [if_neg outside]
      have crooked : ¬r.HoldsHeader (ptr - r.start - Header.width) := by
        intro holds
        unfold Outlying at outlying
        have := holds.1
        tauto
      dsimp only
      rw [if_neg crooked]
  unfold judge
  rw [runFrom_bind, runFrom_get]
  simp only [block, runFrom_pure]

theorem payload_sub (r : Region) (target : Nat) : r.payload target - r.start - Header.width = target := by
  unfold Region.payload
  omega

/-- In the region, the mark of the header decides which block an address names. -/
theorem blockOf_payload (aligned : target % Config.heapAlignment = 0) (room : target + Header.width < r.size) :
    r.blockOf m (r.payload target) =
      if (Header.read m (r.start + target)).isIntact then .ok target else .error .corrupted := by
  have inside : ¬(r.payload target < r.start + Header.width ∨ r.stop ≤ r.payload target) := by
    simp only [Region.payload, Region.stop]
    omega
  have holds : r.HoldsHeader target := ⟨aligned, Nat.le_of_lt room⟩
  unfold Region.blockOf
  rw [if_neg inside]
  simp only [payload_sub, holds, if_true]

/-- Behind a damaged header, the walk along the list tells the inside of a free block from a stray address. -/
theorem judge_of_damaged (aligned : target % Config.heapAlignment = 0) (room : target + Header.width < r.size)
    (damaged : (Header.read a.memory (r.start + target)).isIntact = false) :
    (judge r (r.payload target)).runFrom a =
      ((r.swallows a.memory target (r.size / Header.width) a.heap.first).map
        fun joined => if joined then .free else .stray .corrupted, a) := by
  have block := blockOf_payload (m := a.memory) aligned room
  rw [damaged, if_neg Bool.false_ne_true] at block
  unfold judge
  rw [runFrom_bind, runFrom_get]
  simp only [block]
  rw [runFrom_bind, payload_sub, runFrom_lift]
  rcases r.swallows a.memory target (r.size / Header.width) a.heap.first with fault | joined
  · rfl
  · cases joined <;> rfl

/-- Behind an intact header, the tag tells a free block from an allocated one. -/
theorem judge_of_intact (aligned : target % Config.heapAlignment = 0) (room : target + Header.width < r.size)
    (intact : (Header.read a.memory (r.start + target)).isIntact = true) :
    (judge r (r.payload target)).runFrom a =
      (.ok (if (Header.read a.memory (r.start + target)).isFree then .free
        else .live target (Header.read a.memory (r.start + target))), a) := by
  have block := blockOf_payload (m := a.memory) aligned room
  rw [intact, if_pos rfl] at block
  have holds : r.HoldsHeader target := ⟨aligned, Nat.le_of_lt room⟩
  unfold judge
  rw [runFrom_bind, runFrom_get]
  simp only [block]
  rw [runFrom_bind, runFrom_header, Region.header_of_holds _ holds]
  rfl

theorem judge_of_start (shows : a.Shows r plan) (tight : ∀ p ∈ plan, p.tenure ≠ .loose) (member : p ∈ plan)
    (room : p.off + Header.width < r.size) :
    (judge r (r.payload p.off)).runFrom a = (.ok (standing p.off p), a) := by
  have holds := shows.holdsHeader member
  obtain ⟨prev, next, here⟩ := shows.recorded.of_mem member
  rw [judge_of_intact holds.1 room (by rw [here, header_isIntact]), here]
  simp only [header_isFree, not_isTaken (tight p member), standing, if_true]
  by_cases listed : p.isListed = true
  · rw [if_pos listed, if_pos listed]
  · have unlisted : p.isListed = false := by simpa using listed
    rw [if_neg listed, if_neg listed, header_of_unlisted unlisted prev next none none]

theorem GenuineAt.unmarked (genuine : GenuineAt r m plan target) (spans : Spans 0 plan r.size) (member : p ∈ plan)
    (aligned : target % Config.heapAlignment = 0) (inside : p.off < target ∧ target < p.stop) :
    m.readNat (r.start + target) 4 ≠ Config.heapMagic := by
  intro mark
  have within := (spans.bounds member).2
  obtain ⟨q, inPlan, rfl⟩ := List.mem_map.mp (genuine aligned (by omega) mark)
  have shared : q.off ≤ q.off ∧ q.off < q.stop := by
    simp only [Parcel.stop, Header.width]
    omega
  have same := spans.eq_of_shared member inPlan ⟨Nat.le_of_lt inside.1, inside.2⟩ shared
  rw [same] at inside
  omega

theorem judge_of_buried (shows : a.Shows r plan) (genuine : GenuineAt r a.memory plan target) (member : p ∈ plan)
    (aligned : target % Config.heapAlignment = 0) (room : target + Header.width < r.size)
    (inside : p.off < target ∧ target < p.stop) :
    (judge r (r.payload target)).runFrom a = (.ok (standing target p), a) := by
  have unmarked := genuine.unmarked shows.spans member aligned inside
  have enough : plan.length ≤ r.size / Header.width := by
    have := shows.spans.length_le
    simp only [Header.width] at this ⊢
    omega
  have walk := swallows_of_recorded target shows.recorded shows.spans rfl enough
  have buried : plan.any (Buries · target) = p.isListed := by
    rw [Bool.eq_iff_iff, List.any_eq_true]
    constructor
    · rintro ⟨q, inPlan, buries⟩
      simp only [Buries, Bool.and_eq_true, decide_eq_true_eq] at buries
      obtain ⟨listed, lower, upper⟩ := buries
      rw [shows.spans.eq_of_shared member inPlan ⟨Nat.le_of_lt inside.1, inside.2⟩ ⟨Nat.le_of_lt lower, upper⟩]
      exact listed
    · intro listed
      exact ⟨p, member, by simpa [Buries, listed] using inside⟩
  rw [← shows.first, buried] at walk
  rw [judge_of_damaged aligned room (by simpa [Header.isIntact, Header.read] using unmarked), walk, standing,
    if_neg (Nat.ne_of_lt inside.1)]
  rfl

/-- An address in the region is judged by the parcel in which its header would start. -/
theorem judge_of_extent (shows : a.Shows r plan) (tight : ∀ p ∈ plan, p.tenure ≠ .loose)
    (genuine : GenuineAt r a.memory plan target) (member : p ∈ plan) (aligned : target % Config.heapAlignment = 0)
    (room : target + Header.width < r.size) (inside : p.off ≤ target ∧ target < p.stop) :
    (judge r (r.payload target)).runFrom a = (.ok (standing target p), a) := by
  by_cases starts : p.off = target
  · subst starts
    exact judge_of_start shows tight member room
  · exact judge_of_buried shows genuine member aligned room ⟨by omega, inside.2⟩

end Arena
end KernelCore
