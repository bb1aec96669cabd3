import KernelCore.Heap.Audit
import KernelCore.Proofs.Heap.Joining

namespace KernelCore

namespace Parcel
variable {left right plan : List Parcel} {p q : Parcel} {need : Nat}

/-- Every parcel is taken or listed, and no two neighbours are listed. -/
structure Settled (plan : List Parcel) : Prop where
  tight : ∀ p ∈ plan, p.tenure ≠ .loose
  separated : Separated plan

/-- The taken parcels. -/
def takens (plan : List Parcel) : List Parcel := plan.filter isTaken

@[simp] theorem takens_append (left right : List Parcel) : takens (left ++ right) = takens left ++ takens right :=
  List.filter_append ..

theorem takens_cons_of_taken (taken : p.tenure = .taken) (plan : List Parcel) :
    takens (p :: plan) = p :: takens plan :=
  List.filter_cons_of_pos (isTaken_iff.mpr taken)

theorem takens_cons_of_listed (listed : p.tenure = .listed) (plan : List Parcel) :
    takens (p :: plan) = takens plan :=
  List.filter_cons_of_neg (by simp [not_isTaken_of_listed listed])

theorem mem_takens : p ∈ takens plan ↔ p ∈ plan ∧ p.tenure = .taken := by
  rw [takens, List.mem_filter, isTaken_iff]

theorem settled_append : Settled (left ++ right) ↔ Settled left ∧ Settled right ∧
    ∀ p ∈ left.getLast?, ∀ q ∈ right.head?, p.isListed = false ∨ q.isListed = false := by
  constructor
  · rintro ⟨tight, separated⟩
    obtain ⟨apartLeft, apartRight, ends⟩ := List.isChain_append.mp separated
    exact ⟨⟨fun p member => tight p (List.mem_append_left _ member), apartLeft⟩,
      ⟨fun p member => tight p (List.mem_append_right _ member), apartRight⟩, ends⟩
  · rintro ⟨⟨tightLeft, apartLeft⟩, ⟨tightRight, apartRight⟩, ends⟩
    refine ⟨?_, List.isChain_append.mpr ⟨apartLeft, apartRight, ends⟩⟩
    intro p member
    rcases List.mem_append.mp member with inLeft | inRight
    · exact tightLeft p inLeft
    · exact tightRight p inRight

theorem settled_cons : Settled (p :: right) ↔ p.tenure ≠ .loose ∧ Settled right ∧
    ∀ q ∈ right.head?, p.isListed = false ∨ q.isListed = false := by
  constructor
  · rintro ⟨tight, separated⟩
    obtain ⟨ends, apart⟩ := List.isChain_cons.mp separated
    exact ⟨tight p (List.mem_cons_self ..), ⟨fun q member => tight q (List.mem_cons_of_mem _ member), apart⟩, ends⟩
  · rintro ⟨firm, ⟨tight, apart⟩, ends⟩
    exact ⟨List.forall_mem_cons.mpr ⟨firm, tight⟩, List.isChain_cons.mpr ⟨ends, apart⟩⟩

/-- A taken parcel separates what is on its sides. -/
theorem settled_around_taken (taken : p.tenure = .taken) :
    Settled (left ++ p :: right) ↔ Settled left ∧ Settled right := by
  simp [settled_append, settled_cons, taken, isListed]

/-- A listed parcel has no listed neighbours. -/
theorem settled_around_listed (listed : p.tenure = .listed) :
    Settled (left ++ p :: right) ↔ Settled left ∧ Settled right ∧
      (∀ q ∈ left.getLast?, q.isListed = false) ∧ ∀ q ∈ right.head?, q.isListed = false := by
  simp only [settled_append, settled_cons, List.head?_cons, Option.mem_some_iff, forall_eq',
    isListed_iff.mpr listed, Bool.true_eq_false, false_or, or_false, listed]
  tauto

/-- Once a listed parcel has taken in the one behind it, no listed one follows. -/
theorem settled_absorbed (settled : Settled right) :
    Settled (absorbed right) ∧ ∀ q ∈ (absorbed right).head?, q.isListed = false := by
  cases right with
  | nil => exact ⟨settled, by simp [absorbed]⟩
  | cons q rest =>
    obtain ⟨firm, behind, ends⟩ := settled_cons.mp settled
    by_cases listed : q.isListed = true
    · simp only [absorbed, if_pos listed]
      exact ⟨behind, fun s first => (ends s first).resolve_left (by simp [listed])⟩
    · simp only [absorbed, if_neg listed]
      exact ⟨settled, by simpa using listed⟩

theorem takens_absorbed (right : List Parcel) : takens (absorbed right) = takens right := by
  cases right with
  | nil => rfl
  | cons q rest =>
    simp only [absorbed]
    split
    · exact (takens_cons_of_listed (isListed_iff.mp ‹_›) rest).symm
    · rfl

theorem settled_joinedInFront (settledLeft : Settled left) (settledRight : Settled right)
    (listed : p.tenure = .listed) (apart : ∀ q ∈ right.head?, q.isListed = false) :
    Settled (joinedInFront left p right) := by
  rcases List.eq_nil_or_concat left with rfl | ⟨front, q, rfl⟩
  · show Settled ([] ++ p :: right)
    exact (settled_around_listed listed).mpr ⟨settledLeft, settledRight, by simp, apart⟩
  · rw [List.concat_eq_append] at *
    obtain ⟨settledFront, -, ends⟩ := settled_append.mp settledLeft
    rw [joinedInFront_concat]
    split
    · rename_i listedQ
      have before : ∀ s ∈ front.getLast?, s.isListed = false := fun s last =>
        (ends s last q rfl).resolve_right (by simp [listedQ])
      exact (settled_around_listed (p := q.extend p) (isListed_iff.mp listedQ)).mpr
        ⟨settledFront, settledRight, before, apart⟩
    · rename_i unlistedQ
      have joined := (settled_around_listed listed).mpr
        ⟨settledLeft, settledRight, by simpa using unlistedQ, apart⟩
      simpa using joined

theorem takens_joinedInFront (left right : List Parcel) (listed : p.tenure = .listed) :
    takens (joinedInFront left p right) = takens left ++ takens right := by
  rcases List.eq_nil_or_concat left with rfl | ⟨front, q, rfl⟩
  · exact takens_cons_of_listed listed right
  · rw [List.concat_eq_append, joinedInFront_concat]
    split
    · rename_i listedQ
      have none : takens [q] = [] := takens_cons_of_listed (isListed_iff.mp listedQ) []
      rw [takens_append, takens_cons_of_listed (p := q.extend p) (isListed_iff.mp listedQ), takens_append, none,
        List.append_nil]
    · have split : front ++ q :: p :: right = (front ++ [q]) ++ p :: right := by simp
      rw [split, takens_append, takens_cons_of_listed listed]

theorem settled_joined (settledLeft : Settled left) (settledRight : Settled right)
    (listed : p.tenure = .listed) : Settled (joined left p right) := by
  obtain ⟨settled, apart⟩ := settled_absorbed settledRight
  exact settled_joinedInFront settledLeft settled (by simpa using listed) apart

theorem takens_joined (left right : List Parcel) (listed : p.tenure = .listed) :
    takens (joined left p right) = takens left ++ takens right := by
  rw [joined, takens_joinedInFront _ _ (by simpa using listed), takens_absorbed]

theorem settled_cutOff (settled : Settled right) : Settled (p.cutOff need right) := by
  unfold cutOff
  split
  · obtain ⟨behind, apart⟩ := settled_absorbed settled
    show Settled ([] ++ _ :: absorbed right)
    exact (settled_around_listed (by simp [rest])).mpr ⟨⟨by simp, List.isChain_nil⟩, behind, by simp, apart⟩
  · exact settled

theorem takens_cutOff (p : Parcel) (need : Nat) (right : List Parcel) :
    takens (p.cutOff need right) = takens right := by
  unfold cutOff
  split
  · rw [takens_cons_of_listed (by simp [rest]), takens_absorbed]
  · rfl

@[simp] theorem off_fitted (p : Parcel) (need : Nat) : (p.fitted need).off = p.off := by
  unfold fitted
  split <;> rfl

@[simp] theorem tenure_fitted (p : Parcel) (need : Nat) : (p.fitted need).tenure = p.tenure := by
  unfold fitted
  split <;> rfl

/-- A parcel that is cut down keeps the bytes asked for, and gets no larger. -/
theorem size_fitted (enough : need ≤ p.size) : need ≤ (p.fitted need).size ∧ (p.fitted need).size ≤ p.size := by
  unfold fitted
  split
  · exact ⟨Nat.le_refl _, enough⟩
  · exact ⟨enough, Nat.le_refl _⟩

theorem takenSize_eq (plan : List Parcel) : takenSize plan = ((takens plan).map Parcel.size).sum := rfl

theorem takenSize_append (left right : List Parcel) :
    takenSize (left ++ right) = takenSize left + takenSize right := by
  simp [takenSize_eq]

theorem takenSize_cons_of_taken (taken : p.tenure = .taken) (plan : List Parcel) :
    takenSize (p :: plan) = p.size + takenSize plan := by
  simp [takenSize_eq, takens_cons_of_taken taken]

theorem takenSize_cons_of_listed (listed : p.tenure = .listed) (plan : List Parcel) :
    takenSize (p :: plan) = takenSize plan := by
  simp [takenSize_eq, takens_cons_of_listed listed]

/-- The payload of taken parcels fits between the ends of the plan, in which each has a header too. -/
theorem Spans.takenSize_le {off stop : Nat} (spans : Spans off plan stop) : off + takenSize plan ≤ stop := by
  induction plan generalizing off with
  | nil => exact Nat.le_of_eq spans
  | cons p rest ih =>
    have later := ih spans.2.2
    have start := spans.1
    simp only [takenSize, List.filter_cons, Parcel.stop] at *
    split
    · simp only [List.map_cons, List.sum_cons]
      omega
    · omega

/-- A plan without taken parcels is one listed parcel. -/
theorem Settled.eq_singleton {r : Region} (settled : Settled plan) (nothing : takens plan = [])
    (spans : Spans 0 plan r.size) : plan = [⟨0, r.capacity, .listed⟩] := by
  have listed : ∀ p ∈ plan, p.tenure = .listed := by
    intro p member
    have untaken : p.tenure ≠ .taken := fun taken => by
      have inTakens := mem_takens.mpr ⟨member, taken⟩
      simp [nothing] at inTakens
    have firm := settled.tight p member
    cases tenure : p.tenure <;> simp_all
  have room := r.holds_block
  match plan with
  | [] =>
    simp only [Spans, Header.width] at spans room
    omega
  | [p] =>
    obtain ⟨start, -, stop⟩ := spans
    simp only [Spans, Parcel.stop] at stop
    have size : p.size = r.capacity := by
      unfold Region.capacity
      omega
    rw [← size, ← start, ← listed p (by simp)]
  | p :: q :: rest =>
    have apart := (settled_cons.mp settled).2.2 q rfl
    simp [isListed_iff.mpr (listed p (by simp)), isListed_iff.mpr (listed q (by simp))] at apart

/-- The block of a parcel. -/
def block (r : Region) (m : Memory) (p : Parcel) : Block := ⟨p.off, Header.read m (r.start + p.off)⟩

variable {r : Region} {m : Memory} {prev next : Option Nat} {off : Nat}

theorem tiles_of_recorded (spans : Spans off plan r.size) (recorded : Recorded r m prev plan next) :
    r.Tiles m off (plan.map (block r m)) := by
  induction plan generalizing off prev with
  | nil => exact spans
  | cons p rest ih =>
    obtain ⟨rfl, whole, behind⟩ := spans
    obtain ⟨here, later⟩ := recorded
    have size : (Header.read m (r.start + p.off)).size = p.size := by rw [here, header_size]
    refine ⟨rfl, rfl, ?_, ?_, ?_⟩
    · simp only [block, here, header_isIntact]
    · simpa only [block, size] using whole
    · simpa only [block, size, stop] using ih behind later

theorem not_isTaken (firm : p.tenure ≠ .loose) : (!p.isTaken) = p.isListed := by
  unfold isTaken isListed
  cases tenure : p.tenure <;> simp_all

theorem tenure_of_unlisted (firm : p.tenure ≠ .loose) (unlisted : p.isListed = false) : p.tenure = .taken := by
  rw [← not_isTaken firm] at unlisted
  exact isTaken_iff.mp (by simpa using unlisted)

/-- In a settled plan exactly the listed parcels are marked as free. -/
theorem isFree_block (recorded : Recorded r m prev plan next) (tight : ∀ p ∈ plan, p.tenure ≠ .loose)
    (member : p ∈ plan) : (block r m p).header.isFree = p.isListed := by
  obtain ⟨prev, next, here⟩ := recorded.of_mem member
  rw [block, here, header_isFree, not_isTaken (tight p member)]

theorem separated_blocks (recorded : Recorded r m prev plan next) (settled : Settled plan) :
    Block.Separated (plan.map (block r m)) := by
  induction plan generalizing prev with
  | nil => trivial
  | cons p rest ih =>
    cases rest with
    | nil => trivial
    | cons q rest =>
      obtain ⟨-, behind, apart⟩ := settled_cons.mp settled
      refine ⟨?_, ih recorded.2 behind⟩
      rw [isFree_block recorded settled.tight (by simp), isFree_block recorded settled.tight (by simp)]
      exact apart q rfl

theorem filter_blocks (recorded : Recorded r m prev plan next) (tight : ∀ p ∈ plan, p.tenure ≠ .loose) :
    (plan.map (block r m)).filter (fun b => b.header.isFree) = (plan.filter isListed).map (block r m) := by
  rw [List.filter_map]
  congr 1
  exact List.filter_congr fun p member => isFree_block recorded tight member

theorem linked_blocks (recorded : Recorded r m prev plan none) :
    Block.Linked prev (firstLink plan none) ((plan.filter isListed).map (block r m)) := by
  induction plan generalizing prev with
  | nil => rfl
  | cons p rest ih =>
    obtain ⟨here, later⟩ := recorded
    by_cases listed : p.isListed = true
    · rw [header_of_listed (isListed_iff.mp listed)] at here
      rw [link_of_listed listed] at later
      rw [firstLink_cons, link_of_listed listed, List.filter_cons_of_pos listed]
      refine ⟨rfl, ?_, ?_⟩
      · simp only [block, here]
      · simpa only [block, here] using ih later
    · have unlisted : p.isListed = false := by simpa using listed
      rw [link_of_unlisted unlisted] at later
      rw [firstLink_cons, link_of_unlisted unlisted, List.filter_cons_of_neg listed]
      exact ih later

end Parcel

namespace Arena
open Parcel
variable {a : Arena} {r : Region} {plan : List Parcel}

/-- The arena shows a settled plan, and counts the payload of its taken parcels. -/
structure Sound (a : Arena) (r : Region) (plan : List Parcel) : Prop where
  shows : a.Shows r plan
  settled : Settled plan
  used : a.heap.used = takenSize plan

/-- A sound arena is well-formed; its blocks are those of the plan. -/
theorem Sound.wellFormed (sound : a.Sound r plan) : a.WellFormed r (plan.map (block r a.memory)) := by
  obtain ⟨⟨region, covered, spans, first, recorded⟩, settled, used⟩ := sound
  refine ⟨region, covered, tiles_of_recorded spans recorded, separated_blocks recorded settled, ?_, ?_, ?_⟩
  · rw [filter_blocks recorded settled.tight, first]
    exact linked_blocks recorded
  · intro b member unfree
    obtain ⟨p, inPlan, rfl⟩ := List.mem_map.mp member
    rw [isFree_block recorded settled.tight inPlan] at unfree
    obtain ⟨prev, next, here⟩ := recorded.of_mem inPlan
    rw [← not_isTaken (settled.tight p inPlan), Bool.not_eq_eq_eq_not, Bool.not_false, isTaken_iff] at unfree
    simp only [block, here, header_of_taken unfree, and_self]
  · rw [used, takenSize_eq, List.filter_map, List.map_map, takens]
    have same : plan.filter isTaken = plan.filter ((fun b => !b.header.isFree) ∘ block r a.memory) := by
      refine List.filter_congr ?_
      intro p member
      rw [Function.comp_apply, isFree_block recorded settled.tight member,
        ← not_isTaken (settled.tight p member), Bool.not_not]
    rw [same]
    refine congrArg List.sum (List.map_congr_left ?_)
    intro p member
    obtain ⟨prev, next, here⟩ := recorded.of_mem (List.mem_of_mem_filter member)
    simp only [Function.comp_apply, block, here, header_size]

end Arena
end KernelCore
