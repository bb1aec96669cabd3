import KernelCore.Proofs.Heap.Exchange
import Mathlib.Data.List.Sort

namespace KernelCore

namespace Parcel
variable {plan plan' : List Parcel} {p q : Parcel} {off stop : Nat}

/-- Where a free stretch ends in front of some taken parcels. -/
def edge (stop : Nat) : List Parcel → Nat
  | [] => stop
  | p :: _ => p.off

/-- A settled plan that does not begin with a listed parcel begins with the first taken one. -/
theorem Settled.edge_eq (settled : Settled plan) (spans : Spans off plan stop)
    (apart : ∀ q ∈ plan.head?, q.isListed = false) : off = edge stop (takens plan) := by
  cases plan with
  | nil => exact spans
  | cons p rest =>
    have taken := tenure_of_unlisted (settled.tight p (List.mem_cons_self ..)) (apart p rfl)
    rw [takens_cons_of_taken taken]
    exact spans.1.symm

/-- A plan whose first taken parcel is the first one differs from one that begins with a listed parcel. -/
theorem Spans.not_taken_first {rest : List Parcel} (spans : Spans off (p :: rest) stop) (inRest : q ∈ takens rest) :
    q.off ≠ off := by
  have start : p.off = off := spans.1
  have later := (spans.2.2.bounds (mem_takens.mp inRest).1).1
  simp only [Parcel.stop, Header.width] at later
  omega

theorem Spans.eq_nil (spans : Spans off plan off) : plan = [] := by
  cases plan with
  | nil => rfl
  | cons p rest =>
    have start : p.off = off := spans.1
    have reaches := spans.2.2.le
    simp only [Parcel.stop, Header.width] at reaches
    omega

/-- A listed parcel at the start of a settled plan reaches to the first taken one. -/
theorem Settled.stop_eq_edge {rest : List Parcel} (settled : Settled (p :: rest)) (spans : Spans off (p :: rest) stop)
    (listed : p.isListed = true) : p.stop = edge stop (takens rest) := by
  obtain ⟨-, behind, apart⟩ := settled_cons.mp settled
  refine behind.edge_eq spans.2.2 ?_
  intro q first
  exact (apart q first).resolve_left (by simp [listed])

theorem eq_of_listed (listed : p.tenure = .listed) (listed' : q.tenure = .listed) (start : p.off = q.off)
    (stops : p.stop = q.stop) : p = q := by
  cases p
  cases q
  simp only [Parcel.stop, Parcel.mk.injEq] at *
  exact ⟨start, by omega, by rw [listed, listed']⟩

/-- Two settled plans over the same stretch with the same taken parcels are the same. -/
theorem Settled.eq_of_takens (settled : Settled plan) (settled' : Settled plan') (spans : Spans off plan stop)
    (spans' : Spans off plan' stop) (same : takens plan = takens plan') : plan = plan' := by
  induction plan generalizing off plan' with
  | nil =>
    obtain rfl : off = stop := spans
    exact spans'.eq_nil.symm
  | cons p rest ih =>
    cases plan' with
    | nil =>
      obtain rfl : off = stop := spans'
      exact spans.eq_nil
    | cons q rest' =>
      obtain ⟨firm, behind, -⟩ := settled_cons.mp settled
      obtain ⟨firm', behind', -⟩ := settled_cons.mp settled'
      -- A listed parcel reaches to the first taken one, so it is the same in both plans; and no taken parcel
      -- lies where the other plan has a listed one.
      by_cases listed : p.isListed = true
      · have free := isListed_iff.mp listed
        by_cases listed' : q.isListed = true
        · have free' := isListed_iff.mp listed'
          rw [takens_cons_of_listed free, takens_cons_of_listed free'] at same
          have stops : p.stop = q.stop := by
            rw [settled.stop_eq_edge spans listed, settled'.stop_eq_edge spans' listed', same]
          have equal := eq_of_listed free free' (spans.1.trans spans'.1.symm) stops
          rw [equal] at spans ⊢
          rw [ih behind behind' spans.2.2 spans'.2.2 same]
        · have taken := tenure_of_unlisted firm' (by simpa using listed')
          rw [takens_cons_of_listed free, takens_cons_of_taken taken] at same
          exact absurd spans'.1 (spans.not_taken_first (same ▸ List.mem_cons_self ..))
      · have taken := tenure_of_unlisted firm (by simpa using listed)
        by_cases listed' : q.isListed = true
        · rw [takens_cons_of_taken taken, takens_cons_of_listed (isListed_iff.mp listed')] at same
          exact absurd spans.1 (spans'.not_taken_first (same ▸ List.mem_cons_self ..))
        · have taken' := tenure_of_unlisted firm' (by simpa using listed')
          rw [takens_cons_of_taken taken, takens_cons_of_taken taken'] at same
          obtain ⟨equal, rest⟩ := List.cons.inj same
          rw [equal] at spans ⊢
          rw [ih behind behind' spans.2.2 spans'.2.2 rest]

theorem Spans.sorted (spans : Spans off plan stop) : plan.Pairwise fun p q => p.off < q.off := by
  induction plan generalizing off with
  | nil => exact List.Pairwise.nil
  | cons p rest ih =>
    refine List.pairwise_cons.mpr ⟨?_, ih spans.2.2⟩
    intro q member
    have := (spans.2.2.bounds member).1
    simp only [Parcel.stop, Header.width] at this
    omega

/-- Taken parcels come in the order of their offsets, so there is one list of them. -/
theorem takens_eq_of_mem (spans : Spans off plan stop) (spans' : Spans off plan' stop)
    (same : ∀ p, p ∈ takens plan ↔ p ∈ takens plan') : takens plan = takens plan' := by
  have irrefl : Std.Irrefl fun p q : Parcel => p.off < q.off := ⟨fun p => Nat.lt_irrefl p.off⟩
  have antisymm : Std.Antisymm fun p q : Parcel => p.off < q.off :=
    ⟨fun p q forth back => absurd back (Nat.lt_asymm forth)⟩
  exact List.Pairwise.eq_of_mem_iff (spans.sorted.filter _) (spans'.sorted.filter _) same

/-- The blocks of a plan do not depend on the region or the memory in which it is recorded. -/
theorem blocks_eq_of_recorded {r r' : Region} {m m' : Memory} {prev next : Option Nat}
    (recorded : Recorded r m prev plan next) (recorded' : Recorded r' m' prev plan next) :
    plan.map (block r m) = plan.map (block r' m') := by
  induction plan generalizing prev with
  | nil => rfl
  | cons p rest ih =>
    rw [List.map_cons, List.map_cons, ih recorded.2 recorded'.2, block, block, recorded.1, recorded'.1]

/-- Nor do the counters, as long as the regions are of one size. -/
theorem tally_eq_of_recorded {r r' : Region} {m m' : Memory} {prev : Option Nat} (hops : Nat)
    (counted : Heap.Statistics) (recorded : Recorded r m prev plan none)
    (recorded' : Recorded r' m' prev plan none) (spans : Spans off plan r.size)
    (aligned : off % Config.heapAlignment = 0) (size : r'.size = r.size) :
    r.tally m hops counted (firstLink plan none) = r'.tally m' hops counted (firstLink plan none) := by
  induction plan generalizing prev off hops counted with
  | nil => cases hops <;> rfl
  | cons p rest ih =>
    obtain ⟨here, later⟩ := recorded
    obtain ⟨here', later'⟩ := recorded'
    have first : Spans off [p] p.stop := ⟨spans.1, spans.2.1, rfl⟩
    have alignedStop := first.stop_aligned aligned
    have next := fun k s => ih k s later later' spans.2.2 alignedStop
    by_cases listed : p.isListed = true
    · have holds : r.HoldsHeader p.off := Arena.holdsHeader_of_spans spans aligned (Nat.le_refl _) (by simp)
      have holds' : r'.HoldsHeader p.off := ⟨holds.1, by rw [size]; exact holds.2⟩
      rw [header_of_listed (isListed_iff.mp listed)] at here here'
      rw [firstLink_cons, link_of_listed listed]
      cases hops with
      | zero => rfl
      | succ hops =>
        simp only [Region.tally, if_pos holds, if_pos holds', here, here', next]
    · have unlisted : p.isListed = false := by simpa using listed
      rw [firstLink_cons, link_of_unlisted unlisted]
      exact next hops counted

end Parcel

namespace Arena
open Machine Parcel
variable {a b c : Arena} {r r' : Region} {plan plan' : List Parcel} {p q : Parcel} {lo hi : Nat}

/-- The same blocks with the same headers, the same list of free blocks and the same counters. -/
structure SameLayout (a b : Arena) : Prop where
  blocks : a.blocks = b.blocks
  first : a.heap.first = b.heap.first
  used : a.heap.used = b.heap.used
  statistics : a.statistics = b.statistics

/-- Offsets and payload sizes of the allocated blocks. -/
def occupied (a : Arena) : List (Nat × Nat) := a.allocated.map fun b => (b.off, b.header.size)

theorem Sound.mem_occupied (sound : a.Sound r plan) {extent : Nat × Nat} :
    extent ∈ a.occupied ↔ ⟨extent.1, extent.2, .taken⟩ ∈ takens plan := by
  rw [occupied, sound.allocated_eq_map, List.map_map]
  simp only [List.mem_map, Function.comp_apply]
  constructor
  · rintro ⟨p, member, rfl⟩
    have taken := (mem_takens.mp member).2
    rw [← taken]
    exact member
  · intro member
    exact ⟨_, member, rfl⟩

theorem Sound.sameLayout (sound : a.Sound r plan) (sound' : b.Sound r' plan) (size : r'.size = r.size) :
    a.SameLayout b := by
  have counted : ∀ {a : Arena} {r : Region}, a.Sound r plan → a.statistics =
      r.tally a.memory r.hopLimit ⟨r.capacity, takenSize plan, 0, 0, 0⟩ (firstLink plan none) := by
    intro a r sound
    simp only [Arena.statistics, Heap.total, sound.shows.region, sound.used, sound.shows.first]
  have tally := tally_eq_of_recorded r.hopLimit ⟨r.capacity, takenSize plan, 0, 0, 0⟩
    sound.shows.recorded sound'.shows.recorded sound.shows.spans rfl size
  refine ⟨?_, sound.shows.first.trans sound'.shows.first.symm, sound.used.trans sound'.used.symm, ?_⟩
  · rw [sound.blocks_eq, sound'.blocks_eq]
    exact blocks_eq_of_recorded sound.shows.recorded sound'.shows.recorded
  · rw [counted sound, counted sound', tally, Region.hopLimit, Region.hopLimit, Region.capacity, Region.capacity, size]

/-- The allocated blocks tell the plan, and with it the layout. -/
theorem Sound.plan_eq (sound : a.Sound r plan) (sound' : b.Sound r' plan') (size : r'.size = r.size)
    (same : ∀ extent, extent ∈ a.occupied ↔ extent ∈ b.occupied) : plan = plan' := by
  have spans' : Spans 0 plan' r.size := size ▸ sound'.shows.spans
  refine sound.settled.eq_of_takens sound'.settled sound.shows.spans spans' ?_
  refine takens_eq_of_mem sound.shows.spans spans' ?_
  rintro ⟨off, size, tenure⟩
  have known := same (off, size)
  rw [sound.mem_occupied, sound'.mem_occupied] at known
  constructor
  · intro member
    obtain rfl : tenure = .taken := (mem_takens.mp member).2
    exact known.mp member
  · intro member
    obtain rfl : tenure = .taken := (mem_takens.mp member).2
    exact known.mpr member

/-- The stretch between two allocated blocks that follow one another, or between one and an end of the
region. -/
structure Gap (a : Arena) (r : Region) (lo hi : Nat) : Prop where
  nonempty : lo < hi
  inside : hi ≤ r.size
  clear : ∀ b ∈ a.allocated, b.stop ≤ lo ∨ hi ≤ b.off
  before : lo = 0 ∨ ∃ b ∈ a.allocated, b.stop = lo
  behind : hi = r.size ∨ ∃ b ∈ a.allocated, b.off = hi

theorem Gap.eq_of_meet {lo' hi' : Nat} (gap : a.Gap r lo hi) (gap' : a.Gap r lo' hi') (first : lo < hi')
    (second : lo' < hi) : lo = lo' ∧ hi = hi' := by
  -- Neither of them can reach past the other one.
  have starts : ∀ {lo hi lo' hi'}, a.Gap r lo hi → a.Gap r lo' hi' → lo < hi' → lo ≤ lo' := by
    intro lo hi lo' hi' gap gap' meets
    rcases gap.before with zero | ⟨b, allocated, stop⟩
    · omega
    · have := gap'.clear b allocated
      unfold Block.stop at *
      omega
  have ends : ∀ {lo hi lo' hi'}, a.Gap r lo hi → a.Gap r lo' hi' → lo' < hi → hi' ≤ hi := by
    intro lo hi lo' hi' gap gap' meets
    have inside := gap'.inside
    rcases gap.behind with last | ⟨b, allocated, start⟩
    · omega
    · have := gap'.clear b allocated
      unfold Block.stop at *
      omega
  exact ⟨Nat.le_antisymm (starts gap gap' first) (starts gap' gap second),
    Nat.le_antisymm (ends gap' gap first) (ends gap gap' second)⟩

theorem Sound.exists_allocated (sound : a.Sound r plan) (member : p ∈ plan) (unlisted : p.isListed = false) :
    ∃ b ∈ a.allocated, b.off = p.off ∧ b.stop = p.stop := by
  have taken := tenure_of_unlisted (sound.settled.tight p member) unlisted
  refine ⟨block r a.memory p, ?_, rfl, sound.stop_block member⟩
  rw [sound.allocated_eq]
  exact List.mem_map_of_mem (mem_takens.mpr ⟨member, taken⟩)

theorem Sound.gap (sound : a.Sound r plan) (member : p ∈ plan) (listed : p.tenure = .listed) :
    a.Gap r p.off p.stop := by
  obtain ⟨left, right, rfl⟩ := List.append_of_mem member
  obtain ⟨spansLeft, -, spansRight⟩ := spans_around.mp sound.shows.spans
  obtain ⟨-, -, apartLeft, apartRight⟩ := (settled_around_listed listed).mp sound.settled
  refine ⟨by simp only [Parcel.stop, Header.width]; omega, (sound.shows.spans.bounds member).2, ?_, ?_, ?_⟩
  · intro b allocated
    rw [sound.allocated_eq] at allocated
    obtain ⟨q, inTakens, rfl⟩ := List.mem_map.mp allocated
    obtain ⟨inPlan, taken⟩ := mem_takens.mp inTakens
    rw [sound.stop_block inPlan]
    refine sound.shows.spans.apart inPlan member fun same => ?_
    have shared : q.off ≤ q.off ∧ q.off < q.stop := by simp only [Parcel.stop, Header.width]; omega
    have shared' : p.off ≤ q.off ∧ q.off < p.stop := by simp only [Parcel.stop, Header.width]; omega
    rw [sound.shows.spans.eq_of_shared inPlan member shared shared', listed] at taken
    exact absurd taken (by decide)
  · rcases List.eq_nil_or_concat left with rfl | ⟨front, q, rfl⟩
    · exact Or.inl spansLeft.symm
    · rw [List.concat_eq_append] at *
      obtain ⟨b, allocated, -, stop⟩ := sound.exists_allocated (p := q) (by simp) (apartLeft q (by simp))
      exact Or.inr ⟨b, allocated, stop.trans (spans_around.mp spansLeft).2.2⟩
  · cases right with
    | nil => exact Or.inl spansRight
    | cons q rest =>
      obtain ⟨b, allocated, off, -⟩ := sound.exists_allocated (p := q) (by simp) (apartRight q rfl)
      exact Or.inr ⟨b, allocated, off.trans spansRight.1⟩

/-- The free blocks are the gaps. -/
theorem Sound.gap_iff (sound : a.Sound r plan) :
    a.Gap r lo hi ↔ ∃ b ∈ a.blocks, b.header.isFree = true ∧ b.off = lo ∧ b.stop = hi := by
  constructor
  · intro gap
    obtain ⟨p, member, lower, upper⟩ := sound.shows.spans.exists_parcel (Nat.zero_le lo)
      (Nat.lt_of_lt_of_le gap.nonempty gap.inside)
    have listed : p.isListed = true := by
      by_contra unlisted
      obtain ⟨b, allocated, off, stop⟩ := sound.exists_allocated member (by simpa using unlisted)
      have := gap.clear b allocated
      have := gap.nonempty
      omega
    have nonempty := gap.nonempty
    obtain ⟨start, finish⟩ := gap.eq_of_meet (sound.gap member (isListed_iff.mp listed)) upper (by omega)
    refine ⟨block r a.memory p, ?_, ?_, start.symm, (sound.stop_block member).trans finish.symm⟩
    · rw [sound.blocks_eq]
      exact List.mem_map_of_mem member
    · rw [isFree_block sound.shows.recorded sound.settled.tight member, listed]
  · rintro ⟨b, inBlocks, free, rfl, rfl⟩
    rw [sound.blocks_eq] at inBlocks
    obtain ⟨p, member, rfl⟩ := List.mem_map.mp inBlocks
    rw [isFree_block sound.shows.recorded sound.settled.tight member] at free
    rw [sound.stop_block member]
    exact sound.gap member (isListed_iff.mp free)

end Arena

end KernelCore
