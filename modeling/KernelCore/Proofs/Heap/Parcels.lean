import KernelCore.Heap.FreeList
import Mathlib.Algebra.Ring.Nat
import Mathlib.Data.List.Chain

namespace KernelCore

/-- How a block stands to the list of free blocks. -/
inductive Tenure where
  | taken
  /-- Marked as free, but in no list. -/
  | loose
  | listed
deriving DecidableEq

/-- The part of a region that one block takes up. -/
structure Parcel where
  off : Nat
  size : Nat
  tenure : Tenure

namespace Parcel

def isTaken (p : Parcel) : Bool := p.tenure = .taken

def isListed (p : Parcel) : Bool := p.tenure = .listed

/-- The offset behind a parcel. -/
def stop (p : Parcel) : Nat := p.off + Header.width + p.size

/-- The parcel with another tenure. -/
def become (p : Parcel) (tenure : Tenure) : Parcel := { p with tenure }

/-- The header of a parcel, between the links to its neighbours in the list. -/
def header (p : Parcel) (prev next : Option Nat) : Header :=
  match p.tenure with
  | .taken => ⟨Config.heapMagic, 0, p.size, none, none⟩
  | .loose => Header.free p.size
  | .listed => ⟨Config.heapMagic, 1, p.size, next, prev⟩

/-- The link to a parcel if it is listed, and else another one. -/
def link (p : Parcel) (other : Option Nat) : Option Nat := if p.isListed then some p.off else other

/-- Parcels follow one another from one offset to another. -/
def Spans : (off : Nat) → List Parcel → (stop : Nat) → Prop
  | off, [], stop => off = stop
  | off, p :: rest, stop =>
    p.off = off ∧ p.size % Config.heapAlignment = 0 ∧ Spans p.stop rest stop

/-- The first listed parcel, and `next` if there is none. -/
def firstLink (plan : List Parcel) (next : Option Nat) : Option Nat := plan.foldr link next

/-- The last listed parcel, and `prev` if there is none. -/
def lastLink (prev : Option Nat) (plan : List Parcel) : Option Nat := plan.foldl (fun prev p => p.link prev) prev

/-- The memory holds the headers of the parcels between two links. -/
def Recorded (r : Region) (m : Memory) : (prev : Option Nat) → List Parcel → (next : Option Nat) → Prop
  | _, [], _ => True
  | prev, p :: rest, next =>
    Header.read m (r.start + p.off) = p.header prev (firstLink rest next) ∧
      Recorded r m (p.link prev) rest next

/-- Of two neighbours at least one is not listed. -/
def Separated (plan : List Parcel) : Prop :=
  plan.IsChain fun p q => p.isListed = false ∨ q.isListed = false

/-- The payload of the taken parcels. -/
def takenSize (plan : List Parcel) : Nat := ((plan.filter isTaken).map size).sum

@[simp] theorem off_become (p : Parcel) (tenure : Tenure) : (p.become tenure).off = p.off := rfl

@[simp] theorem size_become (p : Parcel) (tenure : Tenure) : (p.become tenure).size = p.size := rfl

@[simp] theorem stop_become (p : Parcel) (tenure : Tenure) : (p.become tenure).stop = p.stop := rfl

@[simp] theorem tenure_become (p : Parcel) (tenure : Tenure) : (p.become tenure).tenure = tenure := rfl

theorem isListed_iff {p : Parcel} : p.isListed = true ↔ p.tenure = .listed := by
  simp [isListed]

theorem isTaken_iff {p : Parcel} : p.isTaken = true ↔ p.tenure = .taken := by
  simp [isTaken]

@[simp] theorem header_magic (p : Parcel) (prev next : Option Nat) :
    (p.header prev next).magic = Config.heapMagic := by
  unfold header
  split <;> rfl

@[simp] theorem header_size (p : Parcel) (prev next : Option Nat) : (p.header prev next).size = p.size := by
  unfold header
  split <;> rfl

@[simp] theorem header_isIntact (p : Parcel) (prev next : Option Nat) :
    (p.header prev next).isIntact = true := by
  simp [Header.isIntact]

theorem header_isFree (p : Parcel) (prev next : Option Nat) :
    (p.header prev next).isFree = !p.isTaken := by
  unfold header isTaken
  split <;> simp [Header.isFree, Header.free, *]

theorem header_of_listed {p : Parcel} (listed : p.tenure = .listed) (prev next : Option Nat) :
    p.header prev next = ⟨Config.heapMagic, 1, p.size, next, prev⟩ := by
  unfold header
  rw [listed]

theorem header_of_taken {p : Parcel} (taken : p.tenure = .taken) (prev next : Option Nat) :
    p.header prev next = ⟨Config.heapMagic, 0, p.size, none, none⟩ := by
  unfold header
  rw [taken]

theorem header_of_loose {p : Parcel} (loose : p.tenure = .loose) (prev next : Option Nat) :
    p.header prev next = Header.free p.size := by
  unfold header
  rw [loose]

/-- Only a listed parcel's header depends on the links around it. -/
theorem header_of_unlisted {p : Parcel} (unlisted : p.isListed = false) (prev next prev' next' : Option Nat) :
    p.header prev next = p.header prev' next' := by
  unfold header
  split <;> simp_all [isListed]

theorem link_of_listed {p : Parcel} (listed : p.isListed = true) (other : Option Nat) :
    p.link other = some p.off := if_pos listed

theorem link_of_unlisted {p : Parcel} (unlisted : p.isListed = false) (other : Option Nat) :
    p.link other = other := by
  simp [link, unlisted]

@[simp] theorem firstLink_nil (next : Option Nat) : firstLink [] next = next := rfl

@[simp] theorem firstLink_cons (p : Parcel) (rest : List Parcel) (next : Option Nat) :
    firstLink (p :: rest) next = p.link (firstLink rest next) := rfl

@[simp] theorem firstLink_append (left right : List Parcel) (next : Option Nat) :
    firstLink (left ++ right) next = firstLink left (firstLink right next) := List.foldr_append

@[simp] theorem lastLink_nil (prev : Option Nat) : lastLink prev [] = prev := rfl

@[simp] theorem lastLink_cons (prev : Option Nat) (p : Parcel) (rest : List Parcel) :
    lastLink prev (p :: rest) = lastLink (p.link prev) rest := rfl

@[simp] theorem lastLink_append (prev : Option Nat) (left right : List Parcel) :
    lastLink prev (left ++ right) = lastLink (lastLink prev left) right := List.foldl_append

theorem firstLink_of_unlisted {plan : List Parcel} (unlisted : ∀ p ∈ plan, p.isListed = false)
    (next : Option Nat) : firstLink plan next = next := by
  induction plan with
  | nil => rfl
  | cons p rest ih =>
    rw [firstLink_cons, link_of_unlisted (unlisted p (List.mem_cons_self ..)),
      ih fun q member => unlisted q (List.mem_cons_of_mem _ member)]

theorem lastLink_of_unlisted {plan : List Parcel} (unlisted : ∀ p ∈ plan, p.isListed = false)
    (prev : Option Nat) : lastLink prev plan = prev := by
  induction plan generalizing prev with
  | nil => rfl
  | cons p rest ih =>
    rw [lastLink_cons, link_of_unlisted (unlisted p (List.mem_cons_self ..)),
      ih fun q member => unlisted q (List.mem_cons_of_mem _ member)]

/-- Either no parcel is listed, or there is a first listed one. -/
theorem first_listed (plan : List Parcel) :
    (∀ p ∈ plan, p.isListed = false) ∨ ∃ left p right, plan = left ++ p :: right ∧
      p.isListed = true ∧ ∀ q ∈ left, q.isListed = false := by
  induction plan with
  | nil => exact Or.inl (by simp)
  | cons p rest ih =>
    by_cases listed : p.isListed = true
    · exact Or.inr ⟨[], p, rest, rfl, listed, by simp⟩
    · have unlisted : p.isListed = false := by simpa using listed
      rcases ih with none | ⟨left, q, right, shape, found, before⟩
      · exact Or.inl (List.forall_mem_cons.mpr ⟨unlisted, none⟩)
      · exact Or.inr ⟨p :: left, q, right, by rw [shape, List.cons_append], found,
          List.forall_mem_cons.mpr ⟨unlisted, before⟩⟩

theorem last_listed (plan : List Parcel) :
    (∀ p ∈ plan, p.isListed = false) ∨ ∃ left p right, plan = left ++ p :: right ∧
      p.isListed = true ∧ ∀ q ∈ right, q.isListed = false := by
  induction plan with
  | nil => exact Or.inl (by simp)
  | cons p rest ih =>
    rcases ih with none | ⟨left, q, right, shape, found, behind⟩
    · by_cases listed : p.isListed = true
      · exact Or.inr ⟨[], p, rest, rfl, listed, none⟩
      · exact Or.inl (List.forall_mem_cons.mpr ⟨by simpa using listed, none⟩)
    · exact Or.inr ⟨p :: left, q, right, by rw [shape, List.cons_append], found, behind⟩

theorem exists_of_firstLink {plan : List Parcel} {off : Nat} (link : firstLink plan none = some off) :
    ∃ p ∈ plan, p.isListed = true ∧ p.off = off := by
  rcases first_listed plan with none | ⟨left, p, right, rfl, listed, before⟩
  · simp [firstLink_of_unlisted none] at link
  · rw [firstLink_append, firstLink_of_unlisted before, firstLink_cons, link_of_listed listed] at link
    exact ⟨p, by simp, listed, Option.some.inj link⟩

theorem exists_of_lastLink {plan : List Parcel} {off : Nat} (link : lastLink none plan = some off) :
    ∃ p ∈ plan, p.isListed = true ∧ p.off = off := by
  rcases last_listed plan with none | ⟨left, p, right, rfl, listed, behind⟩
  · simp [lastLink_of_unlisted none] at link
  · rw [lastLink_append, lastLink_cons, link_of_listed listed, lastLink_of_unlisted behind] at link
    exact ⟨p, by simp, listed, Option.some.inj link⟩

theorem spans_append {off stop : Nat} {left right : List Parcel} :
    Spans off (left ++ right) stop ↔ ∃ mid, Spans off left mid ∧ Spans mid right stop := by
  induction left generalizing off with
  | nil => simp [Spans]
  | cons p rest ih => simp only [List.cons_append, Spans, ih]; grind

/-- The parcels in front of a parcel reach up to it, and those behind it start at its end. -/
theorem spans_around {off stop : Nat} {left right : List Parcel} {p : Parcel} :
    Spans off (left ++ p :: right) stop ↔
      Spans off left p.off ∧ p.size % Config.heapAlignment = 0 ∧ Spans p.stop right stop := by
  simp only [spans_append, Spans]
  constructor
  · rintro ⟨mid, before, rfl, rest⟩
    exact ⟨before, rest⟩
  · rintro ⟨before, rest⟩
    exact ⟨p.off, before, rfl, rest⟩

theorem Spans.le {off stop : Nat} {plan : List Parcel} (spans : Spans off plan stop) : off ≤ stop := by
  induction plan generalizing off with
  | nil => exact Nat.le_of_eq spans
  | cons p rest ih =>
    have := ih spans.2.2
    have := spans.1
    unfold Parcel.stop at *
    omega

theorem Spans.bounds {off stop : Nat} {plan : List Parcel} (spans : Spans off plan stop) {p : Parcel}
    (member : p ∈ plan) : off ≤ p.off ∧ p.stop ≤ stop := by
  obtain ⟨left, right, rfl⟩ := List.append_of_mem member
  obtain ⟨before, -, behind⟩ := spans_around.mp spans
  exact ⟨before.le, behind.le⟩

/-- There is room in the span for the header of every parcel. -/
theorem Spans.header_bounds {off stop : Nat} {plan : List Parcel} (spans : Spans off plan stop) :
    ∀ z ∈ plan.map Parcel.off, off ≤ z ∧ z + Header.width ≤ stop := by
  intro z member
  obtain ⟨p, inPlan, rfl⟩ := List.mem_map.mp member
  have inside := spans.bounds inPlan
  unfold Parcel.stop at inside
  omega

theorem Spans.aligned {off stop : Nat} {plan : List Parcel} (spans : Spans off plan stop)
    (start : off % Config.heapAlignment = 0) {p : Parcel} (member : p ∈ plan) :
    p.off % Config.heapAlignment = 0 ∧ p.size % Config.heapAlignment = 0 := by
  induction plan generalizing off with
  | nil => simp at member
  | cons q rest ih =>
    obtain ⟨rfl, whole, behind⟩ := spans
    rcases List.mem_cons.mp member with rfl | later
    · exact ⟨start, whole⟩
    · refine ih behind ?_ later
      simp only [Parcel.stop, Header.width, Config.heapAlignment] at *
      omega

theorem Spans.stop_aligned {off stop : Nat} {plan : List Parcel} (spans : Spans off plan stop)
    (start : off % Config.heapAlignment = 0) : stop % Config.heapAlignment = 0 := by
  induction plan generalizing off with
  | nil => exact spans ▸ start
  | cons p rest ih =>
    obtain ⟨rfl, whole, behind⟩ := spans
    refine ih behind ?_
    simp only [Parcel.stop, Header.width, Config.heapAlignment] at *
    omega

/-- Headers alone fill the span as far as there are parcels. -/
theorem Spans.length_le {off stop : Nat} {plan : List Parcel} (spans : Spans off plan stop) :
    off + Header.width * plan.length ≤ stop := by
  induction plan generalizing off with
  | nil => exact Nat.le_of_eq spans
  | cons p rest ih =>
    have later := ih spans.2.2
    have := spans.1
    simp only [Parcel.stop, Header.width, List.length_cons] at *
    omega

/-- Two different parcels of a plan lie apart. -/
theorem Spans.apart {off stop : Nat} {plan : List Parcel} (spans : Spans off plan stop) {p q : Parcel}
    (inP : p ∈ plan) (inQ : q ∈ plan) (other : p.off ≠ q.off) : p.stop ≤ q.off ∨ q.stop ≤ p.off := by
  induction plan generalizing off with
  | nil => simp at inP
  | cons first rest ih =>
    have behind := fun x (later : x ∈ rest) => (spans.2.2.bounds later).1
    rcases List.mem_cons.mp inP with rfl | laterP <;> rcases List.mem_cons.mp inQ with rfl | laterQ
    · exact absurd rfl other
    · exact Or.inl (behind q laterQ)
    · exact Or.inr (behind p laterP)
    · exact ih spans.2.2 laterP laterQ

/-- Every offset of a span lies in one of its parcels. -/
theorem Spans.exists_parcel {off stop x : Nat} {plan : List Parcel} (spans : Spans off plan stop)
    (lower : off ≤ x) (upper : x < stop) : ∃ p ∈ plan, p.off ≤ x ∧ x < p.stop := by
  induction plan generalizing off with
  | nil =>
    have same : off = stop := spans
    omega
  | cons p rest ih =>
    obtain ⟨rfl, -, behind⟩ := spans
    by_cases here : x < p.stop
    · exact ⟨p, List.mem_cons_self .., lower, here⟩
    · obtain ⟨q, member, inside⟩ := ih behind (by omega)
      exact ⟨q, List.mem_cons_of_mem _ member, inside⟩

/-- No offset lies in two parcels. -/
theorem Spans.eq_of_shared {off stop x : Nat} {plan : List Parcel} (spans : Spans off plan stop) {p q : Parcel}
    (inP : p ∈ plan) (inQ : q ∈ plan) (insideP : p.off ≤ x ∧ x < p.stop)
    (insideQ : q.off ≤ x ∧ x < q.stop) : p = q := by
  induction plan generalizing off with
  | nil => simp at inP
  | cons first rest ih =>
    have behind := fun s (later : s ∈ rest) => (spans.2.2.bounds later).1
    rcases List.mem_cons.mp inP with rfl | laterP
    · rcases List.mem_cons.mp inQ with rfl | laterQ
      · rfl
      · have := behind q laterQ
        omega
    · rcases List.mem_cons.mp inQ with rfl | laterQ
      · have := behind p laterP
        omega
      · exact ih spans.2.2 laterP laterQ

theorem recorded_append {r : Region} {m : Memory} {prev next : Option Nat} {left right : List Parcel} :
    Recorded r m prev (left ++ right) next ↔
      Recorded r m prev left (firstLink right next) ∧ Recorded r m (lastLink prev left) right next := by
  induction left generalizing prev with
  | nil => simp [Recorded]
  | cons p rest ih => simp only [List.cons_append, Recorded, ih, firstLink_append, lastLink_cons, and_assoc]

theorem recorded_around {r : Region} {m : Memory} {prev next : Option Nat} {left right : List Parcel}
    {p : Parcel} :
    Recorded r m prev (left ++ p :: right) next ↔
      Recorded r m prev left (p.link (firstLink right next)) ∧
      Header.read m (r.start + p.off) = p.header (lastLink prev left) (firstLink right next) ∧
      Recorded r m (p.link (lastLink prev left)) right next := by
  rw [recorded_append]
  rfl

theorem Recorded.congr {r : Region} {m m' : Memory} {prev next : Option Nat} {plan : List Parcel}
    (recorded : Recorded r m prev plan next)
    (same : ∀ p ∈ plan, Header.read m' (r.start + p.off) = Header.read m (r.start + p.off)) :
    Recorded r m' prev plan next := by
  induction plan generalizing prev with
  | nil => trivial
  | cons p rest ih =>
    exact ⟨(same p (List.mem_cons_self ..)).trans recorded.1,
      ih recorded.2 fun q member => same q (List.mem_cons_of_mem _ member)⟩

/-- Where no parcel is listed, the links on both sides do not show. -/
theorem Recorded.of_unlisted {r : Region} {m : Memory} {prev next : Option Nat} {plan : List Parcel}
    (recorded : Recorded r m prev plan next) (unlisted : ∀ p ∈ plan, p.isListed = false)
    (prev' next' : Option Nat) : Recorded r m prev' plan next' := by
  induction plan generalizing prev prev' with
  | nil => trivial
  | cons p rest ih =>
    obtain ⟨here, later⟩ := List.forall_mem_cons.mp unlisted
    refine ⟨recorded.1.trans (header_of_unlisted here ..), ?_⟩
    exact ih recorded.2 later _

/-- The header of a parcel of the plan is in memory, between some links. -/
theorem Recorded.of_mem {r : Region} {m : Memory} {prev next : Option Nat} {plan : List Parcel}
    (recorded : Recorded r m prev plan next) {p : Parcel} (member : p ∈ plan) :
    ∃ prev next, Header.read m (r.start + p.off) = p.header prev next := by
  obtain ⟨left, right, rfl⟩ := List.append_of_mem member
  exact ⟨_, _, (recorded_around.mp recorded).2.1⟩

end Parcel
end KernelCore
