import KernelCore.Heap.Layout
import KernelCore.Proofs.Contract
import KernelCore.Proofs.Heap.Parcels

namespace KernelCore

/-- An offset in a region can be a link. -/
theorem Region.size_lt (r : Region) : r.size < wordLimit - 1 := by
  have pos := r.start_pos
  have fits := r.fits
  omega

theorem Header.Fits.setNext {h : Header} {next : Option Nat} (fits : h.Fits)
    (within : ∀ off, next = some off → off < wordLimit - 1) : { h with next }.Fits :=
  ⟨fits.magic, fits.tag, fits.size, within, fits.prev⟩

theorem Header.Fits.setPrev {h : Header} {prev : Option Nat} (fits : h.Fits)
    (within : ∀ off, prev = some off → off < wordLimit - 1) : { h with prev }.Fits :=
  ⟨fits.magic, fits.tag, fits.size, fits.next, within⟩

theorem Header.Fits.setSize {h : Header} {size : Nat} (fits : h.Fits) (word : size < wordLimit) :
    { h with size }.Fits :=
  ⟨fits.magic, fits.tag, word, fits.next, fits.prev⟩

theorem Header.Fits.setTag {h : Header} {tag : Nat} (fits : h.Fits) (small : tag < 2 ^ 32) :
    { h with tag }.Fits :=
  ⟨fits.magic, small, fits.size, fits.next, fits.prev⟩

theorem Header.Fits.wipe {h : Header} (fits : h.Fits) : { h with magic := 0, tag := 0 }.Fits :=
  ⟨Nat.two_pow_pos 32, Nat.two_pow_pos 32, fits.size, fits.next, fits.prev⟩

namespace Arena
open Machine Parcel
variable {r : Region} {a b c : Arena} {p : Parcel} {off : Nat}

/-- The headers in memory are those of the plan, and the list starts with its first listed parcel. -/
structure Shows (a : Arena) (r : Region) (plan : List Parcel) : Prop where
  region : a.heap.region = some r
  covered : a.memory.Covers r.start r.size
  spans : Spans 0 plan r.size
  first : a.heap.first = firstLink plan none
  recorded : Recorded r a.memory none plan none

theorem Shows.setUsed {plan : List Parcel} (shows : a.Shows r plan) (used : Nat) :
    { a with heap.used := used }.Shows r plan :=
  ⟨shows.region, shows.covered, shows.spans, shows.first, shows.recorded⟩

/-- From `a` to `b` only headers at the offsets of `zone` were written, besides the heap's own fields. -/
structure Wrote (r : Region) (zone : List Nat) (a b : Arena) : Prop where
  region : b.heap.region = a.heap.region
  notices : b.notices = a.notices
  covers : ∀ addr size, b.memory.Covers addr size ↔ a.memory.Covers addr size
  byte : ∀ addr, (∀ off ∈ zone, addr < r.start + off ∨ r.start + off + Header.width ≤ addr) →
    b.memory.byte addr = a.memory.byte addr

theorem Wrote.widen {plan : List Parcel} (wrote : Wrote r (plan.map Parcel.off) a b) (more : List Parcel) :
    Wrote r ((plan ++ more).map Parcel.off) a b :=
  { wrote with
    byte := fun addr outside => wrote.byte addr fun off member =>
      outside off (List.map_subset _ (List.subset_append_left ..) member) }

theorem Wrote.setUsed {zone : List Nat} (wrote : Wrote r zone a b) (used : Nat) :
    Wrote r zone a { b with heap.used := used } :=
  ⟨wrote.region, wrote.notices, wrote.covers, wrote.byte⟩

/-- From `a` to `b` only headers at the offsets of `zone` were written, besides the head of the list. -/
structure Rewrote (r : Region) (zone : List Nat) (a b : Arena) : Prop extends Wrote r zone a b where
  used : b.heap.used = a.heap.used

theorem Rewrote.refl (r : Region) (zone : List Nat) (a : Arena) : Rewrote r zone a a :=
  ⟨⟨rfl, rfl, fun _ _ => Iff.rfl, fun _ _ => rfl⟩, rfl⟩

theorem Rewrote.trans {zone : List Nat} (first : Rewrote r zone a b) (second : Rewrote r zone b c) :
    Rewrote r zone a c where
  region := second.region.trans first.region
  used := second.used.trans first.used
  notices := second.notices.trans first.notices
  covers addr size := (second.covers addr size).trans (first.covers addr size)
  byte addr outside := (second.byte addr outside).trans (first.byte addr outside)

theorem Rewrote.mono {zone wider : List Nat} (rewrote : Rewrote r zone a b) (subset : zone ⊆ wider) :
    Rewrote r wider a b :=
  { rewrote with byte := fun addr outside => rewrote.byte addr fun off member => outside off (subset member) }

theorem Rewrote.read {zone : List Nat} (rewrote : Rewrote r zone a b) (off : Nat)
    (apart : ∀ z ∈ zone, z + Header.width ≤ off ∨ off + Header.width ≤ z) :
    Header.read b.memory (r.start + off) = Header.read a.memory (r.start + off) :=
  Header.read_congr fun addr lower upper =>
    rewrote.byte addr fun z member => by have := apart z member; omega

/-- The parcels in front of every header written are recorded as before. -/
theorem Rewrote.recorded_below {zone : List Nat} {prev next : Option Nat} {plan : List Parcel}
    {start stop : Nat} (rewrote : Rewrote r zone a b) (recorded : Recorded r a.memory prev plan next)
    (spans : Spans start plan stop) (above : ∀ z ∈ zone, stop ≤ z) : Recorded r b.memory prev plan next :=
  recorded.congr fun p member => rewrote.read p.off fun z inZone => by
    have upper := (spans.bounds member).2
    have := above z inZone
    unfold Parcel.stop at upper
    omega

/-- The parcels behind every header written are recorded as before. -/
theorem Rewrote.recorded_above {zone : List Nat} {prev next : Option Nat} {plan : List Parcel}
    {start stop : Nat} (rewrote : Rewrote r zone a b) (recorded : Recorded r a.memory prev plan next)
    (spans : Spans start plan stop) (below : ∀ z ∈ zone, z + Header.width ≤ start) :
    Recorded r b.memory prev plan next :=
  recorded.congr fun p member => rewrote.read p.off fun z inZone => by
    have lower := (spans.bounds member).1
    have := below z inZone
    omega

theorem holdsHeader_of_spans {plan : List Parcel} {start stop : Nat} (spans : Spans start plan stop)
    (aligned : start % Config.heapAlignment = 0) (within : stop ≤ r.size) {p : Parcel} (member : p ∈ plan) :
    r.HoldsHeader p.off := by
  have upper := (spans.bounds member).2
  unfold Parcel.stop at upper
  exact ⟨(spans.aligned aligned member).1, by omega⟩

theorem firstLink_lt {plan : List Parcel} {start stop : Nat} (spans : Spans start plan stop)
    (within : stop ≤ r.size) : ∀ off, firstLink plan none = some off → off < wordLimit - 1 := by
  intro off link
  obtain ⟨p, member, -, rfl⟩ := exists_of_firstLink link
  have upper := (spans.bounds member).2
  have small := r.size_lt
  simp only [Parcel.stop, Header.width] at upper
  omega

theorem lastLink_lt {plan : List Parcel} {start stop : Nat} (spans : Spans start plan stop)
    (within : stop ≤ r.size) : ∀ off, lastLink none plan = some off → off < wordLimit - 1 := by
  intro off link
  obtain ⟨p, member, -, rfl⟩ := exists_of_lastLink link
  have upper := (spans.bounds member).2
  have small := r.size_lt
  simp only [Parcel.stop, Header.width] at upper
  omega

/-- The header of a parcel inside the region can be stored, as long as it needs no links. -/
theorem fits_header_of_le (within : p.stop ≤ r.size) : (p.header none none).Fits := by
  have small := r.size_lt
  unfold Parcel.stop at within
  have size : p.size < wordLimit := by omega
  have free := Header.fits_free size
  unfold Parcel.header
  split
  · exact free.setTag (Nat.two_pow_pos 32)
  · exact free
  · exact free

theorem some_lt {off : Nat} (within : off < r.size) :
    ∀ x, some off = some x → x < wordLimit - 1 := by
  intro x same
  obtain rfl := Option.some.inj same
  have := r.size_lt
  omega

theorem meets_header {post : Header → Arena → Prop} {stopped : Arena → Prop} (holds : r.HoldsHeader off) :
    (header r off).Meets a post stopped ↔ post (Header.read a.memory (r.start + off)) a := by
  unfold Meets
  rw [runFrom_header, Region.header_of_holds _ holds]

/-- A header that was stored is read again, and nothing else has changed. -/
theorem meets_setHeader {h : Header} (holds : r.HoldsHeader off) (covered : a.memory.Covers r.start r.size)
    (fits : h.Fits) :
    (setHeader r off h).Meets a (fun _ b => b.heap = a.heap ∧
      Header.read b.memory (r.start + off) = h ∧ Rewrote r [off] a b) fun _ => False := by
  refine Meets.of_runFrom (runFrom_setHeader_of_holds h a holds) ⟨rfl, ?_, ⟨⟨rfl, rfl, ?_, ?_⟩, rfl⟩⟩
  · have lower := covered.1
    have upper := covered.2
    have room := holds.2
    dsimp only
    exact Header.read_write_self fits ⟨by omega, by omega⟩
  · intro addr size
    dsimp only
    exact Header.covers_write ..
  · intro addr outside
    dsimp only
    exact Header.byte_write_of_outside h a.memory (outside off (List.mem_singleton_self off))

theorem meets_setNext {h : Header} {next : Option Nat} (holds : r.HoldsHeader off)
    (covered : a.memory.Covers r.start r.size) (here : Header.read a.memory (r.start + off) = h)
    (fits : ∀ off, next = some off → off < wordLimit - 1) :
    (setNext r off next).Meets a (fun _ b => b.heap = a.heap ∧
      Header.read b.memory (r.start + off) = ⟨h.magic, h.tag, h.size, next, h.prev⟩ ∧
      Rewrote r [off] a b) fun _ => False := by
  subst here
  unfold setNext
  rw [meets_bind, meets_header holds]
  exact meets_setHeader holds covered ((Header.fits_read ..).setNext fits)

theorem meets_setPrev {h : Header} {prev : Option Nat} (holds : r.HoldsHeader off)
    (covered : a.memory.Covers r.start r.size) (here : Header.read a.memory (r.start + off) = h)
    (fits : ∀ off, prev = some off → off < wordLimit - 1) :
    (setPrev r off prev).Meets a (fun _ b => b.heap = a.heap ∧
      Header.read b.memory (r.start + off) = ⟨h.magic, h.tag, h.size, h.next, prev⟩ ∧
      Rewrote r [off] a b) fun _ => False := by
  subst here
  unfold setPrev
  rw [meets_bind, meets_header holds]
  exact meets_setHeader holds covered ((Header.fits_read ..).setPrev fits)

end Arena
end KernelCore
