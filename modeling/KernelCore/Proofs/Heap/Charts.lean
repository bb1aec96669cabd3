import KernelCore.Proofs.Heap.Headers
import Mathlib.Data.Set.Insert

namespace KernelCore

namespace Arena
open Machine
variable {a b : Arena} {r : Region} {chart : Set Nat} {off size need : Nat} {h : Header} {link : Option Nat}

/-- The headers at the offsets of a chart are clear of a header at `off`, unless it is one of them. -/
def Clear (chart : Set Nat) (off : Nat) : Prop :=
  ∀ x ∈ chart, x ≠ off → x + Header.width ≤ off ∨ off + Header.width ≤ x

/-- The headers at these offsets lie side by side in the region, and neither the head of the list nor a link of one of
them leads elsewhere. -/
structure Charted (a : Arena) (r : Region) (chart : Set Nat) : Prop where
  covered : a.memory.Covers r.start r.size
  holds : ∀ off ∈ chart, r.HoldsHeader off
  clear : ∀ off ∈ chart, Clear chart off
  first : ∀ off ∈ a.heap.first, off ∈ chart
  next : ∀ off ∈ chart, ∀ next ∈ (Header.read a.memory (r.start + off)).next, next ∈ chart
  prev : ∀ off ∈ chart, ∀ prev ∈ (Header.read a.memory (r.start + off)).prev, prev ∈ chart

theorem Clear.insert (clear : Clear chart off) (others : ∀ x ∈ chart, Clear chart x) :
    ∀ x ∈ insert off chart, Clear (insert off chart) x := by
  intro x inX y inY other
  rcases Set.mem_insert_iff.mp inX with rfl | oldX
  · rcases Set.mem_insert_iff.mp inY with rfl | oldY
    · exact absurd rfl other
    · exact clear y oldY other
  · rcases Set.mem_insert_iff.mp inY with rfl | oldY
    · exact (clear x oldX (Ne.symm other)).symm
    · exact others x oldX y oldY other

/-- The links of a parcel's header are among those around it. -/
theorem mem_of_header (p : Parcel) (prev next : Option Nat) :
    (∀ x ∈ (p.header prev next).next, x ∈ next) ∧ ∀ x ∈ (p.header prev next).prev, x ∈ prev := by
  unfold Parcel.header
  cases p.tenure <;> simp [Header.free]

/-- In a heap that is in order, the headers of all blocks are a chart. -/
theorem Shows.charted {plan : List Parcel} (shows : a.Shows r plan) :
    a.Charted r { off | off ∈ plan.map Parcel.off } := by
  have linked : ∀ p ∈ plan, (∀ x ∈ (Header.read a.memory (r.start + p.off)).next, x ∈ plan.map Parcel.off) ∧
      ∀ x ∈ (Header.read a.memory (r.start + p.off)).prev, x ∈ plan.map Parcel.off := by
    intro p member
    obtain ⟨left, right, rfl⟩ := List.append_of_mem member
    rw [(Parcel.recorded_around.mp shows.recorded).2.1]
    obtain ⟨following, preceding⟩ := mem_of_header p (Parcel.lastLink none left) (Parcel.firstLink right none)
    constructor
    · intro x inNext
      obtain ⟨q, inRight, -, rfl⟩ := Parcel.exists_of_firstLink (following x inNext)
      exact List.mem_map_of_mem (by simp [inRight])
    · intro x inPrev
      obtain ⟨q, inLeft, -, rfl⟩ := Parcel.exists_of_lastLink (preceding x inPrev)
      exact List.mem_map_of_mem (by simp [inLeft])
  refine ⟨shows.covered, ?_, ?_, ?_, ?_, ?_⟩
  · intro off member
    obtain ⟨p, inPlan, rfl⟩ := List.mem_map.mp member
    exact holdsHeader_of_spans shows.spans rfl (Nat.le_refl _) inPlan
  · intro off member x inChart other
    obtain ⟨p, inPlan, rfl⟩ := List.mem_map.mp member
    obtain ⟨q, inPlanToo, rfl⟩ := List.mem_map.mp inChart
    have apart := shows.spans.apart inPlanToo inPlan other
    unfold Parcel.stop at apart
    omega
  · intro off inFirst
    rw [shows.first] at inFirst
    obtain ⟨p, member, -, rfl⟩ := Parcel.exists_of_firstLink inFirst
    exact List.mem_map_of_mem member
  · intro off member
    obtain ⟨p, inPlan, rfl⟩ := List.mem_map.mp member
    exact (linked p inPlan).1
  · intro off member
    obtain ⟨p, inPlan, rfl⟩ := List.mem_map.mp member
    exact (linked p inPlan).2

theorem Charted.setUsed (charted : a.Charted r chart) (used : Nat) : { a with heap.used := used }.Charted r chart :=
  ⟨charted.covered, charted.holds, charted.clear, charted.first, charted.next, charted.prev⟩

theorem Charted.link_lt (charted : a.Charted r chart) (known : ∀ off ∈ link, off ∈ chart) :
    ∀ off, link = some off → off < wordLimit - 1 := by
  intro off same
  have room := (charted.holds off (known off same)).2
  have small := r.size_lt
  omega

/-- What is known of a header of the chart when it is read. -/
structure Entry (a : Arena) (r : Region) (chart : Set Nat) (off : Nat) (h : Header) : Prop where
  fits : h.Fits
  next : ∀ x ∈ h.next, x ∈ chart
  prev : ∀ x ∈ h.prev, x ∈ chart
  size : h.size = (Header.read a.memory (r.start + off)).size

theorem Charted.meets_header (charted : a.Charted r chart) (member : off ∈ chart) :
    (header r off).Meets a (fun h b => b = a ∧ a.Entry r chart off h) fun _ => False := by
  refine (Arena.meets_header (charted.holds off member)).mpr ⟨rfl, ?_⟩
  exact ⟨Header.fits_read .., charted.next off member, charted.prev off member, rfl⟩

/-- A header beside those of the chart can be written. -/
theorem Charted.beside (charted : a.Charted r chart) (clear : Clear chart off) (outside : off ∉ chart)
    (heap : b.heap.first = a.heap.first) (rewrote : Rewrote r [off] a b) : b.Charted r chart := by
  have same : ∀ x ∈ chart, Header.read b.memory (r.start + x) = Header.read a.memory (r.start + x) := by
    intro x member
    refine rewrote.read x fun z inZone => ?_
    obtain rfl := List.mem_singleton.mp inZone
    exact (clear x member fun equal => outside (equal ▸ member)).symm
  refine ⟨(rewrote.covers ..).mpr charted.covered, charted.holds, charted.clear, ?_, ?_, ?_⟩
  · rw [heap]
    exact charted.first
  · intro x member
    rw [same x member]
    exact charted.next x member
  · intro x member
    rw [same x member]
    exact charted.prev x member

/-- A header of the chart, or one beside it that becomes one of it, can be written with links that lead to the chart. -/
theorem Charted.meets_setHeader (charted : a.Charted r chart) (holds : r.HoldsHeader off) (clear : Clear chart off)
    (fits : h.Fits) (next : ∀ x ∈ h.next, x ∈ insert off chart) (prev : ∀ x ∈ h.prev, x ∈ insert off chart) :
    (setHeader r off h).Meets a (fun _ b => b.Charted r (insert off chart) ∧
      Header.read b.memory (r.start + off) = h ∧
      ∀ x ∈ chart, x ≠ off → Header.read b.memory (r.start + x) = Header.read a.memory (r.start + x))
      fun _ => False := by
  refine (Arena.meets_setHeader holds charted.covered fits).mono ?_ fun _ => id
  rintro - b ⟨heap, stored, rewrote⟩
  have others : ∀ x ∈ chart, x ≠ off →
      Header.read b.memory (r.start + x) = Header.read a.memory (r.start + x) := by
    intro x member other
    refine rewrote.read x fun z inZone => ?_
    obtain rfl := List.mem_singleton.mp inZone
    exact (clear x member other).symm
  refine ⟨⟨(rewrote.covers ..).mpr charted.covered, ?_, clear.insert charted.clear, ?_, ?_, ?_⟩, stored, others⟩
  · rintro x (rfl | member)
    · exact holds
    · exact charted.holds x member
  · intro x inFirst
    rw [heap] at inFirst
    exact Set.mem_insert_of_mem _ (charted.first x inFirst)
  · intro x member y inNext
    by_cases here : x = off
    · rw [here, stored] at inNext
      exact next y inNext
    · have old := Set.mem_of_mem_insert_of_ne member here
      rw [others x old here] at inNext
      exact Set.mem_insert_of_mem _ (charted.next x old y inNext)
  · intro x member y inPrev
    by_cases here : x = off
    · rw [here, stored] at inPrev
      exact prev y inPrev
    · have old := Set.mem_of_mem_insert_of_ne member here
      rw [others x old here] at inPrev
      exact Set.mem_insert_of_mem _ (charted.prev x old y inPrev)

/-- A header of the chart can be written with links that lead to the chart. -/
theorem Charted.meets_rewrite (charted : a.Charted r chart) (member : off ∈ chart) (fits : h.Fits)
    (next : ∀ x ∈ h.next, x ∈ chart) (prev : ∀ x ∈ h.prev, x ∈ chart) :
    (setHeader r off h).Meets a (fun _ b => b.Charted r chart ∧
      Header.read b.memory (r.start + off) = h ∧
      ∀ x ∈ chart, x ≠ off → Header.read b.memory (r.start + x) = Header.read a.memory (r.start + x))
      fun _ => False := by
  have same : insert off chart = chart := Set.insert_eq_of_mem member
  have meets := charted.meets_setHeader (charted.holds off member) (charted.clear off member) fits
  rw [same] at meets
  exact meets next prev

/-- The sizes in the headers of the chart are the same. -/
def KeepsSizes (r : Region) (chart : Set Nat) (a b : Arena) : Prop :=
  ∀ x ∈ chart, (Header.read b.memory (r.start + x)).size = (Header.read a.memory (r.start + x)).size

theorem KeepsSizes.refl (r : Region) (chart : Set Nat) (a : Arena) : KeepsSizes r chart a a := fun _ _ => rfl

theorem KeepsSizes.trans {c : Arena} (first : KeepsSizes r chart a b) (second : KeepsSizes r chart b c) :
    KeepsSizes r chart a c :=
  fun x member => (second x member).trans (first x member)

/-- What the operations on the list keep: the chart, and the sizes. -/
structure Relinked (r : Region) (chart : Set Nat) (a b : Arena) : Prop where
  charted : b.Charted r chart
  sizes : KeepsSizes r chart a b

theorem Charted.relinked (charted : a.Charted r chart) : Relinked r chart a a := ⟨charted, .refl r chart a⟩

theorem Relinked.trans {c : Arena} (first : Relinked r chart a b) (second : Relinked r chart b c) :
    Relinked r chart a c :=
  ⟨second.charted, first.sizes.trans second.sizes⟩

theorem Charted.meets_resize (charted : a.Charted r chart) (member : off ∈ chart) (fits : h.Fits)
    (next : ∀ x ∈ h.next, x ∈ chart) (prev : ∀ x ∈ h.prev, x ∈ chart)
    (same : h.size = (Header.read a.memory (r.start + off)).size) :
    (setHeader r off h).Meets a (fun _ b => Relinked r chart a b) fun _ => False := by
  refine (charted.meets_rewrite member fits next prev).mono ?_ fun _ => id
  rintro - b ⟨chartedB, stored, others⟩
  refine ⟨chartedB, fun x inChart => ?_⟩
  by_cases here : x = off
  · rw [here, stored, same]
  · rw [others x inChart here]

theorem Charted.meets_setNext (charted : a.Charted r chart) (member : off ∈ chart) (known : ∀ x ∈ link, x ∈ chart) :
    (setNext r off link).Meets a (fun _ b => Relinked r chart a b) fun _ => False := by
  unfold setNext
  refine (charted.meets_header member).bind ?_
  rintro h _ ⟨rfl, entry⟩
  exact charted.meets_resize member (entry.fits.setNext (charted.link_lt known)) known entry.prev entry.size

theorem Charted.meets_setPrev (charted : a.Charted r chart) (member : off ∈ chart) (known : ∀ x ∈ link, x ∈ chart) :
    (setPrev r off link).Meets a (fun _ b => Relinked r chart a b) fun _ => False := by
  unfold setPrev
  refine (charted.meets_header member).bind ?_
  rintro h _ ⟨rfl, entry⟩
  exact charted.meets_resize member (entry.fits.setPrev (charted.link_lt known)) entry.next known entry.size

theorem Charted.meets_linkBehind {prev next : Option Nat} (charted : a.Charted r chart)
    (known : ∀ x ∈ prev, x ∈ chart) (also : ∀ x ∈ next, x ∈ chart) :
    (linkBehind r prev next).Meets a (fun _ b => Relinked r chart a b) fun _ => False := by
  cases prev with
  | some prev => exact charted.meets_setNext (known prev rfl) also
  | none =>
    refine Meets.of_runFrom (runFrom_setFirst next a) ⟨?_, fun _ _ => rfl⟩
    exact ⟨charted.covered, charted.holds, charted.clear, also, charted.next, charted.prev⟩

theorem Charted.meets_linkInFront {prev next : Option Nat} (charted : a.Charted r chart)
    (known : ∀ x ∈ next, x ∈ chart) (also : ∀ x ∈ prev, x ∈ chart) :
    (linkInFront r next prev).Meets a (fun _ b => Relinked r chart a b) fun _ => False := by
  cases next with
  | some next => exact charted.meets_setPrev (known next rfl) also
  | none => exact charted.relinked

/-- A block of the chart is taken out of the list, and what is left of the list does not leave the chart. -/
theorem Charted.meets_detach (charted : a.Charted r chart) (member : off ∈ chart) :
    (detach r off).Meets a (fun _ b => Relinked r chart a b) fun _ => False := by
  unfold detach
  refine (charted.meets_header member).bind ?_
  rintro old _ ⟨rfl, entry⟩
  refine (charted.meets_linkBehind entry.prev entry.next).bind ?_
  intro _ b behind
  refine (behind.charted.meets_linkInFront entry.next entry.prev).bind ?_
  intro _ c inFront
  refine (inFront.charted.meets_header member).bind ?_
  rintro h _ ⟨rfl, entry⟩
  have fits := entry.fits
  have cut : (Header.mk h.magic h.tag h.size none none).Fits :=
    ⟨fits.magic, fits.tag, fits.size, by simp, by simp⟩
  refine (inFront.charted.meets_resize member cut (by simp) (by simp) entry.size).mono ?_ fun _ => id
  intro _ d cleared
  exact (behind.trans inFront).trans cleared

/-- The walk for a place in the list does not leave the chart. -/
theorem Charted.around (charted : a.Charted r chart) (off hops : Nat) {prev next : Option Nat}
    (known : ∀ x ∈ prev, x ∈ chart) (also : ∀ x ∈ next, x ∈ chart) :
    r.around a.memory off hops prev next ≠ .error .headerOutOfBounds ∧
      ∀ links, r.around a.memory off hops prev next = .ok links →
        (∀ x ∈ links.1, x ∈ chart) ∧ ∀ x ∈ links.2, x ∈ chart := by
  induction hops generalizing prev next with
  | zero =>
    cases next with
    | none =>
      refine ⟨by simp [Region.around], ?_⟩
      rintro links ⟨⟩
      exact ⟨known, also⟩
    | some next => simp [Region.around]
  | succ hops ih =>
    cases next with
    | none =>
      refine ⟨by simp [Region.around], ?_⟩
      rintro links ⟨⟩
      exact ⟨known, also⟩
    | some next =>
      have member := also next rfl
      rw [Region.around]
      by_cases before : next < off
      · rw [if_pos before, Region.header_of_holds _ (charted.holds next member)]
        dsimp only [bind, Except.bind]
        refine ih ?_ (charted.next next member)
        rintro x ⟨⟩
        exact member
      · rw [if_neg before]
        refine ⟨by simp, ?_⟩
        rintro links ⟨⟩
        exact ⟨known, also⟩

/-- The search for a block looks at a link before it follows it, whatever the memory holds. What it finds is the intact
header of a free block that is large enough. -/
theorem firstFit_outcome {m : Memory} (need hops : Nat) (link : Option Nat) :
    r.firstFit m need hops link ≠ .error .headerOutOfBounds ∧
      ∀ off, r.firstFit m need hops link = .ok (.found off) → r.HoldsHeader off ∧
        (Header.read m (r.start + off)).isIntact = true ∧ (Header.read m (r.start + off)).isFree = true ∧
          need ≤ (Header.read m (r.start + off)).size := by
  induction hops generalizing link with
  | zero => cases link <;> simp [Region.firstFit]
  | succ hops ih =>
    cases link with
    | none => simp [Region.firstFit]
    | some off =>
      rw [Region.firstFit]
      by_cases holds : r.HoldsHeader off
      · rw [if_pos holds]
        generalize stored : Header.read m (r.start + off) = h
        dsimp only
        by_cases intact : h.isIntact = true
        · rw [if_pos intact]
          by_cases suits : h.isFree = true ∧ need ≤ h.size
          · rw [if_pos suits]
            refine ⟨by simp, ?_⟩
            rintro other ⟨⟩
            rw [stored]
            exact ⟨holds, intact, suits⟩
          · rw [if_neg suits]
            exact ih h.next
        · simp [intact]
      · simp [holds]

/-- The search does not leave the chart. -/
theorem Charted.mem_of_firstFit {hops : Nat} (charted : a.Charted r chart) (known : ∀ x ∈ link, x ∈ chart)
    (found : r.firstFit a.memory need hops link = .ok (.found off)) : off ∈ chart := by
  induction hops generalizing link with
  | zero => cases link <;> simp [Region.firstFit] at found
  | succ hops ih =>
    cases link with
    | none => simp [Region.firstFit] at found
    | some start =>
      have member := known start rfl
      have next := charted.next start member
      rw [Region.firstFit, if_pos (charted.holds start member)] at found
      generalize Header.read a.memory (r.start + start) = h at found next
      dsimp only at found
      by_cases intact : h.isIntact = true
      · rw [if_pos intact] at found
        by_cases suits : h.isFree = true ∧ need ≤ h.size
        · rw [if_pos suits] at found
          cases found
          exact member
        · rw [if_neg suits] at found
          exact ih next found
      · simp [intact] at found

theorem avoids_header {post : Header → Arena → Prop} (holds : r.HoldsHeader off) :
    (header r off).Avoids .headerOutOfBounds a post ↔ post (Header.read a.memory (r.start + off)) a := by
  unfold Avoids
  rw [runFrom_header, Region.header_of_holds _ holds]

/-- Only an access to a header is stopped by the fault that charts are about. -/
theorem avoids_add {x y : Nat} {post : Nat → Arena → Prop} (holds : x + y < wordLimit → post (x + y) a) :
    (liftM (Word.add x y) : Machine Arena Nat).Avoids .headerOutOfBounds a post := by
  by_cases word : x + y < wordLimit
  · rw [Word.add_of_lt word]
    exact holds word
  · rw [Word.add_of_not_lt word]
    exact avoids_lift (by simp) (by simp)

theorem avoids_sub {x y : Nat} {post : Nat → Arena → Prop} (holds : y ≤ x → post (x - y) a) :
    (liftM (Word.sub x y) : Machine Arena Nat).Avoids .headerOutOfBounds a post := by
  by_cases ordered : y ≤ x
  · rw [Word.sub_of_le ordered]
    exact holds ordered
  · rw [Word.sub, if_neg ordered]
    exact avoids_lift (by simp) (by simp)

/-- A block is put into the list, and belongs to the chart from then on. -/
theorem Charted.avoids_attach (charted : a.Charted r chart) (holds : r.HoldsHeader off) (clear : Clear chart off) :
    (attach r off).Avoids .headerOutOfBounds a fun _ b => b.Charted r (insert off chart) := by
  have fresh : ∀ x ∈ (none : Option Nat), x ∈ chart := by simp
  obtain ⟨bounded, inside⟩ := charted.around off r.hopLimit fresh charted.first
  have wider : ∀ {link : Option Nat}, (∀ x ∈ link, x ∈ chart) → ∀ x ∈ link, x ∈ insert off chart :=
    fun known x same => Set.mem_insert_of_mem _ (known x same)
  have itself : ∀ x ∈ some off, x ∈ insert off chart := by
    rintro x ⟨⟩
    exact Set.mem_insert ..
  unfold attach
  rw [avoids_bind, avoids_get, avoids_bind]
  refine avoids_lift bounded ?_
  rintro ⟨prev, next⟩ found
  obtain ⟨known, also⟩ := inside _ found
  dsimp only at known also ⊢
  have fits := Header.fits_read a.memory (r.start + off)
  rw [avoids_bind, avoids_header holds]
  generalize Header.read a.memory (r.start + off) = h at fits ⊢
  have linked : Header.Fits { h with next, prev } :=
    ⟨fits.magic, fits.tag, fits.size, charted.link_lt also, charted.link_lt known⟩
  refine (charted.meets_setHeader holds clear linked (wider also) (wider known)).bind_avoids ?_
  rintro - b ⟨chartedB, -⟩
  refine (chartedB.meets_linkBehind (wider known) itself).bind_avoids ?_
  intro _ c behind
  exact ((behind.charted.meets_linkInFront (wider also) itself).mono (fun _ _ done => done.charted) fun _ => id).avoids

/-- The payload of a block of the chart grows by a block of the chart, whose mark is taken away. -/
theorem Charted.avoids_merge {next : Nat} (charted : a.Charted r chart) (member : off ∈ chart) (other : next ∈ chart) :
    (merge r off next size).Avoids .headerOutOfBounds a fun _ b => b.Charted r chart := by
  unfold merge
  refine (charted.meets_header member).bind_avoids ?_
  rintro h _ ⟨rfl, entry⟩
  rw [avoids_bind]
  refine avoids_add fun word => ?_
  refine (charted.meets_rewrite member (entry.fits.setSize word) entry.next entry.prev).bind_avoids ?_
  rintro - b ⟨chartedB, -⟩
  unfold wipe
  refine (chartedB.meets_header other).bind_avoids ?_
  rintro h _ ⟨rfl, entry⟩
  refine ((chartedB.meets_rewrite other entry.fits.wipe entry.next entry.prev).mono ?_ fun _ => id).avoids
  rintro - c ⟨chartedC, -⟩
  exact chartedC

theorem Charted.avoids_joinNext (charted : a.Charted r chart) (member : off ∈ chart) :
    (joinNext r off).Avoids .headerOutOfBounds a fun _ b => b.Charted r chart := by
  unfold joinNext
  refine (charted.meets_header member).bind_avoids ?_
  rintro ⟨magic, tag, size, _ | next, prev⟩ _ ⟨rfl, entry⟩
  · exact charted
  have other := entry.next next rfl
  dsimp only [blockEnd]
  rw [avoids_bind]
  refine avoids_add fun _ => ?_
  split
  · refine (charted.meets_header other).bind_avoids ?_
    rintro absorbed _ ⟨rfl, -⟩
    split
    · refine (charted.meets_detach other).bind_avoids ?_
      intro _ b relinked
      exact relinked.charted.avoids_merge member other
    · exact charted
  · exact charted

theorem Charted.avoids_joinPrev (charted : a.Charted r chart) (member : off ∈ chart) :
    (joinPrev r off).Avoids .headerOutOfBounds a fun _ b => b.Charted r chart := by
  unfold joinPrev
  refine (charted.meets_header member).bind_avoids ?_
  rintro ⟨magic, tag, size, next, _ | prev⟩ _ ⟨rfl, entry⟩
  · exact charted
  have other := entry.prev prev rfl
  refine (charted.meets_header other).bind_avoids ?_
  rintro survivor _ ⟨rfl, -⟩
  dsimp only
  split
  · rw [blockEnd, avoids_bind]
    refine avoids_add fun _ => ?_
    split
    · refine (charted.meets_detach member).bind_avoids ?_
      intro _ b relinked
      exact relinked.charted.avoids_merge other member
    · exact charted
  · exact charted

theorem Charted.avoids_join (charted : a.Charted r chart) (member : off ∈ chart) :
    (join r off).Avoids .headerOutOfBounds a fun _ b => b.Charted r chart :=
  (charted.avoids_joinNext member).bind fun _ _ chartedB => chartedB.avoids_joinPrev member

/-- The payload that the header at `off` tells lies in the region, in front of the headers of the chart behind it. -/
structure Roomy (a : Arena) (r : Region) (chart : Set Nat) (off : Nat) : Prop where
  within : off + Header.width + (Header.read a.memory (r.start + off)).size ≤ r.size
  apart : ∀ x ∈ chart, off < x → off + Header.width + (Header.read a.memory (r.start + off)).size ≤ x

theorem Roomy.keep (roomy : a.Roomy r chart off) (member : off ∈ chart) (sizes : KeepsSizes r chart a b) :
    b.Roomy r chart off := by
  constructor
  · rw [sizes off member]
    exact roomy.within
  · rw [sizes off member]
    exact roomy.apart

/-- In a heap that is in order, every block has room. -/
theorem Shows.roomy {plan : List Parcel} (shows : a.Shows r plan) :
    ∀ off ∈ plan.map Parcel.off, a.Roomy r { off | off ∈ plan.map Parcel.off } off := by
  intro off member
  obtain ⟨p, inPlan, rfl⟩ := List.mem_map.mp member
  obtain ⟨prev, next, stored⟩ := shows.recorded.of_mem inPlan
  have size : (Header.read a.memory (r.start + p.off)).size = p.size := by rw [stored, Parcel.header_size]
  have within := (shows.spans.bounds inPlan).2
  unfold Parcel.stop at within
  constructor
  · omega
  · intro x inChart behind
    obtain ⟨q, inPlanToo, rfl⟩ := List.mem_map.mp inChart
    have apart := shows.spans.apart inPlan inPlanToo (Nat.ne_of_lt behind)
    unfold Parcel.stop at apart
    omega

/-- Behind the first `need` bytes of the payload there is a place for a header, clear of the chart. -/
theorem Roomy.place_of_rest (roomy : a.Roomy r chart off) (charted : a.Charted r chart) (member : off ∈ chart)
    (aligned : need % Config.heapAlignment = 0)
    (splits : need + Header.width ≤ (Header.read a.memory (r.start + off)).size) :
    r.HoldsHeader (off + Header.width + need) ∧ Clear chart (off + Header.width + need) := by
  obtain ⟨within, apart⟩ := roomy
  refine ⟨⟨?_, by omega⟩, ?_⟩
  · have := (charted.holds off member).1
    simp only [Header.width, Config.heapAlignment] at *
    omega
  · intro x inChart other
    rcases Nat.lt_trichotomy off x with behind | rfl | before
    · have := apart x inChart behind
      omega
    · omega
    · have := charted.clear off member x inChart (Nat.ne_of_lt before)
      omega

/-- A block of the chart is cut down inside its payload, and the rest belongs to the chart from then on. -/
theorem Charted.avoids_trim (charted : a.Charted r chart) (member : off ∈ chart) (roomy : a.Roomy r chart off)
    (aligned : need % Config.heapAlignment = 0) :
    (trim r off need).Avoids .headerOutOfBounds a fun _ b => ∃ wider, b.Charted r wider := by
  unfold trim
  refine (charted.meets_header member).bind_avoids ?_
  rintro h _ ⟨rfl, entry⟩
  rw [avoids_bind]
  refine avoids_add fun _ => ?_
  by_cases splits : need + (Header.width + Config.heapMinPayload) ≤ h.size
  swap
  · rw [if_neg splits]
    exact ⟨chart, charted⟩
  have size := entry.fits.size
  have room : need + Header.width ≤ h.size := by omega
  rw [entry.size] at room
  obtain ⟨holds, clear⟩ := roomy.place_of_rest charted member aligned room
  rw [if_pos splits, blockEnd, avoids_bind]
  refine avoids_add fun _ => ?_
  generalize off + Header.width + need = rest at holds clear
  -- The rest gets its header before the block is cut down, and so belongs to the chart before the links are changed.
  have fits : (Header.free (h.size - need - Header.width)).Fits := Header.fits_free (by omega)
  refine (charted.meets_setHeader holds clear fits (by simp [Header.free]) (by simp [Header.free])).bind_avoids ?_
  rintro - b ⟨chartedB, -⟩
  have inWider : off ∈ insert rest chart := Set.mem_insert_of_mem _ member
  have cut : (Header.mk h.magic h.tag need h.next h.prev).Fits := entry.fits.setSize (by omega)
  refine (chartedB.meets_rewrite inWider cut (fun x same => Set.mem_insert_of_mem _ (entry.next x same))
    fun x same => Set.mem_insert_of_mem _ (entry.prev x same)).bind_avoids ?_
  rintro - c ⟨chartedC, -⟩
  have restIn : rest ∈ insert rest chart := Set.mem_insert ..
  refine (chartedC.avoids_attach holds (chartedC.clear rest restIn)).bind ?_
  intro _ d chartedD
  rw [Set.insert_eq_of_mem restIn] at chartedD
  exact (chartedD.avoids_join restIn).mono fun _ _ chartedE => ⟨_, chartedE⟩

end Arena
end KernelCore
