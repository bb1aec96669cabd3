import KernelCore.Proofs.Heap.Links

namespace KernelCore

namespace Parcel

/-- The parcel together with the one behind it. -/
def extend (p q : Parcel) : Parcel := { p with size := p.size + (Header.width + q.size) }

/-- The parcel together with the first one behind it, if that one is listed. -/
def absorb (p : Parcel) : List Parcel → Parcel
  | [] => p
  | q :: _ => if q.isListed then p.extend q else p

/-- What a listed parcel leaves of the parcels behind it. -/
def absorbed : List Parcel → List Parcel
  | [] => []
  | q :: rest => if q.isListed then rest else q :: rest

/-- The plan around a listed parcel once it is joined with the last parcel in front of it, if that one is
listed. -/
def joinedInFront (left : List Parcel) (p : Parcel) (right : List Parcel) : List Parcel :=
  match left.getLast? with
  | none => p :: right
  | some q => if q.isListed then left.dropLast ++ q.extend p :: right else left ++ p :: right

/-- The plan around a listed parcel once it is joined with its listed neighbours. -/
def joined (left : List Parcel) (p : Parcel) (right : List Parcel) : List Parcel :=
  joinedInFront left (p.absorb right) (absorbed right)

/-- What is left of a parcel behind its first `need` bytes. -/
def rest (p : Parcel) (need : Nat) : Parcel :=
  ⟨p.off + Header.width + need, p.size - need - Header.width, .listed⟩

/-- The first `need` bytes of a parcel. -/
def cut (p : Parcel) (need : Nat) : Parcel := { p with size := need }

/-- The parcel once it is cut down to `need` bytes, if what is left over can be a block. -/
def fitted (p : Parcel) (need : Nat) : Parcel :=
  if need + (Header.width + Config.heapMinPayload) ≤ p.size then p.cut need else p

/-- What follows the parcel once it is cut down. -/
def cutOff (p : Parcel) (need : Nat) (right : List Parcel) : List Parcel :=
  if need + (Header.width + Config.heapMinPayload) ≤ p.size then
    (p.rest need).absorb right :: absorbed right
  else right

/-- The sum that tells whether a parcel can be cut down to `need` bytes is a word. -/
def Gauged (need : Nat) : Prop := need + (Header.width + Config.heapMinPayload) < wordLimit

variable {p q : Parcel}

@[simp] theorem off_extend (p q : Parcel) : (p.extend q).off = p.off := rfl

@[simp] theorem tenure_extend (p q : Parcel) : (p.extend q).tenure = p.tenure := rfl

theorem not_isTaken_of_listed (listed : p.tenure = .listed) : p.isTaken = false := by
  simp [isTaken, listed]

@[simp] theorem off_absorb (p : Parcel) (right : List Parcel) : (p.absorb right).off = p.off := by
  cases right with
  | nil => rfl
  | cons q rest =>
    simp only [absorb]
    split <;> rfl

@[simp] theorem tenure_absorb (p : Parcel) (right : List Parcel) : (p.absorb right).tenure = p.tenure := by
  cases right with
  | nil => rfl
  | cons q rest =>
    simp only [absorb]
    split <;> rfl

theorem absorbed_sublist (right : List Parcel) : (absorbed right).Sublist right := by
  cases right with
  | nil => exact List.Sublist.refl _
  | cons q rest =>
    simp only [absorbed]
    split
    · exact List.sublist_cons_self ..
    · exact List.Sublist.refl _

theorem joinedInFront_concat (front : List Parcel) (q p : Parcel) (right : List Parcel) :
    joinedInFront (front ++ [q]) p right =
      if q.isListed then front ++ q.extend p :: right else front ++ q :: p :: right := by
  simp [joinedInFront]

theorem stop_extend (next : q.off = p.stop) : (p.extend q).stop = q.stop := by
  simp only [stop, extend] at *
  omega

/-- No link behind the first parcel leads to where it starts. -/
theorem Spans.firstLink_ne {off stop : Nat} {plan : List Parcel} (spans : Spans off (p :: plan) stop) :
    firstLink plan none ≠ some off := by
  intro link
  obtain ⟨q, member, -, same⟩ := exists_of_firstLink link
  have start : p.off = off := spans.1
  have later := (spans.2.2.bounds member).1
  simp only [Parcel.stop, Header.width] at later
  omega

/-- A parcel in front of the last one does not reach as far. -/
theorem Spans.stop_ne {off stop : Nat} {plan : List Parcel} (spans : Spans off (plan ++ [p]) stop)
    (member : q ∈ plan) : q.stop ≠ stop := by
  intro same
  obtain ⟨before, -, last⟩ := spans_around.mp spans
  have reaches : p.stop = stop := last
  have earlier := (before.bounds member).2
  simp only [Parcel.stop, Header.width] at *
  omega

theorem stop_rest {need : Nat} (splits : need + (Header.width + Config.heapMinPayload) ≤ p.size) :
    (p.rest need).stop = p.stop := by
  simp only [rest, stop]
  omega

/-- The two parts of a parcel take up its place. -/
theorem spans_divided {need : Nat} (aligned : need % Config.heapAlignment = 0)
    (whole : p.size % Config.heapAlignment = 0)
    (splits : need + (Header.width + Config.heapMinPayload) ≤ p.size) :
    Spans p.off [p.cut need, (p.rest need).become .loose] p.stop := by
  refine ⟨rfl, aligned, rfl, ?_, stop_rest splits⟩
  simp only [become, rest, Header.width, Config.heapAlignment] at *
  omega

/-- A parcel that is cut starts only where it did, or where its rest does. -/
theorem map_off_divided (left right : List Parcel) (p : Parcel) (need : Nat) :
    ((left ++ [p.cut need]) ++ p.rest need :: right).map Parcel.off ⊆
      ((left ++ p :: right) ++ (left ++ p.cut need :: (p.rest need).absorb right :: absorbed right)).map
        Parcel.off := by
  intro off member
  simp only [List.map_append, List.map_cons, List.mem_append, List.mem_cons, off_absorb, List.map_nil,
    List.not_mem_nil, or_false] at member ⊢
  rcases member with (inLeft | first) | second | inRight
  · exact Or.inl (Or.inl inLeft)
  · exact Or.inl (Or.inr (Or.inl first))
  · exact Or.inr (Or.inr (Or.inr (Or.inl second)))
  · exact Or.inl (Or.inr (Or.inr inRight))

end Parcel

namespace Arena
open Machine Parcel
variable {r : Region} {a b : Arena} {left right : List Parcel} {p q : Parcel}

theorem blockEnd_of_le (within : p.stop ≤ r.size) : blockEnd p.off p.size = .ok p.stop := by
  have := r.size_lt
  unfold Parcel.stop at within
  exact Word.add_of_lt (by omega)

namespace Flanks
variable {lo hi off : Nat} {next prev : Option Nat}

theorem meets_wipe (flanks : a.Flanks r left lo next prev hi right)
    (aligned : off % Config.heapAlignment = 0) (above : lo ≤ off) (below : off + Header.width ≤ hi) :
    (wipe r off).Meets a (fun _ b => b.Flanks r left lo next prev hi right ∧
      Header.read b.memory (r.start + off) = { Header.read a.memory (r.start + off) with magic := 0, tag := 0 } ∧
      Rewrote r [off] a b) fun _ => False := by
  have holds : r.HoldsHeader off := ⟨aligned, Nat.le_trans below flanks.spansRight.le⟩
  unfold wipe
  rw [meets_bind, meets_header holds]
  generalize here : Header.read a.memory (r.start + off) = h
  have fits : h.Fits := here ▸ Header.fits_read ..
  exact flanks.meets_setHeader aligned above below fits.wipe

end Flanks

/-- Two listed neighbours become one once the second one is out of the list: the first one grows, and the
header of the second one is wiped. -/
theorem meets_merge (shows : a.Shows r (left ++ p :: q :: right)) (listed : p.tenure = .listed)
    (loose : q.tenure = .loose) :
    (merge r p.off q.off q.size).Meets a (fun _ b => b.Shows r (left ++ p.extend q :: right) ∧
      Rewrote r ((left ++ p :: q :: right).map Parcel.off) a b ∧
      StaysGenuine r (left ++ p :: q :: right) (left ++ p.extend q :: right) a b)
      fun _ => False := by
  have unlisted : q.isListed = false := by simp [isListed, loose]
  have isListed := isListed_iff.mpr listed
  have holds : r.HoldsHeader p.off := holdsHeader_of_spans shows.spans rfl (Nat.le_refl _) (by simp)
  have holdsQ : r.HoldsHeader q.off := holdsHeader_of_spans shows.spans rfl (Nat.le_refl _) (by simp)
  obtain ⟨lo, hi, ⟨rfl, wholeP, behindP, wholeQ, rfl⟩, ⟨atP, atQ, -⟩, flanks⟩ := shows.flanks [p, q]
  simp only [firstLink_cons, firstLink_nil, lastLink_cons, lastLink_nil, link_of_unlisted unlisted,
    link_of_listed isListed] at atP flanks
  rw [header_of_loose loose] at atQ
  have within := flanks.spansRight.le
  have small := r.size_lt
  have sized : p.off + Header.width + p.size = q.off := behindP.symm
  have room : q.off + Header.width ≤ q.stop := by unfold Parcel.stop; omega
  have grown : p.size + (Header.width + q.size) < wordLimit := by
    unfold Parcel.stop at within
    omega
  rw [header_of_listed listed] at atP
  have fits : (⟨Config.heapMagic, 1, p.size, firstLink right none, lastLink none left⟩ : Header).Fits :=
    atP ▸ Header.fits_read ..
  unfold merge
  rw [meets_bind, meets_header holds, atP, meets_bind, Word.add_of_lt grown, meets_lift_ok]
  -- Both headers lie between the flanks, so neither write reaches a neighbour.
  refine (flanks.meets_setHeader holds.1 (Nat.le_refl _) (by omega) (fits.setSize grown)).bind ?_
  rintro - b ⟨flanksB, stored, rewroteB⟩
  refine (flanksB.meets_wipe holdsQ.1 (by omega) room).mono ?_ fun _ => id
  rintro - c ⟨flanksC, wiped, rewroteC⟩
  have showsC : c.Shows r (left ++ p.extend q :: right) := by
    refine flanksC.shows [p.extend q] ⟨rfl, ?_, stop_extend behindP⟩ ⟨?_, trivial⟩ ?_ ?_
    · simp only [extend, Header.width, Config.heapAlignment] at *
      omega
    · rw [off_extend, rewroteC.read _ ?_, stored]
      · exact (header_of_listed (p := p.extend q) listed ..).symm
      · simp only [List.forall_mem_singleton]
        omega
    · exact (link_of_listed (p := p.extend q) isListed _).symm
    · exact (link_of_listed (p := p.extend q) isListed _).symm
  have rewrote : Rewrote r [p.off, q.off] a c := (rewroteB.mono (by simp)).trans (rewroteC.mono (by simp))
  rw [rewroteB.read q.off (by simp only [List.forall_mem_singleton]; omega), atQ] at wiped
  refine ⟨showsC, rewrote.mono (by simp), rewrote.staysGenuine showsC ?_ ?_⟩
  · intro off member
    simp only [List.map_append, List.map_cons, List.mem_append, List.mem_cons, off_extend, List.not_mem_nil,
      or_false] at member ⊢
    tauto
  · intro off written other
    have second : off = q.off := by
      rcases List.mem_pair.mp written with rfl | second
      · exact absurd (by simp) other
      · exact second
    subst second
    rw [wiped]
    exact ⟨holdsQ.1, rfl, wholeQ, by simp [Header.free], by simp [Header.free]⟩

/-- Two listed neighbours become one. -/
theorem meets_unite (shows : a.Shows r (left ++ p :: q :: right)) (listed : p.tenure = .listed)
    (listedQ : q.tenure = .listed) :
    (detach r q.off >>= fun _ => merge r p.off q.off q.size).Meets a (fun _ b =>
      b.Shows r (left ++ p.extend q :: right) ∧ Rewrote r ((left ++ p :: q :: right).map Parcel.off) a b ∧
      StaysGenuine r (left ++ p :: q :: right) (left ++ p.extend q :: right) a b)
      fun _ => False := by
  have showsQ : a.Shows r ((left ++ [p]) ++ q :: right) := by simpa using shows
  refine (meets_detach showsQ listedQ).bind ?_
  rintro - b ⟨showsB, rewroteB, staysB⟩
  have showsMerge : b.Shows r (left ++ p :: q.become .loose :: right) := by simpa using showsB
  refine (meets_merge showsMerge listed rfl).mono ?_ fun _ => id
  rintro - c ⟨showsC, rewroteC, staysC⟩
  refine ⟨showsC, (rewroteB.mono (by simp)).trans (rewroteC.mono (by simp)), StaysGenuine.trans ?_ staysC⟩
  simpa using staysB

/-- A listed parcel takes in the one behind it, if that one is listed. -/
theorem meets_joinNext (shows : a.Shows r (left ++ p :: right)) (listed : p.tenure = .listed) :
    (joinNext r p.off).Meets a (fun _ b => b.Shows r (left ++ p.absorb right :: absorbed right) ∧
      Rewrote r ((left ++ p :: right).map Parcel.off) a b ∧
      StaysGenuine r (left ++ p :: right) (left ++ p.absorb right :: absorbed right) a b)
      fun _ => False := by
  have holds : r.HoldsHeader p.off := holdsHeader_of_spans shows.spans rfl (Nat.le_refl _) (by simp)
  obtain ⟨spansLeft, whole, spansRight⟩ := spans_around.mp shows.spans
  obtain ⟨-, atP, behind⟩ := recorded_around.mp shows.recorded
  have stop := blockEnd_of_le spansRight.le
  rw [header_of_listed listed] at atP
  unfold joinNext
  rw [meets_bind, meets_header holds, atP]
  dsimp only
  cases right with
  | nil => exact ⟨shows, .refl .., .refl⟩
  | cons q rest =>
    have adjacent : q.off = p.stop := spansRight.1
    by_cases listedQ : q.isListed = true
    · have holdsQ : r.HoldsHeader q.off := holdsHeader_of_spans shows.spans rfl (Nat.le_refl _) (by simp)
      have tenureQ := isListed_iff.mp listedQ
      simp only [absorb, absorbed, listedQ, if_true]
      rw [firstLink_cons, link_of_listed listedQ]
      dsimp only
      rw [meets_bind, stop, meets_lift_ok, if_pos adjacent, meets_bind, meets_header holdsQ, behind.1,
        header_isIntact, header_isFree, not_isTaken_of_listed tenureQ, header_size, if_pos ⟨rfl, rfl⟩]
      exact meets_unite shows listed tenureQ
    · have unlistedQ : q.isListed = false := by simpa using listedQ
      have apart := spansRight.firstLink_ne
      simp only [absorb, absorbed, unlistedQ, Bool.false_eq_true, if_false]
      rw [firstLink_cons, link_of_unlisted unlistedQ]
      cases link : firstLink rest none with
      | none => exact ⟨shows, .refl .., .refl⟩
      | some x =>
        have other : x ≠ p.stop := by
          rintro rfl
          exact apart link
        dsimp only
        rw [meets_bind, stop, meets_lift_ok, if_neg other]
        exact ⟨shows, .refl .., .refl⟩

/-- A listed parcel is taken in by the one in front of it, if that one is listed. -/
theorem meets_joinPrev (shows : a.Shows r (left ++ p :: right)) (listed : p.tenure = .listed) :
    (joinPrev r p.off).Meets a (fun _ b => b.Shows r (joinedInFront left p right) ∧
      Rewrote r ((left ++ p :: right).map Parcel.off) a b ∧
      StaysGenuine r (left ++ p :: right) (joinedInFront left p right) a b)
      fun _ => False := by
  have holds : r.HoldsHeader p.off := holdsHeader_of_spans shows.spans rfl (Nat.le_refl _) (by simp)
  obtain ⟨spansLeft, whole, spansRight⟩ := spans_around.mp shows.spans
  obtain ⟨inFront, atP, behind⟩ := recorded_around.mp shows.recorded
  rw [header_of_listed listed] at atP
  have below := holds.2
  unfold joinPrev
  rw [meets_bind, meets_header holds, atP]
  dsimp only
  rcases List.eq_nil_or_concat left with rfl | ⟨front, q, rfl⟩
  · exact ⟨shows, .refl .., .refl⟩
  · rw [List.concat_eq_append] at *
    have touches : q.stop = p.off := (spans_around.mp spansLeft).2.2
    rw [List.append_assoc, List.singleton_append] at shows ⊢
    rw [lastLink_append, lastLink_cons, lastLink_nil, joinedInFront_concat]
    by_cases listedQ : q.isListed = true
    · have holdsQ : r.HoldsHeader q.off := holdsHeader_of_spans shows.spans rfl (Nat.le_refl _) (by simp)
      have atQ := (recorded_around.mp shows.recorded).2.1
      have tenureQ := isListed_iff.mp listedQ
      have stop := blockEnd_of_le (shows.spans.bounds (p := q) (by simp)).2
      rw [link_of_listed listedQ]
      simp only [listedQ, if_true]
      rw [meets_bind, meets_header holdsQ, atQ, header_isIntact, header_isFree, not_isTaken_of_listed tenureQ,
        if_pos ⟨rfl, rfl⟩, header_size, meets_bind, stop, meets_lift_ok, if_pos touches]
      exact meets_unite shows tenureQ listed
    · have unlistedQ : q.isListed = false := by simpa using listedQ
      rw [link_of_unlisted unlistedQ]
      simp only [unlistedQ, Bool.false_eq_true, if_false]
      cases link : lastLink none front with
      | none => exact ⟨shows, .refl .., .refl⟩
      | some x =>
        -- The link leads past the parcel in front, to one that does not reach up to this one.
        obtain ⟨s, member, listedS, rfl⟩ := exists_of_lastLink link
        have inPlan : s ∈ front ++ q :: p :: right := List.mem_append_left _ member
        have holdsS : r.HoldsHeader s.off := holdsHeader_of_spans shows.spans rfl (Nat.le_refl _) inPlan
        obtain ⟨prev, next, atS⟩ := shows.recorded.of_mem inPlan
        have stop := blockEnd_of_le (shows.spans.bounds inPlan).2
        dsimp only
        rw [meets_bind, meets_header holdsS, atS, header_isIntact, header_isFree,
          not_isTaken_of_listed (isListed_iff.mp listedS), if_pos ⟨rfl, rfl⟩, header_size, meets_bind, stop,
          meets_lift_ok, if_neg (spansLeft.stop_ne member)]
        exact ⟨shows, .refl .., .refl⟩

theorem meets_join (shows : a.Shows r (left ++ p :: right)) (listed : p.tenure = .listed) :
    (join r p.off).Meets a (fun _ b => b.Shows r (joined left p right) ∧
      Rewrote r ((left ++ p :: right).map Parcel.off) a b ∧
      StaysGenuine r (left ++ p :: right) (joined left p right) a b)
      fun _ => False := by
  unfold join
  refine (meets_joinNext shows listed).bind ?_
  rintro - b ⟨showsB, rewroteB, staysB⟩
  have joins := meets_joinPrev showsB (by simpa using listed)
  rw [off_absorb] at joins
  refine joins.mono ?_ fun _ => id
  rintro - c ⟨showsC, rewroteC, staysC⟩
  refine ⟨showsC, rewroteB.trans (rewroteC.mono ?_), staysB.trans staysC⟩
  simp only [List.map_append, List.map_cons, off_absorb]
  exact ((((absorbed_sublist right).map _).cons_cons _).append_left _).subset

/-- A parcel that is in no list becomes taken, or free. -/
theorem meets_retag (tenure : Tenure) (shows : a.Shows r (left ++ p :: right)) (before : p.tenure ≠ .listed)
    (after : tenure ≠ .listed) :
    (setHeader r p.off ((p.become tenure).header none none)).Meets a (fun _ b =>
      b.Shows r (left ++ p.become tenure :: right) ∧ Rewrote r [p.off] a b ∧
      StaysGenuine r (left ++ p :: right) (left ++ p.become tenure :: right) a b)
      fun _ => False := by
  have unlisted : p.isListed = false := by simpa [isListed] using before
  have unlistedAfter : (p.become tenure).isListed = false := by simp [isListed, after]
  obtain ⟨lo, hi, ⟨rfl, whole, rfl⟩, -, flanks⟩ := shows.flanks [p]
  simp only [firstLink_cons, firstLink_nil, lastLink_cons, lastLink_nil, link_of_unlisted unlisted] at flanks
  have within := flanks.spansRight.le
  have room : p.off + Header.width ≤ p.stop := by unfold Parcel.stop; omega
  have fits : ((p.become tenure).header none none).Fits := fits_header_of_le (r := r) within
  refine (flanks.meets_setHeader (shows.spans.aligned rfl (by simp)).1 (Nat.le_refl _) room fits).mono ?_
    fun _ => id
  rintro - b ⟨flanksB, stored, rewrote⟩
  have showsB : b.Shows r (left ++ p.become tenure :: right) := by
    refine flanksB.shows_one (p := p.become tenure) whole ?_ ?_ ?_
    · exact stored.trans (header_of_unlisted unlistedAfter ..)
    · exact (link_of_unlisted unlistedAfter _).symm
    · exact (link_of_unlisted unlistedAfter _).symm
  exact ⟨showsB, rewrote, rewrote.staysGenuine_of_starts showsB (by simp) (by simp)⟩

/-- A taken parcel is cut in two. The second part is free, but in no list yet. -/
theorem meets_divide {need : Nat} (shows : a.Shows r (left ++ p :: right)) (taken : p.tenure = .taken)
    (aligned : need % Config.heapAlignment = 0)
    (splits : need + (Header.width + Config.heapMinPayload) ≤ p.size) :
    (setHeader r (p.rest need).off (Header.free (p.rest need).size) >>= fun _ =>
      setHeader r p.off ⟨Config.heapMagic, 0, need, none, none⟩).Meets a (fun _ b =>
      b.Shows r ((left ++ [p.cut need]) ++ (p.rest need).become .loose :: right) ∧
        Rewrote r [p.off, (p.rest need).off] a b ∧
        StaysGenuine r (left ++ p :: right) ((left ++ [p.cut need]) ++ (p.rest need).become .loose :: right) a b)
      fun _ => False := by
  have unlisted : p.isListed = false := by simp [isListed, taken]
  have unlistedCut : (p.cut need).isListed = false := unlisted
  obtain ⟨lo, hi, ⟨rfl, whole, rfl⟩, -, flanks⟩ := shows.flanks [p]
  simp only [firstLink_cons, firstLink_nil, lastLink_cons, lastLink_nil, link_of_unlisted unlisted] at flanks
  have within := flanks.spansRight.le
  have small := r.size_lt
  have behind : (p.rest need).off = p.off + Header.width + need := rfl
  have reaches := stop_rest splits
  have start := (shows.spans.aligned rfl (by simp : p ∈ left ++ p :: right)).1
  have divided := spans_divided aligned whole splits
  have startRest : (p.rest need).off % Config.heapAlignment = 0 :=
    (divided.aligned start (by simp : (p.rest need).become .loose ∈ _)).1
  have fitsRest : (Header.free (p.rest need).size).Fits := Header.fits_free (by
    simp only [Parcel.rest, Parcel.stop] at *
    omega)
  have fitsCut : ((p.cut need).header none none).Fits := fits_header_of_le (r := r) (by
    simp only [cut, Parcel.stop] at *
    omega)
  rw [header_of_taken (p := p.cut need) taken] at fitsCut
  refine (flanks.meets_setHeader startRest (by omega) (by unfold Parcel.stop; omega) fitsRest).bind ?_
  rintro - b ⟨flanksB, atRest, rewroteB⟩
  refine (flanksB.meets_setHeader start (Nat.le_refl _) (by unfold Parcel.stop; omega) fitsCut).mono ?_
    fun _ => id
  rintro - c ⟨flanksC, atCut, rewroteC⟩
  have kept := rewroteC.read (p.rest need).off (by
    simp only [List.forall_mem_singleton]
    omega)
  have rewrote : Rewrote r [p.off, (p.rest need).off] a c :=
    (rewroteB.mono (by simp)).trans (rewroteC.mono (by simp))
  have showsC : c.Shows r ((left ++ [p.cut need]) ++ (p.rest need).become .loose :: right) := by
    rw [List.append_assoc]
    refine flanksC.shows [p.cut need, (p.rest need).become .loose] divided ⟨?_, ?_, trivial⟩ ?_ ?_
    · exact atCut.trans (header_of_taken (p := p.cut need) taken ..).symm
    · exact (kept.trans atRest).trans (header_of_loose (p := (p.rest need).become .loose) rfl ..).symm
    · rw [firstLink_cons, firstLink_cons, link_of_unlisted unlistedCut, link_of_unlisted rfl, firstLink_nil]
    · rw [lastLink_cons, lastLink_cons, link_of_unlisted unlistedCut, link_of_unlisted rfl, lastLink_nil]
  refine ⟨showsC, rewrote, rewrote.staysGenuine_of_starts showsC ?_ ?_⟩
  · intro off member
    simp only [cut, off_become, List.map_append, List.map_cons, List.map_nil, List.mem_append, List.mem_cons,
      List.not_mem_nil, or_false] at member ⊢
    tauto
  · simp [cut]

/-- A taken parcel can be cut down. Only the sum that tells whether the rest can be a block could be too
large. -/
theorem meets_trim {need : Nat} (shows : a.Shows r (left ++ p :: right)) (taken : p.tenure = .taken)
    (aligned : need % Config.heapAlignment = 0) (enough : need ≤ p.size) :
    (trim r p.off need).Meets a (fun _ b => Gauged need ∧
      b.Shows r (left ++ p.fitted need :: p.cutOff need right) ∧
      Rewrote r (((left ++ p :: right) ++ (left ++ p.fitted need :: p.cutOff need right)).map Parcel.off) a b ∧
      StaysGenuine r (left ++ p :: right) (left ++ p.fitted need :: p.cutOff need right) a b)
      fun _ => ¬Gauged need := by
  have holds : r.HoldsHeader p.off := holdsHeader_of_spans shows.spans rfl (Nat.le_refl _) (by simp)
  have within := (spans_around.mp shows.spans).2.2.le
  have atP := (recorded_around.mp shows.recorded).2.1
  have small := r.size_lt
  rw [header_of_taken taken] at atP
  unfold trim
  rw [meets_bind, meets_header holds, atP, meets_bind]
  by_cases word : need + (Header.width + Config.heapMinPayload) < wordLimit
  swap
  -- The sum is formed before it is known that the rest can be a block, so the parcel does not bound it.
  · rw [Word.add_of_not_lt word, meets_lift_error]
    exact word
  rw [Word.add_of_lt word, meets_lift_ok]
  dsimp only
  by_cases splits : need + (Header.width + Config.heapMinPayload) ≤ p.size
  swap
  · rw [if_neg splits, fitted, cutOff, if_neg splits, if_neg splits]
    exact ⟨word, shows, .refl .., .refl⟩
  have restEnd : blockEnd p.off need = .ok (p.rest need).off := by
    unfold Parcel.stop at within
    exact Word.add_of_lt (by omega)
  rw [if_pos splits, fitted, cutOff, if_pos splits, if_pos splits, meets_bind, restEnd, meets_lift_ok,
    ← bind_assoc]
  refine (meets_divide shows taken aligned splits).excused.bind ?_
  rintro - b ⟨showsB, rewroteB, staysB⟩
  refine (meets_attach showsB rfl).excused.bind ?_
  rintro - c ⟨showsC, rewroteC, staysC⟩
  refine (meets_join showsC rfl).excused.mono ?_ fun _ => id
  rintro - d ⟨showsD, rewroteD, staysD⟩
  have unlisted : (p.cut need).isListed = false := by simp [isListed, cut, taken]
  rw [joined, joinedInFront_concat, unlisted, if_neg (by decide)] at showsD staysD
  have starts := map_off_divided left right p need
  refine ⟨word, showsD, (rewroteB.mono ?_).trans ((rewroteC.mono ?_).trans (rewroteD.mono ?_)),
    (staysB.trans staysC).trans staysD⟩
  · simp
  · simpa using starts
  · simpa using starts

end Arena
end KernelCore
