import KernelCore.Proofs.Heap.Marks

namespace KernelCore.Arena
open Machine Parcel
variable {r : Region} {a b : Arena} {left right : List Parcel} {p : Parcel} {start stop : Nat}

/-- The link behind the parcels in front of a place can be set to anything. -/
theorem meets_linkBehind {next next' : Option Nat} (covered : a.memory.Covers r.start r.size)
    (spans : Spans 0 left stop) (within : stop ≤ r.size) (recorded : Recorded r a.memory none left next)
    (first : a.heap.first = firstLink left next) (fits : ∀ off, next' = some off → off < wordLimit - 1) :
    (linkBehind r (lastLink none left) next').Meets a (fun _ b =>
      Recorded r b.memory none left next' ∧ b.heap.first = firstLink left next' ∧
        Rewrote r (left.map Parcel.off) a b) fun _ => False := by
  rcases last_listed left with unlisted | ⟨front, q, back, rfl, listed, unlisted⟩
  · rw [lastLink_of_unlisted unlisted]
    refine Meets.of_runFrom (runFrom_setFirst next' a)
      ⟨?_, ?_, ⟨⟨rfl, rfl, fun _ _ => Iff.rfl, fun _ _ => rfl⟩, rfl⟩⟩
    · exact recorded.of_unlisted unlisted _ _
    · exact (firstLink_of_unlisted unlisted next').symm
  · have here : lastLink none (front ++ q :: back) = some q.off := by
      rw [lastLink_append, lastLink_cons, link_of_listed listed, lastLink_of_unlisted unlisted]
    have holds : r.HoldsHeader q.off := holdsHeader_of_spans spans rfl within (by simp)
    obtain ⟨spansFront, -, spansBack⟩ := spans_around.mp spans
    obtain ⟨inFront, atQ, behind⟩ := recorded_around.mp recorded
    rw [header_of_listed (isListed_iff.mp listed)] at atQ
    rw [here]
    refine (meets_setNext holds covered atQ fits).mono ?_ fun _ => id
    rintro - b ⟨heap, stored, rewrote⟩
    refine ⟨recorded_around.mpr ⟨?_, ?_, ?_⟩, ?_, rewrote.mono (by simp)⟩
    · rw [link_of_listed listed] at inFront ⊢
      exact rewrote.recorded_below inFront spansFront (by simp)
    · rw [header_of_listed (isListed_iff.mp listed), firstLink_of_unlisted unlisted next']
      exact stored
    · refine (rewrote.recorded_above behind spansBack ?_).of_unlisted unlisted _ _
      simp only [List.forall_mem_singleton, Parcel.stop]
      omega
    · rw [heap, first]
      simp only [firstLink_append, firstLink_cons, link_of_listed listed]

theorem meets_linkInFront {prev prev' : Option Nat} (covered : a.memory.Covers r.start r.size)
    (spans : Spans start right r.size) (aligned : start % Config.heapAlignment = 0)
    (recorded : Recorded r a.memory prev right none)
    (fits : ∀ off, prev' = some off → off < wordLimit - 1) :
    (linkInFront r (firstLink right none) prev').Meets a (fun _ b =>
      Recorded r b.memory prev' right none ∧ b.heap.first = a.heap.first ∧
        Rewrote r (right.map Parcel.off) a b) fun _ => False := by
  rcases first_listed right with unlisted | ⟨front, q, back, rfl, listed, unlisted⟩
  · rw [firstLink_of_unlisted unlisted]
    exact ⟨recorded.of_unlisted unlisted _ _, rfl, Rewrote.refl ..⟩
  · have here : firstLink (front ++ q :: back) none = some q.off := by
      rw [firstLink_append, firstLink_cons, link_of_listed listed, firstLink_of_unlisted unlisted]
    have holds : r.HoldsHeader q.off := holdsHeader_of_spans spans aligned (Nat.le_refl _) (by simp)
    obtain ⟨spansFront, -, spansBack⟩ := spans_around.mp spans
    obtain ⟨inFront, atQ, behind⟩ := recorded_around.mp recorded
    rw [header_of_listed (isListed_iff.mp listed)] at atQ
    rw [here]
    refine (meets_setPrev holds covered atQ fits).mono ?_ fun _ => id
    rintro - b ⟨heap, stored, rewrote⟩
    refine ⟨recorded_around.mpr ⟨?_, ?_, ?_⟩, congrArg Heap.first heap, rewrote.mono (by simp)⟩
    · exact (rewrote.recorded_below inFront spansFront (by simp)).of_unlisted unlisted _ _
    · rw [header_of_listed (isListed_iff.mp listed), lastLink_of_unlisted unlisted prev']
      exact stored
    · rw [link_of_listed listed] at behind ⊢
      refine rewrote.recorded_above behind spansBack ?_
      simp only [List.forall_mem_singleton, Parcel.stop]
      omega

/-- What is in front of a stretch of the region and what is behind it shows two parts of a plan. The
stretch is entered by the link `next` and left by the link `prev`. -/
structure Flanks (a : Arena) (r : Region) (left : List Parcel) (lo : Nat) (next prev : Option Nat) (hi : Nat)
    (right : List Parcel) : Prop where
  region : a.heap.region = some r
  covered : a.memory.Covers r.start r.size
  spansLeft : Spans 0 left lo
  spansRight : Spans hi right r.size
  ordered : lo ≤ hi
  aligned : hi % Config.heapAlignment = 0
  first : a.heap.first = firstLink left next
  inFront : Recorded r a.memory none left next
  behind : Recorded r a.memory prev right none

/-- The middle of a plan lies between its flanks. -/
theorem Shows.flanks (mid : List Parcel) (shows : a.Shows r (left ++ (mid ++ right))) :
    ∃ lo hi, Spans lo mid hi ∧ Recorded r a.memory (lastLink none left) mid (firstLink right none) ∧
      Flanks a r left lo (firstLink mid (firstLink right none)) (lastLink (lastLink none left) mid) hi
        right := by
  obtain ⟨lo, spansLeft, spans⟩ := spans_append.mp shows.spans
  obtain ⟨hi, spansMid, spansRight⟩ := spans_append.mp spans
  obtain ⟨inFront, recorded⟩ := recorded_append.mp shows.recorded
  obtain ⟨recordedMid, behind⟩ := recorded_append.mp recorded
  have first := shows.first
  simp only [firstLink_append] at first inFront
  exact ⟨lo, hi, spansMid, recordedMid, shows.region, shows.covered, spansLeft, spansRight, spansMid.le,
    spansMid.stop_aligned (spansLeft.stop_aligned rfl), first, inFront, behind⟩

namespace Flanks
variable {lo hi : Nat} {next prev : Option Nat}

/-- A middle that fits between the flanks completes the plan. -/
theorem shows (mid : List Parcel) (flanks : a.Flanks r left lo next prev hi right) (spans : Spans lo mid hi)
    (recorded : Recorded r a.memory (lastLink none left) mid (firstLink right none))
    (forward : next = firstLink mid (firstLink right none))
    (backward : prev = lastLink (lastLink none left) mid) : a.Shows r (left ++ (mid ++ right)) := by
  subst forward backward
  refine ⟨flanks.region, flanks.covered, ?_, ?_, ?_⟩
  · exact spans_append.mpr ⟨lo, flanks.spansLeft, spans_append.mpr ⟨hi, spans, flanks.spansRight⟩⟩
  · simpa only [firstLink_append] using flanks.first
  · refine recorded_append.mpr ⟨?_, recorded_append.mpr ⟨recorded, flanks.behind⟩⟩
    simpa only [firstLink_append] using flanks.inFront

/-- A single parcel between the flanks completes the plan. -/
theorem shows_one (flanks : a.Flanks r left p.off next prev p.stop right)
    (whole : p.size % Config.heapAlignment = 0)
    (stored : Header.read a.memory (r.start + p.off) = p.header (lastLink none left) (firstLink right none))
    (forward : next = p.link (firstLink right none)) (backward : prev = p.link (lastLink none left)) :
    a.Shows r (left ++ p :: right) :=
  flanks.shows [p] ⟨rfl, whole, rfl⟩ ⟨stored, trivial⟩ forward backward

theorem rewrote {zone : List Nat} (flanks : a.Flanks r left lo next prev hi right)
    (rewrote : Rewrote r zone a b) (first : b.heap.first = a.heap.first)
    (between : ∀ z ∈ zone, lo ≤ z ∧ z + Header.width ≤ hi) : b.Flanks r left lo next prev hi right where
  region := rewrote.region.trans flanks.region
  covered := (rewrote.covers ..).mpr flanks.covered
  spansLeft := flanks.spansLeft
  spansRight := flanks.spansRight
  ordered := flanks.ordered
  aligned := flanks.aligned
  first := first.trans flanks.first
  inFront := rewrote.recorded_below flanks.inFront flanks.spansLeft fun z member => (between z member).1
  behind := rewrote.recorded_above flanks.behind flanks.spansRight fun z member => (between z member).2

theorem meets_setHeader {h : Header} {off : Nat} (flanks : a.Flanks r left lo next prev hi right)
    (aligned : off % Config.heapAlignment = 0) (above : lo ≤ off) (below : off + Header.width ≤ hi)
    (fits : h.Fits) :
    (setHeader r off h).Meets a (fun _ b => b.Flanks r left lo next prev hi right ∧
      Header.read b.memory (r.start + off) = h ∧ Rewrote r [off] a b) fun _ => False := by
  have holds : r.HoldsHeader off := ⟨aligned, Nat.le_trans below flanks.spansRight.le⟩
  refine (Arena.meets_setHeader holds flanks.covered fits).mono ?_ fun _ => id
  rintro - b ⟨heap, stored, rewrote⟩
  refine ⟨flanks.rewrote rewrote (congrArg Heap.first heap) ?_, stored, rewrote⟩
  simpa only [List.forall_mem_singleton] using ⟨above, below⟩

/-- The links into the stretch and out of it can be set to anything. -/
theorem meets_relink {next' prev' : Option Nat} (flanks : a.Flanks r left lo next prev hi right)
    (fitsNext : ∀ off, next' = some off → off < wordLimit - 1)
    (fitsPrev : ∀ off, prev' = some off → off < wordLimit - 1) :
    (do linkBehind r (lastLink none left) next'
        linkInFront r (firstLink right none) prev').Meets a (fun _ b =>
      b.Flanks r left lo next' prev' hi right ∧
        (∀ off, lo ≤ off → off + Header.width ≤ hi →
          Header.read b.memory (r.start + off) = Header.read a.memory (r.start + off)) ∧
        Rewrote r ((left ++ right).map Parcel.off) a b) fun _ => False := by
  have below := fun z member => (flanks.spansLeft.header_bounds z member).2
  have above := fun z member => (flanks.spansRight.header_bounds z member).1
  have within := Nat.le_trans flanks.ordered flanks.spansRight.le
  refine (meets_linkBehind flanks.covered flanks.spansLeft within flanks.inFront flanks.first fitsNext).bind ?_
  rintro - b ⟨inFrontB, firstB, rewroteB⟩
  have behindB := rewroteB.recorded_above flanks.behind flanks.spansRight fun z member =>
    Nat.le_trans (below z member) flanks.ordered
  refine (meets_linkInFront ((rewroteB.covers ..).mpr flanks.covered) flanks.spansRight flanks.aligned behindB
    fitsPrev).mono ?_ fun _ => id
  rintro - c ⟨behindC, firstC, rewroteC⟩
  have inFrontC := rewroteC.recorded_below inFrontB flanks.spansLeft fun z member =>
    Nat.le_trans flanks.ordered (above z member)
  refine ⟨{ flanks with
    region := (rewroteC.region.trans rewroteB.region).trans flanks.region
    covered := (rewroteC.covers ..).mpr ((rewroteB.covers ..).mpr flanks.covered)
    first := firstC.trans firstB
    inFront := inFrontC
    behind := behindC }, ?_, ?_⟩
  · intro off lower upper
    rw [rewroteC.read off fun z member => Or.inr (Nat.le_trans upper (above z member)),
      rewroteB.read off fun z member => Or.inl (Nat.le_trans (below z member) lower)]
  · exact (rewroteB.mono (by simp)).trans (rewroteC.mono (by simp))

end Flanks

/-- A listed parcel can be taken out of the list; it stays marked as free. -/
theorem meets_detach (shows : a.Shows r (left ++ p :: right)) (listed : p.tenure = .listed) :
    (detach r p.off).Meets a (fun _ b => b.Shows r (left ++ p.become .loose :: right) ∧
      Rewrote r ((left ++ p :: right).map Parcel.off) a b ∧
      StaysGenuine r (left ++ p :: right) (left ++ p.become .loose :: right) a b)
      fun _ => False := by
  have isListed := isListed_iff.mpr listed
  have holds : r.HoldsHeader p.off := holdsHeader_of_spans shows.spans rfl (Nat.le_refl _) (by simp)
  obtain ⟨lo, hi, ⟨rfl, whole, rfl⟩, ⟨atP, -⟩, flanks⟩ := shows.flanks [p]
  have room : p.off + Header.width ≤ p.stop := by unfold Parcel.stop; omega
  have within := flanks.spansRight.le
  rw [header_of_listed listed] at atP
  unfold detach
  rw [meets_bind, meets_header holds, atP, ← bind_assoc]
  refine (flanks.meets_relink (firstLink_lt flanks.spansRight (Nat.le_refl _))
    (lastLink_lt (r := r) flanks.spansLeft (by omega))).bind ?_
  rintro - b ⟨flanksB, kept, rewroteB⟩
  rw [meets_bind, meets_header holds, kept p.off (Nat.le_refl _) room, atP]
  refine (flanksB.meets_setHeader (h := Header.free p.size) holds.1 (Nat.le_refl _) room
    (Header.fits_free ?_)).mono ?_ fun _ => id
  · have := r.size_lt
    unfold Parcel.stop at within
    omega
  · rintro - c ⟨flanksC, stored, rewroteC⟩
    have rewrote : Rewrote r ((left ++ p :: right).map Parcel.off) a c :=
      (rewroteB.mono (by simp)).trans (rewroteC.mono (by simp))
    have showsC : c.Shows r (left ++ p.become .loose :: right) := by
      refine flanksC.shows_one (p := p.become .loose) whole ?_ ?_ ?_
      · exact stored.trans (header_of_loose (p := p.become .loose) rfl ..).symm
      · exact (link_of_unlisted rfl _).symm
      · exact (link_of_unlisted rfl _).symm
    exact ⟨showsC, rewrote, rewrote.staysGenuine_of_starts showsC (by simp) (by simp)⟩

/-- The walk along the list stops around a place between its parcels. -/
theorem around_of_recorded {m : Memory} {prev next : Option Nat} {off hops : Nat}
    (recorded : Recorded r m prev left next) (spans : Spans start left stop)
    (aligned : start % Config.heapAlignment = 0) (within : stop ≤ r.size) (before : stop ≤ off)
    (behind : ∀ x, next = some x → off ≤ x) (enough : left.length < hops) :
    r.around m off hops prev (firstLink left next) = .ok (lastLink prev left, next) := by
  induction left generalizing prev start hops with
  | nil =>
    obtain ⟨hops, rfl⟩ := Nat.exists_eq_add_of_lt enough
    cases next with
    | none => rfl
    | some x =>
      have later := behind x rfl
      simp only [firstLink_nil, lastLink_nil, Region.around]
      rw [if_neg (by omega)]
  | cons q rest ih =>
    have holds := holdsHeader_of_spans spans aligned within (List.mem_cons_self ..)
    have reaches := spans.2.2.le
    have first : Spans _ [q] q.stop := ⟨spans.1, spans.2.1, rfl⟩
    have alignedStop := first.stop_aligned aligned
    rw [List.length_cons] at enough
    rw [firstLink_cons, lastLink_cons]
    by_cases listed : q.isListed = true
    · obtain ⟨hops, rfl⟩ : ∃ k, hops = k + 1 := ⟨hops - 1, by omega⟩
      have early : q.off < off := by
        simp only [Parcel.stop, Header.width] at reaches
        omega
      have here := recorded.1
      have later := recorded.2
      rw [link_of_listed listed] at later
      rw [link_of_listed listed, link_of_listed listed, Region.around, if_pos early,
        Region.header_of_holds _ holds, here, header_of_listed (isListed_iff.mp listed)]
      exact ih later spans.2.2 alignedStop (by omega)
    -- A parcel that is not listed takes no hop, and leaves the links as they are.
    · have unlisted : q.isListed = false := by simpa using listed
      have later := recorded.2
      rw [link_of_unlisted unlisted] at later
      rw [link_of_unlisted unlisted, link_of_unlisted unlisted]
      exact ih later spans.2.2 alignedStop (by omega)

/-- A plan has fewer parcels than a walk along the list may have hops. -/
theorem length_lt_hopLimit {plan : List Parcel} (spans : Spans 0 plan stop) (within : stop ≤ r.size) :
    plan.length < r.hopLimit := by
  have := spans.length_le
  simp only [Region.hopLimit, Header.width, Config.heapAlignment] at *
  omega

/-- A free parcel can be put into the list. -/
theorem meets_attach (shows : a.Shows r (left ++ p :: right)) (loose : p.tenure = .loose) :
    (attach r p.off).Meets a (fun _ b => b.Shows r (left ++ p.become .listed :: right) ∧
      Rewrote r ((left ++ p :: right).map Parcel.off) a b ∧
      StaysGenuine r (left ++ p :: right) (left ++ p.become .listed :: right) a b)
      fun _ => False := by
  have unlisted : p.isListed = false := by simp [isListed, loose]
  have holds : r.HoldsHeader p.off := holdsHeader_of_spans shows.spans rfl (Nat.le_refl _) (by simp)
  obtain ⟨lo, hi, ⟨rfl, whole, rfl⟩, ⟨atP, -⟩, flanks⟩ := shows.flanks [p]
  simp only [firstLink_cons, firstLink_nil, lastLink_cons, lastLink_nil, link_of_unlisted unlisted] at atP flanks
  have room : p.off + Header.width ≤ p.stop := by unfold Parcel.stop; omega
  have within := flanks.spansRight.le
  have fitsNext := firstLink_lt flanks.spansRight (Nat.le_refl _)
  have fitsPrev := lastLink_lt (r := r) flanks.spansLeft (by omega)
  have fitsOff : ∀ x, some p.off = some x → x < wordLimit - 1 :=
    some_lt (r := r) (by simp only [Header.width] at room; omega)
  have walk : r.around a.memory p.off r.hopLimit none a.heap.first =
      .ok (lastLink none left, firstLink right none) := by
    rw [flanks.first]
    refine around_of_recorded flanks.inFront flanks.spansLeft rfl (by omega) (Nat.le_refl _) ?_
      (length_lt_hopLimit flanks.spansLeft (by omega))
    intro x link
    obtain ⟨q, member, -, rfl⟩ := exists_of_firstLink link
    have := (flanks.spansRight.bounds member).1
    omega
  unfold attach
  rw [meets_bind, meets_get, meets_bind, walk, meets_lift_ok, meets_bind, meets_header holds, atP,
    header_of_loose loose]
  have fits : (⟨Config.heapMagic, 1, p.size, firstLink right none, lastLink none left⟩ : Header).Fits := by
    have small := r.size_lt
    unfold Parcel.stop at within
    have size : p.size < wordLimit := by omega
    exact ((Header.fits_free size).setNext fitsNext).setPrev fitsPrev
  refine (flanks.meets_setHeader holds.1 (Nat.le_refl _) room fits).bind ?_
  rintro - b ⟨flanksB, stored, rewroteB⟩
  refine (flanksB.meets_relink fitsOff fitsOff).mono ?_ fun _ => id
  rintro - c ⟨flanksC, kept, rewroteC⟩
  have rewrote : Rewrote r ((left ++ p :: right).map Parcel.off) a c :=
    (rewroteB.mono (by simp)).trans (rewroteC.mono (by simp))
  have showsC : c.Shows r (left ++ p.become .listed :: right) := by
    refine flanksC.shows_one (p := p.become .listed) whole ?_ ?_ ?_
    · rw [off_become, kept p.off (Nat.le_refl _) room, stored]
      exact (header_of_listed (p := p.become .listed) rfl ..).symm
    · exact (link_of_listed (p := p.become .listed) rfl _).symm
    · exact (link_of_listed (p := p.become .listed) rfl _).symm
  exact ⟨showsC, rewrote, rewrote.staysGenuine_of_starts showsC (by simp) (by simp)⟩

end KernelCore.Arena
