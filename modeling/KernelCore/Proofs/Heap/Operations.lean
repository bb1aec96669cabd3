import KernelCore.Heap.Resize
import KernelCore.Proofs.Heap.Soundness

namespace KernelCore

namespace Parcel

/-- The plan after the first `need` bytes of a listed parcel were given to a client. -/
def carved (left : List Parcel) (p : Parcel) (need : Nat) (right : List Parcel) : List Parcel :=
  left ++ (p.become .taken).fitted need :: (p.become .taken).cutOff need right

/-- The plan after a taken parcel was given back. -/
def reclaimed (left : List Parcel) (p : Parcel) (right : List Parcel) : List Parcel :=
  joined left (p.become .listed) right

/-- The plan after a taken parcel was cut down. -/
def shrunk (left : List Parcel) (p : Parcel) (need : Nat) (right : List Parcel) : List Parcel :=
  left ++ p.fitted need :: p.cutOff need right

/-- A listed parcel that can hold `need` bytes. -/
def suits (need : Nat) (p : Parcel) : Bool := p.isListed && decide (need ≤ p.size)

/-- Why a plan has no parcel for `size` bytes. -/
inductive Refuses (plan : List Parcel) (size : Nat) : HeapError → Prop where
  | zeroSize (zero : size = 0) : Refuses plan size .zeroSize
  | overflow (positive : size ≠ 0) (large : Word.roundUp? size Config.heapAlignment = none) :
    Refuses plan size .overflow
  | outOfMemory {need : Nat} (positive : size ≠ 0)
    (rounded : Word.roundUp? size Config.heapAlignment = some need)
    (full : ∀ p ∈ plan, p.suits need = false) : Refuses plan size .outOfMemory

/-- A parcel has room for `size` bytes, but the heap cannot tell whether to cut it. -/
def Overtaxed (plan : List Parcel) (size : Nat) : Prop :=
  ∃ p ∈ plan, ∃ need, Word.roundUp? size Config.heapAlignment = some need ∧ need ≤ p.size ∧ ¬Gauged need

variable {left right plan : List Parcel} {p : Parcel} {need : Nat}

/-- Only a parcel that fills nearly all of the address space is out of bounds for the heap. -/
theorem Spans.le_of_not_gauged {r : Region} (spans : Spans 0 plan r.size) (member : p ∈ plan)
    (enough : need ≤ p.size) (large : ¬Gauged need) : wordLimit ≤ r.size + Config.heapMinPayload := by
  have within := (spans.bounds member).2
  simp only [Gauged, Parcel.stop] at large within
  omega

theorem settled_shrunk (settled : Settled (left ++ p :: right)) (taken : p.tenure = .taken) :
    Settled (shrunk left p need right) := by
  obtain ⟨settledLeft, settledRight⟩ := (settled_around_taken taken).mp settled
  exact (settled_around_taken (by simpa using taken)).mpr ⟨settledLeft, settled_cutOff settledRight⟩

theorem settled_carved (settled : Settled (left ++ p :: right)) (listed : p.tenure = .listed) :
    Settled (carved left p need right) := by
  obtain ⟨settledLeft, settledRight, -⟩ := (settled_around_listed listed).mp settled
  exact settled_shrunk ((settled_around_taken (p := p.become .taken) rfl).mpr ⟨settledLeft, settledRight⟩) rfl

theorem settled_reclaimed (settled : Settled (left ++ p :: right)) (taken : p.tenure = .taken) :
    Settled (reclaimed left p right) := by
  obtain ⟨settledLeft, settledRight⟩ := (settled_around_taken taken).mp settled
  exact settled_joined settledLeft settledRight rfl

theorem takens_shrunk (taken : p.tenure = .taken) :
    takens (shrunk left p need right) = takens left ++ p.fitted need :: takens right := by
  rw [shrunk, takens_append, takens_cons_of_taken (by simpa using taken), takens_cutOff]

theorem takens_carved (left : List Parcel) (p : Parcel) (need : Nat) (right : List Parcel) :
    takens (carved left p need right) = takens left ++ (p.become .taken).fitted need :: takens right :=
  takens_shrunk rfl

theorem takenSize_shrunk (taken : p.tenure = .taken) :
    takenSize (shrunk left p need right) = takenSize left + (p.fitted need).size + takenSize right := by
  rw [takenSize_eq, takens_shrunk taken, List.map_append, List.sum_append, List.map_cons, List.sum_cons,
    ← takenSize_eq, ← takenSize_eq, Nat.add_assoc]

theorem takenSize_carved (left : List Parcel) (p : Parcel) (need : Nat) (right : List Parcel) :
    takenSize (carved left p need right) =
      takenSize left + ((p.become .taken).fitted need).size + takenSize right := takenSize_shrunk rfl

theorem takens_reclaimed (left : List Parcel) (p : Parcel) (right : List Parcel) :
    takens (reclaimed left p right) = takens left ++ takens right := takens_joined _ _ rfl

theorem takenSize_reclaimed (left : List Parcel) (p : Parcel) (right : List Parcel) :
    takenSize (reclaimed left p right) = takenSize left + takenSize right := by
  rw [takenSize_eq, takens_reclaimed, List.map_append, List.sum_append, ← takenSize_eq, ← takenSize_eq]

end Parcel

namespace Arena
open Machine Parcel
variable {a b : Arena} {r : Region} {left right plan : List Parcel} {p : Parcel} {need : Nat}

/-- The search stops at the first parcel that is listed and large enough. -/
theorem firstFit_of_recorded (need : Nat) {m : Memory} {prev : Option Nat} {start hops : Nat}
    (recorded : Recorded r m prev plan none) (spans : Spans start plan r.size)
    (aligned : start % Config.heapAlignment = 0) (enough : plan.length < hops) :
    r.firstFit m need hops (firstLink plan none) =
      .ok (match plan.find? (suits need) with
        | some p => .found p.off
        | none => .exhausted) := by
  induction plan generalizing prev start hops with
  | nil => cases hops <;> rfl
  | cons p rest ih =>
    have holds := holdsHeader_of_spans spans aligned (Nat.le_refl _) (List.mem_cons_self ..)
    have first : Spans start [p] p.stop := ⟨spans.1, spans.2.1, rfl⟩
    have alignedStop := first.stop_aligned aligned
    have here := recorded.1
    rw [List.length_cons] at enough
    obtain ⟨hops, rfl⟩ : ∃ k, hops = k + 1 := ⟨hops - 1, by omega⟩
    by_cases listed : p.isListed = true
    · rw [header_of_listed (isListed_iff.mp listed)] at here
      rw [firstLink_cons, link_of_listed listed, Region.firstFit, if_pos holds, here]
      by_cases large : need ≤ p.size
      · have suits : p.suits need = true := by simp [Parcel.suits, listed, large]
        rw [List.find?_cons_of_pos suits]
        simp [Header.isIntact, Header.isFree, large]
      · have suits : ¬p.suits need = true := by simp [Parcel.suits, large]
        rw [List.find?_cons_of_neg suits]
        simp only [Header.isIntact, BEq.rfl, if_true, large, and_false, if_false]
        exact ih recorded.2 spans.2.2 alignedStop (by omega)
    · have unlisted : p.isListed = false := by simpa using listed
      have suits : ¬p.suits need = true := by simp [Parcel.suits, unlisted]
      have later := recorded.2
      rw [link_of_unlisted unlisted] at later
      rw [firstLink_cons, link_of_unlisted unlisted, List.find?_cons_of_neg suits]
      exact ih later spans.2.2 alignedStop (by omega)

theorem Shows.size_read (shows : a.Shows r plan) (member : p ∈ plan) :
    (Header.read a.memory (r.start + p.off)).size = p.size := by
  obtain ⟨prev, next, here⟩ := shows.recorded.of_mem member
  rw [here, header_size]

theorem Shows.holdsHeader (shows : a.Shows r plan) (member : p ∈ plan) : r.HoldsHeader p.off :=
  holdsHeader_of_spans shows.spans rfl (Nat.le_refl _) member

/-- The payload that a plan counts is less than any word can hold. -/
theorem Shows.takenSize_lt (shows : a.Shows r plan) : takenSize plan < wordLimit := by
  have := shows.spans.takenSize_le
  have := r.size_lt
  omega

/-- A listed parcel that is large enough can be given to a client. -/
theorem meets_carve (sound : a.Sound r (left ++ p :: right)) (listed : p.tenure = .listed)
    (aligned : need % Config.heapAlignment = 0) (enough : need ≤ p.size) :
    (carve r p.off need).Meets a (fun ptr b => ptr = r.payload p.off ∧ Gauged need ∧
      b.Sound r (carved left p need right) ∧
      Wrote r (((left ++ p :: right) ++ carved left p need right).map Parcel.off) a b ∧
      StaysGenuine r (left ++ p :: right) (carved left p need right) a b)
      fun _ => ¬Gauged need := by
  have holds := sound.shows.holdsHeader (p := p) (by simp)
  have settled : Settled (carved left p need right) := settled_carved sound.settled listed
  unfold carve
  refine (meets_detach sound.shows listed).excused.bind ?_
  rintro - b ⟨showsB, rewroteB, staysB⟩
  have atP := (recorded_around.mp showsB.recorded).2.1
  rw [header_of_loose (p := p.become .loose) rfl] at atP
  rw [meets_bind, meets_header holds]
  dsimp only [off_become] at atP
  rw [atP]
  refine (meets_retag (p := p.become .loose) .taken showsB (by simp) (by simp)).excused.bind ?_
  rintro - c ⟨showsC, rewroteC, staysC⟩
  refine (meets_trim (p := p.become .taken) showsC rfl aligned enough).bind ?_
  rintro - d ⟨gauged, showsD, rewroteD, staysD⟩
  have size := showsD.size_read (p := (p.become .taken).fitted need) (by simp)
  have bound := showsD.takenSize_lt
  have used : d.heap.used = takenSize left + takenSize right := by
    rw [rewroteD.used, rewroteC.used, rewroteB.used, sound.used, takenSize_append,
      takenSize_cons_of_listed listed]
  have total : takenSize (carved left p need right) = d.heap.used + ((p.become .taken).fitted need).size := by
    rw [takenSize_carved, used]
    omega
  rw [off_fitted, off_become] at size
  rw [meets_bind, meets_header holds, meets_bind, meets_get, meets_bind, size,
    Word.add_of_lt (by rw [← total]; exact bound), meets_lift_ok]
  have rewrote : Rewrote r (((left ++ p :: right) ++ carved left p need right).map Parcel.off) a d :=
    ((rewroteB.mono (List.map_subset _ (List.subset_append_left ..))).trans (rewroteC.mono (by simp))).trans
      (rewroteD.mono (by simp [carved]))
  exact ⟨rfl, gauged, ⟨showsD.setUsed _, settled, total.symm⟩, rewrote.toWrote.setUsed _,
    (staysB.trans staysC).trans staysD⟩

/-- A taken parcel can be put back. -/
theorem meets_reclaim (sound : a.Sound r (left ++ p :: right)) (taken : p.tenure = .taken) :
    (reclaim r p.off (p.header none none)).Meets a (fun _ b => b.Sound r (reclaimed left p right) ∧
      Wrote r ((left ++ p :: right).map Parcel.off) a b ∧
      StaysGenuine r (left ++ p :: right) (reclaimed left p right) a b)
      fun _ => False := by
  have settled := settled_reclaimed sound.settled taken
  have before : a.heap.used = takenSize (reclaimed left p right) + p.size := by
    rw [sound.used, takenSize_reclaimed, takenSize_append, takenSize_cons_of_taken taken]
    omega
  unfold reclaim
  rw [meets_bind, meets_get, meets_bind, header_size, Word.sub_of_le (by omega), meets_lift_ok, meets_bind]
  refine Meets.of_runFrom (runFrom_setUsed _ a) ?_
  rw [header_of_taken taken]
  refine (meets_retag .loose (sound.shows.setUsed _) (by simp [taken]) (by simp)).bind ?_
  rintro - b ⟨showsB, rewroteB, staysB⟩
  refine (meets_attach (p := p.become .loose) showsB rfl).bind ?_
  rintro - c ⟨showsC, rewroteC, staysC⟩
  refine (meets_join (p := p.become .listed) showsC rfl).mono ?_ fun _ => id
  rintro - d ⟨showsD, rewroteD, staysD⟩
  have rewrote : Rewrote r ((left ++ p :: right).map Parcel.off) _ d :=
    ((rewroteB.mono (by simp)).trans (rewroteC.mono (by simp))).trans (rewroteD.mono (by simp))
  have used : d.heap.used = takenSize (reclaimed left p right) := by
    rw [rewrote.used]
    dsimp only
    omega
  exact ⟨⟨showsD, settled, used⟩, ⟨rewrote.region, rewrote.notices, rewrote.covers, rewrote.byte⟩,
    (staysB.trans staysC).trans staysD⟩

theorem meets_shrink (sound : a.Sound r (left ++ p :: right)) (taken : p.tenure = .taken)
    (aligned : need % Config.heapAlignment = 0) (enough : need ≤ p.size) :
    (shrink r p.off (p.header none none) need).Meets a (fun _ b => b.Sound r (shrunk left p need right) ∧
      Wrote r (((left ++ p :: right) ++ shrunk left p need right).map Parcel.off) a b ∧
      StaysGenuine r (left ++ p :: right) (shrunk left p need right) a b)
      fun _ => ¬Gauged need := by
  have holds := sound.shows.holdsHeader (p := p) (by simp)
  have settled : Settled (shrunk left p need right) := settled_shrunk sound.settled taken
  have smaller := (size_fitted enough).2
  unfold shrink
  refine (meets_trim sound.shows taken aligned enough).bind ?_
  rintro - b ⟨-, showsB, rewroteB, staysB⟩
  have size := showsB.size_read (p := p.fitted need) (by simp)
  have used : b.heap.used = takenSize (shrunk left p need right) + (p.size - (p.fitted need).size) := by
    rw [rewroteB.used, sound.used, takenSize_shrunk taken, takenSize_append, takenSize_cons_of_taken taken]
    omega
  rw [off_fitted] at size
  rw [meets_bind, meets_header holds, meets_bind, size, header_size, Word.sub_of_le smaller, meets_lift_ok,
    meets_bind, meets_get, meets_bind, Word.sub_of_le (by omega), meets_lift_ok]
  refine Meets.of_runFrom (runFrom_setUsed _ b) ?_
  exact ⟨⟨showsB.setUsed _, settled, by dsimp only; omega⟩, rewroteB.toWrote.setUsed _, staysB⟩

theorem payload_ne_zero (r : Region) (off : Nat) : r.payload off ≠ 0 := by
  have := r.start_pos
  unfold Region.payload
  omega

/-- The payload of a parcel begins inside the region, unless it is empty and at the end of it. -/
theorem Shows.room (shows : a.Shows r plan) (member : p ∈ plan) (nonempty : 0 < p.size) :
    p.off + Header.width < r.size := by
  have within := (shows.spans.bounds member).2
  unfold Parcel.stop at within
  omega

/-- The address of a taken parcel names its block. -/
theorem Shows.blockOf_eq (shows : a.Shows r plan) (member : p ∈ plan) (taken : p.tenure = .taken)
    (room : p.off + Header.width < r.size) : r.blockOf a.memory (r.payload p.off) = .ok p.off := by
  have holds := shows.holdsHeader member
  obtain ⟨prev, next, here⟩ := shows.recorded.of_mem member
  rw [header_of_taken taken] at here
  have place : r.payload p.off - r.start - Header.width = p.off := by
    unfold Region.payload
    omega
  have inside : ¬(r.payload p.off < r.start + Header.width ∨ r.stop ≤ r.payload p.off) := by
    unfold Region.payload Region.stop
    omega
  unfold Region.blockOf
  rw [if_neg inside]
  simp only [place, holds, here, Header.isIntact, if_true, BEq.rfl]

/-- The capacity of a taken parcel is its size. -/
theorem Shows.capacity?_eq (shows : a.Shows r plan) (member : p ∈ plan) (taken : p.tenure = .taken)
    (room : p.off + Header.width < r.size) : a.capacity? (r.payload p.off) = some p.size := by
  simp only [capacity?, shows.region, shows.blockOf_eq member taken room, shows.size_read member]

/-- The address of a taken parcel is recognized. -/
theorem runFrom_judge (shows : a.Shows r plan) (member : p ∈ plan) (taken : p.tenure = .taken)
    (room : p.off + Header.width < r.size) : (judge r (r.payload p.off)).runFrom a =
      (.ok (.live p.off (p.header none none)), a) := by
  have holds := shows.holdsHeader member
  have block := shows.blockOf_eq member taken room
  obtain ⟨prev, next, here⟩ := shows.recorded.of_mem member
  rw [header_of_taken taken] at here
  unfold judge
  rw [runFrom_bind, runFrom_get]
  simp only [block]
  rw [runFrom_bind, runFrom_header, Region.header_of_holds _ holds, here, header_of_taken taken]
  rfl

theorem attempt_judge (shows : a.Shows r plan) (member : p ∈ plan) (taken : p.tenure = .taken)
    (room : p.off + Header.width < r.size) : attempt (liftM (judge r (r.payload p.off)) : HeapAction Standing) a =
      (.ok (.ok (.live p.off (p.header none none))), a) := by
  rw [attempt_lift, runFrom_judge shows member taken room]
  rfl

theorem attempt_region (has : a.heap.region = some r) : attempt region a = (.ok (.ok r), a) := by
  unfold region
  rw [attempt_bind, attempt_get]
  simp only [has, attempt_pure]

theorem attempt_onMemory (change : Memory → Memory) (a : Arena) :
    attempt (liftM (onMemory change) : HeapAction Unit) a =
      (.ok (.ok ()), { a with memory := change a.memory }) := rfl

/-- What a search that came to an end answers, and the notice it leaves. -/
def answer (r : Region) (a : Arena) : Region.Fit → Except HeapError Nat × Arena
  | .found off => (.ok off, a)
  | .exhausted => (.error .outOfMemory, a)
  | .wildLink off => (.error .corrupted, { a with notices := a.notices.push (.wildLink off) })
  | .badHeader off => (.error .corrupted, { a with notices := a.notices.push (.badFreeBlock (r.start + off)) })

theorem attempt_findFit_of_fit {fit : Region.Fit}
    (search : r.firstFit a.memory need r.hopLimit a.heap.first = .ok fit) :
    attempt (findFit r need) a = (.ok (answer r a fit).1, (answer r a fit).2) := by
  unfold findFit
  rw [attempt_bind, attempt_get]
  dsimp only
  rw [attempt_bind, attempt_lift_outcome, search]
  cases fit <;> rfl

/-- The search for a parcel changes nothing. -/
theorem attempt_findFit (need : Nat) (shows : a.Shows r plan) :
    attempt (findFit r need) a = (.ok (match plan.find? (suits need) with
      | some p => .ok p.off
      | none => .error .outOfMemory), a) := by
  have search := firstFit_of_recorded need shows.recorded shows.spans rfl
    (length_lt_hopLimit shows.spans (Nat.le_refl _))
  rw [← shows.first] at search
  rw [attempt_findFit_of_fit search]
  cases plan.find? (suits need) <;> rfl

theorem attempt_release_of_live {ptr off : Nat} {h : Header} (region : a.heap.region = some r) (nonzero : ptr ≠ 0)
    (judged : attempt (liftM (judge r ptr) : HeapAction Standing) a = (.ok (.ok (.live off h)), a)) :
    attempt (release ptr) a = attempt (liftM (reclaim r off h) : HeapAction Unit) a := by
  unfold release
  rw [if_pos nonzero, attempt_bind, attempt_region region]
  dsimp only
  rw [attempt_bind, judged]

/-- What an address names that was recognized is put back. -/
theorem meets_release_of_live {ptr : Nat} (sound : a.Sound r (left ++ p :: right)) (taken : p.tenure = .taken)
    (nonzero : ptr ≠ 0) (judged : attempt (liftM (judge r ptr) : HeapAction Standing) a =
      (.ok (.ok (.live p.off (p.header none none))), a)) :
    (release ptr).run.Meets a (fun result b => result = .ok () ∧
      b.Sound r (reclaimed left p right) ∧ Wrote r ((left ++ p :: right).map Parcel.off) a b ∧
      StaysGenuine r (left ++ p :: right) (reclaimed left p right) a b)
      fun _ => False := by
  rw [meets_run_congr (attempt_release_of_live sound.shows.region nonzero judged), meets_run_lift]
  exact (meets_reclaim sound taken).mono (fun _ _ post => ⟨rfl, post⟩) fun _ => id

theorem meets_release (sound : a.Sound r (left ++ p :: right)) (taken : p.tenure = .taken)
    (room : p.off + Header.width < r.size) :
    (release (r.payload p.off)).run.Meets a (fun result b => result = .ok () ∧
      b.Sound r (reclaimed left p right) ∧ Wrote r ((left ++ p :: right).map Parcel.off) a b ∧
      StaysGenuine r (left ++ p :: right) (reclaimed left p right) a b)
      fun _ => False :=
  meets_release_of_live sound taken (payload_ne_zero r p.off) (attempt_judge sound.shows (by simp) taken room)

/-- Memory that is to have no bytes is given back. -/
theorem resize_to_zero {ptr : Nat} (nonzero : ptr ≠ 0) : resize ptr 0 = (fun _ => none) <$> release ptr := by
  unfold resize
  rw [if_neg nonzero, if_pos rfl]
  rfl

/-- Once its address is recognized, a taken parcel is cut down or moved. -/
theorem attempt_resize_of_live {size : Nat} (shows : a.Shows r plan) (member : p ∈ plan) (taken : p.tenure = .taken)
    (room : p.off + Header.width < r.size) (positive : size ≠ 0) :
    attempt (resize (r.payload p.off) size) a = attempt (match Word.roundUp? size Config.heapAlignment with
      | none => throw .overflow
      | some need =>
        if need ≤ p.size then do
          shrink r p.off (p.header none none) need
          pure (some (r.payload p.off))
        else some <$> relocate (r.payload p.off) (p.header none none) size) a := by
  unfold resize
  rw [if_neg (payload_ne_zero r p.off), if_neg positive, attempt_bind, attempt_get]
  simp only [shows.region]
  rw [attempt_bind, attempt_judge shows member taken room]
  dsimp only
  cases Word.roundUp? size Config.heapAlignment with
  | none => rfl
  | some need =>
    rw [header_size]
    dsimp only
    split
    · rfl
    · rw [map_eq_pure_bind]

theorem attempt_release_zero (a : Arena) : attempt (release 0) a = (.ok (.ok ()), a) := rfl

/-- An allocation is refused, and then nothing has changed, or it gives the payload of the first parcel
that is large enough. -/
theorem meets_allocate (sound : a.Sound r plan) (size : Nat) :
    (allocate size).run.Meets a (fun result b =>
      match result with
      | .error cause => b = a ∧ Refuses plan size cause
      | .ok ptr => ∃ left p right need, plan = left ++ p :: right ∧ size ≠ 0 ∧
        Word.roundUp? size Config.heapAlignment = some need ∧ p.suits need = true ∧
        (∀ q ∈ left, q.suits need = false) ∧ ptr = r.payload p.off ∧ Gauged need ∧
        b.Sound r (carved left p need right) ∧
        Wrote r ((plan ++ carved left p need right).map Parcel.off) a b ∧
        StaysGenuine r plan (carved left p need right) a b)
      fun _ => Overtaxed plan size := by
  unfold allocate
  rw [meets_run_bind_of_attempt (attempt_region sound.shows.region)]
  by_cases zero : size = 0
  · rw [if_pos zero]
    exact ⟨rfl, .zeroSize zero⟩
  rw [if_neg zero]
  dsimp only
  cases rounded : Word.roundUp? size Config.heapAlignment with
  | none => exact ⟨rfl, .overflow zero rounded⟩
  | some need =>
    obtain ⟨-, aligned, -, -⟩ := Word.roundUp?_eight_eq_some_iff.mp rounded
    have search := attempt_findFit need sound.shows
    dsimp only
    cases found : plan.find? (suits need) with
    | none =>
      rw [found] at search
      have exhausted : (findFit r need).run.Meets a (fun result b => b = a ∧ result = .error .outOfMemory)
          fun _ => Overtaxed plan size := Meets.of_runFrom search ⟨rfl, rfl⟩
      refine exhausted.run_bind (by simp) ?_
      rintro cause b ⟨rfl, same⟩
      obtain rfl := Except.error.inj same
      exact ⟨rfl, .outOfMemory zero rounded fun p member => by simpa using List.find?_eq_none.mp found p member⟩
    | some p =>
      obtain ⟨suits, left, right, rfl, before⟩ := List.find?_eq_some_iff_append.mp found
      obtain ⟨listed, enough⟩ : p.isListed = true ∧ need ≤ p.size := by simpa [Parcel.suits] using suits
      rw [found] at search
      rw [meets_run_bind_of_attempt search, meets_run_lift]
      refine (meets_carve sound (isListed_iff.mp listed) aligned enough).mono ?_ fun _ large =>
        ⟨p, by simp, need, rounded, enough, large⟩
      rintro ptr b ⟨rfl, gauged, soundB, wrote, stays⟩
      exact ⟨left, p, right, need, rfl, zero, rfl, suits, fun q member => by simpa using before q member, rfl,
        gauged, soundB, wrote, stays⟩

end Arena
end KernelCore
