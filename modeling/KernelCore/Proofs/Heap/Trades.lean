import KernelCore.Heap.Aligned
import KernelCore.Heap.Resize
import KernelCore.Proofs.Heap.Operations

namespace KernelCore

namespace Parcel
variable {r : Region} {plan : List Parcel} {p q : Parcel} {off stop addr : Nat}

/-- An address lies in the payload of a parcel. -/
def Holds (r : Region) (p : Parcel) (addr : Nat) : Prop :=
  r.payload p.off ≤ addr ∧ addr < r.payload p.off + p.size

/-- One parcel lies behind the other. -/
def Apart (p q : Parcel) : Prop := p.stop ≤ q.off ∨ q.stop ≤ p.off

theorem Apart.symm (apart : p.Apart q) : q.Apart p := Or.symm apart

theorem Apart.off_ne (apart : p.Apart q) : p.off ≠ q.off := by
  simp only [Apart, Parcel.stop, Header.width] at apart
  omega

theorem Apart.not_holds (apart : p.Apart q) (holds : p.Holds r addr) : ¬q.Holds r addr := by
  rintro ⟨lower, upper⟩
  obtain ⟨above, below⟩ := holds
  simp only [Apart, Parcel.stop, Region.payload] at *
  omega

theorem Spans.pairwise (spans : Spans off plan stop) : plan.Pairwise Apart := by
  induction plan generalizing off with
  | nil => exact List.Pairwise.nil
  | cons p rest ih =>
    obtain ⟨-, -, behind⟩ := spans
    exact List.pairwise_cons.mpr ⟨fun q member => Or.inl (behind.bounds member).1, ih behind⟩

/-- No header lies in the payload of a parcel. -/
theorem Spans.outside_of_holds (spans : Spans off plan stop) (inP : p ∈ plan) (inQ : q ∈ plan)
    (holds : p.Holds r addr) : addr < r.start + q.off ∨ r.start + q.off + Header.width ≤ addr := by
  obtain ⟨lower, upper⟩ := holds
  unfold Region.payload at *
  by_cases same : p.off = q.off
  · omega
  · have apart := spans.apart inP inQ same
    unfold Parcel.stop at apart
    omega

end Parcel

namespace Arena
open Machine Parcel
variable {a b c : Arena} {r : Region} {plan plan' : List Parcel} {p q x : Parcel} {addr size : Nat}

/-- What a parcel holds before and after some headers were written is the same. -/
theorem Wrote.byte_of_holds (wrote : Wrote r ((plan ++ plan').map Parcel.off) a b)
    (spans : Spans 0 plan r.size) (spans' : Spans 0 plan' r.size) (inP : p ∈ plan) (inQ : q ∈ plan')
    (holdsP : p.Holds r addr) (holdsQ : q.Holds r addr) : b.memory.byte addr = a.memory.byte addr := by
  refine wrote.byte addr ?_
  intro off member
  obtain ⟨s, inPlans, rfl⟩ := List.mem_map.mp member
  rcases List.mem_append.mp inPlans with before | after
  · exact spans.outside_of_holds inP before holdsP
  · exact spans'.outside_of_holds inQ after holdsQ

theorem Wrote.byte_of_payload (wrote : Wrote r (plan.map Parcel.off) a b) (spans : Spans 0 plan r.size)
    (member : p ∈ plan) (holds : p.Holds r addr) : b.memory.byte addr = a.memory.byte addr := by
  refine wrote.byte addr ?_
  intro off inOffs
  obtain ⟨q, inPlan, rfl⟩ := List.mem_map.mp inOffs
  exact spans.outside_of_holds member inPlan holds

/-- From `a` to `b` nothing but the payload of one parcel was written. -/
structure Stored (r : Region) (p : Parcel) (a b : Arena) : Prop where
  heap : b.heap = a.heap
  notices : b.notices = a.notices
  covers : ∀ addr size, b.memory.Covers addr size ↔ a.memory.Covers addr size
  byte : ∀ addr, ¬p.Holds r addr → b.memory.byte addr = a.memory.byte addr

/-- The heap stays sound whatever is written into its parcels. -/
theorem Sound.stored (sound : a.Sound r plan) (member : p ∈ plan) (stored : Stored r p a b) :
    b.Sound r plan := by
  obtain ⟨⟨region, covered, spans, first, recorded⟩, settled, used⟩ := sound
  refine ⟨⟨?_, (stored.covers ..).mpr covered, spans, ?_, recorded.congr ?_⟩, settled, ?_⟩
  · rw [stored.heap, region]
  · rw [stored.heap, first]
  · intro q inQ
    refine Header.read_congr ?_
    intro addr lower upper
    refine stored.byte addr ?_
    intro holds
    have := spans.outside_of_holds member inQ holds
    omega
  · rw [stored.heap, used]

/-- From `a` to `b` clients gave back the parcels `gone` and were given the parcels `fresh`; what they
keep holds the same bytes. -/
structure Trade (r : Region) (plan plan' gone fresh kept : List Parcel) (a b : Arena) : Prop where
  before : (takens plan).Perm (gone ++ kept)
  after : (takens plan').Perm (fresh ++ kept)
  byte : ∀ q ∈ kept, ∀ addr, q.Holds r addr → b.memory.byte addr = a.memory.byte addr

/-- Where nothing but headers of both plans were written, clients keep what they do not give back. -/
theorem Trade.of_wrote {gone fresh kept : List Parcel} (sound : a.Sound r plan) (soundB : b.Sound r plan')
    (before : (takens plan).Perm (gone ++ kept)) (after : (takens plan').Perm (fresh ++ kept))
    (wrote : Wrote r ((plan ++ plan').map Parcel.off) a b) : Trade r plan plan' gone fresh kept a b where
  before := before
  after := after
  byte q member addr holds := by
    have inOld := mem_takens.mp (before.mem_iff.mpr (List.mem_append_right _ member))
    have inNew := mem_takens.mp (after.mem_iff.mpr (List.mem_append_right _ member))
    exact wrote.byte_of_holds sound.shows.spans soundB.shows.spans inOld.1 inNew.1 holds holds

theorem Sound.pairwise (sound : a.Sound r plan) : (takens plan).Pairwise Apart :=
  sound.shows.spans.pairwise.filter _

/-- A taken parcel is apart from all others. -/
theorem Sound.apart_of_perm {kept : List Parcel} (sound : a.Sound r plan) (around : (takens plan).Perm (p :: kept))
    (member : q ∈ kept) : p.Apart q :=
  (List.pairwise_cons.mp ((around.pairwise_iff Apart.symm).mp sound.pairwise)).1 q member

/-- What is written into a fresh parcel is part of the trade. -/
theorem Trade.stored {gone fresh kept : List Parcel} (trade : Trade r plan plan' gone (x :: fresh) kept a b)
    (sound : b.Sound r plan') (stored : Stored r x b c) : Trade r plan plan' gone (x :: fresh) kept a c where
  before := trade.before
  after := trade.after
  byte q member addr holds := by
    have apart := sound.apart_of_perm trade.after (List.mem_append_right _ member)
    rw [stored.byte addr (apart.symm.not_holds holds)]
    exact trade.byte q member addr holds

/-- A client was given a parcel of at least `size` bytes. -/
structure Granted (r : Region) (plan : List Parcel) (size : Nat) (a : Arena) (x : Parcel)
    (plan' : List Parcel) (b : Arena) : Prop where
  sound : b.Sound r plan'
  trade : Trade r plan plan' [] [x] (takens plan) a b
  nonempty : 0 < size
  enough : size ≤ x.size

theorem Granted.mem (granted : Granted r plan size a x plan' b) : x ∈ takens plan' :=
  granted.trade.after.mem_iff.mpr (List.mem_append_left _ (List.mem_singleton_self x))

/-- What was granted is apart from all that clients had. -/
theorem Granted.apart (granted : Granted r plan size a x plan' b) (member : q ∈ takens plan) : x.Apart q :=
  granted.sound.apart_of_perm granted.trade.after member

theorem Sound.covers (sound : a.Sound r plan) (member : p ∈ plan) (enough : size ≤ p.size) :
    a.memory.Covers (r.payload p.off) size := by
  obtain ⟨lower, upper⟩ := sound.shows.covered
  have within := (sound.shows.spans.bounds member).2
  unfold Parcel.stop at within
  unfold Region.payload
  exact ⟨by omega, by omega⟩

theorem Granted.covers (granted : Granted r plan size a x plan' b) :
    b.memory.Covers (r.payload x.off) size :=
  granted.sound.covers (mem_takens.mp granted.mem).1 granted.enough

theorem Granted.stored (granted : Granted r plan size a x plan' b) (stored : Stored r x b c) :
    Granted r plan size a x plan' c :=
  ⟨granted.sound.stored (mem_takens.mp granted.mem).1 stored, granted.trade.stored granted.sound stored,
    granted.nonempty, granted.enough⟩

/-- What is carved out of a listed parcel is granted. -/
theorem granted_of_carved {left right : List Parcel} {need : Nat} (sound : a.Sound r (left ++ p :: right))
    (positive : size ≠ 0) (rounded : Word.roundUp? size Config.heapAlignment = some need) (suits : p.suits need = true)
    (soundB : b.Sound r (carved left p need right))
    (wrote : Wrote r (((left ++ p :: right) ++ carved left p need right).map Parcel.off) a b) :
    Granted r (left ++ p :: right) size a ((p.become .taken).fitted need) (carved left p need right) b := by
  obtain ⟨listed, enough⟩ : p.isListed = true ∧ need ≤ p.size := by simpa [Parcel.suits] using suits
  obtain ⟨-, -, covers, -⟩ := Word.roundUp?_eight_eq_some_iff.mp rounded
  have large := (size_fitted (p := p.become .taken) enough).1
  have before : takens (left ++ p :: right) = takens left ++ takens right := by
    rw [takens_append, takens_cons_of_listed (isListed_iff.mp listed)]
  refine ⟨soundB, .of_wrote sound soundB (by simp) ?_ wrote, by omega, by omega⟩
  rw [takens_carved, before]
  exact List.perm_middle

/-- An allocation is refused, and then nothing has changed, or it grants a fresh parcel. -/
theorem meets_grant (sound : a.Sound r plan) (size : Nat) :
    (allocate size).run.Meets a (fun result b =>
      match result with
      | .error _ => b = a
      | .ok ptr => ∃ x plan', ptr = r.payload x.off ∧ Granted r plan size a x plan' b)
      fun _ => wordLimit ≤ r.size + Config.heapMinPayload := by
  refine (meets_allocate sound size).mono ?_ fun _ ⟨p, member, need, _, enough, large⟩ =>
    sound.shows.spans.le_of_not_gauged member enough large
  rintro (cause | ptr) b post
  · exact post.1
  · obtain ⟨left, p, right, need, rfl, positive, rounded, suits, -, rfl, -, soundB, wrote, -⟩ := post
    exact ⟨(p.become .taken).fitted need, _, by simp, granted_of_carved sound positive rounded suits soundB wrote⟩

/-- Besides a taken parcel, those in front of it and behind it are what clients keep. -/
theorem takens_besides {left right kept : List Parcel} (taken : p.tenure = .taken)
    (before : (takens (left ++ p :: right)).Perm (p :: kept)) : (takens left ++ takens right).Perm kept := by
  rw [takens_append, takens_cons_of_taken taken] at before
  exact (List.perm_middle.symm.trans before).cons_inv

theorem meets_giveBack {kept : List Parcel} (sound : a.Sound r plan) (before : (takens plan).Perm (p :: kept))
    (room : p.off + Header.width < r.size) :
    (release (r.payload p.off)).run.Meets a (fun result b => result = .ok () ∧
      ∃ plan', b.Sound r plan' ∧ Trade r plan plan' [p] [] kept a b) fun _ => False := by
  obtain ⟨member, taken⟩ := mem_takens.mp (before.mem_iff.mpr (List.mem_cons_self ..))
  obtain ⟨left, right, rfl⟩ := List.append_of_mem member
  have same : (takens (reclaimed left p right)).Perm kept := by
    rw [takens_reclaimed]
    exact takens_besides taken before
  refine (meets_release sound taken room).mono ?_ fun _ => id
  rintro result b ⟨done, soundB, wrote, -⟩
  exact ⟨done, _, soundB, .of_wrote sound soundB before same (wrote.widen _)⟩

/-- The bytes from the start of a granted parcel on can be replaced. -/
theorem Granted.stored_onMemory {m : Memory} (granted : Granted r plan size a x plan' b)
    (covers : ∀ addr n, m.Covers addr n ↔ b.memory.Covers addr n)
    (byte : ∀ addr, (addr < r.payload x.off ∨ r.payload x.off + size ≤ addr) →
      m.byte addr = b.memory.byte addr) : Granted r plan size a x plan' { b with memory := m } := by
  refine granted.stored ⟨rfl, rfl, covers, fun addr outside => byte addr ?_⟩
  have enough := granted.enough
  unfold Holds at outside
  omega

/-- Memory that is asked for as zero is zero. -/
theorem meets_allocateZeroed (sound : a.Sound r plan) (count size : Nat) :
    (allocateZeroed count size).run.Meets a (fun result b =>
      match result with
      | .error _ => b = a
      | .ok ptr => ∃ x plan', ptr = r.payload x.off ∧ Granted r plan (count * size) a x plan' b ∧
        ∀ i, i < count * size → b.memory.byte (ptr + i) = 0)
      fun _ => wordLimit ≤ r.size + Config.heapMinPayload := by
  unfold allocateZeroed
  by_cases large : wordLimit ≤ count * size
  · rw [if_pos large]
    rfl
  rw [if_neg large]
  dsimp only
  refine (meets_grant sound _).run_bind ?_ fun _ _ => id
  rintro _ b ⟨x, plan', rfl, granted⟩
  have inside := granted.covers
  rw [meets_run_bind_of_attempt (attempt_onMemory ..), meets_run_pure]
  refine ⟨x, plan', rfl, granted.stored_onMemory (fun _ _ => Memory.covers_fill ..) fun addr outside =>
    Memory.byte_fill_of_outside _ _ outside, ?_⟩
  intro i within
  exact Memory.byte_fill_of_inside _ _ inside (by omega) (by omega)

/-- A client has the parcel `x` of at least `size` bytes for its parcel `p`, with the same contents. -/
structure Resized (r : Region) (plan : List Parcel) (p : Parcel) (kept : List Parcel) (size : Nat) (a : Arena)
    (x : Parcel) (plan' : List Parcel) (b : Arena) : Prop where
  sound : b.Sound r plan'
  trade : Trade r plan plan' [p] [x] kept a b
  nonempty : 0 < size
  enough : size ≤ x.size
  contents : ∀ i, i < p.size → i < size →
    b.memory.byte (r.payload x.off + i) = a.memory.byte (r.payload p.off + i)

theorem Granted.copied {n : Nat} (granted : Granted r plan size a x plan' b) (source : Nat) (short : n ≤ size) :
    Granted r plan size a x plan' { b with memory := b.memory.copy source (r.payload x.off) n } :=
  granted.stored_onMemory (fun _ _ => Memory.covers_copy ..) fun addr outside =>
    Memory.byte_copy_of_outside _ _ (by omega)

/-- Once a parcel is granted, the contents of another one are moved into it. -/
theorem Granted.meets_move {kept : List Parcel} (granted : Granted r plan size a x plan' b)
    (before : (takens plan).Perm (p :: kept)) (room : p.off + Header.width < r.size) :
    (do
      Arena.onMemory fun m => m.copy (r.payload p.off) (r.payload x.off) (min (p.header none none).size size)
      release (r.payload p.off)
      pure (r.payload x.off) : HeapAction Nat).run.Meets b (fun result c => result = .ok (r.payload x.off) ∧
        ∃ plan'', Resized r plan p kept size a x plan'' c) fun _ => False := by
  have inside := granted.covers
  rw [meets_run_bind_of_attempt (attempt_onMemory ..), header_size]
  generalize copied : b.memory.copy (r.payload p.off) (r.payload x.off) (min p.size size) = m
  have grantedC : Granted r plan size a x plan' { b with memory := m } := by
    subst copied
    exact granted.copied _ (Nat.min_le_right ..)
  have pairs : (takens plan').Perm (p :: x :: kept) :=
    (grantedC.trade.after.trans (before.cons x)).trans (List.Perm.swap ..)
  refine Meets.run_bind (meets_giveBack grantedC.sound pairs room) ?_ (by simp)
  rintro _ d ⟨-, plan'', soundD, trade⟩
  refine ⟨rfl, plan'', soundD, ⟨before, trade.after, ?_⟩, granted.nonempty, granted.enough, ?_⟩
  · intro q member addr holds
    rw [trade.byte q (List.mem_cons_of_mem _ member) addr holds]
    exact grantedC.trade.byte q (before.mem_iff.mpr (List.mem_cons_of_mem _ member)) addr holds
  · intro i within short
    have enough := granted.enough
    have holdsX : x.Holds r (r.payload x.off + i) := ⟨by omega, by omega⟩
    have holdsP : p.Holds r (r.payload p.off + i) := ⟨by omega, by omega⟩
    rw [trade.byte x (List.mem_cons_self ..) _ holdsX,
      ← granted.trade.byte p (before.mem_iff.mpr (List.mem_cons_self ..)) _ holdsP]
    dsimp only
    rw [← copied]
    exact Memory.byte_copy_of_inside _ _ ⟨inside.1, by have := inside.2; omega⟩ (by omega)

/-- The contents of a parcel are moved to a fresh one. -/
theorem meets_relocate {kept : List Parcel} (sound : a.Sound r plan) (before : (takens plan).Perm (p :: kept))
    (room : p.off + Header.width < r.size) (size : Nat) :
    (relocate (r.payload p.off) (p.header none none) size).run.Meets a (fun result b =>
      match result with
      | .error _ => b = a
      | .ok ptr => ∃ x plan', ptr = r.payload x.off ∧ Resized r plan p kept size a x plan' b)
      fun _ => wordLimit ≤ r.size + Config.heapMinPayload := by
  unfold relocate
  refine (meets_grant sound size).run_bind ?_ fun _ _ => id
  rintro _ b ⟨x, plan', rfl, granted⟩
  refine (granted.meets_move before room).excused.mono ?_ fun _ => id
  rintro _ c ⟨rfl, plan'', resized⟩
  exact ⟨x, plan'', rfl, resized⟩

/-- A parcel that is cut down is the one that the client gets for it. -/
theorem resized_of_shrunk {left right kept : List Parcel} {need : Nat} (sound : a.Sound r (left ++ p :: right))
    (soundB : b.Sound r (shrunk left p need right)) (taken : p.tenure = .taken)
    (before : (takens (left ++ p :: right)).Perm (p :: kept)) (positive : 0 < size) (covers : size ≤ need)
    (enough : need ≤ p.size)
    (wrote : Wrote r (((left ++ p :: right) ++ shrunk left p need right).map Parcel.off) a b) :
    Resized r (left ++ p :: right) p kept size a (p.fitted need) (shrunk left p need right) b := by
  have larger := size_fitted enough
  have after : (takens (shrunk left p need right)).Perm (p.fitted need :: kept) := by
    rw [takens_shrunk taken]
    exact List.perm_middle.trans ((takens_besides taken before).cons _)
  have fresh := mem_takens.mp (after.mem_iff.mpr (List.mem_cons_self ..))
  have member : p ∈ left ++ p :: right := by simp
  refine ⟨soundB, .of_wrote sound soundB before after wrote, positive, by omega, ?_⟩
  intro i within short
  have holds : p.Holds r (r.payload p.off + i) := ⟨by omega, by omega⟩
  have holdsFitted : (p.fitted need).Holds r (r.payload p.off + i) := by
    unfold Holds
    rw [off_fitted]
    omega
  rw [off_fitted]
  exact wrote.byte_of_holds sound.shows.spans soundB.shows.spans member fresh.1 holds holdsFitted

/-- A parcel is cut down, or its contents are moved to a larger one. -/
theorem meets_resize {kept : List Parcel} (sound : a.Sound r plan) (before : (takens plan).Perm (p :: kept))
    (room : p.off + Header.width < r.size) (positive : 0 < size) :
    (resize (r.payload p.off) size).run.Meets a (fun result b =>
      match result with
      | .error _ => b = a
      | .ok none => False
      | .ok (some ptr) => ∃ x plan', ptr = r.payload x.off ∧ Resized r plan p kept size a x plan' b)
      fun _ => wordLimit ≤ r.size + Config.heapMinPayload := by
  obtain ⟨member, taken⟩ := mem_takens.mp (before.mem_iff.mpr (List.mem_cons_self ..))
  rw [meets_run_congr (attempt_resize_of_live sound.shows member taken room (Nat.ne_of_gt positive))]
  cases rounded : Word.roundUp? size Config.heapAlignment with
  | none => rfl
  | some need =>
    obtain ⟨-, aligned, covers, -⟩ := Word.roundUp?_eight_eq_some_iff.mp rounded
    dsimp only
    by_cases enough : need ≤ p.size
    · obtain ⟨left, right, rfl⟩ := List.append_of_mem member
      rw [if_pos enough, meets_run_bind, meets_run_lift]
      refine (meets_shrink sound taken aligned enough).mono ?_ fun _ =>
        sound.shows.spans.le_of_not_gauged (by simp) enough
      rintro - b ⟨soundB, wrote, -⟩
      exact ⟨p.fitted need, _, by simp, resized_of_shrunk sound soundB taken before positive covers enough wrote⟩
    · rw [if_neg enough, meets_run_map]
      refine (meets_relocate sound before room size).mono ?_ fun _ => id
      rintro (cause | ptr) b post
      · exact post
      · exact post

end Arena
end KernelCore
