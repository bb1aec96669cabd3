import KernelCore.Proofs.Heap.Refusals
import KernelCore.Proofs.Heap.Resizing

namespace KernelCore
open Machine Parcel

/-- A call hands in the address of an allocated block, or an address that a word leads back to it from. -/
def Call.Names (call : Call) (r : Region) (m : Memory) (x : Block) : Prop :=
  if call.aligned then ∃ size, 0 < size ∧ Arena.LeadsBack r m x.parcel call.argument size
  else call.argument = r.payload x.off ∧ r.Contains (r.payload x.off)

/-- A call hands in nothing, or names an allocated block that does not lie at the offset `off`. -/
def Call.Avoids (call : Call) (r : Region) (a : Arena) (off : Nat) : Prop :=
  call.argument = 0 ∨ ∃ x ∈ a.allocated, x.off ≠ off ∧ call.Names r a.memory x

namespace Arena
variable {a b c : Arena} {r : Region} {blocks : List Block} {plan plan' left right : List Parcel} {p q : Parcel}
  {x y : Block} {call : Call} {ptr size align : Nat}

/-- What can happen while a client holds `size` bytes at `ptr` in the block `y`: calls that hand in nothing or the
address of another block, and writes into other blocks or into these bytes. -/
inductive Meanwhile (r : Region) (y : Block) (ptr size : Nat) : Arena → Arena → Prop where
  | start (a : Arena) : Meanwhile r y ptr size a a
  | call {a b c : Arena} {call : Call} {result : Except HeapError (Option Nat)} (run : Meanwhile r y ptr size a b)
    (legal : call.Avoids r b y.off) (ran : attempt call.perform b = (.ok result, c)) : Meanwhile r y ptr size a c
  | elsewhere {a b : Arena} {x : Block} {addr : Nat} {bytes : List UInt8} (run : Meanwhile r y ptr size a b)
    (member : x ∈ b.allocated) (other : x.off ≠ y.off) (lower : r.payload x.off ≤ addr)
    (upper : addr + bytes.length ≤ r.payload x.off + x.header.size) :
    Meanwhile r y ptr size a { b with memory := b.memory.writeBytes addr bytes }
  | inside {a b : Arena} {addr : Nat} {bytes : List UInt8} (run : Meanwhile r y ptr size a b) (lower : ptr ≤ addr)
    (upper : addr + bytes.length ≤ ptr + size) :
    Meanwhile r y ptr size a { b with memory := b.memory.writeBytes addr bytes }

/-- From `a` to `b` the block `y` was allocated and no other, and `size` bytes at `ptr` lie in its payload, behind the
word that leads back. -/
structure Aligns (r : Region) (y : Block) (ptr size align : Nat) (a b : Arena) : Prop where
  proper : b.Proper r b.blocks
  allocated : b.allocated.Perm (y :: a.allocated)
  multiple : ptr % align = 0
  above : r.payload y.off + backLinkWidth ≤ ptr
  below : ptr + size ≤ r.payload y.off + y.header.size

/-- The memory at `ptr` can be given back. This frees the allocated block `y` and leaves all others as they are; then
the same is refused and changes nothing. -/
def Returns (a : Arena) (r : Region) (y : Block) (ptr : Nat) : Prop :=
  y ∈ a.allocated ∧ ∃ b c, attempt (releaseAligned ptr) a = (.ok (.ok ()), b) ∧
    b.allocated = a.allocated.filter (fun block => block.off ≠ y.off) ∧
    a.Preserves r (a.blocks.filter fun block => block.off ≠ y.off) b ∧
    attempt (releaseAligned ptr) b = (.ok (.error .doubleFree), c) ∧ b.Same c

/-- The parcel `p` is still taken, and holds what it held. -/
def Keeps (r : Region) (p : Parcel) (a b : Arena) : Prop :=
  ∃ plan, b.Sound r plan ∧ p ∈ takens plan ∧ ∀ addr, p.Holds r addr → b.memory.byte addr = a.memory.byte addr

theorem Sound.keeps (sound : a.Sound r plan) (member : p ∈ takens plan) : Keeps r p a a :=
  ⟨plan, sound, member, fun _ _ => rfl⟩

theorem Trade.keeps {gone fresh kept : List Parcel} (trade : Trade r plan plan' gone fresh kept a b)
    (sound : b.Sound r plan') (member : p ∈ kept) : Keeps r p a b :=
  ⟨plan', sound, trade.after.mem_iff.mpr (List.mem_append_right _ member), trade.byte p member⟩

/-- Whatever comes of an action, the parcel `p` is kept. -/
abbrev Respects (r : Region) (p : Parcel) (a : Arena) {α : Type} (action : HeapAction α) : Prop :=
  action.run.Meets a (fun _ b => Keeps r p a b) fun _ => wordLimit ≤ r.size + Config.heapMinPayload

theorem Respects.map {α β : Type} {action : HeapAction α} (respects : Respects r p a action) (change : α → β) :
    Respects r p a (change <$> action) :=
  (meets_run_map ..).mpr respects

theorem Sound.respects_grant {action : HeapAction Nat} {post : Nat → Arena → Prop} (sound : a.Sound r plan)
    (member : p ∈ takens plan)
    (meets : action.run.Meets a (fun result b =>
      match result with
      | .error _ => b = a
      | .ok ptr => post ptr b)
      fun _ => wordLimit ≤ r.size + Config.heapMinPayload)
    (grants : ∀ ptr b, post ptr b → ∃ n x plan', Granted r plan n a x plan' b) : Respects r p a action := by
  refine meets.mono ?_ fun _ => id
  rintro (cause | ptr) b outcome
  · exact outcome ▸ sound.keeps member
  · obtain ⟨n, x, plan', granted⟩ := grants ptr b outcome
    exact granted.trade.keeps granted.sound member

theorem Sound.respects_allocate (sound : a.Sound r plan) (member : p ∈ takens plan) (size : Nat) :
    Respects r p a (allocate size) :=
  sound.respects_grant member (meets_grant sound size) fun _ _ ⟨x, plan', _, granted⟩ => ⟨_, x, plan', granted⟩

theorem Sound.respects_allocateZeroed (sound : a.Sound r plan) (member : p ∈ takens plan) (count size : Nat) :
    Respects r p a (allocateZeroed count size) :=
  sound.respects_grant member (meets_allocateZeroed sound count size) fun _ _ ⟨x, plan', _, granted, _⟩ =>
    ⟨_, x, plan', granted⟩

theorem Sound.respects_allocateAligned (sound : a.Sound r plan) (member : p ∈ takens plan) (size align : Nat) :
    Respects r p a (allocateAligned size align) :=
  sound.respects_grant member (meets_allocateAligned sound size align) fun _ _ ⟨_, _, x, plan', granted, _⟩ =>
    ⟨_, x, plan', granted⟩

/-- Besides another parcel, clients keep the parcel `p`. -/
theorem exists_kept (member : p ∈ takens plan) (inTakens : q ∈ takens plan) (other : q.off ≠ p.off) :
    ∃ kept, (takens plan).Perm (q :: kept) ∧ p ∈ kept := by
  obtain ⟨front, back, shape⟩ := List.append_of_mem inTakens
  have around : (takens plan).Perm (q :: (front ++ back)) := shape ▸ List.perm_middle
  refine ⟨front ++ back, around, (List.mem_cons.mp (around.mem_iff.mp member)).resolve_left ?_⟩
  rintro rfl
  exact other rfl

theorem Sound.respects_release (sound : a.Sound r plan) (member : p ∈ takens plan) (legal : call.Avoids r a p.off)
    (plain : call.aligned = false) : Respects r p a (release call.argument) := by
  rcases legal with none | ⟨x, allocated, other, names⟩
  · rw [none]
    exact Meets.of_runFrom (attempt_release_zero a) (sound.keeps member)
  · simp only [Call.Names, plain, Bool.false_eq_true, if_false] at names
    obtain ⟨place, inside⟩ := names
    obtain ⟨kept, before, inKept⟩ := exists_kept member (sound.mem_allocated_iff.mp allocated).2 other
    rw [place]
    refine (meets_giveBack sound before (room_of_contains inside)).excused.mono ?_ fun _ => id
    rintro _ b ⟨-, plan', soundB, trade⟩
    exact trade.keeps soundB inKept

theorem Sound.respects_releaseAligned (sound : a.Sound r plan) (member : p ∈ takens plan)
    (legal : call.Avoids r a p.off) (aligned : call.aligned = true) :
    Respects r p a (releaseAligned call.argument) := by
  rcases legal with none | ⟨x, allocated, other, names⟩
  · rw [none]
    exact Meets.of_runFrom (by rfl : attempt (releaseAligned 0) a = (.ok (.ok ()), a)) (sound.keeps member)
  · simp only [Call.Names, aligned, if_true] at names
    obtain ⟨size, positive, leads⟩ := names
    obtain ⟨kept, before, inKept⟩ := exists_kept member (sound.mem_allocated_iff.mp allocated).2 other
    refine (meets_releaseAligned sound before leads positive).excused.mono ?_ fun _ => id
    rintro _ b ⟨-, plan', soundB, trade⟩
    exact trade.keeps soundB inKept

theorem Sound.respects_resize (sound : a.Sound r plan) (member : p ∈ takens plan)
    (legal : (Call.resize ptr size).Avoids r a p.off) : Respects r p a (resize ptr size) := by
  by_cases zero : ptr = 0
  · subst zero
    exact (sound.respects_allocate member size).map some
  by_cases empty : size = 0
  · subst empty
    rw [resize_to_zero zero]
    exact (sound.respects_release member legal rfl).map _
  obtain ⟨x, allocated, other, place, inside⟩ := legal.resolve_left zero
  obtain rfl : ptr = r.payload x.off := place
  obtain ⟨kept, before, inKept⟩ := exists_kept member (sound.mem_allocated_iff.mp allocated).2 other
  refine (meets_resize sound before (room_of_contains inside) (Nat.pos_of_ne_zero empty)).mono ?_ fun _ => id
  rintro (cause | _ | ptr) b post
  · exact post ▸ sound.keeps member
  · exact post.elim
  · obtain ⟨y, plan', -, resized⟩ := post
    exact resized.trade.keeps resized.sound inKept

/-- A call that hands in nothing or names another block leaves the parcel `p` as it is. -/
theorem Sound.respects_perform (sound : a.Sound r plan) (member : p ∈ takens plan) (legal : call.Avoids r a p.off) :
    Respects r p a call.perform := by
  cases call with
  | allocate size => exact (sound.respects_allocate member size).map some
  | allocateZeroed count size => exact (sound.respects_allocateZeroed member count size).map some
  | resize ptr size => exact sound.respects_resize member legal
  | release ptr => exact (sound.respects_release member legal rfl).map _
  | allocateAligned size align => exact (sound.respects_allocateAligned member size align).map some
  | releaseAligned ptr => exact (sound.respects_releaseAligned member legal rfl).map _
  | allocatePages size => exact (sound.respects_allocateAligned member size Config.pageSize).map some
  | releasePages ptr => exact (sound.respects_releaseAligned member legal rfl).map _

/-- What the heap keeps about memory that a client holds. -/
structure Held (r : Region) (p : Parcel) (ptr size : Nat) (plan : List Parcel) (a : Arena) : Prop where
  sound : a.Sound r plan
  member : p ∈ takens plan
  leads : LeadsBack r a.memory p ptr size

/-- Whatever is written into another parcel, or behind the word that leads back, the memory is held. -/
theorem Held.stored (held : Held r p ptr size plan a) (inTakens : q ∈ takens plan) (stored : Stored r q a b)
    (apart : q.off ≠ p.off ∨ ∀ addr < ptr, b.memory.byte addr = a.memory.byte addr) :
    Held r p ptr size plan b := by
  refine ⟨held.sound.stored (mem_takens.mp inTakens).1 stored, held.member, held.leads.congr ?_⟩
  intro addr inside below
  rcases apart with other | same
  · obtain ⟨kept, before, inKept⟩ := exists_kept held.member inTakens other
    exact stored.byte addr ((held.sound.apart_of_perm before inKept).symm.not_holds inside)
  · exact same addr below

/-- Whatever happens meanwhile, the memory is held. -/
theorem Meanwhile.held (run : Meanwhile r y ptr size a b) (held : Held r y.parcel ptr size plan a) :
    ∃ plan', Held r y.parcel ptr size plan' b := by
  induction run with
  | start => exact ⟨plan, held⟩
  | call _ legal ran ih =>
    obtain ⟨plan', before⟩ := ih
    obtain ⟨plan'', sound, member, same⟩ := (before.sound.respects_perform before.member legal).result ran
    exact ⟨plan'', sound, member, before.leads.congr fun addr inside _ => same addr inside⟩
  | elsewhere _ allocated other lower upper ih =>
    obtain ⟨plan', before⟩ := ih
    have inTakens := (before.sound.mem_allocated_iff.mp allocated).2
    refine ⟨plan', before.stored inTakens ⟨rfl, rfl, fun _ _ => Memory.covers_writeBytes .., ?_⟩ (Or.inl other)⟩
    intro addr outside
    unfold Parcel.Holds at outside
    rw [Block.off_parcel, Block.size_parcel] at outside
    exact Memory.byte_writeBytes_of_outside _ _ (by omega)
  | inside _ lower upper ih =>
    obtain ⟨plan', before⟩ := ih
    have above := before.leads.above
    have below := before.leads.below
    refine ⟨plan', before.stored before.member ⟨rfl, rfl, fun _ _ => Memory.covers_writeBytes .., ?_⟩ (Or.inr ?_)⟩
    · intro addr outside
      unfold Parcel.Holds at outside
      exact Memory.byte_writeBytes_of_outside _ _ (by omega)
    · intro addr early
      exact Memory.byte_writeBytes_of_outside _ _ (by omega)

/-- Where a parcel was given back there lies a listed one, or its start has lost its mark inside of one. -/
theorem Sound.attempt_release_again (sound : a.Sound r (left ++ p :: right)) (taken : p.tenure = .taken)
    (room : p.off + Header.width < r.size) (soundB : b.Sound r (reclaimed left p right))
    (stays : StaysGenuine r (left ++ p :: right) (reclaimed left p right) a b) :
    ∃ notices, attempt (release (r.payload p.off)) b = (.ok (.error .doubleFree), { b with notices }) := by
  obtain ⟨q, member, lower, upper⟩ :=
    soundB.shows.spans.exists_parcel (Nat.zero_le _) (Nat.lt_of_le_of_lt (Nat.le_add_right ..) room)
  have aligned := (sound.shows.spans.aligned rfl (by simp : p ∈ left ++ p :: right)).1
  have genuine := stays p.off fun _ _ _ => List.mem_map.mpr ⟨p, by simp, rfl⟩
  have judged := judge_of_extent soundB.shows soundB.settled.tight genuine member aligned room ⟨lower, upper⟩
  have listed : q.isListed = true := by
    by_contra unlisted
    have takenQ := tenure_of_unlisted (soundB.settled.tight q member) (by simpa using unlisted)
    have inTakens := mem_takens.mpr ⟨member, takenQ⟩
    rw [takens_reclaimed] at inTakens
    have apart := sound.apart_of_perm (takens_around left right taken) inTakens
    simp only [Apart, Parcel.stop, Header.width] at apart upper
    omega
  exact attempt_release_of_refusal soundB.shows.region (payload_ne_zero r p.off) judged (by simp [standing, listed, refusal])

/-- What is allocated besides a parcel that is given back stays as it is. -/
theorem Sound.preserves_reclaimed (sound : a.Sound r (left ++ p :: right)) (taken : p.tenure = .taken)
    (soundB : b.Sound r (reclaimed left p right)) (wrote : Wrote r ((left ++ p :: right).map Parcel.off) a b) :
    a.Preserves r (a.blocks.filter fun block => block.off ≠ p.off) b := by
  have around := takens_around left right taken
  have trade : Trade r (left ++ p :: right) (reclaimed left p right) [p] [] (takens left ++ takens right) a b :=
    .of_wrote sound soundB around (.of_eq (takens_reclaimed ..)) (wrote.widen _)
  refine trade.preserves soundB fun c member used => ?_
  obtain ⟨inBlocks, other⟩ := List.mem_filter.mp member
  obtain ⟨header, inTakens⟩ := sound.mem_allocated_iff.mp (mem_allocated.mpr ⟨inBlocks, used⟩)
  refine ⟨header, (List.mem_cons.mp (around.mem_iff.mp inTakens)).resolve_left ?_⟩
  rintro rfl
  simp at other

/-- The memory that a client holds can be given back, once. -/
theorem Held.returns (held : Held r y.parcel ptr size plan a) (header : y.header = .allocated y.header.size)
    (positive : 0 < size) : a.Returns r y ptr := by
  obtain ⟨sound, member, leads⟩ := held
  have above := leads.above
  have below := leads.below
  have allocated := sound.mem_allocated_iff.mpr ⟨header, member⟩
  obtain ⟨inPlan, taken⟩ := mem_takens.mp member
  have within := (sound.shows.spans.bounds inPlan).2
  have room := sound.shows.room inPlan (by omega)
  obtain ⟨left, right, rfl⟩ := List.append_of_mem inPlan
  obtain ⟨result, b, ran, rfl, soundB, wrote, stays⟩ := (meets_release sound taken room).returns fun _ => id
  have leadsB : LeadsBack r b.memory y.parcel ptr size :=
    leads.congr fun _ inside _ => wrote.byte_of_payload sound.shows.spans inPlan inside
  obtain ⟨notices, again⟩ := sound.attempt_release_again taken room soundB stays
  refine ⟨allocated, b, { b with notices }, ?_, sound.allocated_reclaimed taken soundB,
    sound.preserves_reclaimed taken soundB wrote, ?_, ⟨rfl, rfl⟩⟩
  · exact (attempt_releaseAligned sound.shows.region within leads positive).trans ran
  · exact (attempt_releaseAligned soundB.shows.region within leadsB positive).trans again

/-- An allocation with an alignment is decided as one of so much more that every alignment can be reached. -/
theorem Proper.allocateAligned_decides (proper : a.Proper r blocks)
    (spare : r.size + Config.heapMinPayload < wordLimit) (positive : 0 < size)
    (single : Word.isPowerOfTwo align = true) :
    ∃ (counters : Heap.Statistics) (result : Except HeapError Nat) (b : Arena), a.statistics = .ok counters ∧
      attempt (allocateAligned size align) a = (.ok result, b) ∧
      Decides counters (size + align + backLinkWidth) result ∧
      match result with
      | .error _ => b = a
      | .ok ptr => ptr % align = 0 ∧ ∃ p plan', LeadsBack r b.memory p ptr size ∧
        Granted r (blocks.map Block.parcel) (size + align + backLinkWidth) a p plan' b := by
  unfold allocateAligned
  rw [if_neg (by simp [single]), if_neg (Nat.ne_of_gt positive)]
  by_cases large : wordLimit ≤ size + align + backLinkWidth
  · rw [if_pos large]
    exact ⟨_, .error .overflow, a, proper.sound.statistics, rfl, .of_overflow (Nat.le_trans large (le_needed _)), rfl⟩
  rw [if_neg large]
  have padded : 0 < size + align + backLinkWidth := by omega
  obtain ⟨counters, result, b, counted, ran, decides, same⟩ := proper.allocate_decides spare padded
  dsimp only
  rw [attempt_bind, ran]
  cases result with
  | error cause => exact ⟨counters, .error cause, b, counted, rfl, decides, same cause rfl⟩
  | ok raw =>
    obtain ⟨p, plan', rfl, granted⟩ := (meets_grant proper.sound _).result ran
    obtain ⟨result, c, moved, ptr, rfl, multiple, still, leads⟩ := (granted.meets_align single).returns fun _ => id
    exact ⟨counters, .ok ptr, c, counted, moved, decides.map fun _ => ptr, multiple, p, plan', leads, still⟩

/-- An allocation with an alignment is refused only if the size with the alignment and the word that leads back is no
word or larger than each free block, and then nothing changes. Otherwise it gives memory in a fresh block, and this
can be given back, once, whatever others do until then. -/
theorem Proper.allocateAligned_returns (proper : a.Proper r blocks)
    (spare : r.size + Config.heapMinPayload < wordLimit) (positive : 0 < size)
    (single : Word.isPowerOfTwo align = true) :
    ∃ counters result b, a.statistics = .ok counters ∧ attempt (allocateAligned size align) a = (.ok result, b) ∧
      Decides counters (size + align + backLinkWidth) result ∧ (∀ cause, result = .error cause → b = a) ∧
      ∀ ptr, result = .ok ptr → ∃ y, Aligns r y ptr size align a b ∧
        ∀ c, Meanwhile r y ptr size b c → c.Returns r y ptr := by
  obtain ⟨counters, result, b, counted, ran, decides, outcome⟩ :=
    proper.allocateAligned_decides spare positive single
  refine ⟨counters, result, b, counted, ran, decides, ?_⟩
  cases result with
  | error cause => exact ⟨fun _ _ => outcome, by simp⟩
  | ok ptr =>
    refine ⟨by simp, ?_⟩
    rintro _ ⟨⟩
    obtain ⟨multiple, p, plan', leads, granted⟩ := outcome
    have sound := granted.sound
    have fresh : (⟨p.off, .allocated p.size⟩ : Block) ∈ b.allocated := by
      rw [sound.allocated_eq_map]
      exact List.mem_map.mpr ⟨p, granted.mem, rfl⟩
    refine ⟨⟨p.off, .allocated p.size⟩, ⟨sound.blocks_eq ▸ sound.proper, ?_, multiple, leads.above, leads.below⟩, ?_⟩
    · rw [sound.allocated_eq_map, proper.sound.allocated_eq_map]
      exact granted.trade.after.map _
    · intro c run
      have member := (sound.mem_allocated_iff.mp fresh).2
      obtain ⟨plan'', held⟩ := run.held ⟨sound, member, leads.above, leads.below, leads.word⟩
      exact held.returns rfl positive

set_option maxRecDepth 4000 in
/-- Twenty bytes at a multiple of 64 are given back after another block was allocated and they all were written. -/
theorem allocateAligned_returns_beside_another : ∃ a r blocks, a.Proper r blocks ∧
    r.size + Config.heapMinPayload < wordLimit ∧ 0 < 20 ∧ Word.isPowerOfTwo 64 = true ∧
    ∃ b y c, attempt (allocateAligned 20 64) a = (.ok (.ok 4160), b) ∧ Aligns r y 4160 20 64 a b ∧
      Meanwhile r y 4160 20 b c ∧ c.Returns r y 4160 := by
  -- The states have names, so that the kernel computes all of them at once.
  obtain ⟨a, made⟩ : ∃ a, (attempt (establish 4096 256) (ofMemory (Memory.zeroed 4096 256))).2 = a := ⟨_, rfl⟩
  obtain ⟨b, aligned⟩ : ∃ b, (attempt (allocateAligned 20 64) a).2 = b := ⟨_, rfl⟩
  obtain ⟨c, taken⟩ : ∃ c, (attempt (Call.allocate 8).perform b).2 = c := ⟨_, rfl⟩
  obtain ⟨opens, aligns, takes⟩ :
      (attempt (establish 4096 256) (ofMemory (Memory.zeroed 4096 256))).1 = .ok (.ok ()) ∧
      (attempt (allocateAligned 20 64) a).1 = .ok (.ok 4160) ∧
      (attempt (Call.allocate 8).perform b).1 = .ok (.ok (some 4256)) := by
    subst made aligned taken
    decide +kernel
  have opened := made ▸ attempt_eq_of_outcome opens
  have ran := aligned ▸ attempt_eq_of_outcome aligns
  have other := taken ▸ attempt_eq_of_outcome takes
  obtain ⟨r, usable, proper⟩ := Tenancy.Run.proper (Memory.covers_zeroed 4096 256) opened (.start ⟨a, []⟩)
  have spare := spare_of_ofRange usable (by decide)
  obtain ⟨counters, result, b', -, same, -, -, returns⟩ :=
    proper.allocateAligned_returns spare (by decide : 0 < 20) (by decide : Word.isPowerOfTwo 64 = true)
  obtain ⟨outcome, rfl⟩ := Prod.mk.inj (same.symm.trans ran)
  obtain ⟨y, aligns, returns⟩ := returns 4160 (Except.ok.inj outcome)
  have run : Meanwhile r y 4160 20 b' { c with memory := c.memory.writeBytes 4160 (List.replicate 20 7) } :=
    .inside (.call (.start b') (Or.inl rfl) other) (by decide) (by decide)
  exact ⟨a, r, _, proper, spare, by decide, by decide, b', y, _, ran, aligns, run, returns _ run⟩

end Arena
end KernelCore
