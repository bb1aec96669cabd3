import KernelCore.Proofs.Heap.Rejections
import KernelCore.Proofs.Heap.Resizing

namespace KernelCore
open Machine Parcel

/-- An address names a header in the region that belongs to no block. -/
def Arena.Forged (a : Arena) (r : Region) (ptr : Nat) : Prop :=
  r.Names a.memory ptr ∧ ∀ b ∈ a.blocks, r.payload b.off ≠ ptr

/-- The address that is judged in a call. -/
def Call.target (call : Call) (a : Arena) : Nat :=
  if call.argument = 0 then 0 else if call.aligned then a.backLink call.argument else call.argument

namespace Arena
variable {a b c : Arena} {r : Region} {m : Memory} {plan : List Parcel} {ptr start size : Nat} {call : Call}

/-- Runs of clients that call the heap with whatever address they like, as long as no forged header is judged, and that
write whatever they like into allocated blocks. -/
inductive Wanders (r : Region) : Arena → Arena → Prop where
  | start (a : Arena) : Wanders r a a
  | call {a b c : Arena} {call : Call} {result : Except HeapError (Option Nat)} (run : Wanders r a b)
    (sincere : ¬b.Forged r (call.target b)) (ran : attempt call.perform b = (.ok result, c)) : Wanders r a c
  | write {a b : Arena} {block : Block} {addr : Nat} {bytes : List UInt8} (run : Wanders r a b)
    (member : block ∈ b.allocated) (lower : r.payload block.off ≤ addr)
    (upper : addr + bytes.length ≤ r.payload block.off + block.header.size) :
    Wanders r a { b with memory := b.memory.writeBytes addr bytes }

theorem Sound.notices (sound : a.Sound r plan) (notices : Array Heap.Notice) : Sound { a with notices } r plan :=
  ⟨⟨sound.shows.region, sound.shows.covered, sound.shows.spans, sound.shows.first, sound.shows.recorded⟩,
    sound.settled, sound.used⟩

theorem Sound.genuineAt {target : Nat} (sound : a.Sound r plan) (room : target + Header.width < r.size)
    (sincere : ¬a.Forged r (r.payload target)) : GenuineAt r a.memory plan target := by
  -- A mark where no parcel starts would be that of a forged header.
  intro aligned _ mark
  by_contra absent
  refine sincere ⟨⟨target, rfl, ⟨aligned, Nat.le_of_lt room⟩, by simp [Header.isIntact, Header.read, mark]⟩, ?_⟩
  intro block member same
  rw [sound.blocks_eq] at member
  obtain ⟨p, inPlan, rfl⟩ := List.mem_map.mp member
  obtain rfl : p.off = target := by
    change r.payload p.off = r.payload target at same
    unfold Region.payload at same
    omega
  exact absent (List.mem_map_of_mem inPlan)

/-- Where no header is forged, an address is found to be a taken parcel's, or it is refused. -/
theorem Sound.exists_standing (sound : a.Sound r plan) (sincere : ¬a.Forged r ptr) :
    ∃ standing, (judge r ptr).runFrom a = (.ok standing, a) ∧
      ∀ twice, refusal twice standing = none → ∃ left p right, plan = left ++ p :: right ∧ p.tenure = .taken ∧
        ptr = r.payload p.off ∧ p.off + Header.width < r.size := by
  by_cases near : Outlying r ptr
  · exact ⟨_, judge_of_outlying near, fun twice accepted => by simp [refusal] at accepted⟩
  obtain ⟨place, aligned, room⟩ := payload_of_near near
  generalize ptr - r.start - Header.width = target at place aligned room
  subst place
  obtain ⟨p, member, within⟩ := sound.shows.spans.exists_parcel (Nat.zero_le _)
    (Nat.lt_of_le_of_lt (Nat.le_add_right ..) room)
  refine ⟨_, judge_of_extent sound.shows sound.settled.tight (sound.genuineAt room sincere) member aligned room within,
    fun twice accepted => ?_⟩
  have firm := sound.settled.tight p member
  -- The parcel around the address is accepted only if it is taken, and only at its start.
  unfold standing at accepted
  split at accepted
  · simp [refusal] at accepted
  rename_i unlisted
  split at accepted
  · rename_i starts
    obtain ⟨left, right, rfl⟩ := List.append_of_mem member
    exact ⟨left, p, right, rfl, tenure_of_unlisted firm (by simpa using unlisted), by rw [starts], by rwa [starts]⟩
  · simp [refusal] at accepted

/-- One allocated block was given back: the one whose payload is at the address. -/
def GivesBack (r : Region) (ptr : Nat) (a b : Arena) : Prop :=
  ∃ block ∈ a.allocated, r.payload block.off = ptr ∧
    b.allocated = a.allocated.filter (fun other => other.off ≠ block.off) ∧
    b.heap.used + block.header.size = a.heap.used

theorem Sound.givesBack {left right : List Parcel} {p : Parcel} (sound : a.Sound r (left ++ p :: right))
    (taken : p.tenure = .taken) (soundB : b.Sound r (reclaimed left p right)) : GivesBack r (r.payload p.off) a b := by
  have member : (⟨p.off, Config.heapMagic, 0, p.size, none, none⟩ : Block) ∈ a.allocated := by
    rw [sound.allocated_eq_map]
    exact List.mem_map.mpr ⟨p, mem_takens.mpr ⟨by simp, taken⟩, rfl⟩
  refine ⟨_, member, rfl, sound.allocated_reclaimed taken soundB, ?_⟩
  rw [soundB.used, sound.used, takenSize_reclaimed, takenSize_append, takenSize_cons_of_taken taken]
  dsimp only
  omega

/-- Where no header is forged, a release comes to an answer. It frees the block that the address names, or it is
refused and changes nothing. -/
theorem Sound.release_decides (sound : a.Sound r plan) (nonzero : ptr ≠ 0) (sincere : ¬a.Forged r ptr) :
    ∃ result b plan', attempt (release ptr) a = (.ok result, b) ∧ b.Sound r plan' ∧
      match result with
      | .error _ => a.Same b
      | .ok () => GivesBack r ptr a b := by
  obtain ⟨standing, judged, accepted⟩ := sound.exists_standing sincere
  cases refused : refusal .doubleFree standing with
  | none =>
    obtain ⟨left, p, right, rfl, taken, rfl, room⟩ := accepted _ refused
    obtain ⟨_, b, ran, rfl, soundB, -⟩ := (meets_release sound taken room).returns fun _ => id
    exact ⟨.ok (), b, _, ran, soundB, sound.givesBack taken soundB⟩
  | some cause =>
    obtain ⟨notices, ran⟩ := attempt_release_of_refusal sound.shows.region nonzero judged refused
    exact ⟨.error cause, _, plan, ran, sound.notices notices, rfl, rfl⟩

/-- The release of an aligned address likewise, but that it may find nothing to free. -/
theorem Sound.releaseAligned_decides (sound : a.Sound r plan) (nonzero : ptr ≠ 0)
    (sincere : ¬a.Forged r (a.backLink ptr)) :
    ∃ result b plan', attempt (releaseAligned ptr) a = (.ok result, b) ∧ b.Sound r plan' ∧
      match result with
      | .error _ => a.Same b
      | .ok () => if a.backLink ptr = 0 then b = a else GivesBack r (a.backLink ptr) a b := by
  rw [attempt_releaseAligned_eq sound.shows.region nonzero]
  split
  · by_cases nothing : a.backLink ptr = 0
    · rw [nothing]
      exact ⟨.ok (), a, plan, attempt_release_zero a, sound, by simp⟩
    · simpa only [nothing, if_false] using sound.release_decides nothing sincere
  · exact ⟨.error .outOfRange, _, plan, rfl, sound.notices _, rfl, rfl⟩

/-- Whatever comes of an action, the heap is sound. -/
abbrev Upholds (r : Region) (a : Arena) {α : Type} (action : HeapAction α) : Prop :=
  action.run.Meets a (fun _ b => ∃ plan', b.Sound r plan') fun _ => True

theorem Upholds.map {α β : Type} {action : HeapAction α} (upholds : Upholds r a action) (change : α → β) :
    Upholds r a (change <$> action) :=
  (meets_run_map ..).mpr upholds

theorem Sound.upholds_grant {action : HeapAction Nat} {post : Nat → Arena → Prop} {stopped : Arena → Prop}
    (sound : a.Sound r plan)
    (meets : action.run.Meets a (fun result b =>
      match result with
      | .error _ => b = a
      | .ok ptr => post ptr b)
      stopped)
    (grants : ∀ ptr b, post ptr b → ∃ n x plan', Granted r plan n a x plan' b) : Upholds r a action := by
  refine meets.mono ?_ fun _ _ => trivial
  rintro (cause | ptr) b outcome
  · exact ⟨plan, outcome ▸ sound⟩
  · obtain ⟨n, x, plan', granted⟩ := grants ptr b outcome
    exact ⟨plan', granted.sound⟩

theorem Sound.upholds_allocate (sound : a.Sound r plan) (size : Nat) : Upholds r a (allocate size) :=
  sound.upholds_grant (meets_grant sound size) fun _ _ ⟨x, plan', _, granted⟩ => ⟨_, x, plan', granted⟩

theorem Sound.upholds_allocateAligned (sound : a.Sound r plan) (size align : Nat) :
    Upholds r a (allocateAligned size align) :=
  sound.upholds_grant (meets_allocateAligned sound size align) fun _ _ ⟨_, _, x, plan', granted, _⟩ =>
    ⟨_, x, plan', granted⟩

theorem Sound.upholds_release (sound : a.Sound r plan) (sincere : ¬a.Forged r ptr) : Upholds r a (release ptr) := by
  by_cases zero : ptr = 0
  · rw [zero]
    exact .of_runFrom (attempt_release_zero a) ⟨plan, sound⟩
  · obtain ⟨_, b, plan', ran, soundB, -⟩ := sound.release_decides zero sincere
    exact .of_runFrom ran ⟨plan', soundB⟩

theorem Sound.upholds_releaseAligned (sound : a.Sound r plan) (sincere : ptr ≠ 0 → ¬a.Forged r (a.backLink ptr)) :
    Upholds r a (releaseAligned ptr) := by
  by_cases zero : ptr = 0
  · subst zero
    exact .of_runFrom (by rfl : attempt (releaseAligned 0) a = (.ok (.ok ()), a)) ⟨plan, sound⟩
  · obtain ⟨_, b, plan', ran, soundB, -⟩ := sound.releaseAligned_decides zero (sincere zero)
    exact .of_runFrom ran ⟨plan', soundB⟩

theorem Sound.upholds_resize (sound : a.Sound r plan) (sincere : ¬a.Forged r ptr) (size : Nat) :
    Upholds r a (resize ptr size) := by
  by_cases zero : ptr = 0
  · subst zero
    exact (sound.upholds_allocate size).map some
  by_cases empty : size = 0
  · subst empty
    rw [resize_to_zero zero]
    exact (sound.upholds_release sincere).map _
  obtain ⟨standing, judged, accepted⟩ := sound.exists_standing sincere
  cases refused : refusal .notAllocated standing with
  | none =>
    obtain ⟨left, p, right, rfl, taken, rfl, room⟩ := accepted _ refused
    refine (meets_resize sound (takens_around left right taken) room (Nat.pos_of_ne_zero empty)).mono ?_
      fun _ _ => trivial
    rintro (cause | _ | ptr) b post
    · exact ⟨_, post ▸ sound⟩
    · exact post.elim
    · obtain ⟨x, plan', -, resized⟩ := post
      exact ⟨plan', resized.sound⟩
  | some cause =>
    obtain ⟨notices, ran⟩ := attempt_resize_of_refusal sound.shows.region zero (Nat.pos_of_ne_zero empty) judged refused
    exact .of_runFrom ran ⟨plan, sound.notices notices⟩

theorem Sound.upholds_perform (sound : a.Sound r plan) (sincere : ¬a.Forged r (call.target a)) :
    Upholds r a call.perform := by
  have named : call.argument ≠ 0 → call.aligned = true → ¬a.Forged r (a.backLink call.argument) := by
    intro nonzero aligned
    simpa only [Call.target, nonzero, aligned, if_false, if_true] using sincere
  have handed : call.aligned = false → ¬a.Forged r call.argument := by
    intro plain
    simp only [Call.target, plain, Bool.false_eq_true, if_false] at sincere
    split at sincere
    · rename_i zero
      rwa [zero]
    · exact sincere
  cases call with
  | allocate size => exact (sound.upholds_allocate size).map some
  | allocateZeroed count size =>
    exact (sound.upholds_grant (meets_allocateZeroed sound count size) fun _ _ ⟨x, plan', _, granted, _⟩ =>
      ⟨_, x, plan', granted⟩).map some
  | resize ptr size => exact sound.upholds_resize (handed rfl) size
  | release ptr => exact (sound.upholds_release (handed rfl)).map _
  | allocateAligned size align => exact (sound.upholds_allocateAligned size align).map some
  | releaseAligned ptr => exact (sound.upholds_releaseAligned fun nonzero => named nonzero rfl).map _
  | allocatePages size => exact (sound.upholds_allocateAligned size Config.pageSize).map some
  | releasePages ptr => exact (sound.upholds_releaseAligned fun nonzero => named nonzero rfl).map _

theorem Wanders.sound (run : Wanders r a b) (sound : a.Sound r plan) : ∃ plan', b.Sound r plan' := by
  induction run with
  | start => exact ⟨plan, sound⟩
  | call _ sincere ran ih =>
    obtain ⟨plan', before⟩ := ih
    exact (before.upholds_perform sincere).result ran
  | @write b block addr bytes _ allocated lower upper ih =>
    obtain ⟨plan', before⟩ := ih
    -- All bytes lie in the payload of one parcel, so the headers stay.
    obtain ⟨-, inTakens⟩ := before.mem_allocated_iff.mp allocated
    refine ⟨plan', before.stored (mem_takens.mp inTakens).1 ⟨rfl, rfl, fun _ _ => Memory.covers_writeBytes .., ?_⟩⟩
    intro addr outside
    unfold Parcel.Holds at outside
    rw [Block.off_parcel, Block.size_parcel] at outside
    exact Memory.byte_writeBytes_of_outside _ _ (by omega)

/-- An address with an alignment is given back, in a heap that came about in any way, as long as no forged header was
judged. What is refused has changed nothing. If the word in front of the address leads to no forged header there is an
answer: where the word is not zero the release frees the one allocated block whose payload the word names, or is
refused. Where the word is zero and can be read, the release is accepted, and nothing has changed. -/
theorem Wanders.releaseAligned_outcomes (window : m.Covers start size) (usable : Region.ofRange start size = .ok r)
    (opened : attempt (establish start size) (ofMemory m) = (.ok (.ok ()), a)) (run : Wanders r a b) (nonzero : ptr ≠ 0)
    {free : Nat → HeapAction Unit} (either : free = releaseAligned ∨ free = releasePages) :
    (∀ cause c, attempt (free ptr) b = (.ok (.error cause), c) → b.Same c) ∧
    (¬b.Forged r (b.backLink ptr) → b.backLink ptr ≠ 0 → ∃ result c, attempt (free ptr) b = (.ok result, c) ∧
      match result with
      | .error _ => b.Same c
      | .ok () => GivesBack r (b.backLink ptr) b c) ∧
    (b.backLink ptr = 0 → r.start + Header.width + backLinkWidth ≤ ptr → ptr < r.stop →
      attempt (free ptr) b = (.ok (.ok ()), b)) := by
  obtain rfl : free = releaseAligned := either.elim id id
  obtain ⟨s, same, soundA⟩ := Tenancy.sound_of_establish window opened
  obtain rfl := Except.ok.inj (usable.symm.trans same)
  obtain ⟨plan, sound⟩ := run.sound soundA.arena
  refine ⟨fun cause c refused => (yields_releaseAligned ptr b).result refused cause rfl, fun sincere something => ?_,
    fun nothing lower upper => ?_⟩
  · obtain ⟨result, c, -, ran, -, answer⟩ := sound.releaseAligned_decides nonzero sincere
    simp only [something, if_false] at answer
    exact ⟨result, c, ran, answer⟩
  · rw [attempt_releaseAligned_eq sound.shows.region nonzero, if_pos ⟨lower, upper⟩, nothing]
    exact attempt_release_zero b

theorem not_forged_zero (a : Arena) (r : Region) : ¬a.Forged r 0 := by
  rintro ⟨⟨off, nothing, -⟩, -⟩
  have := r.start_pos
  unfold Region.payload at nothing
  omega

theorem not_forged_of_mem {block : Block} (member : block ∈ a.blocks) : ¬a.Forged r (r.payload block.off) :=
  fun forged => forged.2 block member rfl

set_option maxRecDepth 4000 in
/-- Eight bytes at a multiple of 16 are given back, and with them the block that they lie in. -/
theorem Wanders.releaseAligned_outcomes_of_loan : ∃ r a b c, Region.ofRange 4096 64 = .ok r ∧
    attempt (establish 4096 64) (ofMemory (Memory.zeroed 4096 64)) = (.ok (.ok ()), a) ∧ Wanders r a b ∧ 4144 ≠ 0 ∧
    attempt (releasePages 4144) b = (.ok (.ok ()), c) ∧ GivesBack r 4128 b c := by
  obtain ⟨a, made⟩ : ∃ a, (attempt (establish 4096 64) (ofMemory (Memory.zeroed 4096 64))).2 = a := ⟨_, rfl⟩
  obtain ⟨b, lent⟩ : ∃ b, (attempt (Call.allocateAligned 8 16).perform a).2 = b := ⟨_, rfl⟩
  obtain ⟨opens, lends, gives, word, head⟩ :
      (attempt (establish 4096 64) (ofMemory (Memory.zeroed 4096 64))).1 = .ok (.ok ()) ∧
      (attempt (Call.allocateAligned 8 16).perform a).1 = .ok (.ok (some 4144)) ∧
      (attempt (releasePages 4144) b).1 = .ok (.ok ()) ∧ b.backLink 4144 = 4128 ∧
      (⟨0, Config.heapMagic, 0, 32, none, none⟩ : Block) ∈ b.blocks := by
    subst made lent
    decide +kernel
  have opened := made ▸ attempt_eq_of_outcome opens
  obtain ⟨r, usable, low⟩ : ∃ r, Region.ofRange 4096 64 = .ok r ∧ r.start = 4096 := ⟨_, rfl, rfl⟩
  have place : r.payload 0 = 4128 := by rw [Region.payload, low, Header.width]
  have run : Wanders r a b := by
    refine (Wanders.start a).call ?_ (lent ▸ attempt_eq_of_outcome lends)
    exact not_forged_zero a r
  obtain ⟨-, decides, -⟩ := run.releaseAligned_outcomes (Memory.covers_zeroed 4096 64) usable opened
    (by decide : 4144 ≠ 0) (Or.inr rfl)
  rw [word] at decides
  obtain ⟨result, c, ran, answer⟩ := decides (place ▸ not_forged_of_mem head) (by decide)
  obtain rfl : result = .ok () := by
    rw [ran] at gives
    exact Except.ok.inj gives
  exact ⟨r, a, b, c, usable, opened, run, by decide, ran, answer⟩

set_option maxRecDepth 4000 in
/-- It is not so that a release that is accepted has freed a block. An address is given back twice, and in between its
block is allocated again and filled with zeros. -/
theorem Wanders.releaseAligned_overlooks_stale :
    ¬∀ (start size ptr : Nat) (r : Region) (a b c : Arena), Region.ofRange start size = .ok r →
      attempt (establish start size) (ofMemory (Memory.zeroed start size)) = (.ok (.ok ()), a) → Wanders r a b →
      ptr ≠ 0 → attempt (releaseAligned ptr) b = (.ok (.ok ()), c) → ∃ addr, GivesBack r addr b c := by
  intro frees
  obtain ⟨a, made⟩ : ∃ a, (attempt (establish 4096 64) (ofMemory (Memory.zeroed 4096 64))).2 = a := ⟨_, rfl⟩
  obtain ⟨b, lent⟩ : ∃ b, (attempt (Call.allocateAligned 8 16).perform a).2 = b := ⟨_, rfl⟩
  obtain ⟨c, freed⟩ : ∃ c, (attempt (Call.releaseAligned 4144).perform b).2 = c := ⟨_, rfl⟩
  obtain ⟨d, filled⟩ : ∃ d, (attempt (Call.allocateZeroed 1 16).perform c).2 = d := ⟨_, rfl⟩
  obtain ⟨opens, lends, gives, fills, accepts, word, head, same⟩ :
      (attempt (establish 4096 64) (ofMemory (Memory.zeroed 4096 64))).1 = .ok (.ok ()) ∧
      (attempt (Call.allocateAligned 8 16).perform a).1 = .ok (.ok (some 4144)) ∧
      (attempt (Call.releaseAligned 4144).perform b).1 = .ok (.ok none) ∧
      (attempt (Call.allocateZeroed 1 16).perform c).1 = .ok (.ok (some 4128)) ∧
      (attempt (releaseAligned 4144) d).1 = .ok (.ok ()) ∧ (Call.releaseAligned 4144).target b = 4128 ∧
      (⟨0, Config.heapMagic, 0, 32, none, none⟩ : Block) ∈ b.blocks ∧
      (attempt (releaseAligned 4144) d).2.allocated = d.allocated := by
    subst made lent freed filled
    decide +kernel
  obtain ⟨r, usable, low⟩ : ∃ r, Region.ofRange 4096 64 = .ok r ∧ r.start = 4096 := ⟨_, rfl, rfl⟩
  have place : r.payload 0 = 4128 := by rw [Region.payload, low, Header.width]
  have run : Wanders r a d :=
    (((Wanders.start a).call (not_forged_zero a r) (lent ▸ attempt_eq_of_outcome lends)).call
      (word ▸ place ▸ not_forged_of_mem head) (freed ▸ attempt_eq_of_outcome gives)).call
      (not_forged_zero c r) (filled ▸ attempt_eq_of_outcome fills)
  obtain ⟨addr, block, member, -, rest, -⟩ := frees 4096 64 4144 r a d _ usable
    (made ▸ attempt_eq_of_outcome opens) run (by decide) (attempt_eq_of_outcome accepts)
  rw [← same, rest] at member
  simpa using List.of_mem_filter member

end Arena
end KernelCore
