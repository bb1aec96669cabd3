import KernelCore.Proofs.Heap.Refusals
import KernelCore.Proofs.Heap.Scrutiny

namespace KernelCore

namespace Region
variable {r : Region} {m : Memory} {target hops ptr : Nat} {first link : Option Nat} {fault : Fault}

/-- An address names a block if an intact header stands in front of it, aligned and in the region. -/
def Names (r : Region) (m : Memory) (ptr : Nat) : Prop :=
  ∃ off, ptr = r.payload off ∧ r.HoldsHeader off ∧ (Header.read m (r.start + off)).isIntact = true

/-- On its way to `target` the search finds an intact header at `off`. -/
def Visits (r : Region) (m : Memory) (target off : Nat) : Prop :=
  (off ≤ target ∧ r.HoldsHeader off) ∧ (Header.read m (r.start + off)).isIntact = true

/-- The search for the free block around `target` comes within `hops` hops from a link to the intact header at `last`.
It goes on behind a block that ends in front of `target`. -/
inductive Searches (r : Region) (m : Memory) (target : Nat) : (hops : Nat) → (link : Option Nat) → (last : Nat) → Prop
  | here {hops off : Nat} (visits : r.Visits m target off) : Searches r m target (hops + 1) (some off) off
  | next {hops off last : Nat} (visits : r.Visits m target off)
      (before : off + Header.width + (Header.read m (r.start + off)).size ≤ target)
      (further : Searches r m target hops (Header.read m (r.start + off)).next last) :
      Searches r m target (hops + 1) (some off) last

/-- The end of a block whose header is intact decides how the search goes on. -/
theorem swallows_of_visits {off : Nat} (hops : Nat) (visits : r.Visits m target off) :
    r.swallows m target (hops + 1) (some off) =
      if wordLimit ≤ off + Header.width + (Header.read m (r.start + off)).size then .error .addOverflow
      else if target < off + Header.width + (Header.read m (r.start + off)).size then .ok (decide (off < target))
      else r.swallows m target hops (Header.read m (r.start + off)).next := by
  obtain ⟨reached, intact⟩ := visits
  rw [swallows, if_pos reached]
  generalize Header.read m (r.start + off) = h at intact ⊢
  dsimp only
  rw [if_pos intact, blockEnd]
  by_cases large : wordLimit ≤ off + Header.width + h.size
  · rw [if_pos large, Word.add_of_not_lt (Nat.not_lt.mpr large)]
    rfl
  · rw [if_neg large, Word.add_of_lt (Nat.not_le.mp large)]
    rfl

theorem swallows_of_not_visits {off : Nat} (hops : Nat) (lost : ¬r.Visits m target off) :
    r.swallows m target (hops + 1) (some off) = .ok false := by
  rw [swallows]
  by_cases reached : off ≤ target ∧ r.HoldsHeader off
  · rw [if_pos reached]
    exact if_neg fun intact => lost ⟨reached, intact⟩
  · rw [if_neg reached]

/-- The search is stopped by a fault exactly if it comes to a block whose end is no word. -/
theorem swallows_eq_error_iff (word : target < wordLimit) :
    r.swallows m target hops link = .error fault ↔ fault = .addOverflow ∧ ∃ last, r.Searches m target hops link last ∧
      wordLimit ≤ last + Header.width + (Header.read m (r.start + last)).size := by
  induction hops generalizing link with
  | zero =>
    constructor
    · intro stopped
      cases stopped
    · rintro ⟨-, last, ⟨⟩, -⟩
  | succ hops ih =>
    cases link with
    | none =>
      constructor
      · intro stopped
        cases stopped
      · rintro ⟨-, last, ⟨⟩, -⟩
    | some off =>
      by_cases visits : r.Visits m target off
      swap
      · rw [swallows_of_not_visits hops visits]
        constructor
        · intro stopped
          cases stopped
        · rintro ⟨-, last, searches, -⟩
          cases searches <;> contradiction
      rw [swallows_of_visits hops visits]
      constructor
      · intro stopped
        split at stopped
        · rename_i large
          exact ⟨(Except.error.inj stopped).symm, off, .here visits, large⟩
        · split at stopped
          · cases stopped
          · rename_i passed
            obtain ⟨overflow, last, further, large⟩ := ih.mp stopped
            exact ⟨overflow, last, .next visits (Nat.le_of_not_lt passed) further, large⟩
      · rintro ⟨rfl, last, searches, large⟩
        cases searches with
        | here => rw [if_pos large]
        | next _ before further =>
          rw [if_neg (by omega), if_neg (by omega)]
          exact ih.mpr ⟨rfl, last, further, large⟩

/-- The header in front of an address is in the region, but the search for the free block around it comes to a block
whose end is no word. -/
def Derails (r : Region) (m : Memory) (first : Option Nat) (ptr : Nat) : Prop :=
  ∃ target last, ptr = r.payload target ∧ target % Config.heapAlignment = 0 ∧ target + Header.width < r.size ∧
    r.Searches m target (r.size / Header.width) first last ∧
      wordLimit ≤ last + Header.width + (Header.read m (r.start + last)).size

end Region

namespace Arena
open Machine
variable {a : Arena} {r : Region} {ptr : Nat} {fault : Fault}

theorem derails_iff {target : Nat} (aligned : target % Config.heapAlignment = 0)
    (room : target + Header.width < r.size) :
    r.Derails a.memory a.heap.first (r.payload target) ↔
      r.swallows a.memory target (r.size / Header.width) a.heap.first = .error .addOverflow := by
  have word : target < wordLimit := by
    have := r.fits
    omega
  rw [Region.swallows_eq_error_iff word]
  constructor
  · rintro ⟨other, last, same, -, -, searches, large⟩
    obtain rfl : target = other := by
      unfold Region.payload at same
      omega
    exact ⟨rfl, last, searches, large⟩
  · rintro ⟨-, last, searches, large⟩
    exact ⟨target, last, rfl, aligned, room, searches, large⟩

/-- An address that names no block is found to be none, or the search for a free block around it is stopped. -/
theorem judge_of_stray (stray : ¬r.Names a.memory ptr) :
    (r.Derails a.memory a.heap.first ptr → (judge r ptr).runFrom a = (.error .addOverflow, a)) ∧
      (¬r.Derails a.memory a.heap.first ptr → ∃ standing, (judge r ptr).runFrom a = (.ok standing, a) ∧
        ∀ twice, ∃ cause, refusal twice standing = some cause) := by
  by_cases outlying : Outlying r ptr
  · refine ⟨?_, fun _ => ⟨_, judge_of_outlying outlying, fun _ => ⟨_, rfl⟩⟩⟩
    rintro ⟨target, last, rfl, aligned, room, -⟩
    rw [Outlying, payload_sub] at outlying
    unfold Region.payload Region.stop at outlying
    omega
  obtain ⟨place, aligned, room⟩ := payload_of_near outlying
  generalize ptr - r.start - Header.width = target at place aligned room
  subst place
  have damaged : (Header.read a.memory (r.start + target)).isIntact = false := by
    by_contra intact
    exact stray ⟨target, rfl, ⟨aligned, Nat.le_of_lt room⟩, by simpa using intact⟩
  rw [derails_iff aligned room, judge_of_damaged aligned room damaged]
  rcases searched : r.swallows a.memory target (r.size / Header.width) a.heap.first with fault | joined
  · have word : target < wordLimit := by
      have := r.fits
      omega
    obtain ⟨rfl, -⟩ := (Region.swallows_eq_error_iff word).mp searched
    exact ⟨fun _ => rfl, fun other => absurd rfl other⟩
  · refine ⟨?_, fun _ => ⟨_, rfl, fun twice => ?_⟩⟩
    · intro stopped
      cases stopped
    · cases joined with
      | false => exact ⟨_, rfl⟩
      | true => exact ⟨_, rfl⟩

/-- A fault while an address is judged stops a release and a change of size before anything has changed. -/
theorem attempt_release_of_stopped (region : a.heap.region = some r) (nonzero : ptr ≠ 0)
    (stopped : (judge r ptr).runFrom a = (.error fault, a)) : attempt (release ptr) a = (.error fault, a) := by
  unfold release
  rw [if_pos nonzero, attempt_bind, attempt_region region]
  dsimp only
  rw [attempt_bind, attempt_lift, stopped]
  rfl

theorem attempt_resize_of_stopped {size : Nat} (region : a.heap.region = some r) (nonzero : ptr ≠ 0)
    (positive : 0 < size) (stopped : (judge r ptr).runFrom a = (.error fault, a)) :
    attempt (resize ptr size) a = (.error fault, a) := by
  unfold resize
  rw [if_neg nonzero, if_neg (by omega), attempt_bind, attempt_get]
  simp only [region]
  rw [attempt_bind, attempt_lift, stopped]
  rfl

/-- An address that names no block is refused by a release and by a change of size, and then the heap and the memory
are as they were. Only where the search for a free block around the address comes to a block whose end is no word, a
fault stops both, when this end is computed; then nothing at all has changed. -/
theorem stray_refused_exact (region : a.heap.region = some r) (nonzero : ptr ≠ 0) (stray : ¬r.Names a.memory ptr) :
    (r.Derails a.memory a.heap.first ptr →
      attempt (release ptr) a = (.error .addOverflow, a) ∧
        ∀ size, 0 < size → attempt (resize ptr size) a = (.error .addOverflow, a)) ∧
      (¬r.Derails a.memory a.heap.first ptr →
        (∃ cause b, attempt (release ptr) a = (.ok (.error cause), b) ∧ a.Same b) ∧
          ∀ size, 0 < size → ∃ cause b, attempt (resize ptr size) a = (.ok (.error cause), b) ∧ a.Same b) := by
  obtain ⟨stopped, answered⟩ := judge_of_stray stray
  constructor
  · intro derails
    exact ⟨attempt_release_of_stopped region nonzero (stopped derails),
      fun size positive => attempt_resize_of_stopped region nonzero positive (stopped derails)⟩
  · intro bounded
    obtain ⟨standing, judged, refused⟩ := answered bounded
    refine ⟨?_, fun size positive => ?_⟩
    · obtain ⟨cause, refused⟩ := refused .doubleFree
      obtain ⟨notices, ran⟩ := attempt_release_of_refusal region nonzero judged refused
      exact ⟨cause, _, ran, rfl, rfl⟩
    · obtain ⟨cause, refused⟩ := refused .notAllocated
      obtain ⟨notices, ran⟩ := attempt_resize_of_refusal region nonzero positive judged refused
      exact ⟨cause, _, ran, rfl, rfl⟩

/-- There are only zeros where the header would be. -/
theorem not_names_swollen : ¬strayRegion.Names swollen.memory 4176 := by
  rintro ⟨off, same, -, intact⟩
  obtain rfl : off = 48 := by
    change 4176 = 4096 + off + 32 at same
    omega
  exact absurd intact (by decide +kernel)

theorem derails_swollen : strayRegion.Derails swollen.memory swollen.heap.first 4176 := by
  have searches : strayRegion.Searches swollen.memory 48 8 (some 0) 0 :=
    .here ⟨⟨Nat.zero_le _, strayRegion.holdsHeader_zero⟩, by decide +kernel⟩
  exact ⟨48, 0, rfl, rfl, by decide, searches, by decide +kernel⟩

/-- A stray address is not always refused. -/
theorem stray_stops_release : ¬∀ (a : Arena) (r : Region) (ptr : Nat), a.heap.region = some r →
    a.memory.Covers r.start r.size → ptr ≠ 0 → ¬r.Names a.memory ptr →
      ∃ cause b, attempt (release ptr) a = (.ok (.error cause), b) ∧ a.Same b := by
  intro refused
  obtain ⟨cause, b, ran, -⟩ := refused swollen strayRegion 4176 rfl (by decide +kernel) (by decide) not_names_swollen
  have stopped := (judge_of_stray not_names_swollen).1 derails_swollen
  rw [attempt_release_of_stopped (r := strayRegion) rfl (by decide) stopped] at ran
  cases ran

/-- The swollen size stops the release of an address in front of which there could be a header. One address further
there could be none, and the release is refused. -/
theorem stray_refused_exact_of_neighbours : attempt (release 4176) swollen = (.error .addOverflow, swollen) ∧
    ∃ cause b, attempt (release 4177) swollen = (.ok (.error cause), b) ∧ swollen.Same b := by
  have ragged : ∀ off, 4177 = strayRegion.payload off → off % Config.heapAlignment ≠ 0 := by
    intro off same
    change 4177 = 4096 + off + 32 at same
    simp only [Config.heapAlignment]
    omega
  have stray : ¬strayRegion.Names swollen.memory 4177 := by
    rintro ⟨off, same, holds, -⟩
    exact ragged off same holds.1
  have bounded : ¬strayRegion.Derails swollen.memory swollen.heap.first 4177 := by
    rintro ⟨target, last, same, aligned, -⟩
    exact ragged target same aligned
  exact ⟨((stray_refused_exact (r := strayRegion) rfl (by decide) not_names_swollen).1 derails_swollen).1,
    ((stray_refused_exact (r := strayRegion) rfl (by decide) stray).2 bounded).1⟩

end Arena
end KernelCore
