import KernelCore.Proofs.Heap.WildLinks
import Mathlib.Data.Finset.Card

namespace KernelCore

/-- A walk that comes to no end, however many hops it is given. -/
def NeverEnds {β : Type} (walk : (hops : Nat) → Except Fault β) : Prop := ∀ hops, walk hops = .error .endless

/-- A walk that comes to its end with so many hops, and to the same end with more. -/
def EndsWithin {β : Type} (bound : Nat) (walk : (hops : Nat) → Except Fault β) : Prop :=
  ∃ outcome, outcome ≠ .error .endless ∧ ∀ hops, bound ≤ hops → walk hops = outcome

theorem EndsWithin.of_succ {β : Type} {walk : Nat → Except Fault β} {outcome : Except Fault β}
    (ended : outcome ≠ .error .endless) (same : ∀ hops, walk (hops + 1) = outcome) : EndsWithin 1 walk := by
  refine ⟨outcome, ended, fun hops enough => ?_⟩
  obtain ⟨hops, rfl⟩ := Nat.exists_eq_add_of_le' enough
  exact same hops

theorem EndsWithin.mono {β : Type} {bound more : Nat} {walk : Nat → Except Fault β} (ends : EndsWithin bound walk)
    (le : bound ≤ more) : EndsWithin more walk := by
  obtain ⟨outcome, ended, same⟩ := ends
  exact ⟨outcome, ended, fun hops enough => same hops (Nat.le_trans le enough)⟩

theorem EndsWithin.not_neverEnds {β : Type} {bound : Nat} {walk : Nat → Except Fault β}
    (ends : EndsWithin bound walk) : ¬NeverEnds walk := by
  obtain ⟨outcome, ended, same⟩ := ends
  intro never
  exact ended ((same bound (Nat.le_refl _)).symm.trans (never bound))

namespace Region
variable {r : Region} {m : Memory} {goes : Nat → Prop} {off hops width : Nat} {link : Option Nat} {places : Set Nat}

/-- A loop that goes on behind the header at an offset if this `goes`, and only then, comes to its end after it has
looked at so many offsets from a link on. -/
inductive Ends (r : Region) (m : Memory) (goes : Nat → Prop) : (hops : Nat) → (link : Option Nat) → Prop
  | nowhere : Ends r m goes 0 none
  | stays {off : Nat} (stays : ¬goes off) : Ends r m goes 1 (some off)
  | goes {hops off : Nat} (on : goes off) (further : Ends r m goes hops (Header.read m (r.start + off)).next) :
    Ends r m goes (hops + 1) (some off)

theorem Ends.unique {other : Nat} (ends : r.Ends m goes hops link) (also : r.Ends m goes other link) :
    hops = other := by
  induction ends generalizing other with
  | nowhere =>
    cases also
    rfl
  | stays stays =>
    cases also with
    | stays => rfl
    | goes on => exact absurd on stays
  | goes on _ ih =>
    cases also with
    | stays stays => exact absurd on stays
    | goes _ further => rw [ih further]

/-- A loop that goes on behind a header that is linked to itself has no end. -/
theorem not_ends_of_self_link (on : goes off) (back : (Header.read m (r.start + off)).next = some off) (hops : Nat) :
    ¬r.Ends m goes hops (some off) := by
  intro ends
  cases ends with
  | stays stays => exact stays on
  | goes _ further =>
    rw [back] at further
    exact absurd ((Ends.goes on (back.symm ▸ further)).unique further) (Nat.succ_ne_self _)

/-- The offsets behind which a loop went on before it ended. No two of them are the same, because there is less left to
look at from each than from the one before. -/
theorem Ends.exists_passed (ends : r.Ends m goes hops link) (chart : Set Nat) (known : ∀ x ∈ link, x ∈ chart)
    (closed : ∀ x ∈ chart, ∀ next ∈ (Header.read m (r.start + x)).next, next ∈ chart) :
    ∃ passed : Finset Nat, hops ≤ passed.card + 1 ∧
      ∀ x ∈ passed, (x ∈ chart ∧ goes x) ∧ ∃ left ≤ hops, r.Ends m goes left (some x) := by
  induction ends with
  | nowhere => exact ⟨∅, by simp, by simp⟩
  | stays => exact ⟨∅, by simp, by simp⟩
  | @goes hops off on further ih =>
    have member := known off rfl
    obtain ⟨passed, many, all⟩ := ih (closed off member)
    have fresh : off ∉ passed := by
      intro again
      obtain ⟨-, left, less, ends⟩ := all off again
      have same := ends.unique (.goes on further)
      omega
    refine ⟨insert off passed, by rw [Finset.card_insert_of_notMem fresh]; omega, ?_⟩
    intro x inserted
    rcases Finset.mem_insert.mp inserted with rfl | old
    · exact ⟨⟨member, on⟩, hops + 1, Nat.le_refl _, .goes on further⟩
    · obtain ⟨known, left, less, ends⟩ := all x old
      exact ⟨known, left, by omega, ends⟩

/-- There can be headers at these offsets, and there are so many bytes from each to the next. -/
structure Spaced (r : Region) (width : Nat) (places : Set Nat) : Prop where
  holds : ∀ x ∈ places, r.HoldsHeader x
  apart : ∀ x ∈ places, ∀ y ∈ places, x < y → x + width ≤ y

theorem Spaced.card_le (spaced : r.Spaced width places) (positive : 0 < width) {passed : Finset Nat}
    (within : ∀ x ∈ passed, x ∈ places) : passed.card ≤ (r.size - Header.width) / width + 1 := by
  have climbs : StrictMonoOn (· / width) places := by
    intro x inX y inY less
    calc
      x / width < x / width + 1 := Nat.lt_succ_self _
      _ = (x + width) / width := (Nat.add_div_right x positive).symm
      _ ≤ y / width := Nat.div_le_div_right (spaced.apart x inX y inY less)
  rw [← Finset.card_range ((r.size - Header.width) / width + 1)]
  refine Finset.card_le_card_of_injOn (· / width) ?_ (climbs.injOn.mono within)
  intro x member
  have room := (spaced.holds x (within x member)).2
  exact Finset.mem_coe.mpr (Finset.mem_range.mpr (Nat.lt_succ_of_le (Nat.div_le_div_right (by omega))))

theorem spaced_holds (r : Region) : r.Spaced Config.heapAlignment { x | r.HoldsHeader x } where
  holds _ member := member
  apart x inX y inY less := by
    have alignedX := inX.1
    have alignedY := inY.1
    simp only [Config.heapAlignment] at *
    omega

/-- In any memory a loop ends before it has looked at more offsets than there are places for headers, or not at all. -/
theorem Ends.le_places (ends : r.Ends m goes hops link) (inside : ∀ off, goes off → r.HoldsHeader off) :
    hops ≤ r.size / Config.heapAlignment := by
  obtain ⟨passed, many, all⟩ := ends.exists_passed Set.univ (fun _ _ => trivial) fun _ _ _ _ => trivial
  -- The last offset that is looked at may be no place for a header, so one more is allowed for.
  have few := r.spaced_holds.card_le (by decide) fun x member => inside x (all x member).1.2
  have room := r.holds_block
  simp only [Config.heapAlignment, Config.heapMinPayload, Header.width] at *
  omega

end Region

open Region

/-- The headers of a chart lie side by side. -/
theorem Arena.Charted.spaced {a : Arena} {r : Region} {chart : Set Nat} (charted : a.Charted r chart) :
    r.Spaced Header.width chart where
  holds := charted.holds
  apart x inX y inY less := by
    have := charted.clear y inY x inX (Nat.ne_of_lt less)
    omega

/-- In a list that has a chart a loop ends before it has looked at more offsets than headers fit side by side, or not
at all. -/
theorem Arena.Charted.ends_le {a : Arena} {r : Region} {chart : Set Nat} {goes : Nat → Prop} {hops : Nat}
    (charted : a.Charted r chart) (ends : r.Ends a.memory goes hops a.heap.first) :
    hops ≤ r.size / Header.width + 1 := by
  obtain ⟨passed, many, all⟩ := ends.exists_passed chart charted.first charted.next
  have few := charted.spaced.card_le (by decide) fun x member => (all x member).1.1
  have room := r.holds_block
  simp only [Config.heapMinPayload, Header.width] at *
  omega

/-- In a heap that is in order every loop along the list ends, since the links lead from each parcel to a later one. -/
theorem Parcel.exists_ends_of_recorded {r : Region} {m : Memory} {prev : Option Nat} {plan : List Parcel}
    (goes : Nat → Prop) (recorded : Recorded r m prev plan none) :
    ∃ hops, r.Ends m goes hops (firstLink plan none) := by
  induction plan generalizing prev with
  | nil => exact ⟨0, .nowhere⟩
  | cons p rest ih =>
    obtain ⟨here, later⟩ := recorded
    obtain ⟨hops, further⟩ := ih later
    rw [firstLink_cons]
    by_cases listed : p.isListed = true
    · rw [link_of_listed listed]
      rw [header_of_listed (isListed_iff.mp listed)] at here
      by_cases on : goes p.off
      · exact ⟨hops + 1, .goes on (by rwa [here])⟩
      · exact ⟨1, .stays on⟩
    · rw [link_of_unlisted (by simpa using listed)]
      exact ⟨hops, further⟩

namespace Region
variable {r : Region} {m : Memory} {goes : Nat → Prop} {off hops : Nat} {link before : Option Nat}
  {s s' : Heap.Statistics} {β : Type} {run : (hops : Nat) → (before link : Option Nat) → Except Fault β}

/-- A computation that is a loop: behind an offset that `goes` it needs the outcome from the next link on, with one hop
less, and elsewhere it is done. -/
structure Follows (r : Region) (m : Memory) (goes : Nat → Prop)
    (run : (hops : Nat) → (before link : Option Nat) → Except Fault β) : Prop where
  short : ∀ before off, run 0 before (some off) = .error .endless
  nowhere : ∀ before, EndsWithin 0 fun hops => run hops before none
  stays : ∀ before off, ¬goes off → EndsWithin 1 fun hops => run hops before (some off)
  goes : ∀ before off, goes off → ∃ change : β → β, ∀ hops, run (hops + 1) before (some off) =
    (run hops (some off) (Header.read m (r.start + off)).next).map change

theorem Follows.endsWithin (follows : r.Follows m goes run) (ends : r.Ends m goes hops link) (before : Option Nat) :
    EndsWithin hops fun left => run left before link := by
  induction ends generalizing before with
  | nowhere => exact follows.nowhere before
  | stays stays => exact follows.stays before _ stays
  | @goes hops off on _ ih =>
    obtain ⟨change, further⟩ := follows.goes before off on
    obtain ⟨outcome, ended, same⟩ := ih (some off)
    refine ⟨outcome.map change, ?_, fun left enough => ?_⟩
    · cases outcome with
      | error fault => simpa [Except.map] using ended
      | ok found => simp [Except.map]
    · obtain ⟨left, rfl⟩ := Nat.exists_eq_add_of_le' (Nat.le_trans (Nat.le_add_left 1 hops) enough)
      dsimp only
      rw [further]
      exact congrArg (Except.map change) (same left (by omega))

theorem Follows.neverEnds (follows : r.Follows m goes run) (never : ∀ hops, ¬r.Ends m goes hops link)
    (before : Option Nat) : NeverEnds fun left => run left before link := by
  intro left
  induction left generalizing before link with
  | zero =>
    cases link with
    | none => exact absurd .nowhere (never 0)
    | some off => exact follows.short before off
  | succ left ih =>
    cases link with
    | none => exact absurd .nowhere (never 0)
    | some off =>
      have on : goes off := not_not.mp fun stays => never 1 (.stays stays)
      obtain ⟨change, further⟩ := follows.goes before off on
      dsimp only at ih ⊢
      rw [further, ih (fun hops ends => never (hops + 1) (.goes on ends)) (some off)]
      rfl

theorem Follows.not_ends (follows : r.Follows m goes run) (before : Option Nat)
    (never : NeverEnds fun left => run left before link) (hops : Nat) : ¬r.Ends m goes hops link :=
  fun ends => (follows.endsWithin ends before).not_neverEnds never

/-- A computation that is a loop never ends, or it is done within the hops that a loop with an end takes. -/
theorem Follows.decided {bound : Nat} (follows : r.Follows m goes run)
    (few : ∀ hops, r.Ends m goes hops link → hops ≤ bound) (before : Option Nat) :
    (NeverEnds fun left => run left before link) ∨ EndsWithin bound fun left => run left before link := by
  by_cases ends : ∃ hops, r.Ends m goes hops link
  · obtain ⟨hops, ends⟩ := ends
    exact Or.inr ((follows.endsWithin ends before).mono (few hops ends))
  · exact Or.inl (follows.neverEnds (fun hops ended => ends ⟨hops, ended⟩) before)

/-- The search for a block of `need` bytes goes on behind the header at an offset. -/
def Skips (r : Region) (m : Memory) (need off : Nat) : Prop :=
  let h := Header.read m (r.start + off)
  r.HoldsHeader off ∧ h.isIntact = true ∧ ¬(h.isFree = true ∧ need ≤ h.size)

/-- The search for the place of `target` goes on behind the header at an offset. -/
def Precedes (r : Region) (target off : Nat) : Prop := r.HoldsHeader off ∧ off < target

/-- The tour of the list goes on behind the header at an offset. -/
def Tours (r : Region) (m : Memory) (off : Nat) : Prop :=
  r.HoldsHeader off ∧ (Header.read m (r.start + off)).isIntact = true

theorem firstFit_of_skips {need : Nat} (skips : r.Skips m need off) (hops : Nat) :
    r.firstFit m need (hops + 1) (some off) = r.firstFit m need hops (Header.read m (r.start + off)).next := by
  obtain ⟨holds, intact, lacks⟩ := skips
  rw [firstFit, if_pos holds]
  generalize Header.read m (r.start + off) = h at intact lacks ⊢
  dsimp only
  rw [if_pos intact, if_neg lacks]

theorem firstFit_of_not_skips {need : Nat} (stays : ¬r.Skips m need off) :
    ∃ fit, ∀ hops, r.firstFit m need (hops + 1) (some off) = .ok fit := by
  unfold Skips at stays
  simp only [firstFit]
  generalize Header.read m (r.start + off) = h at stays ⊢
  by_cases holds : r.HoldsHeader off
  · by_cases intact : h.isIntact = true
    · have suits := not_not.mp fun lacks => stays ⟨holds, intact, lacks⟩
      exact ⟨.found off, fun _ => by rw [if_pos holds, if_pos intact, if_pos suits]⟩
    · exact ⟨.badHeader off, fun _ => by rw [if_pos holds, if_neg intact]⟩
  · exact ⟨.wildLink off, fun _ => by rw [if_neg holds]⟩

theorem follows_firstFit (r : Region) (m : Memory) (need : Nat) :
    r.Follows m (r.Skips m need) fun hops _ link => r.firstFit m need hops link where
  short _ _ := rfl
  nowhere _ := ⟨.ok .exhausted, by simp, fun hops _ => by cases hops <;> rfl⟩
  stays _ off stays := by
    obtain ⟨fit, same⟩ := firstFit_of_not_skips stays
    exact .of_succ (by simp) same
  goes _ off on := ⟨id, fun hops => by rw [firstFit_of_skips on, Except.map_id, id]⟩

theorem around_of_precedes {target : Nat} (precedes : r.Precedes target off) (hops : Nat) (before : Option Nat) :
    r.around m target (hops + 1) before (some off) =
      r.around m target hops (some off) (Header.read m (r.start + off)).next := by
  rw [around, if_pos precedes.2, header_of_holds m precedes.1]
  dsimp only [bind, Except.bind]

theorem around_of_not_precedes {target : Nat} (stays : ¬r.Precedes target off) (before : Option Nat) :
    ∃ outcome, outcome ≠ .error .endless ∧ ∀ hops, r.around m target (hops + 1) before (some off) = outcome := by
  simp only [around]
  by_cases less : off < target
  · have wild : ¬r.HoldsHeader off := fun holds => stays ⟨holds, less⟩
    refine ⟨.error .headerOutOfBounds, by simp, fun hops => ?_⟩
    rw [if_pos less, header_of_not_holds m wild]
    rfl
  · exact ⟨.ok (before, some off), by simp, fun hops => if_neg less⟩

theorem follows_around (r : Region) (m : Memory) (target : Nat) :
    r.Follows m (r.Precedes target) (r.around m target) where
  short _ _ := rfl
  nowhere before := ⟨.ok (before, none), by simp, fun hops _ => by cases hops <;> rfl⟩
  stays before off stays := by
    obtain ⟨outcome, ended, same⟩ := around_of_not_precedes stays before
    exact .of_succ ended same
  goes before off on := ⟨id, fun hops => by rw [around_of_precedes on, Except.map_id, id]⟩

theorem listed_of_tours (tours : r.Tours m off) (hops : Nat) :
    r.listed m (hops + 1) (some off) = (r.listed m hops (Header.read m (r.start + off)).next).map
      ((off, (Header.read m (r.start + off)).size) :: ·) := by
  obtain ⟨holds, intact⟩ := tours
  rw [listed, if_pos holds]
  generalize Header.read m (r.start + off) = h at intact ⊢
  dsimp only
  rw [if_pos intact]
  cases r.listed m hops h.next <;> rfl

theorem listed_of_not_tours (stays : ¬r.Tours m off) :
    ∃ blocks, ∀ hops, r.listed m (hops + 1) (some off) = .ok blocks := by
  unfold Tours at stays
  simp only [listed]
  generalize Header.read m (r.start + off) = h at stays ⊢
  by_cases holds : r.HoldsHeader off
  · have damaged : ¬h.isIntact = true := fun intact => stays ⟨holds, intact⟩
    exact ⟨[(off, h.size)], fun _ => by rw [if_pos holds, if_neg damaged]⟩
  · exact ⟨[], fun _ => if_neg holds⟩

theorem follows_listed (r : Region) (m : Memory) :
    r.Follows m (r.Tours m) fun hops _ link => r.listed m hops link where
  short _ _ := rfl
  nowhere _ := ⟨.ok [], by simp, fun hops _ => by cases hops <;> rfl⟩
  stays _ off stays := by
    obtain ⟨blocks, same⟩ := listed_of_not_tours stays
    exact .of_succ (by simp) same
  goes _ off on := ⟨((off, (Header.read m (r.start + off)).size) :: ·), fun hops => by rw [listed_of_tours on]⟩

/-- Behind an intact header the tour counts on, as long as the sums are words. -/
theorem tally_of_tours (tours : r.Tours m off) (hops : Nat) (s : Heap.Statistics) :
    r.tally m (hops + 1) s (some off) = .error .addOverflow ∨ ∃ counted : Heap.Statistics,
      counted.freeBlocks = s.freeBlocks + 1 ∧
        r.tally m (hops + 1) s (some off) = r.tally m hops counted (Header.read m (r.start + off)).next := by
  obtain ⟨holds, intact⟩ := tours
  rw [tally, if_pos holds]
  generalize Header.read m (r.start + off) = h at intact ⊢
  dsimp only
  rw [if_pos intact]
  by_cases free : s.free + h.size < wordLimit
  · by_cases blocks : s.freeBlocks + 1 < wordLimit
    · rw [Word.add_of_lt free, Word.add_of_lt blocks]
      exact Or.inr ⟨_, rfl, rfl⟩
    · rw [Word.add_of_lt free, Word.add_of_not_lt blocks]
      exact Or.inl rfl
  · rw [Word.add_of_not_lt free]
    exact Or.inl rfl

theorem tally_of_not_tours (stays : ¬r.Tours m off) (hops : Nat) (s : Heap.Statistics) :
    r.tally m (hops + 1) s (some off) = .ok s := by
  unfold Tours at stays
  rw [tally]
  generalize Header.read m (r.start + off) = h at stays ⊢
  by_cases holds : r.HoldsHeader off
  · rw [if_pos holds]
    exact if_neg fun intact => stays ⟨holds, intact⟩
  · exact if_neg holds

/-- On a tour that never ends the counters grow until they are no words. -/
theorem tally_of_never (never : ∀ hops, ¬r.Ends m (r.Tours m) hops link) (hops : Nat) (s : Heap.Statistics) :
    r.tally m hops s link = .error .addOverflow := by
  induction hops generalizing link s with
  | zero =>
    cases link with
    | none => exact absurd .nowhere (never 0)
    | some off => rfl
  | succ hops ih =>
    cases link with
    | none => exact absurd .nowhere (never 0)
    | some off =>
      have on : r.Tours m off := not_not.mp fun stays => never 1 (.stays stays)
      rcases tally_of_tours on hops s with stopped | ⟨counted, -, further⟩
      · exact stopped
      · rw [further]
        exact ih (fun hops ends => never (hops + 1) (.goes on ends)) counted

/-- A tour that ends looks at one offset more than it counts blocks, at most. -/
theorem ends_of_tally (counted : r.tally m hops s link = .ok s') :
    ∃ looked, r.Ends m (r.Tours m) looked link ∧ looked + s.freeBlocks ≤ s'.freeBlocks + 1 := by
  induction hops generalizing link s with
  | zero =>
    cases link with
    | none =>
      obtain rfl := Except.ok.inj counted
      exact ⟨0, .nowhere, by omega⟩
    | some off => cases counted
  | succ hops ih =>
    cases link with
    | none =>
      obtain rfl := Except.ok.inj counted
      exact ⟨0, .nowhere, by omega⟩
    | some off =>
      by_cases on : r.Tours m off
      · rcases tally_of_tours on hops s with stopped | ⟨sum, more, further⟩
        · rw [stopped] at counted
          cases counted
        · rw [further] at counted
          obtain ⟨looked, ends, few⟩ := ih counted
          exact ⟨looked + 1, .goes on ends, by omega⟩
      · obtain rfl := Except.ok.inj ((tally_of_not_tours on hops s).symm.trans counted)
        exact ⟨1, .stays on, by omega⟩

/-- The blocks that a check counts are no more than headers fit side by side. -/
theorem count_le_of_auditBlocks {found : Nat} (passed : r.auditBlocks m 0 0 false = .ok (.ok found)) :
    found ≤ r.size / Header.width := by
  obtain ⟨blocks, tiles, -, rfl⟩ := tiles_of_auditBlocks passed (Nat.zero_le _)
  have fit := (Arena.spans_of_tiles tiles).length_le
  have some := List.countP_le_length (p := fun b : Block => b.header.isFree) (l := blocks)
  rw [List.length_map] at fit
  simp only [Header.width] at *
  omega

/-- In a region of less than 2^35 bytes both counters of a check have room in 31 bits: the free blocks, and the blocks of
the list, which are one more at most. -/
theorem count_fits_of_auditBlocks {found : Nat} (small : r.size < 2 ^ 35)
    (passed : r.auditBlocks m 0 0 false = .ok (.ok found)) : found + 1 < 2 ^ 31 := by
  have fit := count_le_of_auditBlocks passed
  simp only [Header.width] at fit
  omega

end Region

namespace Arena
open Machine
variable {a : Arena} {r : Region} {chart : Set Nat} {blocks : List Block} {off size need : Nat} {h : Header}

/-- The search of the list for a block of `need` bytes. -/
abbrev search (a : Arena) (r : Region) (need hops : Nat) : Except Fault Region.Fit :=
  r.firstFit a.memory need hops a.heap.first

/-- The search of the list for the place of the block at `off`. -/
abbrev placing (a : Arena) (r : Region) (off hops : Nat) : Except Fault (Option Nat × Option Nat) :=
  r.around a.memory off hops none a.heap.first

/-- The tour of the list. -/
abbrev tour (a : Arena) (r : Region) (hops : Nat) : Except Fault (List (Nat × Nat)) :=
  r.listed a.memory hops a.heap.first

/-- Something holds of every walk that is not bounded but by the links. -/
structure EachWalk (a : Arena) (r : Region) (holds : {β : Type} → ((hops : Nat) → Except Fault β) → Prop) : Prop where
  search : ∀ need, holds (a.search r need)
  placing : ∀ off, holds (a.placing r off)
  tour : holds (a.tour r)

/-- The walks are loops that go on only behind headers in the region. -/
theorem eachWalk {holds : {β : Type} → ((hops : Nat) → Except Fault β) → Prop}
    (loops : ∀ {β : Type} {goes : Nat → Prop} {run : Nat → Option Nat → Option Nat → Except Fault β},
      r.Follows a.memory goes run → (∀ off, goes off → r.HoldsHeader off) →
        holds fun hops => run hops none a.heap.first) :
    a.EachWalk r holds where
  search need := loops (r.follows_firstFit a.memory need) fun _ on => on.1
  placing off := loops (r.follows_around a.memory off) fun _ on => on.1
  tour := loops (r.follows_listed a.memory) fun _ on => on.1

theorem eachWalk_decided (a : Arena) (r : Region) :
    a.EachWalk r fun walk => NeverEnds walk ∨ EndsWithin (r.size / Config.heapAlignment) walk :=
  eachWalk fun follows inside => follows.decided (fun _ ends => ends.le_places inside) none

theorem Charted.eachWalk_decided (charted : a.Charted r chart) :
    a.EachWalk r fun walk => NeverEnds walk ∨ EndsWithin (r.size / Header.width + 1) walk :=
  eachWalk fun follows _ => follows.decided (fun _ ends => charted.ends_le ends) none

theorem Proper.eachWalk_ends (proper : a.Proper r blocks) :
    a.EachWalk r fun walk => EndsWithin (r.size / Header.width + 1) walk := by
  have shows := proper.sound.shows
  refine eachWalk fun {_ goes _} follows _ => ?_
  obtain ⟨hops, ends⟩ := Parcel.exists_ends_of_recorded goes shows.recorded
  rw [← shows.first] at ends
  exact (follows.endsWithin ends none).mono (shows.charted.ends_le ends)

theorem attempt_allocate_of_neverEnds (region : a.heap.region = some r) (positive : size ≠ 0)
    (rounded : Word.roundUp? size Config.heapAlignment = some need) (never : NeverEnds (a.search r need)) :
    attempt (allocate size) a = (.error .endless, a) := by
  rw [attempt_allocate_of_rounded region positive rounded, attempt_bind, attempt_findFit_of_fault (never r.hopLimit)]

theorem runFrom_attach_of_neverEnds (never : NeverEnds (a.placing r off)) :
    (attach r off).runFrom a = (.error .endless, a) := by
  have walked : r.around a.memory off r.hopLimit none a.heap.first = .error .endless := never r.hopLimit
  unfold attach
  rw [runFrom_bind, runFrom_get]
  dsimp only
  rw [walked]
  rfl

/-- A live block is marked as free, and then its place in the list is searched without an end. -/
theorem Live.release_endless (live : a.Live r off) (region : a.heap.region = some r)
    (stored : Header.read a.memory (r.start + off) = h)
    (never : NeverEnds
      ({ a with memory := ({ h with tag := 1 } : Header).write a.memory (r.start + off) }.placing r off)) :
    (attempt (release (r.payload off)) a).1 = .error .endless := by
  have counted : h.size ≤ a.heap.used := stored ▸ live.counted
  have stops : (reclaim r off h).Stops .endless a := by
    unfold reclaim
    rw [stops_bind_of_runFrom (runFrom_get a), Word.sub_of_le counted, stops_bind_of_runFrom (runFrom_lift ..),
      stops_bind_of_runFrom (runFrom_setUsed ..), stops_bind_of_runFrom (runFrom_setHeader_of_holds _ _ live.holds)]
    refine Stops.bind ?_ _
    unfold Stops
    -- The counter was changed before, but the walk does not look at it.
    rw [runFrom_attach_of_neverEnds]
    exact never
  have stopped : ((reclaim r off h).runFrom a).1 = .error .endless := stops
  rw [live.attempt_release region stored, attempt_lift, stopped]
  rfl

theorem statistics_of_neverEnds (region : a.heap.region = some r) (never : NeverEnds (a.tour r)) :
    a.statistics = .error .addOverflow := by
  unfold Arena.statistics
  simp only [region]
  exact Region.tally_of_never ((r.follows_listed a.memory).not_ends none never) _ _

theorem runFrom_describe_of_neverEnds (region : a.heap.region = some r) (never : NeverEnds (a.tour r)) :
    describe.runFrom a = (.error .addOverflow, a) := by
  unfold describe
  rw [runFrom_bind, runFrom_get]
  dsimp only
  rw [statistics_of_neverEnds region never]
  rfl

/-- The tour behind the counters takes one hop more than it counts blocks, at most. -/
theorem endsWithin_of_statistics {s : Heap.Statistics} (region : a.heap.region = some r)
    (counted : a.statistics = .ok s) : EndsWithin (s.freeBlocks + 1) (a.tour r) := by
  unfold Arena.statistics at counted
  simp only [region] at counted
  obtain ⟨looked, ends, few⟩ := Region.ends_of_tally counted
  exact ((r.follows_listed a.memory).endsWithin ends none).mono (by simpa using few)

/-- An address is judged by a search that ends, whatever it meets. -/
theorem avoids_judge (a : Arena) (r : Region) (ptr : Nat) : (judge r ptr).Avoids .endless a fun _ b => b = a := by
  have of_standing : ∀ {standing}, (judge r ptr).runFrom a = (.ok standing, a) →
      (judge r ptr).Avoids .endless a fun _ b => b = a := fun judged => (Meets.of_runFrom judged rfl).avoids
  by_cases named : r.Names a.memory ptr
  · obtain ⟨off, rfl, holds, intact⟩ := named
    by_cases room : off + Header.width < r.size
    · exact of_standing (judge_of_intact holds.1 room intact)
    · exact of_standing (judge_of_outlying (outlying_payload room))
  · obtain ⟨stopped, answered⟩ := judge_of_stray named
    by_cases derails : r.Derails a.memory a.heap.first ptr
    · unfold Avoids
      rw [stopped derails]
      simp
    · obtain ⟨standing, judged, -⟩ := answered derails
      exact of_standing judged

theorem check_ends (region : a.heap.region = some r) : (attempt check a).1 ≠ .error .endless := by
  obtain ⟨stopped, answered⟩ := attempt_check_exact region
  by_cases overflows : r.Overflows a.memory
  · simp [stopped overflows]
  · rcases answered overflows with passed | ⟨notice, found⟩
    · simp [passed]
    · simp [found]

/-- Whatever the memory holds, a search for a block, a search for a place in the list and a tour of the list each end
within as many hops as there are places for headers, or they never end. In a list that has a chart they end within one
hop more than headers fit side by side, or never, and in a heap that is in order they do end so. An address is judged
and the heap is checked by walks that always end; a check follows one link more than it has counted free blocks, at
most. An allocation whose search never ends is stopped there, and so are a release and whatever else puts a block into
the list if the search for its place never ends. On a tour that never ends the counters overflow, and before that they
count every hop. -/
theorem walks_end_or_never (region : a.heap.region = some r) :
    (a.EachWalk r fun walk => NeverEnds walk ∨ EndsWithin (r.size / Config.heapAlignment) walk) ∧
    (∀ chart, a.Charted r chart →
      a.EachWalk r fun walk => NeverEnds walk ∨ EndsWithin (r.size / Header.width + 1) walk) ∧
    (∀ blocks, a.Proper r blocks → a.EachWalk r fun walk => EndsWithin (r.size / Header.width + 1) walk) ∧
    (∀ ptr, (judge r ptr).Avoids .endless a fun _ b => b = a) ∧
    ((attempt check a).1 ≠ .error .endless ∧ ∀ found, r.auditBlocks a.memory 0 0 false = .ok (.ok found) →
      found + 1 ≤ r.size / Header.width + 1) ∧
    (∀ size need, size ≠ 0 → Word.roundUp? size Config.heapAlignment = some need → NeverEnds (a.search r need) →
      attempt (allocate size) a = (.error .endless, a)) ∧
    (∀ off, NeverEnds (a.placing r off) → (attach r off).runFrom a = (.error .endless, a)) ∧
    (∀ off h, a.Live r off → Header.read a.memory (r.start + off) = h →
      NeverEnds ({ a with memory := ({ h with tag := 1 } : Header).write a.memory (r.start + off) }.placing r off) →
      (attempt (release (r.payload off)) a).1 = .error .endless) ∧
    (NeverEnds (a.tour r) → a.statistics = .error .addOverflow ∧ describe.runFrom a = (.error .addOverflow, a)) ∧
    ∀ s, a.statistics = .ok s → EndsWithin (s.freeBlocks + 1) (a.tour r) := by
  refine ⟨eachWalk_decided a r, ?_, ?_, avoids_judge a r, ⟨check_ends region, ?_⟩, ?_, ?_, ?_, ?_, ?_⟩
  · intro chart charted
    exact charted.eachWalk_decided
  · intro blocks proper
    exact proper.eachWalk_ends
  · intro found passed
    exact Nat.succ_le_succ (Region.count_le_of_auditBlocks passed)
  · intro size need positive rounded never
    exact attempt_allocate_of_neverEnds region positive rounded never
  · intro off never
    exact runFrom_attach_of_neverEnds never
  · intro off h live stored never
    exact live.release_endless region stored never
  · intro never
    exact ⟨statistics_of_neverEnds region never, runFrom_describe_of_neverEnds region never⟩
  · intro s counted
    exact endsWithin_of_statistics region counted

theorem link_looped : (Header.read looped.memory (strayRegion.start + 0)).next = some 0 :=
  congrArg Header.next read_looped

theorem search_looped : NeverEnds (looped.search strayRegion 232) := by
  have skips : strayRegion.Skips looped.memory 232 0 :=
    ⟨strayRegion.holdsHeader_zero, by decide +kernel, by decide +kernel⟩
  exact (Region.follows_firstFit ..).neverEnds (Region.not_ends_of_self_link skips link_looped) none

theorem tour_looped : NeverEnds (looped.tour strayRegion) := by
  have tours : strayRegion.Tours looped.memory 0 := ⟨strayRegion.holdsHeader_zero, by decide +kernel⟩
  exact (Region.follows_listed ..).neverEnds (Region.not_ends_of_self_link tours link_looped) none

/-- Not every walk ends within one hop more than headers fit side by side. -/
theorem search_goes_round : ¬∀ (a : Arena) (r : Region), a.heap.region = some r → a.memory.Covers r.start r.size →
    a.EachWalk r fun walk => EndsWithin (r.size / Header.width + 1) walk := by
  intro bounded
  have ends := (bounded looped strayRegion rfl (by decide +kernel)).search 232
  exact ends.not_neverEnds search_looped

/-- An allocation of more than the looped block has never comes back, and the counters of the heap overflow. The block
itself is found at once, and a check ends. -/
theorem walks_end_or_never_of_looped : looped.heap.region = some strayRegion ∧
    attempt (allocate 232) looped = (.error .endless, looped) ∧ looped.statistics = .error .addOverflow ∧
    EndsWithin 9 (looped.search strayRegion 16) ∧ (attempt check looped).1 ≠ .error .endless := by
  obtain ⟨-, charted, -, -, ⟨checks, -⟩, allocates, -, -, counts, -⟩ :=
    walks_end_or_never (a := looped) (r := strayRegion) rfl
  refine ⟨rfl, allocates 232 232 (by decide) (by decide) search_looped, (counts tour_looped).1, ?_, checks⟩
  have found : looped.search strayRegion 16 1 = .ok (.found 0) := by decide +kernel
  refine ((charted {0} charted_looped).search 16).resolve_left fun never => ?_
  rw [never 1] at found
  cases found

end Arena
end KernelCore
