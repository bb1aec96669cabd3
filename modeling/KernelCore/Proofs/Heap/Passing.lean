import KernelCore.Proofs.Heap.Auditing
import Mathlib.Data.List.Perm.Subperm

namespace KernelCore

namespace Region
variable {r : Region} {m : Memory} {off count found left rest : Nat} {freeBefore : Bool} {prev link : Option Nat}

/-- The walk over the blocks finds fault with a block, or the end of the block is no word, or the walk goes on
behind it. -/
theorem auditBlocks_inv {outcome : Except Fault (Except Heap.Defect Nat)} (inside : off < r.size) {h : Header}
    (stored : h = Header.read m (r.start + off)) (ended : r.auditBlocks m off count freeBefore = outcome)
    (unfaulted : ∀ defect, outcome ≠ .ok (.error defect)) :
    r.HoldsHeader off ∧ h.isIntact = true ∧ h.size % Config.heapAlignment = 0 ∧
      (wordLimit ≤ off + Header.width + h.size ∧ outcome = .error .addOverflow ∨
        off + Header.width + h.size ≤ r.size ∧ (h.isFree = true → freeBefore = false) ∧
        r.auditBlocks m (off + Header.width + h.size) (if h.isFree then count + 1 else count) h.isFree = outcome) := by
  rw [auditBlocks, dif_pos inside] at ended
  by_cases holds : r.HoldsHeader off
  · rw [if_pos holds, ← stored] at ended
    dsimp only at ended
    by_cases damaged : h.isIntact = false
    · rw [if_pos damaged] at ended
      exact absurd ended.symm (unfaulted _)
    by_cases ragged : h.size % Config.heapAlignment ≠ 0
    · rw [if_neg damaged, if_pos ragged] at ended
      exact absurd ended.symm (unfaulted _)
    rw [if_neg damaged, if_neg ragged] at ended
    refine ⟨holds, by simpa using damaged, by simpa using ragged, ?_⟩
    by_cases large : wordLimit ≤ off + Header.width + h.size
    · rw [if_pos large] at ended
      exact Or.inl ⟨large, ended.symm⟩
    by_cases overruns : r.size < off + Header.width + h.size
    · rw [if_neg large, if_pos overruns] at ended
      exact absurd ended.symm (unfaulted _)
    rw [if_neg large, if_neg overruns] at ended
    by_cases adjacent : (h.isFree && freeBefore) = true
    · rw [if_pos adjacent] at ended
      exact absurd ended.symm (unfaulted _)
    rw [if_neg adjacent] at ended
    refine Or.inr ⟨by omega, ?_, ended⟩
    intro free
    simpa [free] using adjacent
  · rw [if_neg holds] at ended
    exact absurd ended.symm (unfaulted _)

/-- The blocks that the walk over them has passed. They tile the region, or they lead to one without an end. -/
theorem passes_of_auditBlocks {outcome : Except Fault (Except Heap.Defect Nat)}
    (ended : r.auditBlocks m off count freeBefore = outcome) (unfaulted : ∀ defect, outcome ≠ .ok (.error defect))
    (within : off ≤ r.size) :
    ∃ blocks stop, r.Passes m off blocks stop ∧ Block.Separated blocks ∧
      (freeBefore = true → ∀ b ∈ blocks.head?, b.header.isFree = false) ∧
      (stop = r.size ∧ outcome = .ok (.ok (count + blocks.countP fun b => b.header.isFree)) ∨
        r.Overlong m stop ∧ outcome = .error .addOverflow) := by
  -- Every block leaves less of the region to be walked over.
  induction gap : r.size - off using Nat.strongRecOn generalizing off count freeBefore with
  | ind gap ih =>
    by_cases inside : off < r.size
    swap
    · rw [auditBlocks, dif_neg inside] at ended
      exact ⟨[], off, rfl, trivial, by simp, Or.inl ⟨by omega, ended.symm⟩⟩
    generalize stored : Header.read m (r.start + off) = h
    obtain ⟨holds, intact, whole, ⟨large, overflow⟩ | ⟨fits, apart, later⟩⟩ :=
      auditBlocks_inv inside stored.symm ended unfaulted
    · subst stored
      exact ⟨[], off, rfl, trivial, by simp, Or.inr ⟨⟨holds, intact, whole, large⟩, overflow⟩⟩
    have wide : 0 < Header.width := by decide
    obtain ⟨rest, stop, passes, separated, apartNext, outcome_eq⟩ := ih _ (by omega) later fits rfl
    have counted : (if h.isFree then count + 1 else count) + (rest.countP fun b => b.header.isFree) =
        count + (⟨off, h⟩ :: rest : List Block).countP fun b => b.header.isFree := by
      rw [List.countP_cons]
      cases h.isFree with
      | false => simp
      | true => simp; omega
    rw [counted] at outcome_eq
    refine ⟨⟨off, h⟩ :: rest, stop, ⟨rfl, stored.symm, intact, whole, fits, passes⟩, ?_, ?_, outcome_eq⟩
    · cases rest with
      | nil => trivial
      | cons c rest =>
        refine ⟨?_, separated⟩
        cases free : h.isFree with
        | false => exact Or.inl rfl
        | true => exact Or.inr (apartNext free c rfl)
    · rintro before b ⟨⟩
      cases free : h.isFree with
      | false => rfl
      | true => simp [apart free] at before

/-- A walk over the blocks that finds no fault with any has seen that they tile the region. -/
theorem tiles_of_auditBlocks (passed : r.auditBlocks m off count freeBefore = .ok (.ok found)) (within : off ≤ r.size) :
    ∃ blocks, r.Tiles m off blocks ∧ Block.Separated blocks ∧ found = count + blocks.countP fun b => b.header.isFree := by
  obtain ⟨blocks, stop, passes, separated, -, ⟨rfl, same⟩ | ⟨-, stopped⟩⟩ :=
    passes_of_auditBlocks passed (by simp) within
  · exact ⟨blocks, tiles_iff_passes.mpr passes, separated, Except.ok.inj (Except.ok.inj same)⟩
  · cases stopped

/-- The headers that the walk along the list has met. -/
theorem linked_of_auditList (passed : r.auditList m left prev link = .ok rest) :
    ∃ links, Block.Linked prev link links ∧ links.length + rest = left ∧
      (∀ b ∈ links, r.HoldsHeader b.off ∧ b.header = Header.read m (r.start + b.off) ∧ b.header.isIntact = true ∧
        b.header.isFree = true) ∧
      (∀ b ∈ links, ∀ off, prev = some off → off < b.off) ∧ links.Pairwise fun b c => b.off < c.off := by
  induction left generalizing prev link with
  | zero =>
    cases link with
    | none =>
      obtain rfl := Except.ok.inj passed
      exact ⟨[], rfl, rfl, by simp, by simp, List.Pairwise.nil⟩
    | some off => simp [auditList] at passed
  | succ left ih =>
    cases link with
    | none =>
      obtain rfl := Except.ok.inj passed
      exact ⟨[], rfl, by simp, by simp, by simp, List.Pairwise.nil⟩
    | some off =>
      rw [auditList] at passed
      by_cases holds : r.HoldsHeader off
      · rw [if_pos holds] at passed
        generalize stored : Header.read m (r.start + off) = h at passed
        dsimp only at passed
        by_cases alien : h.isIntact = false ∨ h.isFree = false
        · simp [alien] at passed
        by_cases astray : h.prev ≠ prev ∨ prev.any (off ≤ ·)
        · simp [alien, astray] at passed
        rw [if_neg alien, if_neg astray] at passed
        obtain ⟨genuine, free⟩ : h.isIntact = true ∧ h.isFree = true := by simpa using alien
        obtain ⟨back, behind⟩ := not_or.mp astray
        obtain ⟨links, linked, length, sound, above, ascending⟩ := ih passed
        have first : ∀ before, prev = some before → before < off := by
          rintro before rfl
          simpa using behind
        have later : ∀ b ∈ links, off < b.off := fun b member => above b member off rfl
        refine ⟨⟨off, h⟩ :: links, ⟨rfl, not_not.mp back, linked⟩, by rw [List.length_cons]; omega,
          List.forall_mem_cons.mpr ⟨⟨holds, stored.symm, genuine, free⟩, sound⟩, ?_,
          List.pairwise_cons.mpr ⟨later, ascending⟩⟩
        refine List.forall_mem_cons.mpr ⟨first, fun b member before same => ?_⟩
        exact Nat.lt_trans (first before same) (later b member)
      · simp [holds] at passed

end Region

namespace Arena
variable {a : Arena} {r : Region} {blocks links : List Block}

/-- What a check looks at: the blocks, which tile the region without two free neighbours, and the headers that are
linked from the head of the list on. These are intact headers of free blocks in the order of their offsets, and there
are so many of them as there are free blocks. -/
structure Audited (a : Arena) (r : Region) (blocks links : List Block) : Prop where
  tiles : r.Tiles a.memory 0 blocks
  separated : Block.Separated blocks
  linked : Block.Linked none a.heap.first links
  genuine : ∀ b ∈ links, r.HoldsHeader b.off ∧ b.header = Header.read a.memory (r.start + b.off) ∧
    b.header.isIntact = true ∧ b.header.isFree = true
  ascending : links.Pairwise fun b c => b.off < c.off
  count : links.length = (blocks.filter fun b => b.header.isFree).length

theorem Audited.audit (audited : a.Audited r blocks links) : r.audit a.memory a.heap.first = .ok (.ok ()) := by
  have walk := Region.auditBlocks_of_tiles 0 false audited.tiles rfl audited.separated (by simp)
  have list := Region.auditList_of_linked 1 audited.linked audited.genuine audited.ascending (by simp)
  rw [audited.count, ← List.countP_eq_length_filter] at list
  rw [Nat.zero_add] at walk
  unfold Region.audit
  simp only [walk, bind, Except.bind, list, if_true]
  rfl

theorem audited_of_audit (passed : r.audit a.memory a.heap.first = .ok (.ok ())) :
    ∃ blocks links, a.Audited r blocks links := by
  unfold Region.audit at passed
  cases walked : r.auditBlocks a.memory 0 0 false with
  | error fault => simp [walked, bind, Except.bind] at passed
  | ok outcome =>
    cases outcome with
    | error defect => simp [walked, bind, Except.bind, pure, Except.pure] at passed
    | ok found =>
      obtain ⟨blocks, tiles, separated, counted⟩ := Region.tiles_of_auditBlocks walked (Nat.zero_le _)
      cases listed : r.auditList a.memory (found + 1) none a.heap.first with
      | error defect => simp [walked, listed, bind, Except.bind, pure, Except.pure] at passed
      | ok rest =>
        obtain ⟨links, linked, length, genuine, -, ascending⟩ := Region.linked_of_auditList listed
        have all : rest = 1 := by
          simp only [walked, listed, bind, Except.bind, pure, Except.pure] at passed
          split at passed
          · assumption
          · simp at passed
        refine ⟨blocks, links, tiles, separated, linked, genuine, ascending, ?_⟩
        rw [← List.countP_eq_length_filter]
        omega

/-- What an audit finds is the verdict. -/
def finding : Except Heap.Defect Unit → Option Heap.Defect
  | .ok () => none
  | .error defect => some defect

theorem verdict_of_region (region : a.heap.region = some r) :
    a.verdict = (r.audit a.memory a.heap.first).map fun outcome => .ok (finding outcome) := by
  unfold Arena.verdict
  simp only [region]
  rcases r.audit a.memory a.heap.first with fault | defect | _ <;> rfl

/-- What the log is told about a defect. -/
def remark (a : Arena) (defect : Heap.Defect) : Heap.Notice :=
  .defect (Word.wrappingAdd a.heap.extent.1 (linkWord defect.place)) defect.kind

/-- A check comes to what the audit comes to. -/
theorem attempt_check_of_region (region : a.heap.region = some r) :
    Machine.attempt check a =
      match r.audit a.memory a.heap.first with
      | .error fault => (.error fault, a)
      | .ok (.ok ()) => (.ok (.ok ()), a)
      | .ok (.error defect) => (.ok (.error .corrupted), { a with notices := a.notices.push (a.remark defect) }) := by
  unfold check
  rw [Machine.attempt_bind, Machine.attempt_get]
  dsimp only
  rw [Machine.attempt_bind, Machine.attempt_lift_outcome, verdict_of_region region]
  rcases r.audit a.memory a.heap.first with fault | defect | _ <;> rfl

/-- The check finds nothing exactly if the audit does. -/
theorem attempt_check_eq_ok_iff (region : a.heap.region = some r) :
    (Machine.attempt check a).1 = .ok (.ok ()) ↔ r.audit a.memory a.heap.first = .ok (.ok ()) := by
  rw [attempt_check_of_region region]
  rcases r.audit a.memory a.heap.first with fault | defect | _ <;> simp

/-- Where every link leads to a block, the links lead to the free blocks and to no others. -/
theorem Audited.links_eq (audited : a.Audited r blocks links) (known : ∀ b ∈ links, b.off ∈ blocks.map Block.off) :
    links = blocks.filter fun b => b.header.isFree := by
  have inside : links ⊆ blocks.filter fun b => b.header.isFree := by
    intro b member
    obtain ⟨-, stored, -, free⟩ := audited.genuine b member
    obtain ⟨c, inBlocks, same⟩ := List.mem_map.mp (known b member)
    obtain ⟨-, storedC, -⟩ := Region.mem_of_tiles audited.tiles rfl inBlocks
    have headers : c.header = b.header := by rw [storedC, stored, same]
    have equal : c = b := calc
      c = ⟨c.off, c.header⟩ := rfl
      _ = ⟨b.off, b.header⟩ := by rw [same, headers]
    exact List.mem_filter.mpr ⟨equal ▸ inBlocks, free⟩
  have nodup : links.Nodup := by
    refine audited.ascending.imp ?_
    rintro b _ less rfl
    exact Nat.lt_irrefl _ less
  have perm := (List.subperm_of_subset nodup inside).perm_of_length_le (Nat.le_of_eq audited.count.symm)
  have ascending := (Region.pairwise_of_tiles audited.tiles).2.filter fun b => b.header.isFree
  exact perm.eq_of_pairwise (fun b c _ _ less more => absurd more (Nat.lt_asymm less)) audited.ascending ascending

/-- A check finds nothing wrong with an arena exactly if its blocks tile the region without two free neighbours and the
list holds as many intact headers of free blocks, in ascending order and linked in both directions. If each of these
is the header of a block, then the list holds exactly the free blocks; the check does not see whether it is. -/
theorem check_passes_iff (region : a.heap.region = some r) :
    ((Machine.attempt check a).1 = .ok (.ok ()) ↔ ∃ blocks links, a.Audited r blocks links) ∧
      ∀ blocks links, a.Audited r blocks links →
        ((∀ b ∈ links, b.off ∈ blocks.map Block.off) ↔ links = blocks.filter fun b => b.header.isFree) := by
  refine ⟨?_, fun blocks links audited => ⟨audited.links_eq, ?_⟩⟩
  · rw [attempt_check_eq_ok_iff region]
    exact ⟨audited_of_audit, fun ⟨_, _, audited⟩ => audited.audit⟩
  · rintro rfl b member
    exact List.mem_map_of_mem (List.mem_of_mem_filter member)

def strayRegion : Region where
  start := 4096
  size := 256
  start_pos := by decide
  start_aligned := rfl
  size_aligned := rfl
  holds_block := by decide
  fits := by decide

/-- Two free blocks with an allocated one between them. -/
def strayBlocks : List Block :=
  [⟨0, Config.heapMagic, 1, 16, some 80, none⟩, ⟨48, Config.heapMagic, 0, 64, none, none⟩,
    ⟨144, Config.heapMagic, 1, 80, none, some 0⟩]

/-- What looks like a free block in the payload of the allocated one. -/
def strayHeader : Block := ⟨80, Config.heapMagic, 1, 0, none, some 0⟩

/-- The first free block is linked to the stray header, and so the last block is in no list. -/
def stray : Arena :=
  ⟨⟨some strayRegion, some 0, 64⟩,
    (strayHeader :: strayBlocks).foldl (fun m b => b.header.write m (4096 + b.off)) (Memory.zeroed 4096 256), #[]⟩

theorem audited_stray : stray.Audited strayRegion strayBlocks [⟨0, Config.heapMagic, 1, 16, some 80, none⟩, strayHeader] where
  tiles := by
    simp only [strayBlocks, Region.Tiles]
    decide +kernel
  separated := by simp [strayBlocks, Block.Separated, Header.isFree]
  linked := ⟨rfl, rfl, rfl, rfl, rfl⟩
  genuine := by decide +kernel
  ascending := by decide
  count := rfl

/-- The check finds nothing, although the list does not hold the free blocks. -/
theorem check_overlooks_stray : ¬∀ (a : Arena) (r : Region), a.heap.region = some r → a.memory.Covers r.start r.size →
    (Machine.attempt check a).1 = .ok (.ok ()) → ∃ blocks, r.Tiles a.memory 0 blocks ∧ Block.Separated blocks ∧
      Block.Linked none a.heap.first (blocks.filter fun b => b.header.isFree) := by
  intro sound
  have passed := (attempt_check_eq_ok_iff rfl).mpr audited_stray.audit
  obtain ⟨blocks, tiles, -, linked⟩ := sound stray strayRegion rfl (by decide +kernel) passed
  rw [← Region.blocks_of_tiles tiles, Region.blocks_of_tiles audited_stray.tiles] at linked
  simp [strayBlocks, Header.isFree, Block.Linked] at linked

/-- The check passes because the stray header is as good as that of a free block, but it is not at the start of one. -/
theorem check_passes_iff_of_stray : stray.heap.region = some strayRegion ∧
    (Machine.attempt check stray).1 = .ok (.ok ()) ∧
    ¬∀ b ∈ [⟨0, Config.heapMagic, 1, 16, some 80, none⟩, strayHeader], b.off ∈ strayBlocks.map Block.off := by
  obtain ⟨passes, known⟩ := check_passes_iff (a := stray) (r := strayRegion) rfl
  refine ⟨rfl, passes.mpr ⟨_, _, audited_stray⟩, fun all => ?_⟩
  exact absurd ((known _ _ audited_stray).mp all) (by decide)

end Arena
end KernelCore
