import KernelCore.Heap.Aligned
import KernelCore.Proofs.Heap.Isolation
import KernelCore.Proofs.Kernel.Requests

namespace KernelCore

instance (call : Call) (holdings : List Holding) : Decidable (call.Legal holdings) :=
  inferInstanceAs (Decidable (_ ∨ _))

/-- What is held lies in the payload of a block, and starts with it unless it was asked for with an alignment. -/
def Block.Backs (r : Region) (b : Block) (h : Holding) : Prop :=
  r.payload b.off ≤ h.addr ∧ h.addr + h.size ≤ r.payload b.off + b.header.size ∧
    (h.aligned = false → h.addr = r.payload b.off)

theorem Call.legal_append {call : Call} {front back : List Holding} (legal : call.Legal back) :
    call.Legal (front ++ back) := by
  rcases legal with none | ⟨h, member, same⟩
  · exact Or.inl none
  · exact Or.inr ⟨h, List.mem_append_right front member, same⟩

namespace Arena
open Machine Parcel
variable {a b : Arena} {deeds deeds' front back : List Holding} {h : Holding} {call : Call} {ptr size : Nat}

/-- Each deed is backed by an allocated block, and each allocated block backs one deed. -/
inductive Backs (a : Arena) : List Holding → Prop where
  | bare (none : a.heap.region = none) : Backs a []
  | sound {held deeds : List Holding} {r : Region} {plan : List Parcel} {pairs : List (Holding × Parcel)}
    (sound : Tenancy.Sound ⟨a, held⟩ r plan pairs) (perm : held.Perm deeds) : Backs a deeds

theorem Backs.perm (backs : a.Backs deeds) (perm : deeds.Perm deeds') : a.Backs deeds' := by
  cases backs with
  | bare none =>
    rw [List.nil_perm.mp perm]
    exact .bare none
  | sound sound held => exact .sound sound (held.trans perm)

theorem Backs.drained (backs : a.Backs deeds) : a.drained.Backs deeds := by
  cases backs with
  | bare none => exact .bare none
  | sound sound perm => exact .sound (Tenancy.Sound.drained sound) perm

theorem Backs.congr (backs : a.Backs deeds) (heap : b.heap = a.heap) (memory : b.memory = a.memory) : b.Backs deeds := by
  obtain ⟨heap', memory', notices⟩ := b
  obtain rfl : heap' = a.heap := heap
  obtain rfl : memory' = a.memory := memory
  cases backs with
  | bare none => exact .bare none
  | sound sound perm =>
    obtain ⟨⟨⟨region, covered, spans, first, recorded⟩, settled, used⟩, holdings, parcels, backed⟩ := sound
    exact .sound ⟨⟨⟨region, covered, spans, first, recorded⟩, settled, used⟩, holdings, parcels, backed⟩ perm

theorem Backs.addr_ne_zero (backs : a.Backs deeds) (member : h ∈ deeds) : h.addr ≠ 0 := by
  cases backs with
  | bare none => exact absurd member List.not_mem_nil
  | sound sound perm => exact sound.addr_ne_zero (perm.mem_iff.mpr member)

theorem Backs.disjoint (backs : a.Backs deeds) : deeds.Pairwise Holding.Apart := by
  cases backs with
  | bare none => exact .nil
  | sound sound perm => exact (perm.pairwise_iff Holding.Apart.symm).mp sound.disjoint

theorem Backs.size_pos (backs : a.Backs deeds) (member : h ∈ deeds) : 0 < h.size := by
  cases backs with
  | bare none => exact absurd member List.not_mem_nil
  | sound sound perm => exact sound.size_pos (perm.mem_iff.mpr member)

theorem Backs.addr_ne (backs : a.Backs (front ++ back)) {g : Holding} (inFront : g ∈ front) (inBack : h ∈ back) :
    g.addr ≠ h.addr := by
  have apart := (List.pairwise_append.mp backs.disjoint).2.2 g inFront h inBack
  have positiveG := backs.size_pos (List.mem_append_left back inFront)
  have positiveH := backs.size_pos (List.mem_append_right front inBack)
  unfold Holding.Apart at apart
  omega

theorem Backs.filter_zero (backs : a.Backs deeds) : deeds.filter (fun h => h.addr ≠ 0) = deeds :=
  List.filter_eq_self.mpr fun h member => by simpa using backs.addr_ne_zero member

/-- What else there is has other addresses than what one party has. -/
theorem Backs.addr_ne_argument (backs : a.Backs (front ++ back)) (legal : call.Legal back) (member : h ∈ front) :
    h.addr ≠ call.argument := by
  rcases legal with none | ⟨g, inBack, same, -⟩
  · rw [none]
    exact backs.addr_ne_zero (List.mem_append_left back member)
  · rw [← same]
    exact backs.addr_ne member inBack

theorem Backs.filter_front (backs : a.Backs (front ++ back)) (legal : call.Legal back) :
    front.filter (fun h => h.addr ≠ call.argument) = front :=
  List.filter_eq_self.mpr fun _ member => by simpa using backs.addr_ne_argument legal member

/-- What is settled with one party does not concern what else there is. -/
theorem Backs.settle_append (backs : a.Backs (front ++ back)) (legal : call.Legal back)
    (result : Except HeapError (Option Nat)) :
    call.settle (front ++ back) result = front ++ call.settle back result := by
  cases result with
  | error cause => rfl
  | ok given => rw [Call.settle, Call.settle, List.filter_append, backs.filter_front legal, List.append_assoc]

theorem Backs.filter_last (backs : a.Backs (front ++ [h])) :
    (front ++ [h]).filter (fun g => g.addr ≠ h.addr) = front := by
  have others : front.filter (fun g => g.addr ≠ h.addr) = front :=
    List.filter_eq_self.mpr fun g member => by simpa using backs.addr_ne member (List.mem_singleton_self h)
  rw [List.filter_append, others, List.filter_cons_of_neg (by simp), List.filter_nil, List.append_nil]

theorem settle_perm (perm : deeds.Perm deeds') (result : Except HeapError (Option Nat)) :
    (call.settle deeds result).Perm (call.settle deeds' result) := by
  cases result with
  | error cause => exact perm
  | ok given => exact (perm.filter _).append_right _

theorem legal_perm (legal : call.Legal deeds) (perm : deeds.Perm deeds') : call.Legal deeds' := by
  rcases legal with none | ⟨h, member, same⟩
  · exact Or.inl none
  · exact Or.inr ⟨h, perm.mem_iff.mp member, same⟩

theorem block_backs {r : Region} {plan : List Parcel} {p : Parcel} (sound : a.Sound r plan) (member : p ∈ takens plan)
    (backed : h.Backed r a.memory p) : (block r a.memory p).Backs r h := by
  have positive := backed.1
  have first := backed.holds_addr
  have last : p.Holds r (h.addr + h.size - 1) := backed.holds (by omega) (by omega)
  unfold Parcel.Holds at first last
  rw [sound.block_eq member]
  refine ⟨first.1, ?_, backed.plain⟩
  change h.addr + h.size ≤ r.payload p.off + p.size
  omega

/-- There are as many deeds as allocated blocks, and each deed has one of the blocks that backs it. -/
theorem Backs.pairing (backs : a.Backs deeds) : ∃ pairs : List (Holding × Block),
    (pairs.map Prod.fst).Perm deeds ∧ (pairs.map Prod.snd).Perm a.allocated ∧
      ∀ pair ∈ pairs, ∃ r, a.heap.region = some r ∧ pair.2.Backs r pair.1 := by
  cases backs with
  | bare none =>
    have nothing : a.allocated = [] := by simp [allocated, blocks, none]
    exact ⟨[], .refl [], by simp [nothing], by simp⟩
  | @sound held deeds r plan pairs sound perm =>
    refine ⟨pairs.map fun pair => (pair.1, block r a.memory pair.2), ?_, ?_, ?_⟩
    · rw [List.map_map]
      exact (List.Perm.of_eq sound.holdings).trans perm
    · rw [List.map_map, sound.arena.allocated_eq]
      have blocks := (sound.parcels.map (block r a.memory)).symm
      rwa [List.map_map] at blocks
    · intro pair member
      obtain ⟨⟨h, p⟩, inPairs, rfl⟩ := List.mem_map.mp member
      have inTakens := sound.parcels.mem_iff.mpr (List.mem_map_of_mem inPairs)
      exact ⟨r, sound.arena.shows.region, block_backs sound.arena inTakens (sound.backed _ inPairs)⟩

theorem Backs.isolates {r : Region} (backs : a.Backs deeds) (region : a.heap.region = some r) : a.Isolates r := by
  cases backs with
  | bare none => exact absurd (none.symm.trans region) (by simp)
  | sound sound perm =>
    obtain rfl := Option.some.inj (sound.arena.shows.region.symm.trans region)
    exact sound.arena.isolates

theorem meets_allocate_bare (none : a.heap.region = none) (size : Nat) :
    (allocate size).run.Meets a (fun result b => b = a ∧ ∃ cause, result = .error cause) fun _ => False := by
  have refused : attempt (allocate size) a = (.ok (.error .uninitialized), a) := by
    simp [allocate, region, attempt_bind, none]
  exact Meets.of_runFrom refused ⟨rfl, _, rfl⟩

theorem meets_allocateAligned_bare (none : a.heap.region = none) (size align : Nat) :
    (allocateAligned size align).run.Meets a (fun result b => b = a ∧ ∃ cause, result = .error cause)
      fun _ => False := by
  unfold allocateAligned
  by_cases single : Word.isPowerOfTwo align = false
  · rw [if_pos single]
    exact ⟨rfl, _, rfl⟩
  rw [if_neg single]
  by_cases zero : size = 0
  · rw [if_pos zero]
    exact ⟨rfl, _, rfl⟩
  rw [if_neg zero]
  by_cases large : wordLimit ≤ size + align + backLinkWidth
  · rw [if_pos large]
    exact ⟨rfl, _, rfl⟩
  rw [if_neg large]
  refine (meets_allocate_bare none _).run_bind ?_ fun _ _ refused => refused
  rintro raw b ⟨-, cause, given⟩
  simp at given

theorem meets_allocateZeroed_bare (none : a.heap.region = none) (count size : Nat) :
    (allocateZeroed count size).run.Meets a (fun result b => b = a ∧ ∃ cause, result = .error cause)
      fun _ => False := by
  unfold allocateZeroed
  by_cases large : wordLimit ≤ count * size
  · rw [if_pos large]
    exact ⟨rfl, _, rfl⟩
  rw [if_neg large]
  refine (meets_allocate_bare none _).run_bind ?_ fun _ _ refused => refused
  rintro ptr b ⟨-, cause, given⟩
  simp at given

/-- A heap that has no region yet gives nothing. -/
theorem meets_perform_bare (none : a.heap.region = none) (argument : call.argument = 0) :
    call.perform.run.Meets a (fun result b => b = a ∧ call.settle [] result = []) fun _ => False := by
  have refused : ∀ (call : Call) (action : HeapAction Nat),
      action.run.Meets a (fun result b => b = a ∧ ∃ cause, result = .error cause) (fun _ => False) →
      (some <$> action).run.Meets a (fun result b => b = a ∧ call.settle [] result = []) fun _ => False := by
    intro call action meets
    refine (meets_run_map ..).mpr (meets.mono ?_ fun _ => id)
    rintro _ b ⟨rfl, cause, rfl⟩
    exact ⟨rfl, rfl⟩
  cases call with
  | allocate size => exact refused _ _ (meets_allocate_bare none size)
  | allocateZeroed count size => exact refused _ _ (meets_allocateZeroed_bare none count size)
  | resize ptr size =>
    obtain rfl : ptr = 0 := argument
    have same : Arena.resize 0 size = some <$> Arena.allocate size := by
      unfold Arena.resize
      rw [if_pos rfl]
      rfl
    have none : (some <$> Arena.allocate size).run.Meets a
        (fun result b => b = a ∧ (Call.resize 0 size).settle [] result = []) fun _ => False :=
      refused (.resize 0 size) _ (meets_allocate_bare none size)
    rw [← same] at none
    exact none
  | release ptr =>
    obtain rfl : ptr = 0 := argument
    exact (meets_run_map ..).mpr (Meets.of_runFrom (attempt_release_zero a) ⟨rfl, rfl⟩)
  | allocateAligned size align => exact refused _ _ (meets_allocateAligned_bare none size align)
  | releaseAligned ptr =>
    obtain rfl : ptr = 0 := argument
    exact ⟨rfl, rfl⟩
  | allocatePages size => exact refused _ _ (meets_allocateAligned_bare none size Config.pageSize)
  | releasePages ptr =>
    obtain rfl : ptr = 0 := argument
    exact ⟨rfl, rfl⟩

theorem argument_of_legal_nil (legal : call.Legal []) : call.argument = 0 := by
  rcases legal with none | ⟨h, member, -⟩
  · exact none
  · exact absurd member List.not_mem_nil

theorem Backs.performs (backs : a.Backs deeds) (legal : call.Legal deeds) :
    call.perform.run.Meets a (fun result b => b.Backs (call.settle deeds result)) fun _ => True := by
  cases backs with
  | bare none =>
    refine (meets_perform_bare none (argument_of_legal_nil legal)).mono ?_ fun _ => False.elim
    rintro result b ⟨rfl, settled⟩
    rw [settled]
    exact .bare none
  | sound sound perm =>
    refine (sound.serves call (legal_perm legal perm.symm)).mono ?_ fun _ _ => trivial
    intro result b served
    cases result with
    | error cause =>
      obtain rfl : b = a := served
      exact .sound sound perm
    | ok given =>
      obtain ⟨plan', fresh, traded⟩ := served
      exact .sound (traded.sound sound) (settle_perm perm (.ok given))

/-- What somebody has holds the bytes that it held. -/
def Retains (a : Arena) (deeds : List Holding) (b : Arena) : Prop :=
  ∀ h ∈ deeds, ∀ addr, h.addr ≤ addr → addr < h.addr + h.size → b.memory.byte addr = a.memory.byte addr

theorem Backs.performs_spares (backs : a.Backs deeds) (legal : call.Legal deeds) :
    call.perform.run.Meets a (fun _ b => Tenancy.Spares ⟨a, deeds⟩ call.argument b) fun _ => True := by
  cases backs with
  | bare none =>
    refine (meets_perform_bare none (argument_of_legal_nil legal)).mono ?_ fun _ => False.elim
    intro result b _ h member
    exact absurd member List.not_mem_nil
  | sound sound perm =>
    refine (sound.serves call (legal_perm legal perm.symm)).mono ?_ fun _ _ => trivial
    intro result b served h member
    cases result with
    | error cause =>
      obtain rfl : b = a := served
      exact fun _ _ _ _ => rfl
    | ok given =>
      obtain ⟨plan', fresh, traded⟩ := served
      exact traded.spares sound h (perm.mem_iff.mpr member)

/-- A call of one party does not touch what else there is. -/
theorem Backs.performs_retains (backs : a.Backs (front ++ back)) (legal : call.Legal back) :
    call.perform.run.Meets a (fun _ b => a.Retains front b) fun _ => True :=
  (backs.performs_spares (Call.legal_append legal)).mono
    (fun _ _ spares _ member => spares _ (List.mem_append_left back member) (backs.addr_ne_argument legal member))
    fun _ => id

theorem Backs.allocate_retains (backs : a.Backs (front ++ back)) (size : Nat) :
    (Arena.allocate size).run.Meets a (fun _ b => a.Retains front b) fun _ => True :=
  (meets_run_map ..).mp (backs.performs_retains (Or.inl rfl : (Call.allocate size).Legal back))

theorem Backs.release_retains (backs : a.Backs (front ++ back)) (member : h ∈ back) (plain : h.aligned = false) :
    (Arena.release h.addr).run.Meets a (fun _ b => a.Retains front b) fun _ => True :=
  (meets_run_map ..).mp (backs.performs_retains (Or.inr ⟨h, member, rfl, plain⟩ : (Call.release h.addr).Legal back))

/-- Memory of `size` bytes is asked for, and either given to the caller or refused. -/
theorem Backs.allocate (backs : a.Backs deeds) (size : Nat) :
    (Arena.allocate size).run.Meets a (fun result b =>
      match result with
      | .ok ptr => b.Backs (deeds ++ [⟨ptr, size, false⟩])
      | .error _ => b.Backs deeds) fun _ => True := by
  have serves := backs.performs (Or.inl rfl : (Call.allocate size).Legal deeds)
  refine ((meets_run_map ..).mp serves).mono ?_ fun _ => id
  intro result b after
  cases result with
  | error cause => exact after
  | ok ptr =>
    have settled : (Call.allocate size).settle deeds (.ok (some ptr)) = deeds ++ [⟨ptr, size, false⟩] := by
      rw [Call.settle, show (Call.allocate size).argument = 0 from rfl, backs.filter_zero]
      rfl
    have given : b.Backs ((Call.allocate size).settle deeds (.ok (some ptr))) := after
    rwa [settled] at given

/-- What was given is taken back. -/
theorem Backs.release (backs : a.Backs (deeds ++ [⟨ptr, size, false⟩])) :
    (Arena.release ptr).run.Meets a (fun result b => result = .ok () ∧ b.Backs deeds) fun _ => False := by
  have last : (deeds ++ [(⟨ptr, size, false⟩ : Holding)]).filter (fun g => g.addr ≠ ptr) = deeds := backs.filter_last
  generalize all : deeds ++ [(⟨ptr, size, false⟩ : Holding)] = whole at backs last
  have member : (⟨ptr, size, false⟩ : Holding) ∈ whole := by simp [← all]
  cases backs with
  | bare none => exact absurd member List.not_mem_nil
  | sound sound perm =>
    have legal : (Call.release ptr).Legal _ := Or.inr ⟨_, perm.mem_iff.mpr member, rfl, rfl⟩
    refine (sound.releases_plain (.release ptr) legal rfl).mono ?_ fun _ => id
    rintro result b ⟨done, plan', fresh, traded⟩
    have kept : (Call.release ptr).settle whole (.ok none) = deeds := by
      rw [← last]
      exact List.append_nil _
    have settled : ((Call.release ptr).settle _ (.ok none)).Perm deeds := kept ▸ settle_perm perm (.ok none)
    exact ⟨done, .sound (traded.sound sound) settled⟩

/-- What a party writes into memory that it has is of no concern. -/
theorem Backs.stored {m : Memory} (backs : a.Backs deeds) (member : h ∈ deeds)
    (covers : ∀ addr n, m.Covers addr n ↔ a.memory.Covers addr n)
    (byte : ∀ addr, addr < h.addr ∨ h.addr + h.size ≤ addr → m.byte addr = a.memory.byte addr) :
    Backs { a with memory := m } deeds := by
  cases backs with
  | bare none => exact absurd member List.not_mem_nil
  | sound sound perm => exact .sound (sound.stored (perm.mem_iff.mpr member) covers byte) perm

theorem Backs.covers (backs : a.Backs deeds) (member : h ∈ deeds) : a.memory.Covers h.addr h.size := by
  cases backs with
  | bare none => exact absurd member List.not_mem_nil
  | sound sound perm => exact sound.covers (perm.mem_iff.mpr member)

/-- A heap takes over a region only once. -/
theorem attempt_establish_again {start : Nat} {r : Region} (region : a.heap.region = some r) :
    attempt (Arena.establish start size) a = (.ok (.error .alreadyInitialized), a) := by
  rw [attempt_establish, region]
  rfl

theorem Backs.establish {start : Nat} (backs : a.Backs deeds) (window : a.memory.Covers start size) :
    (Arena.establish start size).run.Meets a (fun _ b => b.Backs deeds) fun _ => True := by
  cases backs with
  | bare none =>
    have takes := Tenancy.meets_establish window
    unfold Meets at takes ⊢
    rw [runFrom_run, attempt_establish, none] at takes ⊢
    cases usable : Region.ofRange start size with
    | error cause => exact .bare none
    | ok r =>
      rw [usable] at takes
      obtain ⟨r, -, sound⟩ := takes rfl
      exact .sound sound (List.Perm.refl [])
  | sound sound perm => exact Meets.of_runFrom (attempt_establish_again sound.arena.shows.region) (.sound sound perm)

theorem Backs.establish_retains {start : Nat} (backs : a.Backs deeds) :
    (Arena.establish start size).run.Meets a (fun _ b => a.Retains deeds b) fun _ => True := by
  cases backs with
  | bare none =>
    unfold Meets
    split
    · exact fun h member => absurd member List.not_mem_nil
    · trivial
  | sound sound perm =>
    exact Meets.of_runFrom (attempt_establish_again sound.arena.shows.region) fun _ _ _ _ _ => rfl

end Arena
end KernelCore
