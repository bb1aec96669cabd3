import KernelCore.Kernel.GlobalHeap
import KernelCore.Proofs.Heap.Exchange
import KernelCore.Proofs.Kernel.Contract

namespace KernelCore

/-- A piece of memory that the program has, with its layout. -/
structure Loan where
  addr : Nat
  layout : Layout
deriving DecidableEq

/-- A piece of memory with a layout is plain, or it was asked for with an alignment. -/
def Loan.holding (loan : Loan) : Holding := ⟨loan.addr, loan.layout.size, !loan.layout.isPlain⟩

/-- A layout that a program may ask for. -/
def Layout.Proper (layout : Layout) : Prop := 0 < layout.size ∧ Word.isPowerOfTwo layout.align = true

/-- The call of a client that asks for memory with a layout. -/
def Layout.call (layout : Layout) : Call :=
  if layout.isPlain then .allocate layout.size else .allocateAligned layout.size layout.align

/-- The call of a client that gives a loan back. -/
def Loan.call (loan : Loan) : Call :=
  if loan.layout.isPlain then .release loan.addr else .releaseAligned loan.addr

theorem Loan.argument_call (loan : Loan) : loan.call.argument = loan.addr := by
  unfold Loan.call
  split <;> rfl

/-- An arena whose notices were taken away. -/
def Arena.drained (a : Arena) : Arena := { a with notices := #[] }

theorem Arena.Sound.drained {a : Arena} {r : Region} {plan : List Parcel} (sound : a.Sound r plan) :
    a.drained.Sound r plan :=
  ⟨⟨sound.shows.region, sound.shows.covered, sound.shows.spans, sound.shows.first, sound.shows.recorded⟩,
    sound.settled, sound.used⟩

namespace Tenancy
variable {t : Tenancy} {a b : Arena} {r : Region} {plan : List Parcel} {pairs fresh : List (Holding × Parcel)}
  {holdings : List Holding} {call : Call} {given : Option Nat} {gone : Nat} {new : Holding}

theorem Sound.drained (sound : Tenancy.Sound ⟨a, holdings⟩ r plan pairs) :
    Tenancy.Sound ⟨a.drained, holdings⟩ r plan pairs :=
  ⟨Arena.Sound.drained sound.arena, sound.holdings, sound.parcels, sound.backed⟩

theorem Traded.drained (traded : t.Traded r pairs call given b plan fresh) :
    t.Traded r pairs call given b.drained plan fresh :=
  ⟨Arena.Sound.drained traded.arena, traded.parcels, traded.byte, traded.held, traded.backed, traded.contents⟩

theorem Exchanged.drained (exchanged : t.Exchanged r gone new b) : t.Exchanged r gone new b.drained := by
  obtain ⟨⟨plan, pairs, sound⟩, spares, contents⟩ := exchanged
  exact ⟨⟨plan, pairs, Sound.drained sound⟩, spares, contents⟩

end Tenancy

namespace System
open Machine Arena Parcel
variable {ω : Type} {s : System ω} {r : Region} {off size : Nat} {plan : List Parcel}
  {pairs : List (Holding × Parcel)} {holdings : List Holding} {layout : Layout} {loan : Loan}

/-- What is lent for nothing, or for what was at another address. The address zero stands for a refusal,
and then nothing has changed. -/
def Lent (a : Arena) (holdings : List Holding) (r : Region) (gone : Nat) (loan : Loan) (b : Arena) : Prop :=
  if loan.addr = 0 then b = a.drained else
    Tenancy.Exchanged ⟨a, holdings⟩ r gone loan.holding b ∧ loan.addr % loan.layout.align = 0

theorem lent_of_exchanged (loan : Loan) {a b : Arena} {gone : Nat}
    (exchanged : Tenancy.Exchanged ⟨a, holdings⟩ r gone loan.holding b)
    (multiple : loan.addr % loan.layout.align = 0) : Lent a holdings r gone loan b.drained := by
  have given : loan.addr ≠ 0 := exchanged.addr_ne_zero
  unfold Lent
  rw [if_neg given]
  exact ⟨exchanged.drained, multiple⟩

/-- The alignment of a plain layout divides the address of every payload. -/
theorem payload_mod_of_isPlain (proper : layout.Proper) (plain : layout.isPlain = true)
    (aligned : off % Config.heapAlignment = 0) : r.payload off % layout.align = 0 := by
  obtain ⟨k, two⟩ := Word.exists_of_isPowerOfTwo proper.2
  have small : 2 ^ k ≤ 2 ^ 3 := by
    rw [← two]
    exact of_decide_eq_true plain
  have divides : 2 ^ k ∣ 2 ^ 3 := Nat.pow_dvd_pow 2 ((Nat.pow_le_pow_iff_right Nat.one_lt_two).mp small)
  have start := r.start_aligned
  have eight : 2 ^ 3 ∣ r.payload off := Nat.dvd_of_mod_eq_zero (by
    simp only [Region.payload, Header.width, Config.heapAlignment] at *
    omega)
  rw [two]
  exact Nat.mod_eq_zero_of_dvd (Nat.dvd_trans divides eight)

/-- Plain memory that was traded is lent. -/
theorem lent_of_traded (call : Call) (loan : Loan) {a b : Arena} {plan' : List Parcel} {fresh : List (Holding × Parcel)}
    (sound : Tenancy.Sound ⟨a, holdings⟩ r plan pairs) (proper : loan.layout.Proper)
    (plain : loan.layout.isPlain = true) (asked : call.size = loan.layout.size) (kind : call.aligned = false)
    (traded : Tenancy.Traded ⟨a, holdings⟩ r pairs call (some loan.addr) b plan' fresh) :
    Lent a holdings r call.argument loan b.drained := by
  obtain ⟨p, -, member, backed⟩ := traded.exists_parcel
  have same : (⟨loan.addr, call.size, call.aligned⟩ : Holding) = loan.holding := by
    rw [asked, kind, Loan.holding, plain]
    rfl
  refine lent_of_exchanged loan (same ▸ traded.exchanged sound) ?_
  rw [show loan.addr = r.payload p.off from backed.plain kind]
  exact payload_mod_of_isPlain proper plain (traded.arena.shows.spans.aligned rfl member).1

/-- A request for memory is refused, or it gives an address with the alignment asked for. -/
theorem meets_globalAllocate (sound : Tenancy.Sound ⟨s.kernel.arena, holdings⟩ r plan pairs)
    (proper : layout.Proper) :
    (globalAllocate layout).Meets s (fun ptr t => Lent s.kernel.arena holdings r 0 ⟨ptr, layout⟩ t.kernel.arena)
      fun _ => wordLimit ≤ r.size + Config.heapMinPayload := by
  unfold globalAllocate
  by_cases plain : layout.isPlain = true
  · simp only [plain, if_true]
    have serves := sound.serves (.allocate layout.size) (Or.inl rfl)
    refine (meets_onHeap ((meets_run_map ..).mp serves)).bind ?_
    rintro (cause | ptr) t ⟨b, served, arena⟩
    · obtain rfl : b = _ := served
      exact arena
    · obtain ⟨plan', fresh, traded⟩ := served
      rw [meets_pure, arena]
      exact lent_of_traded (.allocate layout.size) ⟨ptr, layout⟩ sound proper plain rfl rfl traded
  · simp only [plain]
    have serves := sound.serves (.allocateAligned layout.size layout.align) (Or.inl rfl)
    have multiple := meets_allocateAligned sound.arena layout.size layout.align
    refine (meets_onHeap (((meets_run_map ..).mp serves).and multiple)).bind ?_
    rintro (cause | ptr) t ⟨b, ⟨served, given⟩, arena⟩
    · obtain rfl : b = _ := served
      exact arena
    · obtain ⟨plan', fresh, traded⟩ := served
      have same : (⟨ptr, layout.size, true⟩ : Holding) = Loan.holding ⟨ptr, layout⟩ := by simp [Loan.holding, plain]
      rw [meets_pure, arena]
      exact lent_of_exchanged ⟨ptr, layout⟩ (same ▸ traded.exchanged sound) given.2.1

/-- Memory that is asked for as zero is zero. -/
theorem meets_globalAllocateZeroed (sound : Tenancy.Sound ⟨s.kernel.arena, holdings⟩ r plan pairs)
    (proper : layout.Proper) :
    (globalAllocateZeroed layout).Meets s (fun ptr t =>
      Lent s.kernel.arena holdings r 0 ⟨ptr, layout⟩ t.kernel.arena ∧
        (ptr ≠ 0 → ∀ i, i < layout.size → t.kernel.arena.memory.byte (ptr + i) = 0))
      fun _ => wordLimit ≤ r.size + Config.heapMinPayload := by
  unfold globalAllocateZeroed
  refine (meets_globalAllocate sound proper).bind ?_
  intro ptr t lent
  by_cases zero : ptr = 0
  · simp only [ne_eq, zero, not_true_eq_false, if_false]
    subst zero
    exact ⟨lent, fun other => absurd rfl other⟩
  · simp only [ne_eq, zero, not_false_eq_true, if_true]
    unfold Lent at lent
    rw [if_neg zero] at lent
    obtain ⟨exchanged, multiple⟩ := lent
    have inside : t.kernel.arena.memory.Covers ptr layout.size := by
      obtain ⟨plan', pairs', soundT⟩ := exchanged.sound
      exact soundT.covers (h := Loan.holding ⟨ptr, layout⟩) (by simp)
    rw [meets_bind, meets_onKernel, Kernel.meets_onArena, onMemory, meets_modify, meets_pure]
    refine ⟨lent_of_exchanged ⟨ptr, layout⟩ (exchanged.stored sound (fun _ _ => Memory.covers_fill ..)
      fun addr outside => Memory.byte_fill_of_outside _ _ outside) multiple, ?_⟩
    intro _ i within
    exact Memory.byte_fill_of_inside _ _ inside (by omega) (by omega)

/-- Memory that is given back is always released. -/
theorem meets_globalRelease (sound : Tenancy.Sound ⟨s.kernel.arena, holdings⟩ r plan pairs)
    (member : loan.holding ∈ holdings) :
    (globalRelease loan.addr loan.layout).Meets s (fun _ t => ∃ plan' fresh,
      Tenancy.Traded ⟨s.kernel.arena, holdings⟩ r pairs loan.call none t.kernel.arena plan' fresh)
      fun _ => False := by
  unfold globalRelease Loan.call
  by_cases plain : loan.layout.isPlain = true
  · simp only [plain, if_true]
    have kind : loan.holding.aligned = false := by simp [Loan.holding, plain]
    have releases := sound.releases_plain (.release loan.addr) (Or.inr ⟨_, member, rfl, kind⟩) rfl
    refine (meets_onHeap releases).bind ?_
    rintro result t ⟨b, ⟨-, plan', fresh, traded⟩, arena⟩
    rw [meets_pure, arena]
    exact ⟨plan', fresh, traded.drained⟩
  · simp only [plain]
    have kind : loan.holding.aligned = true := by simpa [Loan.holding] using plain
    have releases := sound.releases_aligned (.releaseAligned loan.addr) (Or.inr ⟨_, member, rfl, kind⟩) rfl
    refine (meets_onHeap releases).bind ?_
    rintro result t ⟨b, ⟨-, plan', fresh, traded⟩, arena⟩
    rw [meets_pure, arena]
    exact ⟨plan', fresh, traded.drained⟩

/-- Memory with an alignment of its own is exchanged by an allocation, a copy and a release. -/
theorem meets_globalResize_of_aligned (sound : Tenancy.Sound ⟨s.kernel.arena, holdings⟩ r plan pairs)
    (member : loan.holding ∈ holdings) (proper : loan.layout.Proper) (aligned : loan.layout.isPlain = false)
    (positive : 0 < size) :
    (globalResize loan.addr loan.layout size).Meets s (fun ptr t =>
      Lent s.kernel.arena holdings r loan.addr ⟨ptr, { loan.layout with size }⟩ t.kernel.arena)
      fun _ => wordLimit ≤ r.size + Config.heapMinPayload := by
  unfold globalResize
  simp only [aligned, Bool.false_eq_true, if_false]
  have fits : Layout.Proper { loan.layout with size } := ⟨positive, proper.2⟩
  refine (meets_globalAllocate sound fits).bind ?_
  intro ptr t lent
  by_cases zero : ptr = 0
  · simp only [ne_eq, zero, not_true_eq_false, if_false]
    subst zero
    exact lent
  simp only [ne_eq, zero, not_false_eq_true, if_true]
  unfold Lent at lent
  rw [if_neg zero] at lent
  obtain ⟨exchanged, multiple⟩ := lent
  have copied := exchanged.stored (m := t.kernel.arena.memory.copy loan.addr ptr (min loan.layout.size size)) sound
    (fun _ _ => Memory.covers_copy ..) fun addr outside => Memory.byte_copy_of_outside _ _ (by
      simp only [Loan.holding] at outside
      omega)
  obtain ⟨plan₁, pairs₁, sound₁⟩ := copied.drained.sound
  rw [sound.filter_zero] at sound₁
  rw [meets_bind, meets_onKernel, Kernel.meets_onArena, onMemory, meets_modify]
  refine (meets_globalRelease (s := { t with kernel := t.kernel.withArena { t.kernel.arena with
    memory := t.kernel.arena.memory.copy loan.addr ptr (min loan.layout.size size) } }) sound₁
    (List.mem_append_left _ member)).excused.bind ?_
  rintro - u ⟨plan₂, fresh₂, traded⟩
  have moved := exchanged.drained.released (h := loan.holding) sound member rfl sound₁ traded loan.argument_call
  unfold Lent
  rw [meets_pure, if_neg zero]
  exact ⟨moved, multiple⟩

/-- Memory is exchanged for memory of another size, or that is refused. -/
theorem meets_globalResize (sound : Tenancy.Sound ⟨s.kernel.arena, holdings⟩ r plan pairs)
    (member : loan.holding ∈ holdings) (proper : loan.layout.Proper) (positive : 0 < size) :
    (globalResize loan.addr loan.layout size).Meets s (fun ptr t =>
      Lent s.kernel.arena holdings r loan.addr ⟨ptr, { loan.layout with size }⟩ t.kernel.arena)
      fun _ => wordLimit ≤ r.size + Config.heapMinPayload := by
  by_cases plain : loan.layout.isPlain = true
  · have kind : loan.holding.aligned = false := by simp [Loan.holding, plain]
    unfold globalResize
    simp only [plain, if_true]
    refine (meets_onHeap (sound.serves_exchange member kind positive)).bind ?_
    rintro (cause | given) t ⟨b, ⟨some, served⟩, arena⟩
    · obtain rfl : b = _ := served
      exact arena
    · cases given with
      | none => exact absurd rfl some
      | some ptr =>
        obtain ⟨plan', fresh, traded⟩ := served
        dsimp only
        rw [meets_pure, arena]
        exact lent_of_traded (.resize loan.addr size) ⟨ptr, { loan.layout with size }⟩ sound
          ⟨positive, proper.2⟩ plain rfl rfl traded
  · exact meets_globalResize_of_aligned sound member proper (by simpa using plain) positive

end System
end KernelCore
