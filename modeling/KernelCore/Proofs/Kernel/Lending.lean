import KernelCore.Proofs.Kernel.Requests

namespace KernelCore

/-- A system and what the program has of its heap. -/
structure Lending (ω : Type) where
  system : System ω
  loans : List Loan

/-- What the program asks of the kernel as its allocator. -/
inductive Request where
  | allocate (layout : Layout)
  | allocateZeroed (layout : Layout)
  | resize (loan : Loan) (size : Nat)
  | release (loan : Loan)
deriving DecidableEq

namespace Request
variable {ω : Type}

/-- Carries out a request; the result is an address, or zero. -/
def perform : Request → Machine (System ω) Nat
  | allocate layout => System.globalAllocate layout
  | allocateZeroed layout => System.globalAllocateZeroed layout
  | resize loan size => System.globalResize loan.addr loan.layout size
  | release loan => (fun _ => 0) <$> System.globalRelease loan.addr loan.layout

/-- Layouts are proper, sizes are not zero, and what is given back is a loan. -/
def Legal (loans : List Loan) : Request → Prop
  | allocate layout | allocateZeroed layout => layout.Proper
  | resize loan size => loan ∈ loans ∧ 0 < size
  | release loan => loan ∈ loans

/-- The address that a request hands in; zero stands for none. -/
def argument : Request → Nat
  | allocate _ | allocateZeroed _ => 0
  | resize loan _ | release loan => loan.addr

/-- The layout of what a request asks for. -/
def wanted : Request → Option Layout
  | allocate layout | allocateZeroed layout => some layout
  | resize loan size => some { loan.layout with size }
  | release _ => none

/-- The loans after a request. When memory is asked for, the address zero stands for a refusal, which
leaves the loans as they are. -/
def settle (request : Request) (loans : List Loan) (ptr : Nat) : List Loan :=
  if request.wanted.isSome ∧ ptr = 0 then loans else
    loans.filter (fun loan => loan.addr ≠ request.argument) ++ request.wanted.toList.map fun layout => ⟨ptr, layout⟩

end Request

namespace Lending
open Machine
variable {ω : Type}

/-- One request with legal arguments, or a write into memory that the program has. -/
inductive Step : Lending ω → Lending ω → Prop where
  | request {t : Lending ω} {request : Request} {ptr : Nat} {system : System ω}
    (legal : request.Legal t.loans) (ran : request.perform.runFrom t.system = (.ok ptr, system)) :
    Step t ⟨system, request.settle t.loans ptr⟩
  | write {t : Lending ω} {loan : Loan} {addr : Nat} {bytes : List UInt8} (member : loan ∈ t.loans)
    (lower : loan.addr ≤ addr) (upper : addr + bytes.length ≤ loan.addr + loan.layout.size) :
    Step t ⟨{ t.system with
      kernel.arena.memory := t.system.kernel.arena.memory.writeBytes addr bytes }, t.loans⟩

/-- A run of the program. -/
inductive Run : Lending ω → Lending ω → Prop where
  | start (t : Lending ω) : Run t t
  | next {t u v : Lending ω} (run : Run t u) (step : Step u v) : Run t v

/-- What a request does to the heap and to the memory of all loans. -/
structure Effect (t : Lending ω) (r : Region) (request : Request) (ptr : Nat) (b : Arena) : Prop where
  refused : request.wanted.isSome → ptr = 0 → b = t.system.kernel.arena.drained
  spared : ∀ loan ∈ t.loans, loan.addr ≠ request.argument →
    b.memory.slice loan.addr loan.layout.size = t.system.kernel.arena.memory.slice loan.addr loan.layout.size
  resized : ∀ loan size, request = .resize loan size → ptr ≠ 0 →
    b.memory.slice ptr (min loan.layout.size size) =
      t.system.kernel.arena.memory.slice loan.addr (min loan.layout.size size)
  zeroed : ∀ layout, request = .allocateZeroed layout → ptr ≠ 0 →
    b.memory.slice ptr layout.size = List.replicate layout.size 0
  released : ∀ loan, request = .release loan → ∃ k ∈ t.system.kernel.arena.allocated, k.Holds r loan.addr ∧
    b.heap.used + k.header.size = t.system.kernel.arena.heap.used ∧ ∀ c ∈ b.allocated, ¬c.Holds r loan.addr

/-- A loan has the alignment of its layout, and lies in an allocated block of the region. -/
structure Placed (t : Lending ω) (r : Region) (loan : Loan) : Prop where
  nonzero : loan.addr ≠ 0
  aligned : loan.addr % loan.layout.align = 0
  inside : r.start ≤ loan.addr ∧ loan.addr + loan.layout.size ≤ r.stop
  allocated : ∃ k ∈ t.system.kernel.arena.allocated, ∀ addr, loan.addr ≤ addr →
    addr < loan.addr + loan.layout.size → k.Holds r addr

/-- What the program has as clients of the heap. -/
def tenancy (t : Lending ω) : Tenancy := ⟨t.system.kernel.arena, t.loans.map Loan.holding⟩

/-- The heap is sound, and every loan has the alignment that its layout asks for. -/
structure Sound (t : Lending ω) (r : Region) (plan : List Parcel) (pairs : List (Holding × Parcel)) : Prop where
  heap : t.tenancy.Sound r plan pairs
  proper : ∀ loan ∈ t.loans, loan.layout.Proper ∧ loan.addr % loan.layout.align = 0

variable {t u : Lending ω} {r : Region} {plan : List Parcel} {pairs : List (Holding × Parcel)} {loans : List Loan}
  {loan : Loan} {ptr gone : Nat} {layout : Layout} {b : Arena} {request : Request}

theorem holding_mem (member : loan ∈ t.loans) : loan.holding ∈ t.tenancy.holdings := List.mem_map_of_mem member

/-- What is left of the loans, together with what is given, is what the clients of the heap hold. -/
theorem Sound.of_clients {system : System ω} (sound : t.Sound r plan pairs) (given : List Loan)
    {plan' : List Parcel} {pairs' : List (Holding × Parcel)}
    (clients : Tenancy.Sound ⟨system.kernel.arena,
      t.tenancy.holdings.filter (fun h => h.addr ≠ gone) ++ given.map Loan.holding⟩ r plan' pairs')
    (fits : ∀ loan ∈ given, loan.layout.Proper ∧ loan.addr % loan.layout.align = 0) :
    Lending.Sound ⟨system, t.loans.filter (fun loan => loan.addr ≠ gone) ++ given⟩ r plan' pairs' := by
  refine ⟨⟨clients.arena, ?_, clients.parcels, clients.backed⟩, ?_⟩
  · rw [clients.holdings]
    simp only [Lending.tenancy, List.map_append, List.filter_map]
    rfl
  · intro loan member
    rcases List.mem_append.mp member with kept | new
    · exact sound.proper loan (List.mem_of_mem_filter kept)
    · exact fits loan new

/-- What a client holds besides the memory at an address has the same bytes. -/
theorem slice_eq_of_spares (spares : t.tenancy.Spares gone b) (member : loan ∈ t.loans) (other : loan.addr ≠ gone) :
    b.memory.slice loan.addr loan.layout.size =
      t.system.kernel.arena.memory.slice loan.addr loan.layout.size := by
  refine List.map_congr_left ?_
  intro i within
  have := List.mem_range.mp within
  exact spares _ (holding_mem member) other _ (Nat.le_add_right ..) (Nat.add_lt_add_left this _)

/-- Memory that was asked for is lent, and everything else stays. -/
theorem Sound.lent {system : System ω} (sound : t.Sound r plan pairs) (request : Request)
    (wanted : request.wanted = some layout) (fits : layout.Proper)
    (lent : System.Lent t.system.kernel.arena (t.loans.map Loan.holding) r request.argument ⟨ptr, layout⟩
      system.kernel.arena) :
    (∃ plan' pairs', Lending.Sound ⟨system, request.settle t.loans ptr⟩ r plan' pairs') ∧
      (ptr = 0 → system.kernel.arena = t.system.kernel.arena.drained) ∧
      t.tenancy.Spares request.argument system.kernel.arena := by
  unfold System.Lent at lent
  unfold Request.settle
  rw [wanted]
  by_cases zero : ptr = 0
  · rw [if_pos zero] at lent
    rw [if_pos ⟨rfl, zero⟩]
    refine ⟨⟨plan, pairs, ?_, sound.proper⟩, fun _ => lent, fun h member _ addr _ _ => by rw [lent]; rfl⟩
    have same : Tenancy.Sound ⟨t.system.kernel.arena.drained, t.loans.map Loan.holding⟩ r plan pairs :=
      Tenancy.Sound.drained sound.heap
    rw [← lent] at same
    exact same
  · rw [if_neg zero] at lent
    obtain ⟨⟨⟨plan', pairs', clients⟩, spares, -⟩, multiple⟩ := lent
    rw [if_neg (by simp [zero])]
    exact ⟨⟨plan', pairs', sound.of_clients [⟨ptr, layout⟩] clients (by simp [fits, multiple])⟩,
      fun none => absurd none zero, spares⟩

theorem Sound.returned {system : System ω} {plan' : List Parcel} {fresh : List (Holding × Parcel)}
    (sound : t.Sound r plan pairs) (traded : t.tenancy.Traded r pairs loan.call none system.kernel.arena plan' fresh) :
    ∃ pairs', Lending.Sound ⟨system, (Request.release loan).settle t.loans ptr⟩ r plan' pairs' := by
  have clients := traded.sound sound.heap
  rw [Call.settle, loan.argument_call] at clients
  rw [Request.settle, if_neg (by simp [Request.wanted])]
  exact ⟨_, sound.of_clients [] clients (by simp)⟩

theorem Sound.effect (sound : t.Sound r plan pairs) (legal : request.Legal t.loans) :
    request.perform.Meets t.system (fun ptr u =>
      (∃ plan' pairs', Lending.Sound ⟨u, request.settle t.loans ptr⟩ r plan' pairs') ∧
        Effect t r request ptr u.kernel.arena)
      fun _ => request.wanted.isSome ∧ wordLimit ≤ r.size + Config.heapMinPayload := by
  cases request with
  | allocate layout =>
    refine (System.meets_globalAllocate sound.heap legal).mono ?_ fun _ => .intro rfl
    intro ptr u lent
    obtain ⟨after, refused, spares⟩ := sound.lent (.allocate layout) rfl legal lent
    refine ⟨after, fun _ => refused, fun loan member => slice_eq_of_spares spares member, ?_, ?_, ?_⟩ <;> simp
  | allocateZeroed layout =>
    refine (System.meets_globalAllocateZeroed sound.heap legal).mono ?_ fun _ => .intro rfl
    rintro ptr u ⟨lent, zeroed⟩
    obtain ⟨after, refused, spares⟩ := sound.lent (.allocateZeroed layout) rfl legal lent
    refine ⟨after, fun _ => refused, fun loan member => slice_eq_of_spares spares member, by simp, ?_, by simp⟩
    rintro layout ⟨⟩ given
    refine List.ext_getElem (by simp) ?_
    intro i within _
    rw [Memory.getElem_slice, List.getElem_replicate]
    exact zeroed given i (by simpa using within)
  | resize loan size =>
    obtain ⟨member, positive⟩ := legal
    have proper := (sound.proper loan member).1
    refine (System.meets_globalResize sound.heap (holding_mem member) proper positive).mono ?_ fun _ => .intro rfl
    intro ptr u lent
    obtain ⟨after, refused, spares⟩ := sound.lent (.resize loan size) rfl ⟨positive, proper.2⟩ lent
    refine ⟨after, fun _ => refused, fun other kept => slice_eq_of_spares spares kept, ?_, by simp, by simp⟩
    rintro loan size ⟨⟩ given
    unfold System.Lent at lent
    rw [if_neg given] at lent
    refine List.map_congr_left ?_
    intro i within
    have short := List.mem_range.mp within
    exact lent.1.contents _ (holding_mem member) rfl i (Nat.lt_of_lt_of_le short (Nat.min_le_left ..))
      (Nat.lt_of_lt_of_le short (Nat.min_le_right ..))
  | release loan =>
    refine (Meets.bind ((System.meets_globalRelease sound.heap (holding_mem legal)).excused) ?_)
    rintro - u ⟨plan', fresh, traded⟩
    have spares := traded.spares sound.heap
    rw [loan.argument_call] at spares
    refine ⟨⟨plan', sound.returned traded⟩, by simp [Request.wanted], fun loan member =>
      slice_eq_of_spares spares member, by simp, by simp, ?_⟩
    rintro loan ⟨⟩
    exact traded.freed sound.heap (holding_mem legal) loan.argument_call

theorem Sound.step (sound : t.Sound r plan pairs) (step : Step t u) : ∃ plan' pairs', u.Sound r plan' pairs' := by
  cases step with
  | request legal ran => exact ((sound.effect legal).result ran).1
  | write member lower upper =>
    exact ⟨plan, pairs, sound.heap.write (holding_mem member) lower upper, sound.proper⟩

theorem Run.sound (run : Run t u) (sound : t.Sound r plan pairs) : ∃ plan' pairs', u.Sound r plan' pairs' := by
  induction run with
  | start => exact ⟨plan, pairs, sound⟩
  | next _ step ih =>
    obtain ⟨plan', pairs', before⟩ := ih
    exact before.step step

theorem Sound.placed (sound : t.Sound r plan pairs) (member : loan ∈ t.loans) : t.Placed r loan := by
  have client := holding_mem member
  have positive : 0 < loan.layout.size := sound.heap.size_pos client
  obtain ⟨k, inAllocated, holds⟩ := sound.heap.exists_block client
  refine ⟨sound.heap.addr_ne_zero client, (sound.proper loan member).2, ⟨?_, ?_⟩, k, inAllocated, holds⟩
  · exact (sound.heap.arena.isolates.inside k inAllocated _ (holds loan.addr (Nat.le_refl _)
      (Nat.lt_add_of_pos_right positive))).1
  · have last : loan.addr + loan.layout.size - 1 < r.stop :=
      (sound.heap.arena.isolates.inside k inAllocated _ (holds _ (Nat.le_sub_one_of_lt
        (Nat.lt_add_of_pos_right positive)) (Nat.sub_one_lt (by omega)))).2
    omega

/-- A kernel whose heap took over a region inside the memory owes nothing. -/
theorem sound_of_opened {s s' : System ω} {start size : Nat} (window : s.kernel.arena.memory.Covers start size)
    (opened : (System.onHeap (Arena.establish start size)).runFrom s = (.ok (.ok ()), s')) :
    ∃ r, Region.ofRange start size = .ok r ∧ Lending.Sound ⟨s', []⟩ r [⟨0, r.capacity, .listed⟩] [] := by
  obtain ⟨b, established, arena⟩ := (System.meets_onHeap (Tenancy.meets_establish window)).result opened
  obtain ⟨r, usable, sound⟩ := established rfl
  refine ⟨r, usable, ⟨?_, by simp⟩⟩
  rw [Lending.tenancy, arena]
  exact Tenancy.Sound.drained sound

/-- Along every run of a program each loan has the alignment of its layout and lies in an allocated block,
and no two have a byte in common. A refused request changes nothing; any other one gives memory with the
bytes of what it is exchanged for, or releases the block behind what is given back, and spares what the
program has besides. A program that has given everything back leaves one free block. -/
theorem Run.contract {s s' : System ω} {start size : Nat} (window : s.kernel.arena.memory.Covers start size)
    (opened : (System.onHeap (Arena.establish start size)).runFrom s = (.ok (.ok ()), s'))
    (run : Run ⟨s', []⟩ t) :
    ∃ r, Region.ofRange start size = .ok r ∧
      (∀ loan ∈ t.loans, t.Placed r loan) ∧
      (t.loans.Pairwise fun x y => x.addr + x.layout.size ≤ y.addr ∨ y.addr + y.layout.size ≤ x.addr) ∧
      (∀ (request : Request) ptr u, request.Legal t.loans → request.perform.runFrom t.system = (.ok ptr, u) →
        Effect t r request ptr u.kernel.arena) ∧
      (t.loans = [] → t.system.kernel.arena.heap.used = 0 ∧
        t.system.kernel.arena.blocks = [⟨0, Header.free t.system.kernel.arena.heap.total⟩]) ∧
      ∀ request : Request, request.Legal t.loans →
        request.wanted = none ∨ r.size + Config.heapMinPayload < wordLimit →
        ∃ ptr u, request.perform.runFrom t.system = (.ok ptr, u) := by
  obtain ⟨r, usable, sound⟩ := sound_of_opened window opened
  obtain ⟨plan, pairs, sound⟩ := run.sound sound
  refine ⟨r, usable, fun loan member => sound.placed member, List.pairwise_map.mp sound.heap.disjoint,
    fun request ptr u legal ran => ((sound.effect legal).result ran).2, ?_, ?_⟩
  · intro none
    have nobody := sound.heap
    have region : t.system.kernel.arena.heap.region = some r := nobody.arena.shows.region
    rw [Lending.tenancy, none] at nobody
    rw [Heap.total, region]
    exact nobody.of_nobody
  · intro request legal room
    have unexcused : ¬(request.wanted.isSome ∧ wordLimit ≤ r.size + Config.heapMinPayload) := by
      rintro ⟨asks, large⟩
      rcases room with nothing | small
      · simp [nothing] at asks
      · exact absurd large (Nat.not_le_of_lt small)
    obtain ⟨ptr, u, ran, -⟩ := (sound.effect legal).returns fun _ => unexcused
    exact ⟨ptr, u, ran⟩

set_option maxRecDepth 4000 in
/-- Memory with an alignment of its own is asked for, made larger and given back. -/
theorem contract_of_requests :
    ∃ s s' s₁ s₂ s₃ : System Unit,
      (System.onHeap (Arena.establish 4096 144)).runFrom s = (.ok (.ok ()), s') ∧
      (Request.allocate ⟨8, 16⟩).perform.runFrom s' = (.ok 4144, s₁) ∧
      (Request.resize ⟨4144, 8, 16⟩ 16).perform.runFrom s₁ = (.ok 4208, s₂) ∧
      (Request.release ⟨4208, 16, 16⟩).perform.runFrom s₂ = (.ok 0, s₃) ∧
      Run ⟨s', []⟩ ⟨s₃, []⟩ ∧ s₃.kernel.arena.heap.used = 0 := by
  obtain ⟨s', s₁, s₂, s₃, opened, first, second, third⟩ : ∃ s' s₁ s₂ s₃ : System Unit,
      (System.onHeap (Arena.establish 4096 144)).runFrom
        ⟨Kernel.initial (Memory.zeroed 4096 144) (Processor.initial 0 ⟨0, 0, 0⟩), ()⟩ = (.ok (.ok ()), s') ∧
      (Request.allocate ⟨8, 16⟩).perform.runFrom s' = (.ok 4144, s₁) ∧
      (Request.resize ⟨4144, 8, 16⟩ 16).perform.runFrom s₁ = (.ok 4208, s₂) ∧
      (Request.release ⟨4208, 16, 16⟩).perform.runFrom s₂ = (.ok 0, s₃) :=
    ⟨_, _, _, _, runFrom_eq_of_outcome rfl, runFrom_eq_of_outcome rfl, runFrom_eq_of_outcome rfl,
      runFrom_eq_of_outcome rfl⟩
  have proper : (Request.allocate ⟨8, 16⟩).Legal [] := ⟨by decide, by decide⟩
  have lent : (Request.resize ⟨4144, 8, 16⟩ 16).Legal ((Request.allocate ⟨8, 16⟩).settle [] 4144) :=
    ⟨List.mem_singleton_self _, by decide⟩
  have held : (Request.release ⟨4208, 16, 16⟩).Legal
      ((Request.resize ⟨4144, 8, 16⟩ 16).settle ((Request.allocate ⟨8, 16⟩).settle [] 4144) 4208) :=
    List.mem_singleton_self _
  have asked : Run ⟨s', []⟩ ⟨s₁, _⟩ := (Run.start _).next (.request proper first)
  have enlarged : Run ⟨s', []⟩ ⟨s₂, _⟩ := asked.next (.request lent second)
  have returned : Run ⟨s', []⟩ ⟨s₃, _⟩ := enlarged.next (.request held third)
  obtain ⟨r, -, -, -, -, whole, -⟩ := Run.contract (Memory.covers_zeroed 4096 144) opened returned
  exact ⟨_, s', s₁, s₂, s₃, opened, first, second, third, returned, (whole rfl).1⟩

end Lending
end KernelCore
