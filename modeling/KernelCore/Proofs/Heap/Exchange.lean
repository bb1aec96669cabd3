import KernelCore.Proofs.Heap.Isolation

namespace KernelCore

/-- Two pieces of memory have no byte in common. -/
def Holding.Apart (g h : Holding) : Prop := g.addr + g.size ≤ h.addr ∨ h.addr + h.size ≤ g.addr

theorem Holding.Apart.symm {g h : Holding} (apart : g.Apart h) : h.Apart g := Or.symm apart

theorem Holding.Backed.apart {r : Region} {m : Memory} {g h : Holding} {p q : Parcel} (backedG : g.Backed r m p)
    (backedH : h.Backed r m q) (apart : p.Apart q) : g.Apart h := by
  have positiveG := backedG.1
  have positiveH := backedH.1
  by_contra common
  unfold Holding.Apart at common
  rcases Nat.le_total g.addr h.addr with first | first
  · exact apart.not_holds (backedG.holds first (by omega)) backedH.holds_addr
  · exact apart.not_holds backedG.holds_addr (backedH.holds first (by omega))

namespace Tenancy
open Arena Parcel Holding
variable {t : Tenancy} {r : Region} {plan plan' : List Parcel} {pairs fresh : List (Holding × Parcel)}
  {g h new : Holding} {a b : Arena} {call : Call} {gone ptr : Nat} {holdings : List Holding}

theorem Sound.disjoint (sound : t.Sound r plan pairs) : t.holdings.Pairwise Holding.Apart := by
  rw [← sound.holdings, List.pairwise_map]
  exact sound.pairwise.imp_of_mem fun inX inY apart => (sound.backed _ inX).apart (sound.backed _ inY) apart

theorem Sound.size_pos (sound : t.Sound r plan pairs) (member : h ∈ t.holdings) : 0 < h.size := by
  obtain ⟨p, inPairs⟩ := sound.exists_parcel member
  exact (sound.backed _ inPairs).1

theorem Sound.eq_of_addr (sound : t.Sound r plan pairs) (inG : g ∈ t.holdings) (inH : h ∈ t.holdings)
    (same : g.addr = h.addr) : g = h := by
  by_contra other
  have symmetric : Std.Symm Holding.Apart := ⟨fun _ _ apart => apart.symm⟩
  have apart := sound.disjoint.forall inG inH other
  have positiveG := sound.size_pos inG
  have positiveH := sound.size_pos inH
  unfold Holding.Apart at apart
  omega

theorem Sound.filter_zero (sound : t.Sound r plan pairs) : t.holdings.filter (fun h => h.addr ≠ 0) = t.holdings :=
  List.filter_eq_self.mpr fun h member => by simpa using sound.addr_ne_zero member

/-- Clients hold new memory for what was at an address, with the same bytes as far as it goes. What they
hold besides holds what it held. -/
structure Exchanged (t : Tenancy) (r : Region) (gone : Nat) (new : Holding) (b : Arena) : Prop where
  sound : ∃ plan pairs, Tenancy.Sound ⟨b, t.holdings.filter (fun h => h.addr ≠ gone) ++ [new]⟩ r plan pairs
  spares : t.Spares gone b
  contents : ∀ h ∈ t.holdings, h.addr = gone → ∀ i, i < h.size → i < new.size →
    b.memory.byte (new.addr + i) = t.arena.memory.byte (gone + i)

theorem Exchanged.addr_ne_zero (exchanged : t.Exchanged r gone new b) : new.addr ≠ 0 := by
  obtain ⟨plan, pairs, sound⟩ := exchanged.sound
  exact sound.addr_ne_zero (by simp)

theorem Traded.exchanged (traded : t.Traded r pairs call (some ptr) b plan' fresh) (sound : t.Sound r plan pairs) :
    t.Exchanged r call.argument ⟨ptr, call.size, call.aligned⟩ b where
  sound := ⟨plan', _, traded.sound sound⟩
  spares := traded.spares sound
  contents h member same i within short := by
    obtain ⟨p, inPairs⟩ := sound.exists_parcel member
    exact traded.contents ptr rfl _ inPairs same i within short

/-- What is written into memory that was given for nothing is of no concern to what clients have. -/
theorem Exchanged.stored {m : Memory} (exchanged : t.Exchanged r 0 new b) (sound : t.Sound r plan pairs)
    (covers : ∀ addr n, m.Covers addr n ↔ b.memory.Covers addr n)
    (byte : ∀ addr, addr < new.addr ∨ new.addr + new.size ≤ addr → m.byte addr = b.memory.byte addr) :
    t.Exchanged r 0 new { b with memory := m } := by
  obtain ⟨plan', pairs', soundB⟩ := exchanged.sound
  refine ⟨⟨plan', pairs', soundB.stored (by simp) covers byte⟩, ?_, ?_⟩
  · intro h member other addr lower upper
    have kept : h ∈ t.holdings.filter fun h => h.addr ≠ 0 := by simpa using ⟨member, other⟩
    have apart := (List.pairwise_append.mp soundB.disjoint).2.2 h kept new (by simp)
    unfold Holding.Apart at apart
    dsimp only
    rw [byte addr (by omega)]
    exact exchanged.spares h member other addr lower upper
  · exact fun h member same => absurd same (sound.addr_ne_zero member)

/-- Memory that was given for nothing and filled with the bytes of other memory is exchanged for that other
memory once that is released. -/
theorem Exchanged.released {m : Memory} (exchanged : t.Exchanged r 0 new b) (sound : t.Sound r plan pairs)
    (member : h ∈ t.holdings) (copied : b.memory.copy h.addr new.addr (min h.size new.size) = m)
    {plan₁ plan₂ : List Parcel} {pairs₁ fresh₂ : List (Holding × Parcel)} {c : Arena}
    (soundB : Tenancy.Sound ⟨{ b with memory := m }, t.holdings ++ [new]⟩ r plan₁ pairs₁)
    (traded : Tenancy.Traded ⟨{ b with memory := m }, t.holdings ++ [new]⟩ r pairs₁ call none c plan₂ fresh₂)
    (argument : call.argument = h.addr) : t.Exchanged r h.addr new c := by
  have apart : ∀ g ∈ t.holdings, g.Apart new := fun g inG =>
    (List.pairwise_append.mp soundB.disjoint).2.2 g inG new (by simp)
  have positive := soundB.size_pos (h := new) (by simp)
  have different : new.addr ≠ h.addr := by
    intro same
    have := apart h member
    have := sound.size_pos member
    unfold Holding.Apart at *
    omega
  have spares : Tenancy.Spares ⟨_, t.holdings ++ [new]⟩ h.addr c := argument ▸ traded.spares soundB
  have soundC := traded.sound soundB
  rw [Call.settle, argument, List.filter_append, List.filter_cons_of_pos (by simpa using different)] at soundC
  refine ⟨⟨plan₂, _, by simpa using soundC⟩, ?_, ?_⟩
  · intro g inG other addr lower upper
    have beside := apart g inG
    rw [spares g (by simp [inG]) other addr lower upper,
      ← exchanged.spares g inG (sound.addr_ne_zero inG) addr lower upper]
    dsimp only
    rw [← copied]
    unfold Holding.Apart at beside
    exact Memory.byte_copy_of_outside _ _ (by omega)
  · intro g inG same i within short
    obtain rfl := sound.eq_of_addr inG member same
    have inside : b.memory.Covers new.addr (min g.size new.size) := by
      obtain ⟨plan', pairs', soundB⟩ := exchanged.sound
      obtain ⟨lower, upper⟩ := soundB.covers (h := new) (by simp)
      exact ⟨lower, by dsimp only at upper; omega⟩
    rw [spares new (by simp) different _ (by omega) (by omega),
      ← exchanged.spares g inG (sound.addr_ne_zero inG) _ (by omega) (by omega)]
    dsimp only
    rw [← copied]
    exact Memory.byte_copy_of_inside _ _ inside (by omega)

/-- The block behind a piece of memory that is given back is allocated no more, and its payload is free. -/
theorem Traded.freed (traded : t.Traded r pairs call none b plan' fresh) (sound : t.Sound r plan pairs)
    (member : h ∈ t.holdings) (argument : call.argument = h.addr) :
    ∃ k ∈ t.arena.allocated, k.Holds r h.addr ∧ b.heap.used + k.header.size = t.arena.heap.used ∧
      ∀ c ∈ b.allocated, ¬c.Holds r h.addr := by
  obtain ⟨p, inPairs⟩ := sound.exists_parcel member
  have holds := (sound.backed _ inPairs).holds_addr
  have none : fresh = [] := List.map_eq_nil_iff.mp traded.held
  have inTakens := sound.parcels.mem_iff.mpr (List.mem_map_of_mem inPairs)
  have before := sound.perm_besides inPairs
  have after := traded.parcels
  rw [none, List.append_nil, argument] at after
  refine ⟨block r t.arena.memory p, ?_, (sound.arena.holds_block inTakens).mpr holds, ?_, ?_⟩
  · rw [sound.arena.allocated_eq]
    exact List.mem_map_of_mem inTakens
  · rw [sound.arena.block_eq inTakens, sound.arena.used, traded.arena.used, takenSize_eq, takenSize_eq,
      (after.map Parcel.size).sum_nat, (before.map Parcel.size).sum_nat, List.map_cons, List.sum_cons]
    exact Nat.add_comm ..
  · intro c inC
    rw [traded.arena.allocated_eq] at inC
    obtain ⟨q, inQ, rfl⟩ := List.mem_map.mp inC
    obtain ⟨pair, inRest, rfl⟩ := List.mem_map.mp (after.mem_iff.mp inQ)
    obtain ⟨inPairs', other⟩ := mem_besides.mp inRest
    rw [traded.arena.holds_block inQ]
    rcases sound.eq_or_apart inPairs' inPairs with rfl | apart
    · exact absurd rfl other
    · exact apart.symm.not_holds holds

/-- When nobody holds anything, the heap is one free block. -/
theorem Sound.of_nobody (sound : Tenancy.Sound ⟨a, []⟩ r plan pairs) :
    a.heap.used = 0 ∧ a.blocks = [⟨0, Header.free r.capacity⟩] := by
  obtain rfl : pairs = [] := List.map_eq_nil_iff.mp sound.holdings
  have nothing : takens plan = [] := List.perm_nil.mp sound.parcels
  have whole := sound.arena.settled.eq_singleton nothing sound.arena.shows.spans
  have here : Header.read a.memory (r.start + 0) = Header.free r.capacity := by
    have recorded := sound.arena.shows.recorded
    rw [whole] at recorded
    exact recorded.1
  refine ⟨by rw [sound.arena.used, takenSize_eq, nothing]; rfl, ?_⟩
  rw [sound.arena.blocks_eq, whole, List.map_cons, List.map_nil, block, here]

end Tenancy
end KernelCore
