import KernelCore.Proofs.Heap.Alignment

namespace KernelCore

/-- A piece of memory that a client was given. -/
structure Holding where
  addr : Nat
  size : Nat
  /-- Whether it was asked for with an alignment. -/
  aligned : Bool
deriving DecidableEq

/-- An arena and what its clients hold. -/
structure Tenancy where
  arena : Arena
  holdings : List Holding

/-- What a client asks of the heap. -/
inductive Call where
  | allocate (size : Nat)
  | allocateZeroed (count size : Nat)
  | resize (ptr size : Nat)
  | release (ptr : Nat)
  | allocateAligned (size align : Nat)
  | releaseAligned (ptr : Nat)
  | allocatePages (size : Nat)
  | releasePages (ptr : Nat)
deriving DecidableEq

namespace Call

/-- Carries out a call; the result is the address that the client is given, if any. -/
def perform : Call → HeapAction (Option Nat)
  | allocate size => some <$> Arena.allocate size
  | allocateZeroed count size => some <$> Arena.allocateZeroed count size
  | resize ptr size => Arena.resize ptr size
  | release ptr => (fun _ => none) <$> Arena.release ptr
  | allocateAligned size align => some <$> Arena.allocateAligned size align
  | releaseAligned ptr => (fun _ => none) <$> Arena.releaseAligned ptr
  | allocatePages size => some <$> Arena.allocatePages size
  | releasePages ptr => (fun _ => none) <$> Arena.releasePages ptr

/-- The address that a client hands in; zero stands for none. -/
def argument : Call → Nat
  | resize ptr _ | release ptr | releaseAligned ptr | releasePages ptr => ptr
  | allocate _ | allocateZeroed _ _ | allocateAligned _ _ | allocatePages _ => 0

/-- The bytes asked for. -/
def size : Call → Nat
  | allocate size | resize _ size | allocateAligned size _ | allocatePages size => size
  | allocateZeroed count size => count * size
  | release _ | releaseAligned _ | releasePages _ => 0

/-- Whether a call concerns memory with an alignment. -/
def aligned : Call → Bool
  | allocateAligned _ _ | releaseAligned _ | allocatePages _ | releasePages _ => true
  | allocate _ | allocateZeroed _ _ | resize _ _ | release _ => false

/-- A client hands in an address that it holds and that it was given in the same way, or none. -/
def Legal (call : Call) (holdings : List Holding) : Prop :=
  call.argument = 0 ∨ ∃ h ∈ holdings, h.addr = call.argument ∧ h.aligned = call.aligned

/-- What clients hold after a call. A refused call leaves them what they have. -/
def settle (call : Call) (holdings : List Holding) : Except HeapError (Option Nat) → List Holding
  | .error _ => holdings
  | .ok given => holdings.filter (fun h => h.addr ≠ call.argument) ++
    given.toList.map fun ptr => ⟨ptr, call.size, call.aligned⟩

end Call

namespace Tenancy
open Machine

/-- What can happen to a tenancy. -/
inductive Event where
  | called (call : Call) (result : Except HeapError (Option Nat))
  | wrote (addr : Nat) (bytes : List UInt8)

/-- One event: a call with a legal address, or a write into a piece of memory that a client holds. -/
inductive Step : Tenancy → Event → Tenancy → Prop where
  | call {t : Tenancy} {call : Call} {result : Except HeapError (Option Nat)} {arena : Arena}
    (legal : call.Legal t.holdings) (ran : attempt call.perform t.arena = (.ok result, arena)) :
    Step t (.called call result) ⟨arena, call.settle t.holdings result⟩
  | write {t : Tenancy} {h : Holding} {addr : Nat} {bytes : List UInt8} (member : h ∈ t.holdings)
    (lower : h.addr ≤ addr) (upper : addr + bytes.length ≤ h.addr + h.size) :
    Step t (.wrote addr bytes) ⟨{ t.arena with memory := t.arena.memory.writeBytes addr bytes }, t.holdings⟩

/-- A run of clients, with what happened along it. -/
inductive Run : Tenancy → List Event → Tenancy → Prop where
  | start (t : Tenancy) : Run t [] t
  | next {t u v : Tenancy} {events : List Event} {event : Event} (run : Run t events u)
    (step : Step u event v) : Run t (events ++ [event]) v

end Tenancy

namespace Holding
open Arena Parcel
variable {r : Region} {m m' : Memory} {h : Holding} {p : Parcel} {addr : Nat}

/-- A piece of memory lies in a parcel: at its start, or behind a word that leads back to it. -/
def Backed (r : Region) (m : Memory) (h : Holding) (p : Parcel) : Prop :=
  0 < h.size ∧ if h.aligned then LeadsBack r m p h.addr h.size else h.addr = r.payload p.off ∧ h.size ≤ p.size

/-- What a client holds is held by the parcel behind it. -/
theorem Backed.holds (backed : h.Backed r m p) (lower : h.addr ≤ addr) (upper : addr < h.addr + h.size) :
    p.Holds r addr := by
  obtain ⟨positive, place⟩ := backed
  unfold Holds
  split at place
  · have above := place.above
    have below := place.below
    omega
  · omega

theorem Backed.holds_addr (backed : h.Backed r m p) : p.Holds r h.addr :=
  backed.holds (Nat.le_refl _) (Nat.lt_add_of_pos_right backed.1)

theorem Backed.addr_ne_zero (backed : h.Backed r m p) : h.addr ≠ 0 := by
  have inside := backed.holds_addr.1
  have := payload_ne_zero r p.off
  omega

theorem Backed.nonempty (backed : h.Backed r m p) : 0 < p.size := by
  have inside := backed.holds_addr
  unfold Holds at inside
  omega

theorem Backed.plain (backed : h.Backed r m p) (plain : h.aligned = false) : h.addr = r.payload p.off := by
  have place := backed.2
  rw [plain] at place
  exact place.1

theorem Backed.size_le (backed : h.Backed r m p) (plain : h.aligned = false) : h.size ≤ p.size := by
  have place := backed.2
  rw [plain] at place
  exact place.2

theorem Backed.leadsBack (backed : h.Backed r m p) (aligned : h.aligned = true) :
    LeadsBack r m p h.addr h.size := by
  have place := backed.2
  rw [aligned] at place
  exact place

/-- The backing does not depend on what a client writes. -/
theorem Backed.congr (backed : h.Backed r m p)
    (same : ∀ addr, p.Holds r addr → addr < h.addr → m'.byte addr = m.byte addr) : h.Backed r m' p := by
  obtain ⟨positive, place⟩ := backed
  refine ⟨positive, ?_⟩
  split at place
  · rw [if_pos ‹_›]
    exact place.congr same
  · rw [if_neg ‹_›]
    exact place

end Holding

namespace Tenancy
open Arena Parcel Machine Holding
variable {t u : Tenancy} {r : Region} {plan plan' : List Parcel} {pairs : List (Holding × Parcel)}
  {h : Holding} {p : Parcel}

/-- The heap is sound, and its taken parcels back what clients hold, one each. -/
structure Sound (t : Tenancy) (r : Region) (plan : List Parcel) (pairs : List (Holding × Parcel)) : Prop where
  arena : t.arena.Sound r plan
  holdings : pairs.map Prod.fst = t.holdings
  parcels : (takens plan).Perm (pairs.map Prod.snd)
  backed : ∀ pair ∈ pairs, pair.1.Backed r t.arena.memory pair.2

theorem Sound.exists_parcel (sound : t.Sound r plan pairs) (member : h ∈ t.holdings) :
    ∃ p, (h, p) ∈ pairs := by
  rw [← sound.holdings] at member
  obtain ⟨⟨h, p⟩, inPairs, rfl⟩ := List.mem_map.mp member
  exact ⟨p, inPairs⟩

theorem Sound.room (sound : t.Sound r plan pairs) (member : (h, p) ∈ pairs) : p.off + Header.width < r.size :=
  sound.arena.shows.room (mem_takens.mp (sound.parcels.mem_iff.mpr (List.mem_map_of_mem member))).1
    (sound.backed _ member).nonempty

theorem Sound.addr_ne_zero (sound : t.Sound r plan pairs) (member : h ∈ t.holdings) : h.addr ≠ 0 := by
  obtain ⟨p, inPairs⟩ := sound.exists_parcel member
  exact (sound.backed _ inPairs).addr_ne_zero

theorem Sound.pairwise (sound : t.Sound r plan pairs) : pairs.Pairwise fun x y => x.2.Apart y.2 :=
  List.pairwise_map.mp ((sound.parcels.pairwise_iff Apart.symm).mp sound.arena.pairwise)

theorem Sound.eq_or_apart (sound : t.Sound r plan pairs) {x y : Holding × Parcel} (inX : x ∈ pairs)
    (inY : y ∈ pairs) : x = y ∨ x.2.Apart y.2 := by
  by_cases same : x = y
  · exact Or.inl same
  · have symmetric : Std.Symm fun x y : Holding × Parcel => x.2.Apart y.2 := ⟨fun _ _ apart => apart.symm⟩
    exact Or.inr (sound.pairwise.forall inX inY same)

/-- Two different pieces of memory have different addresses. -/
theorem Sound.addr_ne (sound : t.Sound r plan pairs) {x y : Holding × Parcel} (inX : x ∈ pairs) (inY : y ∈ pairs)
    (apart : x.2.Apart y.2) : x.1.addr ≠ y.1.addr := by
  intro same
  have holdsX := (sound.backed x inX).holds_addr
  have holdsY := (sound.backed y inY).holds_addr
  rw [same] at holdsX
  exact apart.not_holds holdsX holdsY

/-- What clients hold besides the memory at an address. -/
def besides (ptr : Nat) (pairs : List (Holding × Parcel)) : List (Holding × Parcel) :=
  pairs.filter fun pair => pair.1.addr ≠ ptr

theorem mem_besides {ptr : Nat} {pair : Holding × Parcel} :
    pair ∈ besides ptr pairs ↔ pair ∈ pairs ∧ pair.1.addr ≠ ptr := by
  simp [besides]

theorem Sound.besides_zero (sound : t.Sound r plan pairs) : besides 0 pairs = pairs :=
  List.filter_eq_self.mpr fun pair member => by simpa using (sound.backed pair member).addr_ne_zero

/-- Besides the parcel behind an address, the taken parcels are those behind all others. -/
theorem Sound.perm_besides (sound : t.Sound r plan pairs) (member : (h, p) ∈ pairs) :
    (takens plan).Perm (p :: (besides h.addr pairs).map Prod.snd) := by
  obtain ⟨left, right, rfl⟩ := List.append_of_mem member
  obtain ⟨-, behind, across⟩ := List.pairwise_append.mp sound.pairwise
  have others : ∀ pair ∈ left ++ right, pair.1.addr ≠ h.addr := by
    intro pair inRest
    rcases List.mem_append.mp inRest with inLeft | inRight
    · exact sound.addr_ne (by simp [inLeft]) member (across pair inLeft _ (List.mem_cons_self ..))
    · exact (sound.addr_ne member (by simp [inRight]) ((List.pairwise_cons.mp behind).1 pair inRight)).symm
  have rest : Tenancy.besides h.addr (left ++ (h, p) :: right) = left ++ right := by
    rw [Tenancy.besides, List.filter_append, List.filter_cons_of_neg (by simp), ← List.filter_append]
    exact List.filter_eq_self.mpr fun pair inRest => by simpa using others pair inRest
  rw [rest]
  exact sound.parcels.trans (by simp)

/-- A call traded the memory handed in for `fresh` memory, which holds the same bytes as far as it goes.
What clients hold besides is where it was and holds what it held. -/
structure Traded (t : Tenancy) (r : Region) (pairs : List (Holding × Parcel)) (call : Call)
    (given : Option Nat) (b : Arena) (plan' : List Parcel) (fresh : List (Holding × Parcel)) : Prop where
  arena : b.Sound r plan'
  parcels : (takens plan').Perm ((besides call.argument pairs ++ fresh).map Prod.snd)
  byte : ∀ pair ∈ besides call.argument pairs, ∀ addr, pair.2.Holds r addr →
    b.memory.byte addr = t.arena.memory.byte addr
  held : fresh.map Prod.fst = given.toList.map fun ptr => ⟨ptr, call.size, call.aligned⟩
  backed : ∀ pair ∈ fresh, pair.1.Backed r b.memory pair.2
  contents : ∀ ptr, given = some ptr → ∀ pair ∈ pairs, pair.1.addr = call.argument → ∀ i, i < pair.1.size →
    i < call.size → b.memory.byte (ptr + i) = t.arena.memory.byte (call.argument + i)

/-- A call that was refused changed nothing; any other one was a trade. -/
def Served (t : Tenancy) (r : Region) (pairs : List (Holding × Parcel)) (call : Call) (b : Arena) :
    Except HeapError (Option Nat) → Prop
  | .error _ => b = t.arena
  | .ok given => ∃ plan' fresh, t.Traded r pairs call given b plan' fresh

theorem Traded.sound {call : Call} {given : Option Nat} {b : Arena} {fresh : List (Holding × Parcel)}
    (traded : t.Traded r pairs call given b plan' fresh) (sound : t.Sound r plan pairs) :
    Tenancy.Sound ⟨b, call.settle t.holdings (.ok given)⟩ r plan' (besides call.argument pairs ++ fresh) where
  arena := traded.arena
  holdings := by
    rw [List.map_append, ← sound.holdings, Call.settle, List.filter_map, traded.held]
    rfl
  parcels := traded.parcels
  backed pair member := by
    rcases List.mem_append.mp member with kept | new
    · have stays := sound.backed pair (mem_besides.mp kept).1
      exact stays.congr fun addr holds _ => traded.byte pair kept addr holds
    · exact traded.backed pair new

/-- What clients hold, besides the memory at an address, holds what it held. -/
def Spares (t : Tenancy) (ptr : Nat) (b : Arena) : Prop :=
  ∀ h ∈ t.holdings, h.addr ≠ ptr → ∀ addr, h.addr ≤ addr → addr < h.addr + h.size →
    b.memory.byte addr = t.arena.memory.byte addr

theorem Traded.spares {call : Call} {given : Option Nat} {b : Arena} {fresh : List (Holding × Parcel)}
    (traded : t.Traded r pairs call given b plan' fresh) (sound : t.Sound r plan pairs) :
    t.Spares call.argument b := by
  intro h member other addr lower upper
  obtain ⟨p, inPairs⟩ := sound.exists_parcel member
  exact traded.byte _ (mem_besides.mpr ⟨inPairs, other⟩) addr ((sound.backed _ inPairs).holds lower upper)

theorem Traded.exists_parcel {call : Call} {ptr : Nat} {b : Arena} {fresh : List (Holding × Parcel)}
    (traded : t.Traded r pairs call (some ptr) b plan' fresh) :
    ∃ p, fresh = [(⟨ptr, call.size, call.aligned⟩, p)] ∧ p ∈ plan' ∧
      Holding.Backed r b.memory ⟨ptr, call.size, call.aligned⟩ p := by
  obtain ⟨⟨h, p⟩, rfl, rfl⟩ := List.map_eq_singleton_iff.mp traded.held
  refine ⟨p, rfl, ?_, traded.backed _ (List.mem_singleton_self _)⟩
  exact (mem_takens.mp (traded.parcels.mem_iff.mpr (by simp))).1

/-- A call that takes nothing and grants a parcel. -/
theorem Sound.granted {call : Call} {b : Arena} {size ptr : Nat} (sound : t.Sound r plan pairs)
    (none : call.argument = 0) (granted : Granted r plan size t.arena p plan' b)
    (backed : Holding.Backed r b.memory ⟨ptr, call.size, call.aligned⟩ p) :
    t.Served r pairs call b (.ok (some ptr)) := by
  have all : besides call.argument pairs = pairs := by rw [none, sound.besides_zero]
  refine ⟨plan', [(⟨ptr, call.size, call.aligned⟩, p)], granted.sound, ?_, ?_, rfl, by simpa using backed, ?_⟩
  · rw [all, List.map_append]
    exact (granted.trade.after.trans (sound.parcels.cons p)).trans (List.perm_append_singleton ..).symm
  · rw [all]
    exact fun pair member => granted.trade.byte _ (sound.parcels.mem_iff.mpr (List.mem_map_of_mem member))
  · intro _ _ pair member same
    exact absurd (same.trans none) (sound.backed pair member).addr_ne_zero

/-- What a call comes to: it is served, unless the region is so large that the heap cannot compute with its
sizes. -/
abbrev Serves (t : Tenancy) (r : Region) (pairs : List (Holding × Parcel)) (call : Call)
    (action : HeapAction (Option Nat)) : Prop :=
  action.run.Meets t.arena (fun result b => t.Served r pairs call b result)
    fun _ => wordLimit ≤ r.size + Config.heapMinPayload

theorem Sound.serves_allocation {action : HeapAction Nat} (sound : t.Sound r plan pairs) (call : Call)
    (none : call.argument = 0) (plain : call.aligned = false)
    (meets : action.run.Meets t.arena (fun result b =>
      match result with
      | .error _ => b = t.arena
      | .ok ptr => ∃ x plan', ptr = r.payload x.off ∧ Granted r plan call.size t.arena x plan' b)
      fun _ => wordLimit ≤ r.size + Config.heapMinPayload) : t.Serves r pairs call (some <$> action) := by
  refine (meets_run_map ..).mpr (meets.mono ?_ fun _ => id)
  rintro (cause | ptr) b post
  · exact post
  · obtain ⟨x, plan', rfl, granted⟩ := post
    refine sound.granted none granted ?_
    rw [plain]
    exact ⟨granted.nonempty, rfl, granted.enough⟩

theorem Sound.serves_aligned {align : Nat} (sound : t.Sound r plan pairs) (call : Call)
    (none : call.argument = 0) (aligned : call.aligned = true) :
    t.Serves r pairs call (some <$> allocateAligned call.size align) := by
  refine (meets_run_map ..).mpr ((meets_allocateAligned sound.arena call.size align).mono ?_ fun _ => id)
  rintro (cause | ptr) b post
  · exact post
  · obtain ⟨positive, -, x, plan', granted, leads⟩ := post
    refine sound.granted none granted ?_
    rw [aligned]
    exact ⟨positive, leads⟩

/-- What a call comes to that gives memory back: it is never refused. -/
abbrev Releases (t : Tenancy) (r : Region) (pairs : List (Holding × Parcel)) (call : Call)
    (action : HeapAction Unit) : Prop :=
  action.run.Meets t.arena (fun result b => result = .ok () ∧ ∃ plan' fresh, t.Traded r pairs call none b plan' fresh)
    fun _ => False

theorem Releases.serves {call : Call} {action : HeapAction Unit} (releases : t.Releases r pairs call action) :
    t.Serves r pairs call ((fun _ => none) <$> action) := by
  refine (meets_run_map ..).mpr (releases.excused.mono ?_ fun _ => id)
  rintro _ b ⟨rfl, traded⟩
  exact traded

/-- Without an address a call that gives memory back does nothing. -/
theorem Sound.releases_nothing {call : Call} {action : HeapAction Unit} (sound : t.Sound r plan pairs)
    (none : call.argument = 0) (idle : attempt action t.arena = (.ok (.ok ()), t.arena)) :
    t.Releases r pairs call action := by
  have all : besides call.argument pairs = pairs := by rw [none, sound.besides_zero]
  refine Meets.of_runFrom idle ⟨rfl, plan, [], sound.arena, ?_, fun _ _ _ _ => rfl, rfl, by simp, by simp⟩
  rw [all, List.append_nil]
  exact sound.parcels

theorem releases_parcel {call : Call} {action : HeapAction Unit}
    (meets : action.run.Meets t.arena (fun result b => result = .ok () ∧ ∃ plan', b.Sound r plan' ∧
      Trade r plan plan' [p] [] ((besides call.argument pairs).map Prod.snd) t.arena b) fun _ => False) :
    t.Releases r pairs call action := by
  refine meets.mono ?_ fun _ => id
  rintro result b ⟨done, plan', soundB, trade⟩
  refine ⟨done, plan', [], soundB, ?_, fun pair member => trade.byte _ (List.mem_map_of_mem member), rfl, by simp,
    by simp⟩
  rw [List.append_nil]
  exact trade.after

theorem Sound.releases_plain (sound : t.Sound r plan pairs) (call : Call) (legal : call.Legal t.holdings)
    (plain : call.aligned = false) : t.Releases r pairs call (Arena.release call.argument) := by
  rcases legal with none | ⟨h, member, addr, kind⟩
  · rw [none]
    exact sound.releases_nothing none (attempt_release_zero _)
  · obtain ⟨p, inPairs⟩ := sound.exists_parcel member
    have backed := sound.backed _ inPairs
    have others := sound.perm_besides inPairs
    rw [addr] at others
    rw [← addr, backed.plain (kind.trans plain)]
    exact releases_parcel (p := p) (meets_giveBack sound.arena others (sound.room inPairs))

theorem Sound.releases_aligned (sound : t.Sound r plan pairs) (call : Call) (legal : call.Legal t.holdings)
    (aligned : call.aligned = true) : t.Releases r pairs call (Arena.releaseAligned call.argument) := by
  rcases legal with none | ⟨h, member, addr, kind⟩
  · rw [none]
    exact sound.releases_nothing none rfl
  · obtain ⟨p, inPairs⟩ := sound.exists_parcel member
    have backed := sound.backed _ inPairs
    have leads := backed.leadsBack (kind.trans aligned)
    have others := sound.perm_besides inPairs
    dsimp only at leads
    rw [addr] at others leads
    exact releases_parcel (p := p) (meets_releaseAligned sound.arena others leads backed.1)

/-- A client that hands memory in for memory of another size is given some, or refused. -/
theorem Sound.serves_exchange {size : Nat} (sound : t.Sound r plan pairs) (member : h ∈ t.holdings)
    (plain : h.aligned = false) (positive : 0 < size) :
    (Arena.resize h.addr size).run.Meets t.arena (fun result b => result ≠ .ok none ∧
      t.Served r pairs (.resize h.addr size) b result)
      fun _ => wordLimit ≤ r.size + Config.heapMinPayload := by
  obtain ⟨p, inPairs⟩ := sound.exists_parcel member
  have backed := sound.backed _ inPairs
  have place := backed.plain plain
  dsimp only at place
  have others := sound.perm_besides inPairs
  rw [place] at others ⊢
  refine (meets_resize sound.arena others (sound.room inPairs) positive).mono ?_ fun _ => id
  rintro (cause | given) b post
  · exact ⟨by simp, post⟩
  · cases given with
    | none => exact post.elim
    | some ptr =>
      obtain ⟨x, plan', rfl, resized⟩ := post
      refine ⟨by simp, plan', [(⟨r.payload x.off, size, false⟩, x)], resized.sound, ?_, fun pair inRest =>
        resized.trade.byte _ (List.mem_map_of_mem inRest), rfl, ?_, ?_⟩
      · rw [List.map_append]
        exact resized.trade.after.trans List.perm_append_comm
      · simp only [List.forall_mem_singleton]
        exact ⟨resized.nonempty, rfl, resized.enough⟩
      · rintro ptr given pair inPairs' same i within short
        obtain rfl := Option.some.inj given
        rcases sound.eq_or_apart inPairs' inPairs with rfl | apart
        · exact resized.contents i (Nat.lt_of_lt_of_le within (backed.size_le plain)) short
        · exact absurd (same.trans place.symm) (sound.addr_ne inPairs' inPairs apart)

theorem Sound.serves_resize {ptr size : Nat} (sound : t.Sound r plan pairs)
    (legal : (Call.resize ptr size).Legal t.holdings) :
    t.Serves r pairs (.resize ptr size) (Arena.resize ptr size) := by
  by_cases zero : ptr = 0
  · subst zero
    exact sound.serves_allocation (.resize 0 size) rfl rfl (meets_grant sound.arena size)
  by_cases empty : size = 0
  · subst empty
    rw [resize_to_zero zero]
    exact (sound.releases_plain (.resize ptr 0) legal rfl).serves
  obtain ⟨h, member, rfl, kind⟩ := legal.resolve_left zero
  exact (sound.serves_exchange member kind (by omega)).mono (fun _ _ post => post.2) fun _ => id

/-- A call with a legal address is served. -/
theorem Sound.serves (sound : t.Sound r plan pairs) (call : Call) (legal : call.Legal t.holdings) :
    t.Serves r pairs call call.perform := by
  cases call with
  | allocate size => exact sound.serves_allocation (.allocate size) rfl rfl (meets_grant sound.arena size)
  | allocateZeroed count size =>
    have meets := meets_allocateZeroed sound.arena count size
    refine sound.serves_allocation (.allocateZeroed count size) rfl rfl (meets.mono ?_ fun _ => id)
    rintro (cause | ptr) b post
    · exact post
    · obtain ⟨x, plan', place, granted, -⟩ := post
      exact ⟨x, plan', place, granted⟩
  | allocateAligned size align => exact sound.serves_aligned (.allocateAligned size align) rfl rfl
  | allocatePages size => exact sound.serves_aligned (.allocatePages size) rfl rfl
  | release ptr => exact (sound.releases_plain (.release ptr) legal rfl).serves
  | releaseAligned ptr => exact (sound.releases_aligned (.releaseAligned ptr) legal rfl).serves
  | releasePages ptr => exact (sound.releases_aligned (.releasePages ptr) legal rfl).serves
  | resize ptr size => exact sound.serves_resize legal

/-- What an event leaves alone: it does not hand in the address of a piece of memory, nor write into it. -/
def Event.Spares (h : Holding) : Event → Prop
  | .called call _ => h.addr ≠ call.argument
  | .wrote addr bytes => addr + bytes.length ≤ h.addr ∨ h.addr + h.size ≤ addr

/-- What happens to the bytes of a client's memory is of no concern to the heap or to any other client. -/
theorem Sound.stored {m : Memory} (sound : t.Sound r plan pairs) (member : h ∈ t.holdings)
    (covers : ∀ addr n, m.Covers addr n ↔ t.arena.memory.Covers addr n)
    (byte : ∀ addr, addr < h.addr ∨ h.addr + h.size ≤ addr → m.byte addr = t.arena.memory.byte addr) :
    Tenancy.Sound ⟨{ t.arena with memory := m }, t.holdings⟩ r plan pairs := by
  obtain ⟨p, inPairs⟩ := sound.exists_parcel member
  have inPlan := (mem_takens.mp (sound.parcels.mem_iff.mpr (List.mem_map_of_mem inPairs))).1
  have backed : h.Backed r t.arena.memory p := sound.backed _ inPairs
  have stored : Stored r p t.arena { t.arena with memory := m } := by
    refine ⟨rfl, rfl, covers, fun addr outside => byte addr ?_⟩
    by_contra inside
    exact outside (backed.holds (by omega) (by omega))
  refine ⟨sound.arena.stored inPlan stored, sound.holdings, sound.parcels, ?_⟩
  intro pair inPairs'
  refine (sound.backed pair inPairs').congr ?_
  intro addr holds below
  rcases sound.eq_or_apart inPairs' inPairs with rfl | apart
  · exact byte addr (Or.inl below)
  · exact stored.byte addr (apart.not_holds holds)

theorem Sound.write {addr : Nat} {bytes : List UInt8} (sound : t.Sound r plan pairs) (member : h ∈ t.holdings)
    (lower : h.addr ≤ addr) (upper : addr + bytes.length ≤ h.addr + h.size) :
    Tenancy.Sound ⟨{ t.arena with memory := t.arena.memory.writeBytes addr bytes }, t.holdings⟩ r plan pairs :=
  sound.stored member (fun _ _ => Memory.covers_writeBytes ..) fun _ outside =>
    Memory.byte_writeBytes_of_outside _ _ (by omega)

theorem Sound.covers (sound : t.Sound r plan pairs) (member : h ∈ t.holdings) :
    t.arena.memory.Covers h.addr h.size := by
  obtain ⟨p, inPairs⟩ := sound.exists_parcel member
  have inPlan : p ∈ plan := (mem_takens.mp (sound.parcels.mem_iff.mpr (List.mem_map_of_mem inPairs))).1
  have backed : h.Backed r t.arena.memory p := sound.backed _ inPairs
  have positive := backed.1
  obtain ⟨first, -⟩ : p.Holds r h.addr := backed.holds_addr
  obtain ⟨-, last⟩ : p.Holds r (h.addr + h.size - 1) := backed.holds (by omega) (by omega)
  obtain ⟨lower, upper⟩ := sound.arena.covers inPlan (Nat.le_refl _)
  exact ⟨Nat.le_trans lower first, by omega⟩

/-- A call that came to a result leaves a sound heap, and what clients hold besides the memory handed in. -/
theorem Sound.call {call : Call} {result : Except HeapError (Option Nat)} {b : Arena}
    (sound : t.Sound r plan pairs) (legal : call.Legal t.holdings)
    (ran : attempt call.perform t.arena = (.ok result, b)) :
    ∃ plan' pairs', Tenancy.Sound ⟨b, call.settle t.holdings result⟩ r plan' pairs' ∧
      ∀ pair ∈ besides call.argument pairs, pair ∈ pairs' ∧ ∀ addr, pair.2.Holds r addr →
        b.memory.byte addr = t.arena.memory.byte addr := by
  have served := (sound.serves call legal).result ran
  cases result with
  | error cause =>
    obtain rfl : b = t.arena := served
    exact ⟨plan, pairs, sound, fun pair member => ⟨(mem_besides.mp member).1, fun _ _ => rfl⟩⟩
  | ok given =>
    obtain ⟨plan', fresh, traded⟩ := served
    exact ⟨plan', _, traded.sound sound, fun pair member =>
      ⟨List.mem_append_left _ member, traded.byte pair member⟩⟩

/-- One event keeps the heap sound, and what it spares is where it was and holds what it held. -/
theorem Sound.step {event : Event} (sound : t.Sound r plan pairs) (step : Step t event u) :
    ∃ plan' pairs', u.Sound r plan' pairs' ∧ ∀ pair ∈ pairs, event.Spares pair.1 → pair ∈ pairs' ∧
      ∀ addr, pair.1.addr ≤ addr → addr < pair.1.addr + pair.1.size →
        u.arena.memory.byte addr = t.arena.memory.byte addr := by
  cases step with
  | call legal ran =>
    obtain ⟨plan', pairs', after, keeps⟩ := sound.call legal ran
    refine ⟨plan', pairs', after, ?_⟩
    intro pair member spared
    obtain ⟨stays, bytes⟩ := keeps pair (mem_besides.mpr ⟨member, spared⟩)
    exact ⟨stays, fun addr lower upper => bytes addr ((sound.backed pair member).holds lower upper)⟩
  | write member lower upper =>
    refine ⟨plan, pairs, sound.write member lower upper, fun pair inPairs spared => ⟨inPairs, ?_⟩⟩
    intro addr above below
    refine Memory.byte_writeBytes_of_outside _ _ ?_
    simp only [Event.Spares] at spared
    omega

theorem Run.sound {events : List Event} (run : Run t events u) (sound : t.Sound r plan pairs) :
    ∃ plan' pairs', u.Sound r plan' pairs' := by
  induction run with
  | start => exact ⟨plan, pairs, sound⟩
  | next _ step ih =>
    obtain ⟨plan', pairs', before⟩ := ih
    obtain ⟨plan'', pairs'', after, -⟩ := before.step step
    exact ⟨plan'', pairs'', after⟩

/-- What no event of a run concerns is still held at its end, and its bytes are the same. -/
theorem Run.keeps {events : List Event} (run : Run t events u) (sound : t.Sound r plan pairs)
    (member : h ∈ t.holdings) (spared : ∀ event ∈ events, event.Spares h) :
    h ∈ u.holdings ∧ u.arena.memory.slice h.addr h.size = t.arena.memory.slice h.addr h.size := by
  induction run with
  | start => exact ⟨member, rfl⟩
  | next run step ih =>
    obtain ⟨plan', pairs', before⟩ := run.sound sound
    obtain ⟨held, same⟩ := ih fun event inEvents => spared event (List.mem_append_left _ inEvents)
    obtain ⟨p, inPairs⟩ := before.exists_parcel held
    obtain ⟨plan'', pairs'', after, keeps⟩ := before.step step
    obtain ⟨inAfter, bytes⟩ := keeps _ inPairs (spared _ (by simp))
    refine ⟨?_, Eq.trans (List.map_congr_left ?_) same⟩
    · rw [← after.holdings]
      exact List.mem_map_of_mem inAfter
    · intro i within
      have := List.mem_range.mp within
      exact bytes _ (Nat.le_add_right ..) (Nat.add_lt_add_left this _)

theorem within_of_ofRange {start size : Nat} (usable : Region.ofRange start size = .ok r) :
    start ≤ r.start ∧ r.start + r.size ≤ start + size := by
  unfold Region.ofRange at usable
  split at usable
  · simp at usable
  · split at usable
    · simp at usable
    · rename_i base rounded
      have up := Word.roundUp?_eight_eq_some_iff.mp rounded
      split at usable
      · simp at usable
      · have down : Word.roundDown (size - (base - start)) Config.heapAlignment ≤ size - (base - start) :=
          Nat.and_le_left
        dsimp only at usable
        split at usable
        · obtain rfl := Except.ok.inj usable
          dsimp only
          omega
        · simp at usable

/-- A heap that took over a region inside the memory is sound, and nobody holds anything. -/
theorem sound_of_establish {a b : Arena} {start size : Nat} (window : a.memory.Covers start size)
    (opened : attempt (establish start size) a = (.ok (.ok ()), b)) :
    ∃ r, Region.ofRange start size = .ok r ∧
      Tenancy.Sound ⟨b, []⟩ r [⟨0, r.capacity, .listed⟩] [] := by
  obtain ⟨r, usable, wellFormed⟩ := wellFormed_establish opened fun r usable => by
    obtain ⟨lower, upper⟩ := within_of_ofRange usable
    exact ⟨Nat.le_trans window.1 lower, Nat.le_trans upper window.2⟩
  obtain ⟨-, stored, -, whole, -⟩ := wellFormed.tiles
  have room := r.holds_block
  have sized : Spans 0 [⟨0, r.capacity, .listed⟩] r.size := by
    refine ⟨rfl, whole, ?_⟩
    simp only [Spans, Parcel.stop, Region.capacity]
    omega
  refine ⟨r, usable, ⟨⟨wellFormed.region, wellFormed.covered, sized, ?_, ?_, trivial⟩, ?_, wellFormed.used⟩, rfl,
    List.Perm.nil, by simp⟩
  · have linked : Block.Linked none b.heap.first [⟨0, Header.free r.capacity⟩] := wellFormed.linked
    exact linked.1
  · exact stored.symm
  · exact ⟨by simp, List.isChain_singleton _⟩

theorem meets_establish {a : Arena} {start size : Nat} (window : a.memory.Covers start size) :
    (establish start size).run.Meets a (fun result b => result = .ok () → ∃ r, Region.ofRange start size = .ok r ∧
      Tenancy.Sound ⟨b, []⟩ r [⟨0, r.capacity, .listed⟩] []) fun _ => True := by
  unfold Meets
  rw [runFrom_run]
  rcases ran : attempt (establish start size) a with ⟨_ | result, b⟩
  · trivial
  · rintro rfl
    exact sound_of_establish window ran

end Tenancy
end KernelCore
