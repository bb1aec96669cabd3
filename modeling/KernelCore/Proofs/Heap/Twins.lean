import KernelCore.Proofs.Heap.Concurrence

namespace KernelCore

namespace Call

/-- The same call with another address handed in. -/
def handing (ptr : Nat) : Call → Call
  | resize _ size => resize ptr size
  | release _ => release ptr
  | releaseAligned _ => releaseAligned ptr
  | releasePages _ => releasePages ptr
  | allocate size => allocate size
  | allocateZeroed count size => allocateZeroed count size
  | allocateAligned size align => allocateAligned size align
  | allocatePages size => allocatePages size

theorem handing_argument (call : Call) : call.handing call.argument = call := by
  cases call <;> rfl

end Call

namespace Tenancy
open Arena Parcel Machine
variable {t t' u v : Tenancy} {r : Region} {plan : List Parcel} {pairs pairs' : List (Holding × Parcel)}
  {h : Holding} {p q : Parcel} {call : Call} {b d : Arena}

/-- What the calls of a run came to. -/
def results (events : List Event) : List (Except HeapError (Option Nat)) :=
  events.filterMap fun
    | .called _ result => some result
    | .wrote _ _ => none

/-- After two runs, two calls ask for the same; each of them hands in nothing, or what the same earlier call gave. -/
def Matches (before before' : List Event) (call call' : Call) : Prop :=
  call' = call.handing call'.argument ∧
    (call.argument = 0 ∧ call'.argument = 0 ∨
      ∃ k : Nat, (results before)[k]? = some (.ok (some call.argument)) ∧
        (results before')[k]? = some (.ok (some call'.argument)))

/-- The clients of two runs make the same calls, and write what they like. -/
inductive Parallel : List Event → List Event → Prop
  | start : Parallel [] []
  | write {events events' : List Event} (addr : Nat) (bytes : List UInt8) (parallel : Parallel events events') :
    Parallel (events ++ [.wrote addr bytes]) events'
  | write' {events events' : List Event} (addr : Nat) (bytes : List UInt8) (parallel : Parallel events events') :
    Parallel events (events' ++ [.wrote addr bytes])
  | call {events events' : List Event} {call call' : Call} (result result' : Except HeapError (Option Nat))
    (parallel : Parallel events events') (matching : Matches events events' call call') :
    Parallel (events ++ [.called call result]) (events' ++ [.called call' result'])

/-- Clients who hold the same, in heaps that have the same plan. -/
def Twins (r : Region) (t t' : Tenancy) : Prop :=
  t.holdings = t'.holdings ∧ ∃ plan pairs pairs', t.Sound r plan pairs ∧ t'.Sound r plan pairs'

/-- In one plan a piece of memory has one parcel behind it. -/
theorem Sound.parcel_eq (sound : t.Sound r plan pairs) (sound' : t'.Sound r plan pairs') (inPairs : (h, p) ∈ pairs)
    (inPairs' : (h, q) ∈ pairs') : p = q := by
  have holds : p.Holds r h.addr := (sound.backed _ inPairs).holds_addr
  have holds' : q.Holds r h.addr := (sound'.backed _ inPairs').holds_addr
  have inPlan : p ∈ takens plan := sound.parcels.mem_iff.mpr (List.mem_map_of_mem inPairs)
  have inPlan' : q ∈ takens plan := sound'.parcels.mem_iff.mpr (List.mem_map_of_mem inPairs')
  by_contra other
  have symmetric : Std.Symm Parcel.Apart := ⟨fun _ _ apart => apart.symm⟩
  exact (sound.arena.pairwise.forall inPlan inPlan' other).not_holds holds holds'

theorem Sound.exists_held (sound : t.Sound r plan pairs) (member : h ∈ t.holdings) :
    ∃ p, (h, p) ∈ pairs ∧ p ∈ takens plan := by
  obtain ⟨p, inPairs⟩ := sound.exists_parcel member
  exact ⟨p, inPairs, sound.parcels.mem_iff.mpr (List.mem_map_of_mem inPairs)⟩

namespace Twins

theorem symm (twins : Twins r t t') : Twins r t' t := by
  obtain ⟨held, plan, pairs, pairs', sound, sound'⟩ := twins
  exact ⟨held.symm, plan, pairs', pairs, sound', sound⟩

theorem alike (twins : Twins r t t') : Alike r t.arena t'.arena := by
  obtain ⟨-, plan, pairs, pairs', sound, sound'⟩ := twins
  exact ⟨plan, sound.arena, sound'.arena⟩

/-- What both hold lies in the same parcel. -/
theorem exists_parcel (twins : Twins r t t') (member : h ∈ t.holdings) :
    ∃ plan p, t.arena.Sound r plan ∧ t'.arena.Sound r plan ∧ p ∈ takens plan ∧
      h.Backed r t.arena.memory p ∧ h.Backed r t'.arena.memory p := by
  obtain ⟨held, plan, pairs, pairs', sound, sound'⟩ := twins
  obtain ⟨p, inPairs, taken⟩ := sound.exists_held member
  obtain ⟨q, inPairs', -⟩ := sound'.exists_held (held ▸ member)
  obtain rfl := sound.parcel_eq sound' inPairs inPairs'
  exact ⟨plan, p, sound.arena, sound'.arena, taken, sound.backed _ inPairs, sound'.backed _ inPairs'⟩

theorem agrees_release (twins : Twins r t t') (legal : call.Legal t.holdings) (plain : call.aligned = false) :
    Agrees (Arena.release call.argument) t.arena t'.arena fun _ => Alike r := by
  rcases legal with none | ⟨h, member, addr, kind⟩
  · unfold Agrees
    rw [none, attempt_release_zero, attempt_release_zero]
    exact .result twins.alike
  · obtain ⟨plan, p, sound, sound', taken, backed, -⟩ := twins.exists_parcel member
    rw [← addr, backed.plain (kind.trans plain)]
    exact sound.agrees_release sound' taken (sound.shows.room (mem_takens.mp taken).1 backed.nonempty)

theorem agrees_releaseAligned (twins : Twins r t t') (legal : call.Legal t.holdings) (aligned : call.aligned = true) :
    Agrees (Arena.releaseAligned call.argument) t.arena t'.arena fun _ => Alike r := by
  rcases legal with none | ⟨h, member, addr, kind⟩
  · rw [none]
    exact .result twins.alike
  · obtain ⟨plan, p, sound, sound', taken, backed, backed'⟩ := twins.exists_parcel member
    have inPlan := (mem_takens.mp taken).1
    have leads := backed.leadsBack (kind.trans aligned)
    have leads' := backed'.leadsBack (kind.trans aligned)
    have within := (sound.shows.spans.bounds inPlan).2
    unfold Agrees
    rw [← addr, attempt_releaseAligned sound.shows.region within leads backed.1,
      attempt_releaseAligned sound'.shows.region within leads' backed.1]
    exact sound.agrees_release sound' taken (sound.shows.room (mem_takens.mp taken).1 backed.nonempty)

theorem agrees_resize {ptr size : Nat} (twins : Twins r t t') (legal : (Call.resize ptr size).Legal t.holdings) :
    Agrees (Arena.resize ptr size) t.arena t'.arena fun _ => Alike r := by
  rcases legal with none | ⟨h, member, addr, kind⟩
  · obtain rfl : ptr = 0 := none
    obtain ⟨plan, sound, sound'⟩ := twins.alike
    refine (sound.agrees_allocate sound' size).map some ?_
    rintro _ b d ⟨x, plan', -, granted, granted'⟩
    exact ⟨plan', granted.sound, granted'.sound⟩
  · obtain rfl : h.addr = ptr := addr
    obtain ⟨plan, p, sound, sound', taken, backed, -⟩ := twins.exists_parcel member
    rw [backed.plain kind]
    exact sound.agrees_resize sound' taken (sound.shows.room (mem_takens.mp taken).1 backed.nonempty) size

/-- A call comes to the same for twins, and leaves heaps that have the same plan. -/
theorem agrees_perform (twins : Twins r t t') (legal : call.Legal t.holdings) :
    Agrees call.perform t.arena t'.arena fun _ => Alike r := by
  obtain ⟨plan, sound, sound'⟩ := twins.alike
  cases call with
  | allocate size =>
    refine (sound.agrees_allocate sound' size).map some ?_
    rintro _ b d ⟨x, plan', -, granted, granted'⟩
    exact ⟨plan', granted.sound, granted'.sound⟩
  | allocateZeroed count size => exact (sound.agrees_allocateZeroed sound' count size).map some fun _ _ _ => id
  | allocateAligned size align => exact (sound.agrees_allocateAligned sound' size align).map some fun _ _ _ => id
  | allocatePages size => exact (sound.agrees_allocateAligned sound' size Config.pageSize).map some fun _ _ _ => id
  | resize ptr size => exact twins.agrees_resize legal
  | release ptr => exact (twins.agrees_release legal rfl).map _ fun _ _ _ => id
  | releaseAligned ptr => exact (twins.agrees_releaseAligned legal rfl).map _ fun _ _ _ => id
  | releasePages ptr =>
    have releases := twins.agrees_releaseAligned legal rfl
    exact releases.map _ fun _ _ _ => id

/-- A call comes to the same result for twins, and they stay twins. -/
theorem called {result result' : Except HeapError (Option Nat)} (twins : Twins r t t') (legal : call.Legal t.holdings)
    (ran : attempt call.perform t.arena = (.ok result, b)) (ran' : attempt call.perform t'.arena = (.ok result', d)) :
    result = result' ∧ Twins r ⟨b, call.settle t.holdings result⟩ ⟨d, call.settle t'.holdings result'⟩ := by
  have agrees := twins.agrees_perform legal
  unfold Agrees at agrees
  rw [ran, ran'] at agrees
  obtain ⟨held, plan, pairs, pairs', sound, sound'⟩ := twins
  have legal' : call.Legal t'.holdings := held ▸ legal
  cases agrees with
  | result alike =>
    obtain ⟨plan, arena, arena'⟩ := alike
    obtain ⟨planB, pairsB, soundB, -⟩ := sound.call legal ran
    obtain ⟨planD, pairsD, soundD, -⟩ := sound'.call legal' ran'
    obtain rfl := soundB.arena.plan_eq arena rfl fun _ => Iff.rfl
    obtain rfl := soundD.arena.plan_eq arena' rfl fun _ => Iff.rfl
    exact ⟨rfl, by rw [held], _, pairsB, pairsD, soundB, soundD⟩
  | refusal cause =>
    obtain rfl : b = t.arena := (sound.serves call legal).result ran
    obtain rfl : d = t'.arena := (sound'.serves call legal').result ran'
    exact ⟨rfl, held, plan, pairs, pairs', sound, sound'⟩

theorem sameLayout (twins : Twins r t t') : t.arena.SameLayout t'.arena := by
  obtain ⟨plan, sound, sound'⟩ := twins.alike
  exact sound.sameLayout sound' rfl

theorem capacity?_eq (twins : Twins r t t') (member : h ∈ t.holdings) (plain : h.aligned = false) :
    ∃ size, t.arena.capacity? h.addr = some size ∧ t'.arena.capacity? h.addr = some size := by
  obtain ⟨plan, p, sound, sound', taken, backed, -⟩ := twins.exists_parcel member
  obtain ⟨inPlan, tenure⟩ := mem_takens.mp taken
  rw [backed.plain plain]
  have room := sound.shows.room inPlan backed.nonempty
  exact ⟨p.size, sound.shows.capacity?_eq inPlan tenure room, sound'.shows.capacity?_eq inPlan tenure room⟩

theorem check_ok (twins : Twins r t t') : attempt check t.arena = (.ok (.ok ()), t.arena) := by
  obtain ⟨plan, sound, -⟩ := twins.alike
  exact sound.wellFormed.attempt_check

theorem outcome_eq (twins : Twins r t t') (legal : call.Legal t.holdings) :
    (attempt call.perform t.arena).1 = (attempt call.perform t'.arena).1 :=
  (twins.agrees_perform legal).outcome_eq

theorem wrote {addr : Nat} {bytes : List UInt8} (twins : Twins r t t') (step : Step t (.wrote addr bytes) u) :
    Twins r u t' := by
  obtain ⟨held, plan, pairs, pairs', sound, sound'⟩ := twins
  cases step with
  | write member lower upper => exact ⟨held, plan, pairs, pairs', sound.write member lower upper, sound'⟩

end Twins

theorem results_concat (events : List Event) (event : Event) :
    results (events ++ [event]) = results events ++ results [event] := List.filterMap_append

theorem run_nil : Run t [] u ↔ u = t := by
  constructor
  · intro run
    generalize whole : ([] : List Event) = events at run
    cases run with
    | start => rfl
    | next => simp at whole
  · rintro rfl
    exact .start u

theorem run_concat {events : List Event} {event : Event} :
    Run t (events ++ [event]) v ↔ ∃ u, Run t events u ∧ Step u event v := by
  constructor
  · intro run
    generalize whole : events ++ [event] = all at run
    cases run with
    | start => simp at whole
    | next run step =>
      obtain ⟨rfl, same⟩ := List.append_inj' whole rfl
      obtain rfl := List.singleton_inj.mp same
      exact ⟨_, run, step⟩
  · rintro ⟨u, run, step⟩
    exact run.next step

/-- After the same results, calls that match are the same. -/
theorem Matches.eq {events events' : List Event} {call call' : Call} (matching : Matches events events' call call')
    (same : results events = results events') : call' = call := by
  obtain ⟨shape, arguments⟩ := matching
  have argument : call'.argument = call.argument := by
    rcases arguments with ⟨none, none'⟩ | ⟨k, given, given'⟩
    · rw [none, none']
    · rw [same, given'] at given
      simpa using given
  rw [shape, argument, call.handing_argument]

/-- Along two runs with the same calls twins stay twins, and the calls come to the same results. -/
theorem Parallel.twins {events events' : List Event} (parallel : Parallel events events') (twins : Twins r t t')
    (run : Run t events u) (run' : Run t' events' v) : results events = results events' ∧ Twins r u v := by
  induction parallel generalizing u v with
  | start =>
    rw [run_nil.mp run, run_nil.mp run']
    exact ⟨rfl, twins⟩
  | write addr bytes parallel ih =>
    obtain ⟨w, run, step⟩ := run_concat.mp run
    obtain ⟨same, after⟩ := ih run run'
    exact ⟨by simpa [results_concat, results] using same, after.wrote step⟩
  | write' addr bytes parallel ih =>
    obtain ⟨w, run', step⟩ := run_concat.mp run'
    obtain ⟨same, after⟩ := ih run run'
    exact ⟨by simpa [results_concat, results] using same, (after.symm.wrote step).symm⟩
  | call result result' parallel matching ih =>
    obtain ⟨w, run, step⟩ := run_concat.mp run
    obtain ⟨w', run', step'⟩ := run_concat.mp run'
    obtain ⟨same, before⟩ := ih run run'
    obtain rfl := matching.eq same
    cases step with
    | call legal ran =>
      cases step' with
      | call _ ran' =>
        obtain ⟨rfl, after⟩ := before.called legal ran ran'
        exact ⟨by rw [results_concat, results_concat, same], after⟩

theorem twins_of_establish {m m' : Memory} {start size : Nat} {a : Arena} (window : m.Covers start size)
    (window' : m'.Covers start size) (opened : attempt (establish start size) (ofMemory m) = (.ok (.ok ()), a)) :
    ∃ r a', attempt (establish start size) (ofMemory m') = (.ok (.ok ()), a') ∧ Twins r ⟨a, []⟩ ⟨a', []⟩ := by
  obtain ⟨r, usable, sound⟩ := sound_of_establish window opened
  have opened' : ∃ a', attempt (establish start size) (ofMemory m') = (.ok (.ok ()), a') := by
    rw [attempt_establish, usable]
    exact ⟨_, rfl⟩
  obtain ⟨a', opened'⟩ := opened'
  obtain ⟨r', usable', sound'⟩ := sound_of_establish window' opened'
  obtain rfl := Except.ok.inj (usable.symm.trans usable')
  exact ⟨r, a', opened', rfl, _, _, _, sound, sound'⟩

/-- What the heap tells its clients does not depend on any bytes but its own. In a memory that holds other bytes it
takes over the same region. Clients that make the same calls there, whatever they write, get the same results; they
hold the same, in blocks of the same layout with the same counters and capacities, and the check finds nothing. Also
the next call has the same outcome, be it a result, a refusal or a fault. -/
theorem Run.data_independent {m m' : Memory} {start size : Nat} {a : Arena} (window : m.Covers start size)
    (window' : m'.Covers start size) (opened : attempt (establish start size) (ofMemory m) = (.ok (.ok ()), a)) :
    ∃ a', attempt (establish start size) (ofMemory m') = (.ok (.ok ()), a') ∧
      ∀ events events' t t', Run ⟨a, []⟩ events t → Run ⟨a', []⟩ events' t' → Parallel events events' →
        results events = results events' ∧ t.holdings = t'.holdings ∧ t.arena.SameLayout t'.arena ∧
        (∀ h ∈ t.holdings, h.aligned = false → ∃ capacity, t.arena.capacity? h.addr = some capacity ∧
          t'.arena.capacity? h.addr = some capacity) ∧
        attempt check t.arena = (.ok (.ok ()), t.arena) ∧ attempt check t'.arena = (.ok (.ok ()), t'.arena) ∧
        ∀ call call' : Call, call.Legal t.holdings → Matches events events' call call' →
          call'.Legal t'.holdings ∧ (attempt call.perform t.arena).1 = (attempt call'.perform t'.arena).1 := by
  obtain ⟨r, a', opened', twins⟩ := twins_of_establish window window' opened
  refine ⟨a', opened', ?_⟩
  intro events events' t t' run run' parallel
  obtain ⟨same, after⟩ := parallel.twins twins run run'
  refine ⟨same, after.1, after.sameLayout, fun h => after.capacity?_eq, after.check_ok, after.symm.check_ok, ?_⟩
  intro call call' legal matching
  obtain rfl := matching.eq same
  exact ⟨after.1 ▸ legal, after.outcome_eq legal⟩

set_option maxRecDepth 4000 in
/-- One client writes into what it was given before it gives it back. The other one does not, in a memory that held
something else before. -/
theorem data_independent_of_residue :
    ∃ a a' t t', attempt (establish 4096 96) (ofMemory (Memory.zeroed 4096 96)) = (.ok (.ok ()), a) ∧
      attempt (establish 4096 96) (ofMemory ((Memory.zeroed 4096 96).writeBytes 4128 [1, 2, 3])) = (.ok (.ok ()), a') ∧
      Run ⟨a, []⟩ [.called (.allocate 8) (.ok (some 4128)), .wrote 4128 [7, 7], .called (.release 4128) (.ok none)] t ∧
      Run ⟨a', []⟩ [.called (.allocate 8) (.ok (some 4128)), .called (.release 4128) (.ok none)] t' ∧
      t.arena.SameLayout t'.arena := by
  obtain ⟨a, b, c, opened, allocated, released⟩ : ∃ a b c,
      attempt (establish 4096 96) (ofMemory (Memory.zeroed 4096 96)) = (.ok (.ok ()), a) ∧
      attempt (Call.allocate 8).perform a = (.ok (.ok (some 4128)), b) ∧
      attempt (Call.release 4128).perform { b with memory := b.memory.writeBytes 4128 [7, 7] } =
        (.ok (.ok none), c) :=
    ⟨_, _, _, attempt_eq_of_outcome rfl, attempt_eq_of_outcome rfl, attempt_eq_of_outcome rfl⟩
  obtain ⟨a', b', c', opened', allocated', released'⟩ : ∃ a' b' c',
      attempt (establish 4096 96) (ofMemory ((Memory.zeroed 4096 96).writeBytes 4128 [1, 2, 3])) = (.ok (.ok ()), a') ∧
      attempt (Call.allocate 8).perform a' = (.ok (.ok (some 4128)), b') ∧
      attempt (Call.release 4128).perform b' = (.ok (.ok none), c') :=
    ⟨_, _, _, attempt_eq_of_outcome rfl, attempt_eq_of_outcome rfl, attempt_eq_of_outcome rfl⟩
  have held : (⟨4128, 8, false⟩ : Holding) ∈ (Call.allocate 8).settle [] (.ok (some 4128)) := by decide
  have release : (Call.release 4128).Legal ((Call.allocate 8).settle [] (.ok (some 4128))) :=
    Or.inr ⟨_, held, rfl, rfl⟩
  have written : Step ⟨b, (Call.allocate 8).settle [] (.ok (some 4128))⟩ (.wrote 4128 [7, 7])
      ⟨{ b with memory := b.memory.writeBytes 4128 [7, 7] }, (Call.allocate 8).settle [] (.ok (some 4128))⟩ :=
    .write held (Nat.le_refl _) (by decide)
  have run : Run ⟨a, []⟩ [.called (.allocate 8) (.ok (some 4128)), .wrote 4128 [7, 7],
      .called (.release 4128) (.ok none)] _ :=
    (((Run.start _).next (.call (Or.inl rfl) allocated)).next written).next (.call release released)
  have run' : Run ⟨a', []⟩ [.called (.allocate 8) (.ok (some 4128)), .called (.release 4128) (.ok none)] _ :=
    ((Run.start _).next (.call (Or.inl rfl) allocated')).next (.call release released')
  have parallel : Parallel [.called (.allocate 8) (.ok (some 4128)), .wrote 4128 [7, 7],
      .called (.release 4128) (.ok none)] [.called (.allocate 8) (.ok (some 4128)), .called (.release 4128) (.ok none)] :=
    ((Parallel.start.call _ _ ⟨rfl, Or.inl ⟨rfl, rfl⟩⟩).write _ _).call _ _ ⟨rfl, Or.inr ⟨0, rfl, rfl⟩⟩
  obtain ⟨_, opened'', same⟩ := Run.data_independent (Memory.covers_zeroed 4096 96)
    ((Memory.covers_writeBytes ..).mpr (Memory.covers_zeroed 4096 96)) opened
  obtain ⟨-, rfl⟩ := Prod.mk.inj (opened'.symm.trans opened'')
  obtain ⟨-, -, layout, -⟩ := same _ _ _ _ run run' parallel
  exact ⟨a, a', _, _, opened, opened', run, run', layout⟩

end Tenancy
end KernelCore
