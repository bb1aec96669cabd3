import KernelCore.Proofs.Heap.Layouts

namespace KernelCore

/-- Gives a piece of memory back the way it was asked for. -/
def Holding.giveBack (h : Holding) : HeapAction Unit :=
  if h.aligned then Arena.releaseAligned h.addr else Arena.release h.addr

namespace Tenancy
open Arena Parcel Machine
variable {t : Tenancy} {r : Region} {plan : List Parcel} {pairs : List (Holding × Parcel)} {h : Holding}
  {hs hs' : List Holding}

theorem Sound.giveBack (sound : t.Sound r plan pairs) (member : h ∈ t.holdings) :
    ∃ b plan', attempt h.giveBack t.arena = (.ok (.ok ()), b) ∧
      Tenancy.Sound ⟨b, t.holdings.filter fun g => g.addr ≠ h.addr⟩ r plan' (besides h.addr pairs) := by
  have served : ∀ (call : Call) (action : HeapAction Unit), call.argument = h.addr →
      t.Releases r pairs call action → ∃ b plan', attempt action t.arena = (.ok (.ok ()), b) ∧
        Tenancy.Sound ⟨b, t.holdings.filter fun g => g.addr ≠ h.addr⟩ r plan' (besides h.addr pairs) := by
    intro call action argument releases
    obtain ⟨_, b, ran, rfl, plan', fresh, traded⟩ := releases.returns fun _ => id
    obtain rfl : fresh = [] := List.map_eq_nil_iff.mp traded.held
    have after := traded.sound sound
    rw [Call.settle, argument] at after
    exact ⟨b, plan', ran, by simpa using after⟩
  unfold Holding.giveBack
  cases kind : h.aligned with
  | true =>
    exact served (.releaseAligned h.addr) _ rfl
      (sound.releases_aligned (.releaseAligned h.addr) (Or.inr ⟨h, member, rfl, kind⟩) rfl)
  | false =>
    exact served (.release h.addr) _ rfl
      (sound.releases_plain (.release h.addr) (Or.inr ⟨h, member, rfl, kind⟩) rfl)

/-- Clients can give back any pieces of memory that they hold, one after the other. -/
theorem Sound.giveBackAll (sound : t.Sound r plan pairs) (nodup : hs.Nodup) (held : ∀ h ∈ hs, h ∈ t.holdings) :
    ∃ b plan', attempt (hs.forM Holding.giveBack) t.arena = (.ok (.ok ()), b) ∧
      Tenancy.Sound ⟨b, t.holdings.filter (· ∉ hs)⟩ r plan' (pairs.filter fun pair => pair.1 ∉ hs) := by
  induction hs generalizing t plan pairs with
  | nil => exact ⟨t.arena, plan, rfl, by simpa using sound⟩
  | cons h rest ih =>
    obtain ⟨fresh, nodup⟩ := List.nodup_cons.mp nodup
    obtain ⟨inH, inRest⟩ := List.forall_mem_cons.mp held
    obtain ⟨b, plan', ran, soundB⟩ := sound.giveBack inH
    obtain ⟨c, plan'', ranRest, soundC⟩ := ih soundB nodup fun g member => by
      refine List.mem_filter.mpr ⟨inRest g member, decide_eq_true ?_⟩
      intro same
      rw [sound.eq_of_addr (inRest g member) inH same] at member
      exact fresh member
    -- Holdings are told apart by their addresses, so what goes by address goes by holding.
    have others : ∀ g ∈ t.holdings, (decide (g ∉ rest) && decide (g.addr ≠ h.addr)) = decide (g ∉ h :: rest) := by
      intro g inG
      have apart : g.addr ≠ h.addr ↔ g ≠ h := not_congr ⟨sound.eq_of_addr inG inH, congrArg Holding.addr⟩
      rw [← Bool.decide_and]
      refine decide_eq_decide.mpr ?_
      rw [List.mem_cons, not_or, apart]
      exact and_comm
    have holdings : (t.holdings.filter fun g => g.addr ≠ h.addr).filter (· ∉ rest) =
        t.holdings.filter (· ∉ h :: rest) := by
      rw [List.filter_filter]
      exact List.filter_congr others
    have left : (besides h.addr pairs).filter (fun pair => pair.1 ∉ rest) =
        pairs.filter fun pair => pair.1 ∉ h :: rest := by
      rw [besides, List.filter_filter]
      exact List.filter_congr fun pair inPairs => others pair.1 (sound.holdings ▸ List.mem_map_of_mem inPairs)
    refine ⟨c, plan'', ?_, ?_⟩
    · have unfolded : (h :: rest).forM Holding.giveBack = (do h.giveBack; rest.forM Holding.giveBack) := rfl
      rw [unfolded, attempt_bind, ran]
      exact ranRest
    · dsimp only at soundC
      rwa [holdings, left] at soundC

theorem Sound.giveBack_comm (sound : t.Sound r plan pairs) (nodup : hs.Nodup) (held : ∀ h ∈ hs, h ∈ t.holdings)
    (order : hs.Perm hs') :
    ∃ b c, attempt (hs.forM Holding.giveBack) t.arena = (.ok (.ok ()), b) ∧
      attempt (hs'.forM Holding.giveBack) t.arena = (.ok (.ok ()), c) ∧ b.SameLayout c := by
  obtain ⟨b, planB, ranB, soundB⟩ := sound.giveBackAll nodup held
  obtain ⟨c, planC, ranC, soundC⟩ := sound.giveBackAll (order.nodup_iff.mp nodup) fun h member =>
    held h (order.mem_iff.mpr member)
  have same : (fun pair : Holding × Parcel => decide (pair.1 ∉ hs)) = fun pair => decide (pair.1 ∉ hs') := by
    funext pair
    exact decide_eq_decide.mpr (not_congr order.mem_iff)
  have parcels : (takens planB).Perm (takens planC) := by
    rw [same] at soundB
    exact soundB.parcels.trans soundC.parcels.symm
  have plans := soundB.arena.settled.eq_of_takens soundC.arena.settled soundB.arena.shows.spans
    soundC.arena.shows.spans (takens_eq_of_mem soundB.arena.shows.spans soundC.arena.shows.spans fun p =>
      parcels.mem_iff)
  subst plans
  exact ⟨b, c, ranB, ranC, soundB.arena.sameLayout soundC.arena rfl⟩

theorem Sound.plan_of_nobody {a : Arena} (sound : Tenancy.Sound ⟨a, []⟩ r plan pairs) :
    plan = [⟨0, r.capacity, .listed⟩] := by
  obtain rfl : pairs = [] := List.map_eq_nil_iff.mp sound.holdings
  exact sound.arena.settled.eq_singleton (List.perm_nil.mp sound.parcels) sound.arena.shows.spans

/-- Once everything is given back, the heap is one free block, as in the beginning. -/
theorem Sound.giveBack_everything {a : Arena} {plan' : List Parcel} {pairs' : List (Holding × Parcel)}
    (sound : t.Sound r plan pairs) (before : Tenancy.Sound ⟨a, []⟩ r plan' pairs') (nodup : hs.Nodup)
    (everything : ∀ h, h ∈ hs ↔ h ∈ t.holdings) :
    ∃ b, attempt (hs.forM Holding.giveBack) t.arena = (.ok (.ok ()), b) ∧ a.SameLayout b ∧
      b.blocks = [⟨0, Header.free r.capacity⟩] ∧ b.heap.first = some 0 ∧ b.heap.used = 0 := by
  obtain ⟨b, plan'', ran, soundB⟩ := sound.giveBackAll nodup fun h => (everything h).mp
  have nobody : t.holdings.filter (· ∉ hs) = [] :=
    List.filter_eq_nil_iff.mpr fun h member => by simpa using (everything h).mpr member
  rw [nobody] at soundB
  obtain ⟨used, blocks⟩ := soundB.of_nobody
  obtain rfl := before.plan_of_nobody
  obtain rfl := soundB.plan_of_nobody
  have first : b.heap.first = firstLink [⟨0, r.capacity, .listed⟩] none := soundB.arena.shows.first
  exact ⟨b, ran, before.arena.sameLayout soundB.arena rfl, blocks, first, used⟩

end Tenancy

namespace Arena
open Machine Parcel
variable {a b c : Arena} {r : Region} {plan : List Parcel} {α β : Type}

/-- What an operation gives in one arena it also gives in another one. -/
def Repeats (a c : Arena) (action : HeapAction α) : Prop :=
  ∀ x b, attempt action a = (.ok (.ok x), b) → ∃ d, attempt action c = (.ok (.ok x), d)

theorem Repeats.bind {action : HeapAction α} {next : α → HeapAction β} (repeats : Repeats a c action)
    (rest : ∀ x b d, Repeats b d (next x)) : Repeats a c (action >>= next) := by
  intro y b ran
  rw [attempt_bind] at ran
  rcases first : attempt action a with ⟨_ | _ | x, b'⟩
  · simp [first] at ran
  · simp [first] at ran
  · rw [first] at ran
    obtain ⟨d', again⟩ := repeats x b' first
    obtain ⟨d, done⟩ := rest x b' d' y b ran
    rw [attempt_bind, again]
    exact ⟨d, done⟩

theorem repeats_pure (x : α) : Repeats a c (pure x) := by
  intro y b ran
  obtain rfl : x = y := by simpa using congrArg Prod.fst ran
  exact ⟨c, rfl⟩

theorem repeats_throw (cause : HeapError) : Repeats a c (throw cause : HeapAction α) := by
  intro y b ran
  simp at ran

theorem repeats_outcome (outcome : Except Fault α) : Repeats a c (liftM outcome) := by
  intro y b ran
  cases outcome with
  | error fault => simp [Except.map] at ran
  | ok x =>
    obtain rfl : x = y := by simpa [Except.map] using congrArg Prod.fst ran
    exact ⟨c, attempt_lift_outcome (.ok x) c⟩

theorem repeats_onMemory (change : Memory → Memory) : Repeats a c (liftM (onMemory change) : HeapAction Unit) :=
  fun _ _ _ => ⟨_, attempt_onMemory change c⟩

theorem Repeats.map {action : HeapAction α} (repeats : Repeats a c action) (change : α → β) :
    Repeats a c (change <$> action) := by
  rw [map_eq_pure_bind]
  exact repeats.bind fun x _ _ => repeats_pure (change x)

/-- An allocation finds the same parcel in the same plan. -/
theorem Sound.repeats_allocate (sound : a.Sound r plan) (soundC : c.Sound r plan) (size : Nat) :
    Repeats a c (allocate size) := by
  intro ptr b ran
  obtain ⟨left, p, right, need, shape, positive, rounded, suits, before, rfl, gauged, -⟩ :=
    (meets_allocate sound size).result ran
  have found : plan.find? (Parcel.suits need) = some p :=
    List.find?_eq_some_iff_append.mpr ⟨suits, left, right, shape, fun q member => by simp [before q member]⟩
  have meets := meets_allocate soundC size
  rcases again : attempt (allocate size) c with ⟨_ | _ | ptr', d⟩
  · obtain ⟨q, member, need', rounded', enough, large⟩ := meets.fault again
    obtain rfl := Option.some.inj (rounded.symm.trans rounded')
    exact absurd gauged large
  · obtain ⟨-, refuses⟩ := meets.result again
    cases refuses with
    | zeroSize zero => exact absurd zero positive
    | overflow _ large => simp [rounded] at large
    | outOfMemory _ rounded' full =>
      obtain rfl := Option.some.inj (rounded.symm.trans rounded')
      have refused := full p (by rw [shape]; simp)
      rw [refused] at suits
      exact absurd suits (by decide)
  · obtain ⟨left', p', right', need', shape', -, rounded', suits', before', rfl, -⟩ := meets.result again
    obtain rfl := Option.some.inj (rounded.symm.trans rounded')
    have found' : plan.find? (Parcel.suits need) = some p' :=
      List.find?_eq_some_iff_append.mpr ⟨suits', left', right', shape', fun q member => by simp [before' q member]⟩
    obtain rfl := Option.some.inj (found.symm.trans found')
    exact ⟨d, rfl⟩

theorem Sound.repeats_allocateZeroed (sound : a.Sound r plan) (soundC : c.Sound r plan) (count size : Nat) :
    Repeats a c (allocateZeroed count size) := by
  unfold allocateZeroed
  by_cases large : wordLimit ≤ count * size
  · rw [if_pos large]
    exact repeats_throw .overflow
  · rw [if_neg large]
    dsimp only
    refine (sound.repeats_allocate soundC _).bind fun ptr _ _ => ?_
    exact (repeats_onMemory _).bind fun _ _ _ => repeats_pure ptr

theorem Sound.repeats_allocateAligned (sound : a.Sound r plan) (soundC : c.Sound r plan) (size align : Nat) :
    Repeats a c (allocateAligned size align) := by
  unfold allocateAligned
  by_cases single : Word.isPowerOfTwo align = false
  · rw [if_pos single]
    exact repeats_throw .badAlignment
  rw [if_neg single]
  by_cases zero : size = 0
  · rw [if_pos zero]
    exact repeats_throw .zeroSize
  rw [if_neg zero]
  by_cases large : wordLimit ≤ size + align + backLinkWidth
  · rw [if_pos large]
    exact repeats_throw .overflow
  rw [if_neg large]
  dsimp only
  refine (sound.repeats_allocate soundC _).bind fun raw _ _ => ?_
  refine (repeats_outcome _).bind fun least _ _ => ?_
  refine (repeats_outcome _).bind fun aligned _ _ => ?_
  exact (repeats_onMemory _).bind fun _ _ _ => repeats_pure aligned

/-- A request for memory gives the same address in the same plan. -/
theorem Sound.repeats_perform (sound : a.Sound r plan) (soundC : c.Sound r plan) {call : Call}
    (none : call.argument = 0) : Repeats a c call.perform := by
  cases call with
  | allocate size => exact (sound.repeats_allocate soundC size).map some
  | allocateZeroed count size => exact (sound.repeats_allocateZeroed soundC count size).map some
  | resize ptr size =>
    obtain rfl : ptr = 0 := none
    exact (sound.repeats_allocate soundC size).map some
  | allocateAligned size align => exact (sound.repeats_allocateAligned soundC size align).map some
  | allocatePages size => exact (sound.repeats_allocateAligned soundC size Config.pageSize).map some
  | release ptr =>
    obtain rfl : ptr = 0 := none
    exact Repeats.map (fun _ _ _ => ⟨c, attempt_release_zero c⟩) _
  | releaseAligned ptr | releasePages ptr =>
    obtain rfl : ptr = 0 := none
    exact Repeats.map (fun _ _ _ => ⟨c, rfl⟩) _

end Arena

namespace Tenancy
open Arena Parcel Machine
variable {m : Memory} {start size ptr : Nat} {a b : Arena} {events : List Event} {t : Tenancy} {r : Region}
  {plan : List Parcel} {pairs : List (Holding × Parcel)} {call : Call}

/-- Memory that is given back right after it was asked for leaves no trace, and can be had again. -/
theorem Sound.restored (sound : t.Sound r plan pairs) (nothing : call.argument = 0)
    (ran : attempt call.perform t.arena = (.ok (.ok (some ptr)), b)) :
    ∃ c, attempt (Holding.giveBack ⟨ptr, call.size, call.aligned⟩) b = (.ok (.ok ()), c) ∧
      t.arena.SameLayout c ∧ ∃ d, attempt call.perform c = (.ok (.ok (some ptr)), d) := by
  obtain ⟨plan', fresh, traded⟩ := (sound.serves call (Or.inl nothing)).result ran
  have soundB := traded.sound sound
  obtain ⟨p, rfl, -⟩ := traded.exists_parcel
  rw [nothing, sound.besides_zero] at soundB
  have held : (⟨ptr, call.size, call.aligned⟩ : Holding) ∈ call.settle t.holdings (.ok (some ptr)) := by
    simp [Call.settle]
  obtain ⟨c, plan'', released, soundC⟩ := soundB.giveBack held
  have left := soundB.perm_besides (h := ⟨ptr, call.size, call.aligned⟩) (p := p) (by simp)
  have all : (takens plan').Perm (p :: pairs.map Prod.snd) := soundB.parcels.trans (by simp)
  have parcels : (takens plan).Perm (takens plan'') :=
    (sound.parcels.trans (all.symm.trans left).cons_inv).trans soundC.parcels.symm
  have plans := sound.arena.settled.eq_of_takens soundC.arena.settled sound.arena.shows.spans
    soundC.arena.shows.spans (takens_eq_of_mem sound.arena.shows.spans soundC.arena.shows.spans fun q =>
      parcels.mem_iff)
  subst plans
  exact ⟨c, released, sound.arena.sameLayout soundC.arena rfl,
    sound.arena.repeats_perform soundC.arena nothing _ b ran⟩

/-- At any point of a run of clients the free blocks are the gaps between the allocated ones, and the allocated
blocks tell the whole layout, whatever was done before. So the order in which memory is given back does not
show, a request that is taken back leaves no trace and can be made again, and when everything is given back
the heap is one free block. -/
theorem Run.history_independent (window : m.Covers start size)
    (opened : attempt (establish start size) (ofMemory m) = (.ok (.ok ()), a)) (run : Run ⟨a, []⟩ events t) :
    ∃ r, Region.ofRange start size = .ok r ∧
      (∀ lo hi, t.arena.Gap r lo hi ↔ ∃ b ∈ t.arena.blocks, b.header.isFree = true ∧ b.off = lo ∧ b.stop = hi) ∧
      (∀ m' start' size' r' a' events' t', m'.Covers start' size' → Region.ofRange start' size' = .ok r' →
        attempt (establish start' size') (ofMemory m') = (.ok (.ok ()), a') → Run ⟨a', []⟩ events' t' →
        r'.size = r.size → (∀ extent, extent ∈ t.arena.occupied ↔ extent ∈ t'.arena.occupied) →
        t.arena.SameLayout t'.arena) ∧
      (∀ hs hs' : List Holding, hs.Nodup → (∀ h ∈ hs, h ∈ t.holdings) → hs.Perm hs' → ∃ b c,
        attempt (hs.forM Holding.giveBack) t.arena = (.ok (.ok ()), b) ∧
        attempt (hs'.forM Holding.giveBack) t.arena = (.ok (.ok ()), c) ∧ b.SameLayout c) ∧
      (∀ (call : Call) ptr b, call.argument = 0 → attempt call.perform t.arena = (.ok (.ok (some ptr)), b) →
        ∃ c, attempt (Holding.giveBack ⟨ptr, call.size, call.aligned⟩) b = (.ok (.ok ()), c) ∧
          t.arena.SameLayout c ∧ ∃ d, attempt call.perform c = (.ok (.ok (some ptr)), d)) ∧
      ∀ hs : List Holding, hs.Nodup → (∀ h, h ∈ hs ↔ h ∈ t.holdings) → ∃ b,
        attempt (hs.forM Holding.giveBack) t.arena = (.ok (.ok ()), b) ∧ a.SameLayout b ∧
        b.blocks = [⟨0, Header.free r.capacity⟩] ∧ b.heap.first = some 0 ∧ b.heap.used = 0 := by
  obtain ⟨r, usable, before⟩ := sound_of_establish window opened
  obtain ⟨plan, pairs, sound⟩ := run.sound before
  refine ⟨r, usable, fun lo hi => sound.arena.gap_iff, ?_, fun hs hs' nodup held order =>
    sound.giveBack_comm nodup held order, fun call ptr b nothing ran => sound.restored nothing ran, ?_⟩
  · intro m' start' size' r' a' events' t' window' usable' opened' run' same occupied
    obtain ⟨s, again, before'⟩ := sound_of_establish window' opened'
    obtain rfl := Except.ok.inj (usable'.symm.trans again)
    obtain ⟨plan', pairs', sound'⟩ := run'.sound before'
    obtain rfl := sound.arena.plan_eq sound'.arena same occupied
    exact sound.arena.sameLayout sound'.arena same
  · intro hs nodup everything
    obtain ⟨b, ran, pristine, first, used⟩ := sound.giveBack_everything before nodup everything
    exact ⟨b, ran, pristine, first, used⟩

set_option maxRecDepth 4000 in
/-- Two allocations are given back in one order and in the other. -/
theorem history_independent_of_allocations :
    ∃ a t b c, attempt (establish 4096 96) (ofMemory (Memory.zeroed 4096 96)) = (.ok (.ok ()), a) ∧
      Run ⟨a, []⟩ [.called (.allocate 8) (.ok (some 4128)), .called (.allocate 8) (.ok (some 4168))] t ∧
      attempt ([⟨4128, 8, false⟩, ⟨4168, 8, false⟩].forM Holding.giveBack) t.arena = (.ok (.ok ()), b) ∧
      attempt ([⟨4168, 8, false⟩, ⟨4128, 8, false⟩].forM Holding.giveBack) t.arena = (.ok (.ok ()), c) ∧
      b.SameLayout c := by
  obtain ⟨a, b, c, opened, first, second⟩ : ∃ a b c,
      attempt (establish 4096 96) (ofMemory (Memory.zeroed 4096 96)) = (.ok (.ok ()), a) ∧
      attempt (Call.allocate 8).perform a = (.ok (.ok (some 4128)), b) ∧
      attempt (Call.allocate 8).perform b = (.ok (.ok (some 4168)), c) :=
    ⟨_, _, _, attempt_eq_of_outcome rfl, attempt_eq_of_outcome rfl, attempt_eq_of_outcome rfl⟩
  have run : Run ⟨a, []⟩ [.called (.allocate 8) (.ok (some 4128)), .called (.allocate 8) (.ok (some 4168))] _ :=
    ((Run.start _).next (.call (Or.inl rfl) first)).next
      (.call (t := ⟨_, (Call.allocate 8).settle [] (.ok (some 4128))⟩) (Or.inl rfl) second)
  obtain ⟨r, -, -, -, orders, -⟩ := Run.history_independent (Memory.covers_zeroed 4096 96) opened run
  obtain ⟨d, e, forth, back, same⟩ := orders [⟨4128, 8, false⟩, ⟨4168, 8, false⟩] [⟨4168, 8, false⟩, ⟨4128, 8, false⟩]
    (by decide) (by dsimp only; decide) (List.Perm.swap ..)
  exact ⟨a, _, d, e, opened, run, forth, back, same⟩

end Tenancy
end KernelCore
