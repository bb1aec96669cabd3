import KernelCore.Proofs.Heap.Charts
import KernelCore.Proofs.Heap.Rejections

namespace KernelCore

namespace Region
variable {r : Region} {m : Memory} {off hops : Nat} {link prev : Option Nat}

/-- A link to an offset at which no header can be. -/
def Wild (r : Region) (link : Option Nat) : Prop := ∃ off ∈ link, ¬r.HoldsHeader off

/-- A link in the header is wild. -/
def Astray (r : Region) (h : Header) : Prop := r.Wild h.prev ∨ r.Wild h.next

theorem holds_of_not_wild (tame : ¬r.Wild link) : ∀ off ∈ link, r.HoldsHeader off := by
  intro off same
  by_contra wild
  exact tame ⟨off, same, wild⟩

/-- The walk from a link to the place of `off` comes within `hops` hops to a wild link. The headers it passes lie in
front of the one at `off`. -/
inductive Strands (r : Region) (m : Memory) (off : Nat) : (hops : Nat) → (link : Option Nat) → Prop
  | here {hops : Nat} {link : Option Nat} (wild : r.Wild link) : Strands r m off (hops + 1) link
  | next {hops x : Nat} (before : x + Header.width ≤ off) (holds : r.HoldsHeader x)
      (further : Strands r m off hops (Header.read m (r.start + x)).next) : Strands r m off (hops + 1) (some x)

/-- What is written behind the headers that the walk passes does not change where it leads. -/
theorem Strands.congr {m' : Memory} (strands : r.Strands m off hops link)
    (same : ∀ addr, addr < r.start + off → m'.byte addr = m.byte addr) : r.Strands m' off hops link := by
  induction strands with
  | here wild => exact .here wild
  | @next hops x before holds _ ih =>
    have read : Header.read m' (r.start + x) = Header.read m (r.start + x) :=
      Header.read_congr fun addr _ upper => same addr (by omega)
    refine .next before holds ?_
    rw [read]
    exact ih

/-- The walk is stopped at the wild link, or it ends there. -/
theorem around_of_strands (strands : r.Strands m off hops link) (known : ∀ x ∈ prev, r.HoldsHeader x) :
    r.around m off hops prev link = .error .headerOutOfBounds ∨
      ∃ links, r.around m off hops prev link = .ok links ∧ (∀ x ∈ links.1, r.HoldsHeader x) ∧ r.Wild links.2 := by
  induction strands generalizing prev with
  | here wild =>
    obtain ⟨x, same, nowhere⟩ := wild
    obtain rfl := Option.mem_def.mp same
    rw [around]
    by_cases before : x < off
    · rw [if_pos before, header_of_not_holds _ nowhere]
      exact Or.inl rfl
    · rw [if_neg before]
      exact Or.inr ⟨_, rfl, known, x, rfl, nowhere⟩
  | @next hops x before holds _ ih =>
    have wide : 0 < Header.width := by decide
    rw [around, if_pos (by omega), header_of_holds _ holds]
    dsimp only [bind, Except.bind]
    refine ih ?_
    rintro y ⟨⟩
    exact holds

end Region

namespace Arena
open Machine
variable {a b : Arena} {r : Region} {chart : Set Nat} {off ptr size need : Nat} {h : Header}
  {link prev next : Option Nat}

theorem stops_header (wild : ¬r.HoldsHeader off) : (header r off).Stops .headerOutOfBounds a := by
  unfold Stops
  rw [runFrom_header, Region.header_of_not_holds _ wild]

/-- A header in the region can be read and written, whatever the memory holds. -/
theorem meets_header_any (holds : r.HoldsHeader off) :
    (header r off).Meets a (fun h b => h = Header.read a.memory (r.start + off) ∧ b = a) fun _ => False :=
  (meets_header holds).mpr ⟨rfl, rfl⟩

theorem meets_setHeader_any (holds : r.HoldsHeader off) :
    (setHeader r off h).Meets a (fun _ b => b.heap = a.heap ∧
      ∀ addr, addr < r.start + off → b.memory.byte addr = a.memory.byte addr) fun _ => False := by
  refine Meets.of_runFrom (runFrom_setHeader_of_holds h a holds) ⟨rfl, ?_⟩
  intro addr below
  dsimp only
  exact Header.byte_write_of_outside h a.memory (Or.inl below)

theorem meets_linkBehind_any (holds : ∀ x ∈ prev, r.HoldsHeader x) :
    (linkBehind r prev next).Meets a (fun _ _ => True) fun _ => False := by
  cases prev with
  | none => exact Meets.of_runFrom (runFrom_setFirst next a) trivial
  | some prev =>
    refine (meets_header_any (holds prev rfl)).bind fun _ b _ => ?_
    exact (meets_setHeader_any (holds prev rfl)).mono (fun _ _ _ => trivial) fun _ => id

theorem stops_linkBehind (wild : r.Wild prev) : (linkBehind r prev next).Stops .headerOutOfBounds a := by
  obtain ⟨x, same, nowhere⟩ := wild
  obtain rfl := Option.mem_def.mp same
  exact (stops_header nowhere).bind _

theorem stops_linkInFront (wild : r.Wild next) : (linkInFront r next prev).Stops .headerOutOfBounds a := by
  obtain ⟨x, same, nowhere⟩ := wild
  obtain rfl := Option.mem_def.mp same
  exact (stops_header nowhere).bind _

/-- Taking a block with a wild link out of the list is a fault. -/
theorem stops_detach (holds : r.HoldsHeader off)
    (astray : r.Astray (Header.read a.memory (r.start + off))) :
    (detach r off).Stops .headerOutOfBounds a := by
  unfold detach
  refine (meets_header_any holds).bind_stops ?_
  rintro h b ⟨read, -⟩
  rw [← read] at astray
  by_cases wildPrev : r.Wild h.prev
  · exact (stops_linkBehind wildPrev).bind _
  · refine (meets_linkBehind_any (Region.holds_of_not_wild wildPrev)).bind_stops fun _ c _ => ?_
    exact (stops_linkInFront (astray.resolve_left wildPrev)).bind _

/-- Putting a block into a list that strands in front of its place is a fault. -/
theorem stops_attach (holds : r.HoldsHeader off) (strands : r.Strands a.memory off r.hopLimit a.heap.first) :
    (attach r off).Stops .headerOutOfBounds a := by
  have fresh : ∀ x ∈ (none : Option Nat), r.HoldsHeader x := by simp
  unfold attach
  rw [stops_bind_of_runFrom (runFrom_get a)]
  rcases Region.around_of_strands strands fresh with stopped | ⟨links, walked, known, wild⟩
  · rw [stopped]
    have stops : (liftM (Except.error .headerOutOfBounds : Except Fault (Option Nat × Option Nat)) :
        Machine Arena _).Stops .headerOutOfBounds a := rfl
    exact stops.bind _
  · rw [walked, stops_bind_of_runFrom (runFrom_lift ..)]
    refine (meets_header_any holds).bind_stops fun h b _ => ?_
    refine (meets_setHeader_any holds).bind_stops fun _ c _ => ?_
    refine (meets_linkBehind_any known).bind_stops fun _ d _ => ?_
    exact stops_linkInFront wild

theorem stops_carve (holds : r.HoldsHeader off)
    (astray : r.Astray (Header.read a.memory (r.start + off))) :
    (carve r off need).Stops .headerOutOfBounds a :=
  (stops_detach holds astray).bind _

/-- Giving a block back is a fault if the list strands in front of its place. -/
theorem stops_reclaim (holds : r.HoldsHeader off) (counted : h.size ≤ a.heap.used)
    (strands : r.Strands a.memory off r.hopLimit a.heap.first) :
    (reclaim r off h).Stops .headerOutOfBounds a := by
  unfold reclaim
  rw [stops_bind_of_runFrom (runFrom_get a), Word.sub_of_le counted, stops_bind_of_runFrom (runFrom_lift ..),
    stops_bind_of_runFrom (runFrom_setUsed ..)]
  refine (meets_setHeader_any holds).bind_stops ?_
  rintro - b ⟨heap, below⟩
  have first : b.heap.first = a.heap.first := by rw [heap]
  have marked := strands.congr below
  rw [← first] at marked
  exact (stops_attach holds marked).bind _

theorem Charted.avoids_carve (charted : a.Charted r chart) (member : off ∈ chart) (roomy : a.Roomy r chart off)
    (aligned : need % Config.heapAlignment = 0) :
    (carve r off need).Avoids .headerOutOfBounds a fun _ b => ∃ wider, b.Charted r wider := by
  have holds := charted.holds off member
  unfold carve
  refine (charted.meets_detach member).bind_avoids ?_
  intro _ b detached
  refine (detached.charted.meets_header member).bind_avoids ?_
  rintro h _ ⟨rfl, entry⟩
  have marked : (Header.mk h.magic 0 h.size h.next h.prev).Fits := entry.fits.setTag (by decide)
  refine (detached.charted.meets_resize member marked entry.next entry.prev entry.size).bind_avoids ?_
  intro _ c taken
  have sizes := detached.sizes.trans taken.sizes
  refine (taken.charted.avoids_trim member (roomy.keep member sizes) aligned).bind ?_
  rintro - d ⟨wider, chartedD⟩
  rw [avoids_bind, avoids_header holds, avoids_bind, avoids_get, avoids_bind]
  generalize (Header.read d.memory (r.start + off)).size = size
  refine avoids_add fun _ => ?_
  rw [avoids_bind_of_runFrom (runFrom_setUsed ..), avoids_pure]
  exact ⟨wider, chartedD.setUsed _⟩

/-- A block is given back, be it of the chart or beside it. -/
theorem Charted.avoids_reclaim (charted : a.Charted r chart) (holds : r.HoldsHeader off) (clear : Clear chart off)
    (stored : Header.read a.memory (r.start + off) = h) :
    (reclaim r off h).Avoids .headerOutOfBounds a fun _ b => ∃ wider, b.Charted r wider := by
  have fits : (Header.mk h.magic 1 h.size h.next h.prev).Fits := by
    rw [← stored]
    exact (Header.fits_read a.memory (r.start + off)).setTag (by decide)
  unfold reclaim
  rw [avoids_bind_of_runFrom (runFrom_get a), avoids_bind]
  refine avoids_sub fun _ => ?_
  generalize a.heap.used - h.size = used
  have chartedU := charted.setUsed used
  rw [avoids_bind_of_runFrom (runFrom_setUsed used a)]
  have marked : (setHeader r off { h with tag := 1 }).Meets { a with heap.used := used }
      (fun _ b => b.Charted r chart) fun _ => False := by
    -- A block beside the chart may have links that lead anywhere. They are replaced before anything follows them.
    by_cases member : off ∈ chart
    · have following := charted.next off member
      have preceding := charted.prev off member
      rw [stored] at following preceding
      exact (chartedU.meets_rewrite member fits following preceding).mono (fun _ _ done => done.1) fun _ => id
    · refine (Arena.meets_setHeader holds chartedU.covered fits).mono ?_ fun _ => id
      rintro - b ⟨heap, -, rewrote⟩
      exact chartedU.beside clear member (congrArg Heap.first heap) rewrote
  refine marked.bind_avoids ?_
  intro _ b chartedB
  refine (chartedB.avoids_attach holds clear).bind ?_
  intro _ c chartedC
  exact (chartedC.avoids_join (Set.mem_insert ..)).mono fun _ _ chartedD => ⟨_, chartedD⟩

/-- The search for a block of `size` bytes, which are rounded up to `need`, comes to `fit`. -/
def Seeks (a : Arena) (r : Region) (size need : Nat) (fit : Region.Fit) : Prop :=
  size ≠ 0 ∧ Word.roundUp? size Config.heapAlignment = some need ∧
    r.firstFit a.memory need r.hopLimit a.heap.first = .ok fit

/-- An allocation is a search, and what it finds is carved up. -/
theorem attempt_allocate_of_rounded (region : a.heap.region = some r) (positive : size ≠ 0)
    (rounded : Word.roundUp? size Config.heapAlignment = some need) :
    attempt (allocate size) a = attempt (do
      let off ← findFit r need
      carve r off need) a := by
  unfold allocate
  rw [attempt_bind, attempt_region region]
  dsimp only
  rw [if_neg positive, rounded]

theorem attempt_allocate_of_found (region : a.heap.region = some r) (seeks : a.Seeks r size need (.found off)) :
    attempt (allocate size) a = attempt (liftM (carve r off need) : HeapAction Nat) a := by
  obtain ⟨positive, rounded, search⟩ := seeks
  rw [attempt_allocate_of_rounded region positive rounded, attempt_bind, attempt_findFit_of_fit search]
  rfl

/-- A wild link in the way of the search is reported, and the call is refused. -/
theorem attempt_allocate_of_wildLink (region : a.heap.region = some r) (seeks : a.Seeks r size need (.wildLink off)) :
    attempt (allocate size) a =
      (.ok (.error .corrupted), { a with notices := a.notices.push (.wildLink off) }) := by
  obtain ⟨positive, rounded, search⟩ := seeks
  rw [attempt_allocate_of_rounded region positive rounded, attempt_bind, attempt_findFit_of_fit search]
  rfl

/-- An allocation that finds a block with a wild link is stopped. -/
theorem allocate_stops (region : a.heap.region = some r) (seeks : a.Seeks r size need (.found off))
    (astray : r.Astray (Header.read a.memory (r.start + off))) :
    (attempt (allocate size) a).1 = .error .headerOutOfBounds := by
  have holds := ((firstFit_outcome need r.hopLimit a.heap.first).2 off seeks.2.2).1
  have stops : ((carve r off need).runFrom a).1 = .error .headerOutOfBounds := stops_carve holds astray
  rw [attempt_allocate_of_found region seeks, attempt_lift, stops]
  rfl

theorem Charted.same (charted : a.Charted r chart) (same : a.Same b) : b.Charted r chart := by
  refine ⟨?_, charted.holds, charted.clear, ?_, ?_, ?_⟩
  · rw [same.memory]
    exact charted.covered
  · rw [same.heap]
    exact charted.first
  · rw [same.memory]
    exact charted.next
  · rw [same.memory]
    exact charted.prev

theorem attempt_findFit_of_fault {fault : Fault}
    (search : r.firstFit a.memory need r.hopLimit a.heap.first = .error fault) :
    attempt (findFit r need) a = (.error fault, a) := by
  unfold findFit
  rw [attempt_bind, attempt_get]
  dsimp only
  rw [attempt_bind, attempt_lift_outcome, search]
  rfl

/-- The search looks at every link before it follows it, whatever the memory holds. -/
theorem avoids_findFit (r : Region) (need : Nat) (a : Arena) :
    (findFit r need).run.Avoids .headerOutOfBounds a fun result b => a.Same b ∧
      ∀ off, result = .ok off → r.firstFit a.memory need r.hopLimit a.heap.first = .ok (.found off) := by
  rcases search : r.firstFit a.memory need r.hopLimit a.heap.first with fault | fit
  · unfold Avoids
    rw [runFrom_run, attempt_findFit_of_fault search]
    rintro rfl
    exact (firstFit_outcome need r.hopLimit a.heap.first).1 search
  · refine avoids_run_of_attempt (attempt_findFit_of_fit search) ⟨?_, ?_⟩
    · cases fit <;> exact ⟨rfl, rfl⟩
    · cases fit <;> simp [answer]

/-- An allocation that finds no block asks for no header outside the region, and changes nothing. -/
theorem avoids_allocate_of_unfound (region : a.heap.region = some r)
    (unfound : ∀ need off, ¬a.Seeks r size need (.found off)) :
    (allocate size).run.Avoids .headerOutOfBounds a fun _ b => a.Same b := by
  unfold allocate
  rw [avoids_run_bind_of_attempt (attempt_region region)]
  by_cases zero : size = 0
  · rw [if_pos zero]
    exact Same.refl a
  rw [if_neg zero]
  dsimp only
  cases rounded : Word.roundUp? size Config.heapAlignment with
  | none => exact Same.refl a
  | some need =>
    refine (avoids_findFit r need a).run_bind ?_ fun _ _ refused => refused.1
    rintro off b ⟨-, found⟩
    exact absurd ⟨zero, rounded, found off rfl⟩ (unfound need off)

/-- The free blocks of the chart have room. -/
def Spacious (a : Arena) (r : Region) (chart : Set Nat) : Prop :=
  ∀ off ∈ chart, (Header.read a.memory (r.start + off)).isIntact = true →
    (Header.read a.memory (r.start + off)).isFree = true → a.Roomy r chart off

/-- As long as the list has a chart, the free blocks of which have room, an allocation asks for no header outside the
region. -/
theorem Charted.avoids_allocate (charted : a.Charted r chart) (region : a.heap.region = some r)
    (spacious : a.Spacious r chart) (size : Nat) :
    (allocate size).run.Avoids .headerOutOfBounds a fun _ b => ∃ wider, b.Charted r wider := by
  by_cases finds : ∃ need off, a.Seeks r size need (.found off)
  · obtain ⟨need, off, seeks⟩ := finds
    have search := seeks.2.2
    obtain ⟨-, aligned, -, -⟩ := Word.roundUp?_eight_eq_some_iff.mp seeks.2.1
    obtain ⟨-, intact, free, -⟩ := (firstFit_outcome need r.hopLimit a.heap.first).2 off search
    have member := charted.mem_of_firstFit charted.first search
    rw [avoids_run_congr (attempt_allocate_of_found region seeks), avoids_run_lift]
    exact charted.avoids_carve member (spacious off member intact free) aligned
  · have unfound : ∀ need off, ¬a.Seeks r size need (.found off) := fun need off seeks => finds ⟨need, off, seeks⟩
    exact (avoids_allocate_of_unfound region unfound).mono fun _ _ same => ⟨chart, charted.same same⟩

/-- The header at `off` is that of an allocated block, and its size is counted as used. -/
structure Live (a : Arena) (r : Region) (off : Nat) : Prop where
  aligned : off % Config.heapAlignment = 0
  room : off + Header.width < r.size
  intact : (Header.read a.memory (r.start + off)).isIntact = true
  taken : (Header.read a.memory (r.start + off)).isFree = false
  counted : (Header.read a.memory (r.start + off)).size ≤ a.heap.used

theorem Live.holds (live : a.Live r off) : r.HoldsHeader off := ⟨live.aligned, Nat.le_of_lt live.room⟩

/-- The address of a live block is recognized, and the block is given back. -/
theorem Live.attempt_release (live : a.Live r off) (region : a.heap.region = some r)
    (stored : Header.read a.memory (r.start + off) = h) :
    attempt (release (r.payload off)) a = attempt (liftM (reclaim r off h) : HeapAction Unit) a := by
  have judged := judge_of_intact live.aligned live.room live.intact
  rw [live.taken, if_neg Bool.false_ne_true, stored] at judged
  exact attempt_release_of_live region (payload_ne_zero r off) (attempt_lift_judge judged)

/-- A release is stopped if the list strands in front of the place of the block. -/
theorem release_stops (region : a.heap.region = some r) (live : a.Live r off)
    (strands : r.Strands a.memory off r.hopLimit a.heap.first) :
    (attempt (release (r.payload off)) a).1 = .error .headerOutOfBounds := by
  have counted := live.counted
  generalize stored : Header.read a.memory (r.start + off) = h at counted
  have stops : ((reclaim r off h).runFrom a).1 = .error .headerOutOfBounds := stops_reclaim live.holds counted strands
  rw [live.attempt_release region stored, attempt_lift, stops]
  rfl

/-- The last header in the region may have no payload, and then the address behind it is outside. -/
theorem outlying_payload (narrow : ¬off + Header.width < r.size) : Outlying r (r.payload off) := by
  unfold Outlying Region.payload Region.stop
  omega

/-- A block of which more is to be given back than is in use is not touched. -/
theorem avoids_reclaim_of_uncounted (uncounted : a.heap.used < h.size) {post : Unit → Arena → Prop} :
    (reclaim r off h).Avoids .headerOutOfBounds a post := by
  unfold reclaim
  rw [avoids_bind_of_runFrom (runFrom_get a), avoids_bind]
  exact avoids_sub fun counted => absurd counted (Nat.not_le.mpr uncounted)

/-- The release of an address that names no live block asks for no header outside the region, and changes nothing. -/
theorem avoids_release_of_dead (region : a.heap.region = some r) (dead : ∀ off, ptr = r.payload off → ¬a.Live r off) :
    (release ptr).run.Avoids .headerOutOfBounds a fun _ b => a.Same b := by
  by_cases zero : ptr = 0
  · subst zero
    exact avoids_run_of_attempt (attempt_release_zero a) (Same.refl a)
  have of_refusal : ∀ {standing cause}, (judge r ptr).runFrom a = (.ok standing, a) →
      refusal .doubleFree standing = some cause →
        (release ptr).run.Avoids .headerOutOfBounds a fun _ b => a.Same b := by
    intro standing cause judged refused
    obtain ⟨notices, ran⟩ := attempt_release_of_refusal region zero judged refused
    exact avoids_run_of_attempt ran ⟨rfl, rfl⟩
  by_cases named : r.Names a.memory ptr
  swap
  · obtain ⟨stopped, answered⟩ := judge_of_stray named
    by_cases derails : r.Derails a.memory a.heap.first ptr
    · unfold Avoids
      rw [runFrom_run, attempt_release_of_stopped region zero (stopped derails)]
      simp
    · obtain ⟨standing, judged, refused⟩ := answered derails
      obtain ⟨cause, refused⟩ := refused .doubleFree
      exact of_refusal judged refused
  obtain ⟨off, rfl, holds, intact⟩ := named
  by_cases room : off + Header.width < r.size
  swap
  · exact of_refusal (judge_of_outlying (outlying_payload room)) rfl
  have judged := judge_of_intact (a := a) holds.1 room intact
  have uncounted : ∀ h, Header.read a.memory (r.start + off) = h → h.isFree = false → a.heap.used < h.size := by
    rintro h stored taken
    by_contra counted
    subst stored
    exact dead off rfl ⟨holds.1, room, intact, taken, Nat.le_of_not_lt counted⟩
  generalize stored : Header.read a.memory (r.start + off) = h at judged
  cases tagged : h.isFree with
  | true =>
    rw [tagged, if_pos rfl] at judged
    exact of_refusal judged rfl
  | false =>
    rw [tagged, if_neg Bool.false_ne_true] at judged
    rw [avoids_run_congr (attempt_release_of_live region zero (attempt_lift_judge judged)), avoids_run_lift]
    exact avoids_reclaim_of_uncounted (uncounted h stored tagged)

/-- As long as the list has a chart, a release asks for no header outside the region. The header that its address
names may be one of the chart or lie beside them. -/
theorem Charted.avoids_release (charted : a.Charted r chart) (region : a.heap.region = some r)
    (clear : ∀ off, ptr = r.payload off → Clear chart off) :
    (release ptr).run.Avoids .headerOutOfBounds a fun _ b => ∃ wider, b.Charted r wider := by
  by_cases named : ∃ off, ptr = r.payload off ∧ a.Live r off
  · obtain ⟨off, rfl, live⟩ := named
    generalize stored : Header.read a.memory (r.start + off) = h
    rw [avoids_run_congr (live.attempt_release region stored), avoids_run_lift]
    exact charted.avoids_reclaim live.holds (clear off rfl) stored
  · have dead : ∀ off, ptr = r.payload off → ¬a.Live r off := fun off place live => named ⟨off, place, live⟩
    exact (avoids_release_of_dead region dead).mono fun _ _ same => ⟨chart, charted.same same⟩

/-- The fault of asking for a header where none can be comes only after a block to carve up was found, or a block to
give back was recognized: until then a wild link is reported, and the call is refused. It does come if the block found
has a wild link, or if a wild link is in the way to the place of the block that is given back. It does not come where
the list has a chart and the free blocks of the chart have room, as in every heap that is in order. -/
theorem wild_link_outcomes (region : a.heap.region = some r) :
    (∀ size need off, a.Seeks r size need (.wildLink off) → attempt (allocate size) a =
      (.ok (.error .corrupted), { a with notices := a.notices.push (.wildLink off) })) ∧
    (∀ size, (∀ need off, ¬a.Seeks r size need (.found off)) →
      (allocate size).run.Avoids .headerOutOfBounds a fun _ b => a.Same b) ∧
    (∀ size need off, a.Seeks r size need (.found off) → r.Astray (Header.read a.memory (r.start + off)) →
      (attempt (allocate size) a).1 = .error .headerOutOfBounds) ∧
    (∀ ptr, (∀ off, ptr = r.payload off → ¬a.Live r off) →
      (release ptr).run.Avoids .headerOutOfBounds a fun _ b => a.Same b) ∧
    (∀ off, a.Live r off → r.Strands a.memory off r.hopLimit a.heap.first →
      (attempt (release (r.payload off)) a).1 = .error .headerOutOfBounds) ∧
    (∀ chart, a.Charted r chart →
      (a.Spacious r chart → ∀ size,
        (allocate size).run.Avoids .headerOutOfBounds a fun _ b => ∃ wider, b.Charted r wider) ∧
      ∀ ptr, (∀ off, ptr = r.payload off → Clear chart off) →
        (release ptr).run.Avoids .headerOutOfBounds a fun _ b => ∃ wider, b.Charted r wider) ∧
    ∀ blocks, a.Proper r blocks → ∃ chart, a.Charted r chart ∧ a.Spacious r chart := by
  refine ⟨?_, ?_, ?_, ?_, ?_, ?_, ?_⟩
  · intro size need off seeks
    exact attempt_allocate_of_wildLink region seeks
  · intro size unfound
    exact avoids_allocate_of_unfound region unfound
  · intro size need off seeks astray
    exact allocate_stops region seeks astray
  · intro ptr dead
    exact avoids_release_of_dead region dead
  · intro off live strands
    exact release_stops region live strands
  · intro chart charted
    exact ⟨fun spacious size => charted.avoids_allocate region spacious size,
      fun ptr clear => charted.avoids_release region clear⟩
  · intro blocks proper
    have shows := proper.sound.shows
    exact ⟨_, shows.charted, fun off member _ _ => shows.roomy off member⟩

/-- A free block with a wild link, and an allocated one behind it. -/
def adrift : Arena :=
  ⟨⟨some strayRegion, some 0, 176⟩,
    (⟨Config.heapMagic, 0, 176, none, none⟩ : Header).write
      ((⟨Config.heapMagic, 1, 16, some 1048576, none⟩ : Header).write (Memory.zeroed 4096 256) 4096) 4144, #[]⟩

theorem wild_adrift : strayRegion.Wild (Header.read adrift.memory 4096).next := by
  have linked : (Header.read adrift.memory 4096).next = some 1048576 := by decide +kernel
  rw [linked]
  exact ⟨1048576, rfl, by decide⟩

theorem seeks_adrift : adrift.Seeks strayRegion 16 16 (.found 0) := ⟨by decide, by decide, by decide +kernel⟩

/-- A wild link is not always looked at before it is followed. -/
theorem allocate_follows_wild_link : ¬∀ (a : Arena) (r : Region) (size : Nat), a.heap.region = some r →
    a.memory.Covers r.start r.size → (attempt (allocate size) a).1 ≠ .error .headerOutOfBounds := by
  intro bounded
  exact bounded adrift strayRegion 16 rfl (by decide +kernel) (allocate_stops rfl seeks_adrift (Or.inr wild_adrift))

/-- A free block that is linked to itself. -/
def looped : Arena :=
  ⟨⟨some strayRegion, some 0, 0⟩,
    (⟨Config.heapMagic, 1, 224, some 0, none⟩ : Header).write (Memory.zeroed 4096 256) 4096, #[]⟩

theorem read_looped : Header.read looped.memory 4096 = ⟨Config.heapMagic, 1, 224, some 0, none⟩ := by
  decide +kernel

theorem charted_looped : looped.Charted strayRegion {0} where
  covered := by decide +kernel
  holds off member := by
    rw [member]
    exact strayRegion.holdsHeader_zero
  clear off member x inChart other := absurd (inChart.trans member.symm) other
  first off same := (Option.some.inj same).symm
  next off member := by
    change ∀ next ∈ (Header.read looped.memory (4096 + off)).next, next ∈ ({0} : Set Nat)
    rw [member, read_looped]
    simp
  prev off member := by
    change ∀ prev ∈ (Header.read looped.memory (4096 + off)).prev, prev ∈ ({0} : Set Nat)
    rw [member, read_looped]
    simp

theorem roomy_looped : looped.Roomy strayRegion {0} 0 := by
  have size : (Header.read looped.memory (strayRegion.start + 0)).size = 224 := congrArg Header.size read_looped
  constructor
  · rw [size]
    decide
  · rintro x rfl before
    exact absurd before (Nat.lt_irrefl 0)

/-- The link out of the region is reported if a larger block is sought, but followed if its own block is taken, or if
the block behind it is given back. The link back to the start is followed inside the region. -/
theorem wild_link_outcomes_of_samples :
    attempt (allocate 24) adrift = (.ok (.error .corrupted), { adrift with notices := #[.wildLink 1048576] }) ∧
    (attempt (allocate 16) adrift).1 = .error .headerOutOfBounds ∧
    (attempt (release 4176) adrift).1 = .error .headerOutOfBounds ∧
    (attempt (allocate 16) looped).1 ≠ .error .headerOutOfBounds := by
  obtain ⟨reported, -, found, -, released, -, -⟩ := wild_link_outcomes (a := adrift) (r := strayRegion) rfl
  obtain ⟨-, -, -, -, -, charted, -⟩ := wild_link_outcomes (a := looped) (r := strayRegion) rfl
  refine ⟨?_, ?_, ?_, ?_⟩
  · exact reported 24 24 1048576 ⟨by decide, by decide, by decide +kernel⟩
  · exact found 16 16 0 seeks_adrift (Or.inr wild_adrift)
  · have strands : strayRegion.Strands adrift.memory 48 33 (some 0) :=
      .next (by decide) strayRegion.holdsHeader_zero (.here wild_adrift)
    exact released 48 ⟨rfl, by decide, by decide +kernel, by decide +kernel, by decide +kernel⟩ strands
  · have spacious : looped.Spacious strayRegion {0} := by
      intro off member _ _
      rw [member]
      exact roomy_looped
    have bounded : ∀ size, (attempt (allocate size) looped).1 ≠ .error .headerOutOfBounds :=
      fun size => ((charted {0} charted_looped).1 spacious size).ne
    exact bounded 16

end Arena
end KernelCore
