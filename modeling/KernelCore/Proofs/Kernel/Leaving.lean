import KernelCore.Proofs.Kernel.Ownership
import KernelCore.Proofs.Kernel.Parking
import KernelCore.Proofs.Kernel.Tables

namespace KernelCore
open Machine Kernel

namespace Arena
open Parcel
variable {a : Arena} {deeds : List Holding} {stack size : Nat}

/-- From `a` to `b` the block `x` was given back. Only headers were written that were there before. -/
structure Frees (r : Region) (x : Block) (a b : Arena) : Prop where
  used : b.heap.used + x.header.size = a.heap.used
  headers : ∀ addr, b.memory.byte addr ≠ a.memory.byte addr →
    ∃ y ∈ a.blocks, r.start + y.off ≤ addr ∧ addr < r.start + y.off + Header.width
  payload : ∀ addr, x.Holds r addr → b.memory.byte addr = a.memory.byte addr

/-- A plain deed is given back with the block that backs it. -/
theorem Backs.frees (backs : a.Backs deeds) (member : (⟨stack, size, false⟩ : Holding) ∈ deeds) :
    ∃ r, a.heap.region = some r ∧ ∃ x ∈ a.allocated, stack = r.payload x.off ∧ size ≤ x.header.size ∧
      (Arena.release stack).run.Meets a (fun result b => result = .ok () ∧ Frees r x a b) fun _ => False := by
  cases backs with
  | bare none => exact absurd member List.not_mem_nil
  | @sound held deeds r plan pairs sound perm =>
    obtain ⟨p, inPairs⟩ := sound.exists_parcel (perm.mem_iff.mpr member)
    have inTakens : p ∈ takens plan := sound.parcels.mem_iff.mpr (List.mem_map_of_mem inPairs)
    have backed := sound.backed _ inPairs
    have room := sound.room inPairs
    obtain ⟨inPlan, taken⟩ := mem_takens.mp inTakens
    have backs := block_backs sound.arena inTakens backed
    have arena := sound.arena
    rw [arena.block_eq inTakens] at backs
    obtain ⟨-, upper, plain⟩ := backs
    obtain rfl : stack = r.payload p.off := plain rfl
    refine ⟨r, arena.shows.region, _, ?_, rfl, Nat.le_of_add_le_add_left upper, ?_⟩
    · rw [arena.allocated_eq_map]
      exact List.mem_map_of_mem inTakens
    obtain ⟨left, right, rfl⟩ := List.append_of_mem inPlan
    refine (meets_release arena taken room).mono ?_ fun _ => id
    rintro result b ⟨done, soundB, wrote, -⟩
    refine ⟨done, ?_, ?_, fun addr holds => wrote.byte_of_payload arena.shows.spans inPlan holds⟩
    · rw [soundB.used, arena.used, takenSize_reclaimed, takenSize_append, takenSize_cons_of_taken taken]
      dsimp only
      omega
    · intro addr
      contrapose!
      intro outside
      refine wrote.byte addr ?_
      intro off inOffs
      obtain ⟨q, inPlan, rfl⟩ := List.mem_map.mp inOffs
      have inBlocks : block r a.memory q ∈ a.blocks := arena.blocks_eq ▸ List.mem_map_of_mem inPlan
      exact (Nat.lt_or_ge addr _).imp_right (outside _ inBlocks)

end Arena

namespace Table
variable {t : Table} {c i : Nat} {task : Task}

theorem runFrom_terminateCurrent (now : t.current = some c) (here : t.tasks[c]? = some task) :
    terminateCurrent.runFrom t =
      (.ok task.stack, t.put c { task with state := .terminated, stack := none }) := by
  simp only [terminateCurrent, update, runFrom_bind, runFrom_get, now, slot_eq_ok_iff.mpr here, runFrom_lift,
    runFrom_modify, runFrom_pure, put]

/-- Of those who can be given the processor none has exited. -/
theorem Eligible.ne_of_terminated (eligible : t.Eligible i) (gone : t.stateAt c = some .terminated) : i ≠ c := by
  rintro rfl
  rcases eligible with ⟨-, state, here, runnable⟩ | ⟨-, -, -, ready⟩
  · obtain rfl := Option.some.inj (here.symm.trans gone)
    exact absurd runnable (by decide)
  · exact absurd (ready.symm.trans gone) (by decide)

end Table

namespace Kernel
variable {k k' l : Kernel} {holdings : List Holding} {c : Nat} {task : Task} {stack : Nat}

/-- The kernel is as it is at some time along a run from the start, of a program whose clients give back only what
they hold and write only into it. -/
def Occurs (k : Kernel) : Prop :=
  ∃ (ω α : Type) (program : Machine (System (Ledger ω)) α) (m : Memory) (cpu : Processor) (world : ω)
    (outcome : Except Fault α) (s : System (Ledger ω)) (holdings : List Holding),
    Household false program ∧ cpu.trace = #[] ∧
      program.runFrom ⟨Kernel.initial m cpu, ⟨[], [], world⟩⟩ = (outcome, s) ∧ (k, holdings) ∈ s.outside.sightings

theorem Occurs.owns (occurs : k.Occurs) : ∃ holdings, k.Owns holdings := by
  obtain ⟨ω, α, program, m, cpu, world, outcome, s, holdings, household, unused, ran, member⟩ := occurs
  exact ⟨holdings, (household.kept unused ran).1 _ member⟩

/-- A task that exits gives its stack back, and is marked. -/
theorem Owns.meets_retire (owns : k.Owns holdings) (now : k.table.current = some c)
    (here : k.table.tasks[c]? = some task) (has : task.stack = some stack) :
    ∃ r, k.arena.heap.region = some r ∧ ∃ x ∈ k.arena.allocated, stack = r.payload x.off ∧
      Config.taskStackSize ≤ x.header.size ∧ retire.Meets k (fun _ k' => k.arena.Frees r x k'.arena ∧
        k'.cpu.switches = k.cpu.switches ∧ k'.table.current = some c ∧ k'.table.stateAt c = some .terminated)
        fun _ => False := by
  have owned : Holding.ofStack stack ∈ k.table.ownedStacks ++ holdings := by
    refine List.mem_append_left holdings (List.mem_filterMap.mpr ⟨task, ?_, by rw [Task.lodging, has, Option.map_some]⟩)
    exact Array.mem_toList_iff.mpr (Array.mem_of_getElem? here)
  obtain ⟨r, region, x, member, start, large, frees⟩ := owns.backs.frees owned
  refine ⟨r, region, x, member, start, large, ?_⟩
  have known : k.table.currentPid = .ok (some task.pid) := by
    rw [Table.currentPid, now, Table.slot?, Table.slot_eq_ok_iff.mpr here]
    rfl
  have gone : (k.table.put c { task with state := .terminated, stack := none }).stateAt c = some .terminated := by
    rw [Table.stateAt_put here, if_pos rfl]
  have ends : (onTable Table.terminateCurrent).Meets k (fun left l => left = some stack ∧
      l = k.withTable (k.table.put c { task with state := .terminated, stack := none })) fun _ => False :=
    meets_onTable.mpr (.of_runFrom (Table.runFrom_terminateCurrent now here) ⟨has, rfl⟩)
  refine meets_retire_of (fun _ unknown => by simp [known] at unknown) ends (fun _ both => by simp at both) ?_
    (fun _ _ _ => False.elim) fun _ _ => id
  rintro _ _ ⟨same, rfl⟩
  obtain rfl := Option.some.inj same
  rw [tryHeap, meets_onArena]
  refine frees.mono ?_ fun _ => id
  rintro _ b ⟨rfl, frees⟩
  exact ⟨⟨frees.used, frees.headers, frees.payload⟩, rfl, now, gone⟩

end Kernel

namespace System
variable {ω α : Type} {s : System ω} {env : Surroundings ω} {k : Kernel} {c : Nat} {task : Task} {stack : Nat}

/-- A run that a fault stops, or one that comes to where the processor goes away from the task in slot `c`. Until then
the kernel lingers. -/
def Departs (env : Surroundings ω) (k : Kernel) (c : Nat) (ran : Except Fault Unit × System ω) : Prop :=
  (∃ fault t, ran = (.error fault, t) ∧ k.Lingers t.kernel) ∨
    ∃ u handover, ran = (switch env handover).runFrom u ∧ handover.outgoing = c ∧ k.Lingers u.kernel

theorem Departs.after {ran : Except Fault Unit × System ω} {l : Kernel} (departs : Departs env l c ran)
    (lingers : k.Lingers l) : Departs env k c ran := by
  rcases departs with ⟨fault, t, stops, later⟩ | ⟨u, handover, goes, outgoing, later⟩
  · exact Or.inl ⟨fault, t, stops, lingers.trans later⟩
  · exact Or.inr ⟨u, handover, goes, outgoing, lingers.trans later⟩

theorem departs_bind {action : Machine (System ω) α} {next : α → Machine (System ω) Unit}
    (first : action.Meets s (fun result t => Departs env k c ((next result).runFrom t)) fun t => k.Lingers t.kernel) :
    Departs env k c ((action >>= next).runFrom s) := by
  rw [runFrom_bind]
  rcases ran : action.runFrom s with ⟨fault | result, t⟩
  · exact Or.inl ⟨fault, t, rfl, first.fault ran⟩
  · exact first.result ran

/-- A task that has exited never gets the processor back, and nothing is written until it is given to another one. -/
theorem departs_rescheduleFor (clockwork : Clockwork env.whileParked) (rounds : Nat)
    (now : s.kernel.table.current = some c) (gone : s.kernel.table.stateAt c = some .terminated) :
    Departs env s.kernel c ((rescheduleFor env rounds).runFrom s) := by
  induction rounds generalizing s with
  | zero => exact Or.inl ⟨_, s, rfl, .refl _⟩
  | succ rounds ih =>
    unfold rescheduleFor
    refine departs_bind (.of_runFrom (runFrom_get s) ?_)
    rw [if_pos (Table.isInitialized_of_current now)]
    cases picked : s.kernel.table.pick with
    | error fault => exact departs_bind (.refl s.kernel)
    | ok choice =>
      refine departs_bind (.of_runFrom (runFrom_lift ..) ?_)
      cases choice with
      | some slot =>
        have eligible := Table.eligible_of_pick picked
        have other := eligible.ne_of_terminated gone
        obtain ⟨task, atC, -⟩ := Table.exists_of_stateAt gone
        have insideC := (Array.getElem?_eq_some_iff.mp atC).1
        refine departs_bind (meets_onKernel.mpr (meets_onTable.mpr ?_))
        refine (Table.meets_dispatch_other now other insideC eligible.lt_size).mono ?_ fun _ => False.elim
        rintro _ t ⟨⟨sp, rfl⟩, -⟩
        exact Or.inr ⟨_, _, rfl, rfl, rfl, rfl⟩
      | none =>
        refine departs_bind (.of_runFrom rfl (departs_bind (meets_park (fun _ => ⟨rfl, rfl⟩) ?_)))
        have rests := clockwork.elapses (s := { s with kernel := { s.kernel with parked := true }.resting }) rfl
          (by exact now ▸ Option.some_ne_none c)
        refine rests.mono ?_ fun _ stops => ⟨stops.arena, stops.switches⟩
        intro _ t elapses
        refine departs_bind (.of_runFrom rfl ?_)
        refine (ih (s := { t with kernel := { t.kernel.awoken with parked := false } }) ?_ ?_).after ?_
        · exact elapses.current.trans now
        · exact elapses.stateAt_of_terminated gone
        · exact ⟨elapses.lingers.arena, elapses.lingers.switches⟩

/-- The running task exits, and its stack goes back to the heap with the block in which it lies. Of the memory only
headers change that were there before, and the stack itself does not. From then on nothing is written, and the
processor goes to no other task, until it leaves the exited task for good; the processor may be parked any number of
times before. What happens outside may stop the run at any of these times, and so the same holds of the memory then. -/
theorem exit_spares_stack (occurs : s.kernel.Occurs) (now : s.kernel.table.current = some c)
    (here : s.kernel.table.tasks[c]? = some task) (has : task.stack = some stack)
    (clockwork : Clockwork env.whileParked) :
    ∃ r, s.kernel.arena.heap.region = some r ∧ ∃ x ∈ s.kernel.arena.allocated, stack = r.payload x.off ∧
      Config.taskStackSize ≤ x.header.size ∧ ∃ k,
        retire.runFrom { s.kernel with cpu := s.kernel.cpu.mask } = (.ok (), k) ∧
        s.kernel.arena.Frees r x k.arena ∧ k.cpu.switches = s.kernel.cpu.switches ∧
        ((∃ fault t, (exit env).runFrom s = (.error fault, t) ∧ k.Lingers t.kernel) ∨
          ∃ u handover, (exit env).runFrom s =
            (do switch env handover; onKernel (onProcessor Processor.halt) : Machine (System ω) Unit).runFrom u ∧
              handover.outgoing = c ∧ k.Lingers u.kernel) := by
  obtain ⟨holdings, owns⟩ := occurs.owns
  obtain ⟨r, region, x, member, start, large, retires⟩ := (owns.passes (.mask _)).meets_retire now here has
  obtain ⟨⟨⟩, k, retired, frees, switches, nowK, gone⟩ := retires.returns fun _ => not_false
  refine ⟨r, region, x, member, start, large, k, retired, frees, switches, ?_⟩
  have goesOn : (exit env).runFrom s = (do reschedule env; onKernel (onProcessor Processor.halt) :
      Machine (System ω) Unit).runFrom { s with kernel := k } := by
    unfold exit
    rw [runFrom_bind, runFrom_onKernel, runFrom_onProcessor]
    dsimp only
    rw [runFrom_bind, runFrom_onKernel, retired]
  have departs : Departs env k c ((reschedule env).runFrom { s with kernel := k }) := by
    unfold reschedule
    exact departs_bind (.of_runFrom (runFrom_get _) (departs_rescheduleFor clockwork _ nowK gone))
  rw [goesOn, runFrom_bind]
  rcases departs with ⟨fault, t, stops, lingers⟩ | ⟨u, handover, goes, outgoing, lingers⟩
  · rw [stops]
    exact Or.inl ⟨fault, t, rfl, lingers⟩
  · refine Or.inr ⟨u, handover, ?_, outgoing, lingers⟩
    rw [goes, runFrom_bind]

end System

/-- The boot task sleeps for a tick, and is seen by the task that it has created. -/
def sleepBesideAnother : Machine (System (Ledger Unit)) Unit := do
  let _ ← System.found 4096 16440
  let _ ← System.onKernel (tryTable Table.adoptBoot)
  let _ ← System.create 7 8
  System.sleep (.doing (pure ()) System.look) 10

set_option maxRecDepth 100000 in
theorem exit_of_created_task : ∃ s : System Unit, s.kernel.Occurs ∧ s.kernel.table.current = some 1 ∧ ∃ r x k,
    retire.runFrom { s.kernel with cpu := s.kernel.cpu.mask } = (.ok (), k) ∧ s.kernel.arena.Frees r x k.arena ∧
      Config.taskStackSize ≤ x.header.size ∧
      ((∃ fault t, (System.exit .still).runFrom s = (.error fault, t) ∧ k.Lingers t.kernel) ∨
        ∃ u handover, (System.exit .still).runFrom s =
          (do System.switch .still handover; System.onKernel (onProcessor Processor.halt) :
            Machine (System Unit) Unit).runFrom u ∧ handover.outgoing = 1 ∧ k.Lingers u.kernel) := by
  have household : Household false sleepBesideAnother :=
    (Household.found 4096 16440).bind fun _ => Household.adopt.bind fun _ => (Household.create 7 8).bind fun _ =>
      .turn _ (.sleep 10) (.pure ()) .look
  obtain ⟨⟨k, holdings⟩, member, now, lodged⟩ :
      ∃ sight ∈ (sleepBesideAnother.runFrom ⟨freshKernel, ⟨[], [], ()⟩⟩).2.outside.sightings,
      sight.1.table.current = some 1 ∧ (sight.1.table.tasks[1]?.bind Task.stack).isSome = true := by decide +kernel
  obtain ⟨stack, stacked⟩ := Option.isSome_iff_exists.mp lodged
  obtain ⟨task, here, has⟩ := Option.bind_eq_some_iff.mp stacked
  have occurs : k.Occurs :=
    ⟨Unit, Unit, sleepBesideAnother, Memory.zeroed 4096 16472, Processor.initial 5 ⟨0, 5, 6⟩, (),
      (sleepBesideAnother.runFrom ⟨freshKernel, ⟨[], [], ()⟩⟩).1,
      (sleepBesideAnother.runFrom ⟨freshKernel, ⟨[], [], ()⟩⟩).2, holdings, household, rfl, (Prod.eta _).symm, member⟩
  have clockwork : Clockwork (Surroundings.still : Surroundings Unit).whileParked := .tick _
  obtain ⟨r, -, x, -, -, large, k', retired, frees, -, ends⟩ :=
    System.exit_spares_stack (s := ⟨k, ()⟩) occurs now here has clockwork
  exact ⟨⟨k, ()⟩, occurs, now, r, x, k', retired, frees, large, ends⟩

end KernelCore
