import Mathlib.Data.List.Induction
import KernelCore.Proofs.Kernel.Story
import KernelCore.Ticks

namespace KernelCore

namespace Instruction

/-- Whether a tick has not been acted on yet. -/
def rings (ringing : Bool) : Instruction → Bool
  | tick => true
  | mask => ringing
  | _ => false

/-- An instruction that lets something else than the running task go on. -/
def GivesWay : Instruction → Prop
  | switch .. | wait => True
  | _ => False

end Instruction

namespace Story
variable {story before after more : Story} {instruction : Instruction} {i wake : Nat}

/-- The ticks that have arrived. -/
def clock (story : Story) : Nat := story.count .tick

/-- Whether the latest tick has not been acted on yet. -/
def ringing (story : Story) : Bool := story.foldl Instruction.rings false

/-- After a story the task in a slot sleeps, until a tick. -/
def Asleep (story : Story) (i wake : Nat) : Prop := story.version.stateAt i = some (.blocked wake)

/-- Nobody sleeps whose time has come. -/
def Eased (story : Story) : Prop := ∀ i wake, story.Asleep i wake → story.clock < wake

/-- What may come after a story. Work on the tasks wakes those whose time has come, and nobody else. A task is
put to sleep for as long as it asked. All else waits until nobody sleeps whose time has come. -/
def Keeps (story : Story) : Instruction → Prop
  | .mask => True
  | .table t => (∀ i wake, story.Asleep i wake →
      t.stateAt i = some (if story.clock < wake then .blocked wake else .ready)) ∧
      ∀ i wake, t.stateAt i = some (.blocked wake) → story.clock < wake
  | .sleep ms => story.Eased ∧ ∃ c, story.version.current = some c ∧
      story.Asleep c (Ticks.saturate (story.clock + Ticks.ofMs ms))
  | _ => story.Eased

/-- Everything in the story comes at its time. -/
def Punctual (story : Story) : Prop := story.Obeys Keeps

/-- From a story on a task sleeps until a tick: it is asleep as long as the clock is below, and with that tick
it is ready before anything else happens. -/
structure Rests (story : Story) (i wake : Nat) (after : Story) : Prop where
  asleep : ∀ during rest, after = during ++ rest → clock (story ++ during) < wake → (story ++ during).Asleep i wake
  woken : ∀ during rest, after = during ++ .tick :: rest → clock (story ++ during) + 1 = wake →
    ∃ masks t later, rest = masks ++ .table t :: later ∧ (∀ instruction ∈ masks, instruction = Instruction.mask) ∧
      t.stateAt i = some .ready

theorem clock_append (before after : Story) : clock (before ++ after) = before.clock + after.clock :=
  List.count_append

@[simp] theorem ringing_concat (story : Story) (instruction : Instruction) :
    ringing (story ++ [instruction]) = instruction.rings story.ringing := by
  simp [ringing]

theorem Obeys.left {law : Story → Instruction → Prop} (obeys : Obeys law (before ++ after)) : Obeys law before := by
  intro first instruction rest split
  refine obeys first instruction (rest ++ after) ?_
  rw [split, List.append_assoc, List.cons_append]

theorem Eased.concat (eased : story.Eased) (clock : clock (story ++ [instruction]) = story.clock)
    (version : version (story ++ [instruction]) = story.version) : Eased (story ++ [instruction]) := by
  intro i wake asleep
  rw [Asleep, version] at asleep
  rw [clock]
  exact eased i wake asleep

/-- Where no tick waits to be acted on, nobody sleeps whose time has come. -/
theorem Punctual.eased (punctual : story.Punctual) (settled : story.ringing = false) : story.Eased := by
  induction story using List.reverseRecOn with
  | nil =>
    intro i wake asleep
    simp [Asleep, version, Table.empty, Table.stateAt] at asleep
  | append_singleton story instruction ih =>
    have next : Keeps story instruction := punctual story instruction [] rfl
    rw [ringing_concat] at settled
    cases instruction with
    | tick => simp [Instruction.rings] at settled
    | mask => exact (ih punctual.left settled).concat (by simp [clock]) (by simp [Instruction.version])
    | table t =>
      intro i wake asleep
      rw [Asleep, version_concat] at asleep
      rw [clock_append]
      exact next.2 i wake asleep
    | sleep ms => exact next.1.concat (by simp [clock]) (by simp [Instruction.version])
    | _ => exact Eased.concat next (by simp [clock]) (by simp [Instruction.version])

/-- Who sleeps sleeps on as long as the clock is below the tick agreed on. -/
theorem Punctual.asleep (punctual : (before ++ after).Punctual) (asleep : before.Asleep i wake)
    (early : clock (before ++ after) < wake) : Asleep (before ++ after) i wake := by
  induction after generalizing before with
  | nil => rwa [List.append_nil]
  | cons instruction rest ih =>
    have next := punctual before instruction rest rfl
    have split : before ++ instruction :: rest = (before ++ [instruction]) ++ rest := by simp
    rw [clock_append] at early
    have now : before.clock < wake := by omega
    rw [split] at punctual ⊢
    refine ih punctual ?_ (by rwa [← split, clock_append])
    rw [Asleep, version_concat]
    cases instruction with
    | table t =>
      have stays := next.1 i wake asleep
      rwa [if_pos now] at stays
    | _ => exact asleep

/-- Who sleeps although the time has come is ready before anything else happens. -/
theorem Punctual.woken (punctual : (before ++ after).Punctual) (eased : Eased (before ++ after))
    (asleep : before.Asleep i wake) (due : wake ≤ before.clock) :
    ∃ masks t later, after = masks ++ .table t :: later ∧ (∀ instruction ∈ masks, instruction = Instruction.mask) ∧
      t.stateAt i = some .ready := by
  have late : ¬before.clock < wake := Nat.not_lt.mpr due
  induction after generalizing before with
  | nil =>
    rw [List.append_nil] at eased
    exact absurd (eased i wake asleep) late
  | cons instruction rest ih =>
    have next := punctual before instruction rest rfl
    have split : before ++ instruction :: rest = (before ++ [instruction]) ++ rest := by simp
    cases instruction with
    | table t =>
      have wakes := next.1 i wake asleep
      rw [if_neg late] at wakes
      exact ⟨[], t, rest, rfl, by simp, wakes⟩
    | mask =>
      rw [split] at punctual eased
      have clock : clock (before ++ [.mask]) = before.clock := by simp [clock]
      have still : Asleep (before ++ [.mask]) i wake := by rwa [Asleep, version_concat]
      obtain ⟨masks, t, later, rfl, masked, wakes⟩ := ih punctual eased still (by rwa [clock]) (by rwa [clock])
      exact ⟨.mask :: masks, t, later, rfl, by simpa using masked, wakes⟩
    | sleep ms => exact absurd (next.1 i wake asleep) late
    | _ => exact absurd (next i wake asleep) late

/-- Who has been put to sleep sleeps until the tick agreed on, and no longer. -/
theorem Punctual.rests (punctual : (before ++ after).Punctual) (eased : Eased (before ++ after))
    (asleep : before.Asleep i wake) : before.Rests i wake after where
  asleep during rest split early := by
    rw [split, ← List.append_assoc] at punctual
    exact Punctual.asleep punctual.left asleep early
  woken during rest split due := by
    have joined : before ++ (during ++ .tick :: rest) = (before ++ during ++ [.tick]) ++ rest := by simp
    rw [split, joined] at punctual eased
    have still : Asleep (before ++ during) i wake :=
      Punctual.asleep (Obeys.left (Obeys.left punctual)) asleep (by omega)
    have ticked : Asleep (before ++ during ++ [.tick]) i wake := by rwa [Asleep, version_concat]
    have due : wake ≤ clock (before ++ during ++ [.tick]) := by
      rw [clock_append (before ++ during), ← due]
      simp [clock]
    exact punctual.woken eased ticked due

end Story
end KernelCore
