import KernelCore.Proofs.Kernel.Story

namespace KernelCore

/-- Whether interrupts are unmasked, and what has to go on before that does which was there first. -/
structure Course where
  enabled : Bool
  below : List Activity

namespace Instruction

/-- Where things stand after an instruction. What was parked goes on with interrupts masked. -/
def course (c : Course) : Instruction → Course
  | mask => ⟨false, c.below⟩
  | unmask => ⟨true, c.below⟩
  | switch .. => ⟨c.enabled, .away :: c.below⟩
  | wait => ⟨true, .parked :: c.below⟩
  | resume => ⟨c.enabled && decide (c.below.head? ≠ some .parked), c.below.tail⟩
  | prepare .. | halt | table _ | sleep _ | tick | served => c

/-- What must not be interrupted. -/
def IsGuarded : Instruction → Prop
  | prepare .. | switch .. | wait => True
  | mask | unmask | resume | halt | table _ | sleep _ | tick | served => False

/-- What changes the interrupt flag at the kernel's own wish. -/
def IsToggle : Instruction → Prop
  | mask | unmask => True
  | prepare .. | switch .. | wait | resume | halt | table _ | sleep _ | tick | served => False

/-- What has no part in the course. -/
def IsAside : Instruction → Prop
  | prepare .. | halt | table _ | sleep _ | tick | served => True
  | mask | unmask | switch .. | wait | resume => False

theorem IsAside.course {instruction : Instruction} (aside : instruction.IsAside) (c : Course) :
    instruction.course c = c := by
  cases instruction with
  | mask | unmask | switch | wait | resume => exact aside.elim
  | _ => rfl

end Instruction

/-- The course of a story that starts at `c`. -/
def Story.course (c : Course) (story : Story) : Course := story.foldl Instruction.course c

/-- What an operation may do that was entered with the flag `entered`, where `base` was below. The operation is
`free` if it may mask and unmask interrupts as it likes. -/
structure Course.Permits (free entered : Bool) (base : List Activity) (c : Course) (instruction : Instruction) :
    Prop where
  within : base <:+ c.below
  own : free = false → entered = false → c.below = base → ¬instruction.IsToggle
  guarded : instruction.IsGuarded → c.enabled = false
  noted : ∀ enabled handover saved, instruction = .switch enabled handover saved → enabled = c.enabled

/-- From `c` to `d` along a piece of story, in which everything is permitted. -/
inductive Runs (free entered : Bool) (base : List Activity) : Course → Story → Course → Prop
  | nil (c : Course) : Runs free entered base c [] c
  | cons {c d : Course} {instruction : Instruction} {rest : Story}
    (permits : c.Permits free entered base instruction)
    (later : Runs free entered base (instruction.course c) rest d) : Runs free entered base c (instruction :: rest) d

namespace Runs
variable {free entered entered' : Bool} {base : List Activity} {c d e : Course} {first second : Story}
  {instruction : Instruction} {activity : Activity}

theorem one (permits : c.Permits free entered base instruction) :
    Runs free entered base c [instruction] (instruction.course c) := .cons permits (.nil _)

theorem append (runs : Runs free entered base c first d) (more : Runs free entered base d second e) :
    Runs free entered base c (first ++ second) e := by
  induction runs with
  | nil => exact more
  | cons permits _ ih => exact .cons permits (ih more)

theorem map (runs : Runs free entered base c first d) {base' : List Activity}
    (weaken : ∀ c instruction, Course.Permits free entered base c instruction →
      Course.Permits free entered' base' c instruction) : Runs free entered' base' c first d := by
  induction runs with
  | nil c => exact .nil c
  | cons permits _ ih => exact .cons (weaken _ _ permits) ih

/-- Whoever was entered with interrupts unmasked may do more. -/
theorem looser (runs : Runs free entered base c first d) (less : free = false → entered' = false → entered = false) :
    Runs free entered' base c first d :=
  runs.map fun _ _ permits =>
    ⟨permits.within, fun bound masked => permits.own bound (less bound masked), permits.guarded, permits.noted⟩

/-- What happens further below is not the operation's own. -/
theorem nested (runs : Runs free entered (activity :: base) c first d) : Runs free entered' base c first d := by
  refine runs.map fun c instruction permits => ?_
  refine ⟨(List.suffix_cons ..).trans permits.within, fun _ _ same => ?_, permits.guarded, permits.noted⟩
  have longer := permits.within.length_le
  rw [same, List.length_cons] at longer
  omega

theorem course_eq (runs : Runs free entered base c first d) : first.course c = d := by
  induction runs with
  | nil => rfl
  | cons _ _ ih => exact ih

theorem permits {after : Story} (runs : Runs free entered base c first d) (split : first = second ++ instruction :: after) :
    (second.course c).Permits free entered base instruction := by
  induction runs generalizing second with
  | nil => simp at split
  | @cons c d head rest permits _ ih =>
    cases second with
    | nil =>
      obtain ⟨rfl, -⟩ := List.cons.inj split
      exact permits
    | cons _ before =>
      obtain ⟨rfl, later⟩ := List.cons.inj split
      exact ih later

end Runs

namespace Kernel
variable {free : Bool} {base : List Activity} {k l m : Kernel} {instruction : Instruction}

/-- From `k` to `l` an operation has come to its end. The flag is as it was before, unless the operation is free. -/
structure Leads (free : Bool) (base : List Activity) (k l : Kernel) : Prop where
  flag : free = false → l.cpu.enabled = k.cpu.enabled
  story : ∃ more, l.story = k.story ++ more ∧
    Runs free k.cpu.enabled base ⟨k.cpu.enabled, base⟩ more ⟨l.cpu.enabled, base⟩

/-- From `k` to `l` an operation has begun, and may have been stopped by a fault. -/
def Strays (free : Bool) (base : List Activity) (k l : Kernel) : Prop :=
  ∃ more d, l.story = k.story ++ more ∧ Runs free k.cpu.enabled base ⟨k.cpu.enabled, base⟩ more d

theorem Leads.strays (leads : Leads free base k l) : Strays free base k l := by
  obtain ⟨more, story, runs⟩ := leads.story
  exact ⟨more, _, story, runs⟩

/-- What changes neither the flag nor the story. -/
theorem Leads.of_eq (flag : l.cpu.enabled = k.cpu.enabled) (story : l.story = k.story) : Leads free base k l := by
  refine ⟨fun _ => flag, [], by rw [story, List.append_nil], ?_⟩
  rw [flag]
  exact .nil _

theorem Leads.refl (k : Kernel) : Leads free base k k := .of_eq rfl rfl

theorem Strays.prepend (first : Leads free base k l) (second : Strays free base l m) : Strays free base k m := by
  obtain ⟨more, story, runs⟩ := first.story
  obtain ⟨later, d, story', runs'⟩ := second
  refine ⟨more ++ later, d, by rw [story', story, List.append_assoc], runs.append (runs'.looser ?_)⟩
  intro bound masked
  rw [first.flag bound, masked]

theorem Leads.trans (first : Leads free base k l) (second : Leads free base l m) : Leads free base k m := by
  obtain ⟨more, story, runs⟩ := first.story
  obtain ⟨later, story', runs'⟩ := second.story
  refine ⟨fun bound => (second.flag bound).trans (first.flag bound), more ++ later,
    by rw [story', story, List.append_assoc], runs.append (runs'.looser ?_)⟩
  intro bound masked
  rw [first.flag bound, masked]

theorem permits_of_isAside {entered : Bool} {c : Course} (aside : instruction.IsAside) (within : base <:+ c.below)
    (guarded : instruction.IsGuarded → c.enabled = false) : c.Permits free entered base instruction := by
  refine ⟨within, fun _ _ _ toggle => ?_, guarded, ?_⟩
  · cases instruction with
    | mask | unmask => exact aside
    | _ => exact toggle
  · rintro enabled handover saved rfl
    exact aside.elim

theorem Leads.note (flag : l.cpu.enabled = k.cpu.enabled) (story : l.story = k.story ++ [instruction])
    (aside : instruction.IsAside) (guarded : instruction.IsGuarded → k.cpu.enabled = false) : Leads free base k l := by
  refine ⟨fun _ => flag, _, story, ?_⟩
  have permits : Course.Permits free k.cpu.enabled base ⟨k.cpu.enabled, base⟩ instruction :=
    permits_of_isAside aside List.suffix_rfl guarded
  have runs := Runs.one permits
  rw [aside.course] at runs
  rwa [flag]

/-- Only what is free may mask and unmask interrupts and leave them so. -/
theorem Leads.toggle (story : l.story = k.story ++ [instruction]) (toggle : instruction.IsToggle)
    (flag : instruction.course ⟨k.cpu.enabled, base⟩ = ⟨l.cpu.enabled, base⟩) : Leads true base k l := by
  refine ⟨fun bound => absurd bound.symm Bool.false_ne_true, [instruction], story, ?_⟩
  rw [← flag]
  refine .one ⟨List.suffix_rfl, fun bound => absurd bound.symm Bool.false_ne_true, ?_, ?_⟩
  · cases instruction with
    | mask | unmask => exact False.elim
    | _ => exact toggle.elim
  · rintro enabled handover saved rfl
    exact toggle.elim

/-- From `k` to `l` something begins with interrupts masked, and others go on until it is over. -/
structure Opens (free : Bool) (base : List Activity) (activity : Activity) (k l : Kernel) (instruction : Instruction) :
    Prop where
  masked : k.cpu.enabled = false
  story : l.story = k.story ++ [instruction]
  permits : Course.Permits free false base ⟨false, base⟩ instruction
  course : instruction.course ⟨false, base⟩ = ⟨l.cpu.enabled, activity :: base⟩

theorem Opens.strays {activity : Activity} (opens : Opens free base activity k l instruction)
    (inside : Strays free (activity :: base) l m) : Strays free base k m := by
  obtain ⟨more, d, story, runs⟩ := inside
  refine ⟨instruction :: more, d, by rw [story, opens.story, List.append_assoc, List.singleton_append], ?_⟩
  rw [opens.masked]
  refine .cons opens.permits ?_
  rw [opens.course]
  exact runs.nested

theorem Opens.leads {activity : Activity} {n : Kernel} (opens : Opens free base activity k l instruction)
    (inside : Leads free (activity :: base) l m) (story : n.story = m.story ++ [.resume])
    (flag : n.cpu.enabled = (m.cpu.enabled && decide (activity ≠ .parked))) (masked : free = false → n.cpu.enabled = false) :
    Leads free base k n := by
  obtain ⟨more, storyM, runs⟩ := inside.story
  refine ⟨fun bound => (masked bound).trans opens.masked.symm, instruction :: (more ++ [.resume]), ?_, ?_⟩
  · rw [story, storyM, opens.story]
    simp
  have resumes : Course.Permits free false base ⟨m.cpu.enabled, activity :: base⟩ .resume :=
    ⟨List.suffix_cons .., fun _ _ same => by simp at same, False.elim, by simp⟩
  have lands : Instruction.resume.course ⟨m.cpu.enabled, activity :: base⟩ = ⟨n.cpu.enabled, base⟩ := by
    rw [flag]
    simp [Instruction.course]
  rw [opens.masked]
  refine .cons opens.permits ?_
  rw [opens.course]
  exact runs.nested.append (lands ▸ .one resumes)

/-- What is done to the tasks while interrupts are masked. -/
structure Acts (k l : Kernel) : Prop where
  flag : l.cpu.enabled = k.cpu.enabled
  parked : l.parked = k.parked
  story : ∃ more : Story, l.story = k.story ++ more ∧ ∀ instruction ∈ more, instruction.IsAside

theorem Acts.of_eq (flag : l.cpu.enabled = k.cpu.enabled) (parked : l.parked = k.parked) (story : l.story = k.story) :
    k.Acts l := ⟨flag, parked, [], by rw [story, List.append_nil], by simp⟩

theorem Acts.refl (k : Kernel) : k.Acts k := .of_eq rfl rfl rfl

theorem Acts.trans (first : k.Acts l) (second : l.Acts m) : k.Acts m := by
  obtain ⟨more, story, asides⟩ := first.story
  obtain ⟨later, story', asides'⟩ := second.story
  refine ⟨second.flag.trans first.flag, second.parked.trans first.parked, more ++ later, ?_, ?_⟩
  · rw [story', story, List.append_assoc]
  · intro instruction member
    exact (List.mem_append.mp member).elim (asides instruction) (asides' instruction)

theorem runs_of_asides {more : Story} (asides : ∀ instruction ∈ more, instruction.IsAside) :
    Runs free false base ⟨false, base⟩ more ⟨false, base⟩ := by
  induction more with
  | nil => exact .nil _
  | cons instruction rest ih =>
    have aside := asides instruction List.mem_cons_self
    refine .cons (permits_of_isAside aside List.suffix_rfl fun _ => rfl) ?_
    rw [aside.course]
    exact ih fun instruction member => asides instruction (List.mem_cons_of_mem _ member)

theorem Acts.leads (acts : k.Acts l) (masked : k.cpu.enabled = false) : Leads free base k l := by
  obtain ⟨more, story, asides⟩ := acts.story
  refine ⟨fun _ => acts.flag, more, story, ?_⟩
  rw [acts.flag, masked]
  exact runs_of_asides asides

end Kernel
end KernelCore
