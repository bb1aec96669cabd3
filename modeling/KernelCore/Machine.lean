import KernelCore.Fault

namespace KernelCore

/-- A computation over the state `σ` that a fault can stop. What it did to the state before the fault
stays done. -/
abbrev Machine (σ : Type) := ExceptT Fault (StateM σ)

namespace Machine
variable {σ α β : Type}

/-- The outcome of a computation together with the state that it leaves. -/
def runFrom (action : Machine σ α) (start : σ) : Except Fault α × σ :=
  action.run.run start

@[simp] theorem runFrom_pure (a : α) (s : σ) : runFrom (pure a : Machine σ α) s = (.ok a, s) := rfl

@[simp] theorem runFrom_throw (fault : Fault) (s : σ) :
    runFrom (throw fault : Machine σ α) s = (.error fault, s) := rfl

@[simp] theorem runFrom_get (s : σ) : runFrom (get : Machine σ σ) s = (.ok s, s) := rfl

@[simp] theorem runFrom_set (s t : σ) : runFrom (set t : Machine σ PUnit) s = (.ok ⟨⟩, t) := rfl

@[simp] theorem runFrom_modify (change : σ → σ) (s : σ) :
    runFrom (modify change : Machine σ PUnit) s = (.ok ⟨⟩, change s) := rfl

@[simp] theorem runFrom_lift (outcome : Except Fault α) (s : σ) :
    runFrom (liftM outcome : Machine σ α) s = (outcome, s) := rfl

/-- A computation goes on from the state that its first part leaves, unless that part was stopped. -/
theorem runFrom_bind (action : Machine σ α) (next : α → Machine σ β) (s : σ) :
    (action >>= next).runFrom s =
      match action.runFrom s with
      | (.ok a, t) => (next a).runFrom t
      | (.error fault, t) => (.error fault, t) := by
  show (ExceptT.bindCont next (action s).1 : StateM σ _) (action s).2 = _
  unfold runFrom ExceptT.run StateT.run
  rcases action s with ⟨outcome, t⟩
  cases outcome <;> rfl

@[simp] theorem runFrom_map (change : α → β) (action : Machine σ α) (s : σ) :
    (change <$> action).runFrom s = ((action.runFrom s).1.map change, (action.runFrom s).2) := by
  rw [map_eq_pure_bind, runFrom_bind]
  rcases action.runFrom s with ⟨_ | _, t⟩ <;> rfl

variable {ε : Type}

/-- The result or the refusal of a computation together with the state that it leaves. -/
def attempt (action : ExceptT ε (Machine σ) α) (start : σ) : Except Fault (Except ε α) × σ :=
  action.run.runFrom start

@[simp] theorem runFrom_run (action : ExceptT ε (Machine σ) α) (s : σ) :
    action.run.runFrom s = attempt action s := rfl

@[simp] theorem attempt_pure (a : α) (s : σ) :
    attempt (pure a : ExceptT ε (Machine σ) α) s = (.ok (.ok a), s) := rfl

@[simp] theorem attempt_throw (cause : ε) (s : σ) :
    attempt (throw cause : ExceptT ε (Machine σ) α) s = (.ok (.error cause), s) := rfl

@[simp] theorem attempt_get (s : σ) :
    attempt (get : ExceptT ε (Machine σ) σ) s = (.ok (.ok s), s) := rfl

@[simp] theorem attempt_modify (change : σ → σ) (s : σ) :
    attempt (modify change : ExceptT ε (Machine σ) PUnit) s = (.ok (.ok ⟨⟩), change s) := rfl

/-- What cannot be refused is not refused. -/
@[simp] theorem attempt_lift (action : Machine σ α) (s : σ) :
    attempt (liftM action : ExceptT ε (Machine σ) α) s =
      ((action.runFrom s).1.map .ok, (action.runFrom s).2) :=
  runFrom_map (β := Except ε α) Except.ok action s

@[simp] theorem attempt_lift_outcome (outcome : Except Fault α) (s : σ) :
    attempt (liftM outcome : ExceptT ε (Machine σ) α) s = (outcome.map .ok, s) :=
  attempt_lift (liftM outcome) s

/-- A computation goes on from the state that its first part leaves, unless that part was refused or
stopped. -/
theorem attempt_bind (action : ExceptT ε (Machine σ) α) (next : α → ExceptT ε (Machine σ) β) (s : σ) :
    attempt (action >>= next) s =
      match attempt action s with
      | (.ok (.ok a), t) => attempt (next a) t
      | (.ok (.error cause), t) => (.ok (.error cause), t)
      | (.error fault, t) => (.error fault, t) := by
  unfold attempt
  rw [ExceptT.run_bind, runFrom_bind]
  rcases action.run.runFrom s with ⟨_ | _ | _, t⟩ <;> rfl

end Machine
end KernelCore
