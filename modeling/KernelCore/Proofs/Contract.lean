import KernelCore.Machine

namespace KernelCore.Machine
variable {σ α β ε : Type} {post : α → σ → Prop} {stopped : σ → Prop}

/-- From the state `s` the computation comes to a result and a state as in `post`, or a fault stops it
in a state as in `stopped`. -/
def Meets (action : Machine σ α) (s : σ) (post : α → σ → Prop) (stopped : σ → Prop) : Prop :=
  match action.runFrom s with
  | (.ok a, t) => post a t
  | (.error _, t) => stopped t

theorem Meets.of_runFrom {action : Machine σ α} {s t : σ} {a : α}
    (ran : action.runFrom s = (.ok a, t)) (holds : post a t) : action.Meets s post stopped := by
  simpa only [Meets, ran] using holds

theorem Meets.result {action : Machine σ α} {s t : σ} {a : α} (meets : action.Meets s post stopped)
    (ran : action.runFrom s = (.ok a, t)) : post a t := by
  simpa only [Meets, ran] using meets

theorem Meets.fault {action : Machine σ α} {s t : σ} {fault : Fault}
    (meets : action.Meets s post stopped) (ran : action.runFrom s = (.error fault, t)) : stopped t := by
  simpa only [Meets, ran] using meets

/-- A computation that no fault can stop comes to a result. -/
theorem Meets.returns {action : Machine σ α} {s : σ} (meets : action.Meets s post stopped)
    (never : ∀ t, ¬stopped t) : ∃ a t, action.runFrom s = (.ok a, t) ∧ post a t := by
  unfold Meets at meets
  rcases ran : action.runFrom s with ⟨_ | a, t⟩
  · simp only [ran] at meets
    exact absurd meets (never t)
  · simp only [ran] at meets
    exact ⟨a, t, rfl, meets⟩

theorem Meets.mono {action : Machine σ α} {s : σ} {post' : α → σ → Prop} {stopped' : σ → Prop}
    (meets : action.Meets s post stopped) (weaken : ∀ a t, post a t → post' a t)
    (excuse : ∀ t, stopped t → stopped' t) : action.Meets s post' stopped' := by
  unfold Meets at *
  rcases ran : action.runFrom s with ⟨_ | a, t⟩
  · simp only [ran] at meets
    exact excuse t meets
  · simp only [ran] at meets
    exact weaken a t meets

theorem Meets.and {action : Machine σ α} {s : σ} {post' : α → σ → Prop} (meets : action.Meets s post stopped)
    (also : action.Meets s post' stopped) : action.Meets s (fun a t => post a t ∧ post' a t) stopped := by
  unfold Meets at *
  rcases ran : action.runFrom s with ⟨_ | a, t⟩
  · simp only [ran] at meets
    exact meets
  · simp only [ran] at meets also
    exact ⟨meets, also⟩

/-- Two contracts at once, each of them about both ends. -/
theorem Meets.both {action : Machine σ α} {s : σ} {post' : α → σ → Prop} {stopped' : σ → Prop}
    (meets : action.Meets s post stopped) (also : action.Meets s post' stopped') :
    action.Meets s (fun a t => post a t ∧ post' a t) fun t => stopped t ∧ stopped' t := by
  unfold Meets at *
  rcases ran : action.runFrom s with ⟨_ | a, t⟩
  · simp only [ran] at meets also
    exact ⟨meets, also⟩
  · simp only [ran] at meets also
    exact ⟨meets, also⟩

/-- A contract without faults serves where faults are excused. -/
theorem Meets.excused {action : Machine σ α} {s : σ} (meets : action.Meets s post fun _ => False) :
    action.Meets s post stopped :=
  meets.mono (fun _ _ => id) fun _ => False.elim

@[simp] theorem meets_pure (a : α) (s : σ) :
    (pure a : Machine σ α).Meets s post stopped ↔ post a s := Iff.rfl

@[simp] theorem meets_throw (fault : Fault) (s : σ) :
    (throw fault : Machine σ α).Meets s post stopped ↔ stopped s := Iff.rfl

@[simp] theorem meets_get (s : σ) {post : σ → σ → Prop} :
    (get : Machine σ σ).Meets s post stopped ↔ post s s := Iff.rfl

@[simp] theorem meets_modify (change : σ → σ) (s : σ) {post : PUnit → σ → Prop} :
    (modify change : Machine σ PUnit).Meets s post stopped ↔ post ⟨⟩ (change s) := Iff.rfl

@[simp] theorem meets_set (s t : σ) {post : PUnit → σ → Prop} :
    (set t : Machine σ PUnit).Meets s post stopped ↔ post ⟨⟩ t := Iff.rfl

theorem meets_lift_ok (a : α) (s : σ) :
    (liftM (Except.ok a : Except Fault α) : Machine σ α).Meets s post stopped ↔ post a s := Iff.rfl

theorem meets_lift_error (fault : Fault) (s : σ) :
    (liftM (Except.error fault : Except Fault α) : Machine σ α).Meets s post stopped ↔ stopped s :=
  Iff.rfl

/-- What follows a first part starts where that part ended. -/
theorem meets_bind (action : Machine σ α) (next : α → Machine σ β) (s : σ) {post : β → σ → Prop} :
    (action >>= next).Meets s post stopped ↔
      action.Meets s (fun a t => (next a).Meets t post stopped) stopped := by
  unfold Meets
  rw [runFrom_bind]
  rcases action.runFrom s with ⟨_ | _, _⟩ <;> rfl

theorem Meets.bind {action : Machine σ α} {next : α → Machine σ β} {s : σ} {post : β → σ → Prop}
    {mid : α → σ → Prop} (first : action.Meets s mid stopped)
    (rest : ∀ a t, mid a t → (next a).Meets t post stopped) :
    (action >>= next).Meets s post stopped :=
  (meets_bind action next s).mpr (first.mono rest fun _ => id)

/-- From the state `s` the computation comes to a result and a state as in `post`, or a fault other than `fault`
stops it. -/
def Avoids (fault : Fault) (action : Machine σ α) (s : σ) (post : α → σ → Prop) : Prop :=
  match action.runFrom s with
  | (.ok a, t) => post a t
  | (.error other, _) => other ≠ fault

variable {fault : Fault}

theorem Avoids.ne {action : Machine σ α} {s : σ} (avoids : action.Avoids fault s post) :
    (action.runFrom s).1 ≠ .error fault := by
  unfold Avoids at avoids
  rcases ran : action.runFrom s with ⟨other | a, t⟩
  · simp only [ran] at avoids
    exact fun same => avoids (Except.error.inj same)
  · simp

theorem Avoids.mono {action : Machine σ α} {s : σ} {post' : α → σ → Prop} (avoids : action.Avoids fault s post)
    (weaken : ∀ a t, post a t → post' a t) : action.Avoids fault s post' := by
  unfold Avoids at *
  rcases ran : action.runFrom s with ⟨other | a, t⟩
  · simpa only [ran] using avoids
  · simp only [ran] at avoids
    exact weaken a t avoids

/-- A computation that no fault can stop is not stopped by this one. -/
theorem Meets.avoids {action : Machine σ α} {s : σ} (meets : action.Meets s post fun _ => False) :
    action.Avoids fault s post := by
  unfold Meets at meets
  unfold Avoids
  rcases ran : action.runFrom s with ⟨other | a, t⟩
  · simp only [ran] at meets
  · simpa only [ran] using meets

@[simp] theorem avoids_pure (a : α) (s : σ) : (pure a : Machine σ α).Avoids fault s post ↔ post a s := Iff.rfl

@[simp] theorem avoids_get (s : σ) {post : σ → σ → Prop} :
    (get : Machine σ σ).Avoids fault s post ↔ post s s := Iff.rfl

theorem avoids_bind (action : Machine σ α) (next : α → Machine σ β) (s : σ) {post : β → σ → Prop} :
    (action >>= next).Avoids fault s post ↔ action.Avoids fault s fun a t => (next a).Avoids fault t post := by
  unfold Avoids
  rw [runFrom_bind]
  rcases action.runFrom s with ⟨_ | _, _⟩ <;> rfl

theorem avoids_bind_of_runFrom {action : Machine σ α} {a : α} {s t : σ} (ran : action.runFrom s = (.ok a, t))
    (next : α → Machine σ β) {post : β → σ → Prop} :
    (action >>= next).Avoids fault s post ↔ (next a).Avoids fault t post := by
  unfold Avoids
  rw [runFrom_bind, ran]

theorem Avoids.bind {action : Machine σ α} {next : α → Machine σ β} {s : σ} {post : β → σ → Prop}
    {mid : α → σ → Prop} (first : action.Avoids fault s mid)
    (rest : ∀ a t, mid a t → (next a).Avoids fault t post) : (action >>= next).Avoids fault s post :=
  (avoids_bind action next s).mpr (first.mono rest)

/-- A computation may start with what no fault can stop. -/
theorem Meets.bind_avoids {action : Machine σ α} {next : α → Machine σ β} {s : σ} {post : β → σ → Prop}
    {mid : α → σ → Prop} (first : action.Meets s mid fun _ => False)
    (rest : ∀ a t, mid a t → (next a).Avoids fault t post) : (action >>= next).Avoids fault s post :=
  first.avoids.bind rest

theorem avoids_lift {outcome : Except Fault α} {s : σ} (avoids : outcome ≠ .error fault)
    (holds : ∀ a, outcome = .ok a → post a s) : (liftM outcome : Machine σ α).Avoids fault s post := by
  unfold Avoids
  rw [runFrom_lift]
  cases outcome with
  | error other => exact fun same => avoids (congrArg Except.error same)
  | ok a => exact holds a rfl

/-- From the state `s` the computation is stopped by this fault. -/
def Stops (fault : Fault) (action : Machine σ α) (s : σ) : Prop := (action.runFrom s).1 = .error fault

/-- What follows is not reached. -/
theorem Stops.bind {action : Machine σ α} {s : σ} (stops : action.Stops fault s) (next : α → Machine σ β) :
    (action >>= next).Stops fault s := by
  unfold Stops at stops ⊢
  rw [runFrom_bind]
  rcases ran : action.runFrom s with ⟨other | a, t⟩
  · rw [ran] at stops
    exact congrArg Except.error (Except.error.inj stops)
  · simp [ran] at stops

theorem stops_bind_of_runFrom {action : Machine σ α} {a : α} {s t : σ} (ran : action.runFrom s = (.ok a, t))
    (next : α → Machine σ β) : (action >>= next).Stops fault s ↔ (next a).Stops fault t := by
  unfold Stops
  rw [runFrom_bind, ran]

theorem Meets.bind_stops {action : Machine σ α} {next : α → Machine σ β} {s : σ} {mid : α → σ → Prop}
    (first : action.Meets s mid fun _ => False) (rest : ∀ a t, mid a t → (next a).Stops fault t) :
    (action >>= next).Stops fault s := by
  obtain ⟨a, t, ran, holds⟩ := first.returns fun _ => id
  exact (stops_bind_of_runFrom ran next).mpr (rest a t holds)

theorem runFrom_eq_of_outcome {action : Machine σ α} {s : σ} {outcome : Except Fault α}
    (comes : (action.runFrom s).1 = outcome) : action.runFrom s = (outcome, (action.runFrom s).2) := by
  rw [← comes]

theorem exists_of_toBool {action : Machine σ α} {s : σ} (comes : (action.runFrom s).1.toBool = true) :
    ∃ a, action.runFrom s = (.ok a, (action.runFrom s).2) := by
  rcases ran : action.runFrom s with ⟨_ | a, t⟩
  · simp [ran, Except.toBool] at comes
  · exact ⟨a, rfl⟩

/-- After work that can be refused one thing holds with the refusal, and another with the result. -/
def Splits (refused : ε → σ → Prop) (done : α → σ → Prop) : Except ε α → σ → Prop
  | .error cause => refused cause
  | .ok a => done a

/-- The same may hold with both. -/
theorem Meets.splits {action : Machine σ (Except ε α)} {s : σ} {post : σ → Prop}
    (meets : action.Meets s (fun _ => post) stopped) :
    action.Meets s (Splits (fun _ => post) fun _ => post) stopped :=
  meets.mono (fun result _ holds => by cases result <;> exact holds) fun _ => id

theorem Meets.merged {action : Machine σ (Except ε α)} {s : σ} {post : σ → Prop}
    (meets : action.Meets s (Splits (fun _ => post) fun _ => post) stopped) :
    action.Meets s (fun _ => post) stopped :=
  meets.mono (fun result _ holds => by cases result <;> exact holds) fun _ => id

theorem attempt_eq_of_outcome {action : ExceptT ε (Machine σ) α} {s : σ} {outcome : Except Fault (Except ε α)}
    (comes : (attempt action s).1 = outcome) : attempt action s = (outcome, (attempt action s).2) :=
  runFrom_eq_of_outcome comes

/-- What follows a first part that can be refused starts where that part ended, unless it was. -/
theorem meets_run_bind (action : ExceptT ε (Machine σ) α) (next : α → ExceptT ε (Machine σ) β) (s : σ)
    {post : Except ε β → σ → Prop} :
    (action >>= next).run.Meets s post stopped ↔
      action.run.Meets s (fun result t =>
        match result with
        | .ok a => (next a).run.Meets t post stopped
        | .error cause => post (.error cause) t) stopped := by
  unfold Meets
  simp only [runFrom_run, attempt_bind]
  rcases attempt action s with ⟨_ | _ | _, _⟩ <;> rfl

theorem Meets.run_bind {action : ExceptT ε (Machine σ) α} {next : α → ExceptT ε (Machine σ) β} {s : σ}
    {mid : Except ε α → σ → Prop} {post : Except ε β → σ → Prop} (first : action.run.Meets s mid stopped)
    (rest : ∀ a t, mid (.ok a) t → (next a).run.Meets t post stopped)
    (refused : ∀ cause t, mid (.error cause) t → post (.error cause) t) :
    (action >>= next).run.Meets s post stopped := by
  rw [meets_run_bind]
  refine first.mono ?_ fun _ => id
  rintro (cause | a) t holds
  · exact refused cause t holds
  · exact rest a t holds

theorem meets_run_bind_of_attempt {action : ExceptT ε (Machine σ) α} {a : α} {s t : σ}
    (first : attempt action s = (.ok (.ok a), t)) (next : α → ExceptT ε (Machine σ) β)
    {post : Except ε β → σ → Prop} :
    (action >>= next).run.Meets s post stopped ↔ (next a).run.Meets t post stopped := by
  unfold Meets
  rw [runFrom_run, attempt_bind, first]
  rfl

@[simp] theorem meets_run_map (change : α → β) (action : ExceptT ε (Machine σ) α) (s : σ)
    {post : Except ε β → σ → Prop} :
    (change <$> action).run.Meets s post stopped ↔
      action.run.Meets s (fun result => post (result.map change)) stopped := by
  rw [map_eq_pure_bind, meets_run_bind]
  unfold Meets
  rcases action.run.runFrom s with ⟨_ | _ | _, _⟩ <;> rfl

@[simp] theorem meets_run_pure (a : α) (s : σ) {post : Except ε α → σ → Prop} :
    (pure a : ExceptT ε (Machine σ) α).run.Meets s post stopped ↔ post (.ok a) s := Iff.rfl

@[simp] theorem meets_run_throw (cause : ε) (s : σ) {post : Except ε α → σ → Prop} :
    (throw cause : ExceptT ε (Machine σ) α).run.Meets s post stopped ↔ post (.error cause) s := Iff.rfl

@[simp] theorem meets_run_get (s : σ) {post : Except ε σ → σ → Prop} :
    (get : ExceptT ε (Machine σ) σ).run.Meets s post stopped ↔ post (.ok s) s := Iff.rfl

theorem meets_run_congr {action other : ExceptT ε (Machine σ) α} {s : σ} (same : attempt action s = attempt other s)
    {post : Except ε α → σ → Prop} : action.run.Meets s post stopped ↔ other.run.Meets s post stopped := by
  unfold Meets
  rw [runFrom_run, runFrom_run, same]

theorem meets_run_bind_ok (a : α) (next : α → ExceptT ε (Machine σ) β) (s : σ) {post : Except ε β → σ → Prop} :
    ((liftM (Except.ok a : Except Fault α) : ExceptT ε (Machine σ) α) >>= next).run.Meets s post stopped ↔
      (next a).run.Meets s post stopped :=
  meets_run_bind_of_attempt (attempt_lift_outcome (.ok a) s) next

/-- What cannot be refused is not refused. -/
@[simp] theorem meets_run_lift (action : Machine σ α) (s : σ) {post : Except ε α → σ → Prop} :
    (liftM action : ExceptT ε (Machine σ) α).run.Meets s post stopped ↔
      action.Meets s (fun a => post (.ok a)) stopped := by
  unfold Meets
  simp only [runFrom_run, attempt_lift]
  rcases action.runFrom s with ⟨_ | _, _⟩ <;> rfl

theorem avoids_run_lift {fault : Fault} (action : Machine σ α) (s : σ) {post : Except ε α → σ → Prop} :
    (liftM action : ExceptT ε (Machine σ) α).run.Avoids fault s post ↔
      action.Avoids fault s (fun a => post (.ok a)) := by
  unfold Avoids
  simp only [runFrom_run, attempt_lift]
  rcases action.runFrom s with ⟨_ | _, _⟩ <;> rfl

theorem avoids_run_of_attempt {fault : Fault} {action : ExceptT ε (Machine σ) α} {s t : σ} {result : Except ε α}
    (ran : attempt action s = (.ok result, t)) {post : Except ε α → σ → Prop} (holds : post result t) :
    action.run.Avoids fault s post := by
  unfold Avoids
  rw [runFrom_run, ran]
  exact holds

theorem avoids_run_bind_of_attempt {fault : Fault} {action : ExceptT ε (Machine σ) α} {a : α} {s t : σ}
    (first : attempt action s = (.ok (.ok a), t)) (next : α → ExceptT ε (Machine σ) β)
    {post : Except ε β → σ → Prop} :
    (action >>= next).run.Avoids fault s post ↔ (next a).run.Avoids fault t post := by
  unfold Avoids
  rw [runFrom_run, attempt_bind, first]
  rfl

theorem Avoids.run_bind {fault : Fault} {action : ExceptT ε (Machine σ) α} {next : α → ExceptT ε (Machine σ) β} {s : σ}
    {mid : Except ε α → σ → Prop} {post : Except ε β → σ → Prop} (first : action.run.Avoids fault s mid)
    (rest : ∀ a t, mid (.ok a) t → (next a).run.Avoids fault t post)
    (refused : ∀ cause t, mid (.error cause) t → post (.error cause) t) :
    (action >>= next).run.Avoids fault s post := by
  unfold Avoids at first ⊢
  rw [runFrom_run] at first ⊢
  rw [attempt_bind]
  rcases ran : attempt action s with ⟨other | cause | a, t⟩
  · simpa only [ran] using first
  · simp only [ran] at first
    exact refused cause t first
  · simp only [ran] at first
    exact rest a t first

theorem avoids_run_congr {fault : Fault} {action other : ExceptT ε (Machine σ) α} {s : σ}
    (same : attempt action s = attempt other s) {post : Except ε α → σ → Prop} :
    action.run.Avoids fault s post ↔ other.run.Avoids fault s post := by
  unfold Avoids
  rw [runFrom_run, runFrom_run, same]

theorem meets_run_lift_outcome (outcome : Except Fault α) (s : σ) {post : Except ε α → σ → Prop} :
    (liftM outcome : ExceptT ε (Machine σ) α).run.Meets s post stopped ↔
      match outcome with
      | .ok a => post (.ok a) s
      | .error _ => stopped s := by
  unfold Meets
  rw [runFrom_run, attempt_lift_outcome]
  cases outcome <;> rfl

end KernelCore.Machine
