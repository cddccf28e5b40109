import CilLift.Paths

/-!
What steps that can fail leave behind: a result with a postcondition, or an error that is tolerated.
-/

namespace CilLift

variable {ε σ α β : Type} {tolerates : ε → Prop}

theorem bind_eq_ok {first : Except ε α} {second : α → Except ε β} {result : β} :
    (first >>= second) = .ok result ↔ ∃ middle, first = .ok middle ∧ second middle = .ok result := by
  cases first <;> simp [bind, Except.bind]

theorem exists_of_map {result : Except ε β} {view : β → α} {expected : α}
    (viewed : result.map view = .ok expected) :
    ∃ value, result = .ok value ∧ view value = expected := by
  cases result with
  | error error => cases viewed
  | ok value =>
    cases viewed
    exact ⟨value, rfl, rfl⟩

/-- The computation gives a result that satisfies the postcondition, or a tolerated error. -/
def Yields (tolerates : ε → Prop) (value : Except ε α) (post : α → Prop) : Prop :=
  match value with
  | .ok result => post result
  | .error error => tolerates error

section Yields

variable {value : Except ε α} {post : α → Prop}

@[simp] theorem yields_ok (result : α) : Yields tolerates (.ok result) post ↔ post result := Iff.rfl

@[simp] theorem yields_pure (result : α) : Yields tolerates (pure result) post ↔ post result :=
  Iff.rfl

@[simp] theorem yields_error (error : ε) : Yields tolerates (.error error) post ↔ tolerates error :=
  Iff.rfl

@[simp] theorem yields_bind {first : Except ε β} {second : β → Except ε α} :
    Yields tolerates (first >>= second) post ↔
      Yields tolerates first fun result => Yields tolerates (second result) post := by
  cases first <;> rfl

theorem Yields.mono {weaker : α → Prop} {patient : ε → Prop} (yields : Yields tolerates value post)
    (implies : ∀ result, post result → weaker result)
    (forgives : ∀ error, tolerates error → patient error) : Yields patient value weaker := by
  cases value with
  | ok result => exact implies result yields
  | error error => exact forgives error yields

theorem Yields.andThen {first : Except ε β} {second : β → Except ε α} {middle : β → Prop}
    (yields : Yields tolerates first middle)
    (next : ∀ result, middle result → Yields tolerates (second result) post) :
    Yields tolerates (first >>= second) post :=
  yields_bind.2 (yields.mono next fun _ => id)

theorem Yields.withOutcome (yields : Yields tolerates value post) :
    Yields tolerates value fun result => value = .ok result ∧ post result := by
  cases value with
  | error error => exact yields
  | ok result => exact ⟨rfl, yields⟩

theorem Yields.of_ok {result : α} (yields : Yields tolerates value post)
    (success : value = .ok result) : post result := by
  rwa [success] at yields

end Yields

/-- If the step succeeds, its result and the new state satisfy the postcondition; if it fails, the
error is tolerated. -/
def Ensures (tolerates : ε → Prop) (step : EStateM ε σ α) (state : σ) (post : α → σ → Prop) : Prop :=
  match step state with
  | .ok result next => post result next
  | .error error _ => tolerates error

section Ensures

variable {state : σ} {post : α → σ → Prop} {step : EStateM ε σ α} {second : β → EStateM ε σ α}

theorem Ensures.mono {weaker : α → σ → Prop} (ensured : Ensures tolerates step state post)
    (implies : ∀ result next, post result next → weaker result next) :
    Ensures tolerates step state weaker := by
  unfold Ensures at *
  cases outcome : step state with
  | ok result next =>
    rw [outcome] at ensured
    exact implies result next ensured
  | error error next =>
    rw [outcome] at ensured
    exact ensured

theorem Ensures.forgive {patient : ε → Prop} (ensured : Ensures tolerates step state post)
    (forgives : ∀ error, tolerates error → patient error) : Ensures patient step state post := by
  unfold Ensures at *
  cases outcome : step state with
  | ok result next =>
    rw [outcome] at ensured
    exact ensured
  | error error next =>
    rw [outcome] at ensured
    exact forgives error ensured

theorem Ensures.withOutcome (ensured : Ensures tolerates step state post) :
    Ensures tolerates step state fun result next =>
      step state = .ok result next ∧ post result next := by
  unfold Ensures at *
  cases outcome : step state with
  | ok result next =>
    rw [outcome] at ensured
    exact ⟨rfl, ensured⟩
  | error error next =>
    rw [outcome] at ensured
    exact ensured

theorem Ensures.intro (succeeds : ∀ result next, step state = .ok result next → post result next)
    (fails : ∀ error next, step state = .error error next → tolerates error) :
    Ensures tolerates step state post := by
  unfold Ensures
  cases outcome : step state with
  | ok result next => exact succeeds result next outcome
  | error error next => exact fails error next outcome

theorem Ensures.of_ok {result : α} {next : σ}
    (ensured : Ensures tolerates step state post) (success : step state = .ok result next) :
    post result next := by
  unfold Ensures at ensured
  rwa [success] at ensured

theorem Ensures.of_error {error : ε} {next : σ}
    (ensured : Ensures tolerates step state post) (failure : step state = .error error next) :
    tolerates error := by
  unfold Ensures at ensured
  rwa [failure] at ensured

@[simp] theorem ensures_pure (result : α) :
    Ensures tolerates (pure result : EStateM ε σ α) state post ↔ post result state :=
  Iff.rfl

@[simp] theorem ensures_throw (error : ε) :
    Ensures tolerates (throw error : EStateM ε σ α) state post ↔ tolerates error :=
  Iff.rfl

@[simp] theorem ensures_bind {step : EStateM ε σ β} :
    Ensures tolerates (step >>= second) state post ↔ Ensures tolerates step state fun result next =>
        Ensures tolerates (second result) next post := by
  change (match EStateM.bind step second state with
    | .ok result next => post result next
    | .error error _ => tolerates error) ↔ _
  unfold EStateM.bind Ensures
  cases step state <;> rfl

theorem Ensures.andThen {step : EStateM ε σ β}
    {middle : β → σ → Prop} (ensured : Ensures tolerates step state middle)
    (next : ∀ result next, middle result next → Ensures tolerates (second result) next post) :
    Ensures tolerates (step >>= second) state post :=
  ensures_bind.2 (ensured.mono next)

@[simp] theorem ensures_get {post : σ → σ → Prop} :
    Ensures tolerates (get : EStateM ε σ σ) state post ↔ post state state :=
  Iff.rfl

@[simp] theorem ensures_set {post : PUnit → σ → Prop} (next : σ) :
    Ensures tolerates (set next : EStateM ε σ PUnit) state post ↔ post ⟨⟩ next :=
  Iff.rfl

@[simp] theorem ensures_modifyGet (change : σ → α × σ) :
    Ensures tolerates (modifyGet change : EStateM ε σ α) state post ↔
      post (change state).1 (change state).2 :=
  Iff.rfl

@[simp] theorem ensures_modify {post : PUnit → σ → Prop} (change : σ → σ) :
    Ensures tolerates (modify change : EStateM ε σ PUnit) state post ↔ post ⟨⟩ (change state) :=
  Iff.rfl

theorem andThen_eq_ok {step : EStateM ε σ β} {result : α} {next : σ} :
    (step >>= second) state = .ok result next ↔
      ∃ found middle, step state = .ok found middle ∧ second found middle = .ok result next := by
  change EStateM.bind step second state = _ ↔ _
  unfold EStateM.bind
  cases step state <;> simp [and_assoc]

theorem andThen_of_ok {step : EStateM ε σ β} {found : β} {middle : σ}
    (success : step state = .ok found middle) : (step >>= second) state = second found middle := by
  change EStateM.bind step second state = _
  unfold EStateM.bind
  rw [success]

theorem andThen_of_error {step : EStateM ε σ β} {error : ε} {stuck : σ}
    (failed : step state = .error error stuck) : (step >>= second) state = .error error stuck := by
  change EStateM.bind step second state = _
  unfold EStateM.bind
  rw [failed]

theorem liftM_eq_ok {value : Except Error α} {result : α} {state next : σ} :
    (liftM value : EStateM Error σ α) state = .ok result next ↔ value = .ok result ∧ state = next := by
  cases value with
  | ok found =>
    change (EStateM.Result.ok found state : EStateM.Result Error σ α) = _ ↔ _
    simp
  | error error =>
    change (EStateM.Result.error error state : EStateM.Result Error σ α) = _ ↔ _
    simp

@[simp] theorem ensures_lift {tolerates : Error → Prop} (value : Except Error α) :
    Ensures tolerates (liftM value : EStateM Error σ α) state post ↔
      Yields tolerates value fun result => post result state := by
  cases value <;> rfl

/-- Whether a step gives the result and a state with the property. -/
def gives [DecidableEq α] (step : EStateM ε σ α) (state : σ) (result : α) (property : σ → Prop)
    [DecidablePred property] : Bool :=
  match step state with
  | .ok found next => decide (found = result ∧ property next)
  | .error _ _ => false

theorem exists_of_gives [DecidableEq α] {result : α} {property : σ → Prop}
    [DecidablePred property] (given : gives step state result property = true) :
    ∃ next, step state = .ok result next ∧ property next := by
  unfold gives at given
  split at given
  · rename_i found next outcome
    obtain ⟨rfl, holds⟩ := of_decide_eq_true given
    exact ⟨next, outcome, holds⟩
  · cases given

theorem Ensures.forM {items : List β} {body : β → EStateM ε σ PUnit} (invariant : σ → Prop)
    (preserved : ∀ item ∈ items, ∀ state, invariant state →
      Ensures tolerates (body item) state fun _ next => invariant next) (start : invariant state) :
    Ensures tolerates (items.forM body) state fun _ next => invariant next := by
  induction items generalizing state with
  | nil => simpa using start
  | cons item rest ih =>
    change Ensures tolerates (body item >>= fun _ => rest.forM body) state _
    rw [ensures_bind]
    refine (preserved item (by simp) state start).mono fun _ next held => ?_
    exact ih (fun later mem => preserved later (by simp [mem])) held

end Ensures

end CilLift
