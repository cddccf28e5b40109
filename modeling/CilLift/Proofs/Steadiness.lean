import CilLift.Proofs.Agreement.Execution

/-!
The mark on a machine that keeps its tree out of a cache is touched by calls and constructions only.
-/

namespace CilLift

namespace Machine

variable {α β : Type}

/-- The step does not touch the mark. -/
def Steady (step : Run α) : Prop :=
  ∀ machine result next, step machine = .ok result next → next.notCacheable = machine.notCacheable

theorem steady_pure (result : α) : Steady (pure result) := by
  rintro _ _ _ ⟨⟩
  rfl

theorem steady_throw (error : Error) : Steady (throw error : Run α) := by
  rintro _ _ _ ⟨⟩

theorem steady_lift (value : Except Error α) : Steady (liftM value) := by
  intro machine result next success
  rw [(liftM_eq_ok.1 success).2]

theorem steady_work (step : Work α) : Steady (work step) := by
  intro machine result next success
  unfold work at success
  split at success
  · cases success
    rfl
  · cases success

theorem Steady.andThen {step : Run β} {second : β → Run α} (first : Steady step)
    (next : ∀ result, Steady (second result)) : Steady (step >>= second) := by
  intro machine result final success
  obtain ⟨found, after, stepped, success⟩ := andThen_eq_ok.1 success
  exact (next found after result final success).trans (first machine found after stepped)

theorem steady_of_agrees {step : Run α} (agrees : ∀ mark : Bool, Agrees (fun _ _ => True)
      (Akin Eq fun first second => first = mark ∧ second = mark) step step) : Steady step := by
  intro machine result next success
  have waiting : Label.Waiting Eq machine.waiters machine.waiters :=
    List.forall₂_same.2 fun _ _ => ⟨rfl, rfl⟩
  have agree := agrees machine.notCacheable machine machine ⟨rfl, rfl, waiting, rfl, rfl⟩
  rw [success] at agree
  cases agree with
  | ok akin => exact akin.notCacheable.1

theorem relays_anything (task : Task) : task.Relays fun _ _ => True := by
  have always {α : Type} (value : Except Error α) : Yields (fun _ => True) value fun _ => True := by
    cases value <;> trivial
  exact ⟨fun _ _ _ _ => trivial, fun _ => always _, fun _ => always _, fun _ _ _ _ _ => always _⟩

theorem steady_unsupported (task : Task) (opcode : Opcode) : Steady (unsupported opcode : Run α) :=
  steady_of_agrees fun _ => (relays_anything task).unsupported opcode

theorem steady_push (stack : StackId) (value : Expr) : Steady (push stack value) :=
  steady_work _

theorem steady_pop (task : Task) (stack : StackId) (consumer : String) : Steady (pop stack consumer) :=
  steady_of_agrees fun _ => (relays_anything task).pop stack consumer

theorem steady_popArguments (task : Task) (stack : StackId) (method : Method) :
    Steady (popArguments stack method) :=
  steady_of_agrees fun _ => (relays_anything task).popArguments stack method

theorem steady_popReceiver (task : Task) (stack : StackId) (method : Method) :
    Steady (popReceiver stack method) :=
  steady_of_agrees fun _ => (relays_anything task).popReceiver stack method

theorem steady_step (task : Task) {event : Event}
    (noMethod : ¬∃ opcode method, event = .method opcode method) : Steady (step task event) :=
  steady_of_agrees fun _ => (relays_anything task).stepAkin Label.renaming_eq event.alike_refl
    fun _ opcode method isMethod => absurd ⟨opcode, method, isMethod⟩ noMethod

end Machine

end CilLift
