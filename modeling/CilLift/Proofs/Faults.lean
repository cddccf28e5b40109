import CilLift.Event
import CilLift.Proofs.Outcome

/-! Which errors reading a code and naming its members can fail with. -/

namespace CilLift

open Instruction

/-- The error tells what is wrong with a code or with the tokens in it. -/
def Error.IsOfCode : Error → Prop
  | .unsupportedInstruction .. | .backwardBranch .. | .shape _ | .resolution _ | .outOfBounds => True
  | _ => False

/-- A property of readings: the least steps have it, and it is kept where one step follows another. -/
structure Read.Law (law : ∀ {α : Type}, Read α → Prop) : Prop where
  pure : ∀ {α : Type} (result : α), law (Pure.pure result)
  throw : ∀ {α : Type} {error : Error}, error.IsOfCode → law (MonadExcept.throw error : Read α)
  andThen : ∀ {α β : Type} {read : Read β} {second : β → Read α}, law read →
    (∀ result, law (second result)) → law (read >>= second)
  /-- Reading may look at the place of the cursor and at the length of the code. -/
  inspect : ∀ {α : Type} (second : Nat → Nat → Read α),
    (∀ position length, law (second position length)) →
      law (get >>= fun cursor => second cursor.position cursor.data.length)
  readNumber : ∀ width, law (Cursor.readNumber width)

namespace Read.Law

variable {law : ∀ {α : Type}, Read α → Prop} (laws : Law law) (offset : Nat)

include laws

theorem readTarget (distance : Int) : law (readTarget offset distance) := by
  refine laws.inspect (fun position length => if (position : Int) + distance ≤ offset
    then MonadExcept.throw (.backwardBranch offset ((position : Int) + distance).toNat)
    else if length < ((position : Int) + distance).toNat then MonadExcept.throw .outOfBounds
    else Pure.pure (Label.ofOffset ((position : Int) + distance).toNat)) fun position length => ?_
  split
  · exact laws.throw trivial
  · split
    · exact laws.throw trivial
    · exact laws.pure _

theorem number {α : Type} (width : Nat) (convert : Nat → α) :
    law (do return convert (← Cursor.readNumber width)) :=
  laws.andThen (laws.readNumber width) fun _ => laws.pure _

theorem readDistances (count : Nat) : law (readDistances count) := by
  induction count with
  | zero => exact laws.pure _
  | succ count ih =>
    exact laws.andThen (laws.number 4 _) fun _ =>
      laws.andThen ih fun _ => laws.pure _

theorem relativeOperand (opcode : Opcode) (value : Int32) :
    law (relativeOperand offset opcode value) := by
  unfold CilLift.relativeOperand
  split
  · exact laws.andThen (laws.readTarget offset value.toInt) fun _ => laws.pure _
  · exact laws.pure _

theorem readOperand (opcode : Opcode) : law (readOperand offset opcode) := by
  have number : ∀ {α : Type} (width : Nat) (convert : Nat → α) {second : α → Read Operand},
      (∀ result, law (second result)) →
        law ((do return convert (← Cursor.readNumber width)) >>= second) :=
    fun width convert _ => laws.andThen (laws.number width convert)
  unfold CilLift.readOperand
  split
  · exact laws.pure _
  · exact number 1 _ fun _ => laws.relativeOperand offset opcode _
  · refine number 1 _ fun _ => ?_
    split <;> exact laws.pure _
  · exact number 2 _ fun _ => laws.pure _
  · exact number 4 _ fun _ => laws.relativeOperand offset opcode _
  · exact number 8 _ fun _ => laws.pure _
  · exact number 4 _ fun _ => laws.pure _
  · exact number 8 _ fun _ => laws.pure _
  · exact number 4 _ fun _ => laws.pure _
  · exact number 4 _ fun count => laws.andThen (laws.readDistances count.toNat) fun _ => laws.pure _

theorem readOpcode : law (readOpcode offset) := by
  have known : ∀ found, law (knownOpcode offset found) := by
    intro found
    cases found with
    | some opcode => exact laws.pure _
    | none => exact laws.throw trivial
  have byte : law Cursor.readUInt8 := laws.number 1 _
  refine laws.andThen byte fun first => ?_
  split
  · exact laws.andThen byte fun _ => known _
  · exact known _

theorem readInstruction : law readInstruction := by
  have made (offset : Nat) (opcode : Opcode) (operand : Operand) : law (do
      return ({ offset, size := (← get).position - offset, opcode, operand } : Instruction)) :=
    laws.inspect (fun position _ => Pure.pure (Instruction.mk offset (position - offset) opcode operand))
      fun _ _ => laws.pure _
  have placed (offset : Nat) := laws.andThen (laws.readOpcode offset) fun opcode =>
      laws.andThen (laws.readOperand offset opcode) fun operand => made offset opcode operand
  exact laws.inspect _ fun offset _ => placed offset

end Read.Law

/-- Reading succeeds, or fails for what stands in the code. -/
def Read.FailsForCode {α : Type} (read : Read α) : Prop :=
  ∀ cursor, Ensures Error.IsOfCode read cursor fun _ _ => True

theorem Read.law_failsForCode : Law FailsForCode where
  pure _ _ := trivial
  throw isOfCode _ := isOfCode
  andThen first next cursor := (first cursor).andThen fun result after _ => next result after
  inspect _ next cursor := ensures_bind.2 (ensures_get.2 (next _ _ cursor))
  readNumber width cursor := by
    unfold Ensures Cursor.readNumber
    dsimp only
    split
    · trivial
    · rename_i failed
      split at failed
      · cases failed
      · cases failed
        trivial

/-- An instruction has an event, or it fails for what stands in the code or as its token does. -/
theorem Instruction.event_yields {resolver : Resolver} {context : Instantiation}
    {tolerates : Error → Prop} (ofCode : ∀ error : Error, error.IsOfCode → tolerates error)
    (resolves : ∀ token, Yields tolerates (resolver.resolve token context) fun _ => True)
    (instruction : Instruction) :
    Yields tolerates (instruction.event resolver context) fun _ => True := by
  have mismatched : tolerates instruction.mismatch := ofCode _ trivial
  have wrongKind : ∀ (found : Member) token expected, tolerates (found.wrongKind token expected) :=
    fun _ _ _ => ofCode _ trivial
  have mem : Yields tolerates (instruction.member resolver context) fun _ => True := by
    refine Yields.andThen (?_ : Yields tolerates instruction.token fun _ => True) fun _ _ => ?_
    · unfold token
      split
      · trivial
      · exact mismatched
    · exact (resolves _).andThen fun _ _ => trivial
  have literal : Yields tolerates (instruction.literal resolver context) fun _ => True := by
    unfold literal
    split
    · trivial
    · split
      · trivial
      · refine (resolves _).andThen fun mem _ => ?_
        cases mem <;> first | trivial | exact wrongKind _ _ _
      all_goals trivial
  unfold event
  dsimp only
  split
  · trivial
  · exact ofCode _ trivial
  · trivial
  · trivial
  · exact literal.andThen fun _ _ => trivial
  · unfold slot
    split
    · trivial
    · trivial
    · exact mismatched
  · unfold target
    split
    · trivial
    · exact mismatched
  all_goals
    refine mem.andThen fun found _ => ?_
    obtain ⟨found, token⟩ := found
    cases found <;> first | trivial | exact wrongKind _ _ _

/-- The events of a body end with it, or with a failure for what stands in the code or of a token. -/
theorem Trace.failure_tolerated {resolver : Resolver} {context : Instantiation}
    {tolerates : Error → Prop} (ofCode : ∀ error : Error, error.IsOfCode → tolerates error)
    (resolves : ∀ token, Yields tolerates (resolver.resolve token context) fun _ => True)
    {body : MethodBody} {error : Error}
    (failed : (ofBody resolver context body).failure = some error) : tolerates error := by
  unfold ofBody at failed
  generalize body.code.length = limit at failed
  generalize ({ data := body.code } : Cursor) = cursor at failed
  generalize ([] : List Nat) = labels at failed
  induction limit generalizing labels cursor with
  | zero => cases failed
  | succ limit ih =>
    rw [readFrom] at failed
    split at failed
    · split at failed
      · rename_i outcome
        cases failed
        exact ofCode _ ((Read.law_failsForCode.readInstruction cursor).of_error outcome)
      · rename_i instruction next _
        have answered := event_yields ofCode resolves instruction
        split at failed
        · rename_i outcome
          cases failed
          rw [outcome] at answered
          exact answered
        · exact ih _ _ failed
    · cases failed

end CilLift
