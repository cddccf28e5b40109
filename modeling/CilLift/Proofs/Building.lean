import CilLift.Proofs.Making
import CilLift.Proofs.Nodes

/-!
A property that is carried from the operands of a new node to the node is carried through
everything that builds trees.
-/

namespace CilLift

open List

variable {arguments : List Expr}

namespace Expr

theorem operands_of_isPlain {expr : Expr} (isPlain : expr.isPlain = true) :
    expr.operands = expr.children := by
  cases expr <;> first | rfl | cases isPlain

/-- A property of trees that a new node has with its operands, and that its operands then have. -/
structure Closed (sound : Expr → Prop) : Prop where
  build : ∀ expr : Expr, expr.id? = none → expr.isPlain = true →
    (∀ operand ∈ expr.children, sound operand) → sound expr
  part : ∀ expr : Expr, expr.isPlain = true → sound expr → ∀ operand ∈ expr.children, sound operand

namespace Closed

variable {sound : Expr → Prop} (closed : Closed sound)

include closed

/-! New nodes. -/

theorem mkConstant (value : Constant) (type : TypeSig) : sound (mkConstant value type) :=
  closed.build _ rfl rfl (by simp [Expr.mkConstant, children])

theorem mkNew (constructor : Method) (areSound : ∀ argument ∈ arguments, sound argument) :
    sound (mkNew constructor arguments) :=
  closed.build _ rfl rfl areSound

theorem mkCall {receiver : Option Expr} (method : Method)
    (receiverSound : ∀ node, receiver = some node → sound node)
    (areSound : ∀ argument ∈ arguments, sound argument) :
    sound (mkCall receiver method arguments) := by
  refine closed.build _ rfl rfl ?_
  simp only [Expr.mkCall, children, mem_append, Option.mem_toList]
  rintro operand (isReceiver | mem)
  · exact receiverSound operand isReceiver
  · exact areSound operand mem

theorem mkInvoke {target : Expr} (type : TypeSig) (targetSound : sound target)
    (areSound : ∀ argument ∈ arguments, sound argument) :
    sound (mkInvoke target arguments type) := by
  refine closed.build _ rfl rfl ?_
  simp only [Expr.mkInvoke, children, mem_cons]
  rintro operand (rfl | mem)
  · exact targetSound
  · exact areSound operand mem

/-! What builders return. -/

/-- Trees without the property weigh more than all others together. -/
theorem weighed [DecidablePred sound] : Weighed fun expr => if sound expr then 0 else ⊤ := by
  refine ⟨fun expr isNew isOperator => ?_, fun expr isOperator => ?_⟩
  · by_cases operands : ∀ operand ∈ expr.children, sound operand
    · simp [closed.build expr isNew (isPlain_of_isOperator isOperator) operands]
    · obtain ⟨operand, mem, unsound⟩ : ∃ operand ∈ expr.children, ¬sound operand := by
        simpa using operands
      have heavy := single_le_sum (fun _ _ => zero_le) _
        (mem_map_of_mem (f := fun expr => if sound expr then (0 : ℕ∞) else ⊤) mem)
      simp only [unsound, if_false, top_le_iff] at heavy
      rw [heavy]
      exact le_top
  · by_cases isSound : sound expr
    · have none : ∀ weight ∈ expr.children.map fun expr => if sound expr then (0 : ℕ∞) else ⊤,
          weight = 0 := by
        simp only [mem_map]
        rintro _ ⟨operand, mem, rfl⟩
        simp [closed.part expr (isPlain_of_isOperator isOperator) isSound operand mem]
      rw [sum_eq_zero none]
      exact zero_le
    · simp [isSound]

theorem made {parts : List Expr} {expr : Expr} (made : MadeOf parts expr)
    (areSound : ∀ part ∈ parts, sound part) : sound expr := by
  classical
  have light := made _ closed.weighed
  have none : ∀ weight ∈ parts.map fun expr => if sound expr then (0 : ℕ∞) else ⊤, weight = 0 := by
    simp only [mem_map]
    rintro _ ⟨part, mem, rfl⟩
    simp [areSound part mem]
  rw [sum_eq_zero none] at light
  by_contra unsound
  simp [unsound] at light

variable {value : Except Error Expr}

theorem yields {parts : List Expr} (forms : Forms parts value)
    (areSound : ∀ part ∈ parts, sound part) : Yields Error.IsAnswer value sound :=
  forms.mono (fun _ made => closed.made made areSound) fun _ => Error.IsFault.isAnswer

theorem yieldsOfOne {operand : Expr} (forms : Forms [operand] value) (isSound : sound operand) :
    Yields Error.IsAnswer value sound :=
  closed.yields forms (by simpa using isSound)

end Closed

end Expr

end CilLift
