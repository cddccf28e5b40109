import CilLift.Member
import CilLift.TypeSig.Description

/-! What a caller can choose about lifting, and how the choices are shown. -/

namespace CilLift

/-- A predicate on methods; two predicates are told apart by their identity alone. -/
structure CallPredicate where
  identity : Nat
  holds : Method → Bool

structure Options where
  /-- What the names of variables begin with. -/
  variableStem : String := "V_"
  /-- Decides jumps on references without a test: delegates count as absent, others as present. -/
  foldReferenceTests : Bool := false
  /-- Lifts the bodies of delegates along. -/
  inlineDelegates : Bool := true
  /-- Returns the value of a variable that is only assigned and returned. -/
  inlineTrailing : Bool := true
  /-- Calls that may be repeated. -/
  pureCalls : Option CallPredicate := none

/-- Nothing is folded and nothing is inlined. -/
def Options.strict : Options :=
  { foldReferenceTests := false, inlineDelegates := false, inlineTrailing := false }

def Options.isPureCall (options : Options) (method : Method) : Bool :=
  match options.pureCalls with
  | some predicate => predicate.holds method
  | none => false

def Options.description (options : Options) : String :=
  Text.record "DecompileOptions" [
    s!"variable_prefix: {Text.quote options.variableStem}",
    s!"fold_reference_tests: {Text.truth options.foldReferenceTests}",
    s!"inline_delegates: {Text.truth options.inlineDelegates}",
    s!"inline_trailing_variable: {Text.truth options.inlineTrailing}",
    s!"pure_call: {Text.truth options.pureCalls.isSome}"]

end CilLift
