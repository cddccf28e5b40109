import CilLift.Machine

/-! Casts, boxes, type tests and new arrays. -/

namespace CilLift

namespace Machine

/-- An array of a known length, every element of which is the one zero of its type. -/
def newArray (stack : StackId) (element : TypeSig) : Run Unit := do
  let length ← pop stack "newarr"
  match int32Literal? length with
  | none => malformed fun offset => .arrayLengthNotConstant offset length.text
  | some count =>
    if 0 ≤ count then
      let zero ← work (Work.place (.zeroOf element))
      push stack (.mkArray element (List.replicate count.toNat zero))
    else malformed .arrayLengthNegative

def boxed (value : Expr) : Expr :=
  if value.type.isValueType then .mkConvert value .object else value

def runType (stack : StackId) (opcode : Opcode) (type : TypeSig) : Run Unit :=
  match opcode with
  | .box => unary stack "box" fun value => .ok (boxed value)
  | .castclass | .unbox | .constrained => unary stack "cast" fun value => value.convert type
  | .unboxAny =>
    unary stack "unbox.any" fun value => do return .mkConvert (← value.coerce .object) type
  | .isinst => unary stack "isinst" fun value => .ok (.mkTypeIs value type)
  | .initobj => do
    let _ ← pop stack "initobj"
  | .newarr => newArray stack type
  | other => unsupported other

end Machine

end CilLift
