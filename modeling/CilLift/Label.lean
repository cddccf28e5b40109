import CilLift.Text.Hex

/-! Labels: the places in a body where control flow can join. -/

namespace CilLift

/-- A code offset in 32 bits; the largest value stands for the end of the method. -/
structure Label where
  value : UInt32
  deriving DecidableEq, Repr, Inhabited

namespace Label

def finish : Label := ⟨0xFFFFFFFF⟩

/-- The label of an offset, of which the low 32 bits count. -/
def ofOffset (offset : Nat) : Label := ⟨offset.toUInt32⟩

def isFinish (label : Label) : Bool := label == finish

def offset? (label : Label) : Option Nat :=
  if label.isFinish then none else some label.value.toNat

def text (label : Label) : String :=
  if label.isFinish then "FINISH" else "IL_" ++ Text.hex 4 label.value.toNat

def description (label : Label) : String :=
  s!"Label({label.text})"

/-- Labels are ordered by offset, the end of the method last. -/
def order (first second : Label) : Ordering :=
  compare first.value second.value

end Label

end CilLift
