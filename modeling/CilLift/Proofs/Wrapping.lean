import CilLift.Proofs.Numbers
import Mathlib.Data.Int.Lemmas
import Mathlib.Data.Int.ModEq

/-!
Wrap-around arithmetic in two types. An operator on numbers of one type carries over to another type
if computing with the converted numbers gives the converted outcome.
-/

namespace CilLift

open Int

namespace IntegerType

variable {type source target : IntegerType} {first second number : Int}
  (combine : Bool → Bool → Bool)

/-- The number is one of the type. -/
def Holds (type : IntegerType) (number : Int) : Prop := type.wrap number = number

theorem wrap_modEq (type : IntegerType) (number : Int) :
    type.wrap number ≡ number [ZMOD twoTo type.bits] := by
  unfold wrap
  split
  · exact bmod_emod
  · exact emod_emod ..

theorem wrap_congr (agree : first ≡ second [ZMOD twoTo type.bits]) :
    type.wrap first = type.wrap second := by
  unfold wrap
  split
  · rw [← emod_bmod first, ← emod_bmod second]
    exact congrArg (bmod · _) agree
  · exact agree

theorem wrap_wrap_of_le (narrow : target.bits ≤ source.bits) (number : Int) :
    target.wrap (source.wrap number) = target.wrap number := by
  refine wrap_congr ((source.wrap_modEq number).of_dvd ?_)
  exact natCast_dvd_natCast.2 (pow_dvd_pow 2 narrow)

theorem holds_iff_div : type.Holds number ↔
    if type.isSigned then number / twoTo (type.bits - 1) = 0 ∨ number / twoTo (type.bits - 1) = -1
    else number / twoTo type.bits = 0 := by
  have isEmod : ∀ divisor, number.emod divisor = number % divisor := fun _ => rfl
  cases type <;> simp [Holds, wrap, isSigned, bits, bmod_def, isEmod] <;> omega

theorem Holds.of_between (holds : type.Holds number)
    (between : 0 ≤ first ∧ first ≤ number ∨ number ≤ first ∧ first ≤ 0) : type.Holds first := by
  rw [holds_iff_div] at holds ⊢
  cases type <;> simp [isSigned, bits] at holds ⊢ <;> omega

theorem twoTo_succ (width : Nat) : (twoTo (width + 1) : Int) = 2 * (twoTo width : Int) := by
  rw [mul_comm]
  rfl

theorem bit_modEq_iff {low other : Bool} {width : Nat} :
    bit low first ≡ bit other second [ZMOD twoTo (width + 1)] ↔
      low = other ∧ first ≡ second [ZMOD twoTo width] := by
  rw [twoTo_succ, modEq_iff_dvd, modEq_iff_dvd, bit_val, bit_val]
  constructor
  · rintro ⟨quotient, isQuotient⟩
    rw [mul_assoc] at isQuotient
    refine ⟨?_, quotient, ?_⟩ <;> cases low <;> cases other <;> simp_all <;> omega
  · rintro ⟨rfl, quotient, isQuotient⟩
    refine ⟨quotient, ?_⟩
    rw [mul_assoc]
    omega

theorem bitwise_modEq {newFirst newSecond : Int} {width : Nat}
    (agreeFirst : newFirst ≡ first [ZMOD twoTo width])
    (agreeSecond : newSecond ≡ second [ZMOD twoTo width]) :
    bitwise combine newFirst newSecond ≡ bitwise combine first second [ZMOD twoTo width] := by
  induction width generalizing first second newFirst newSecond with
  | zero => exact modEq_one
  | succ width ih =>
    rw [← bit_decomp first, ← bit_decomp newFirst, bit_modEq_iff] at agreeFirst
    rw [← bit_decomp second, ← bit_decomp newSecond, bit_modEq_iff] at agreeSecond
    rw [← bit_decomp first, ← bit_decomp newFirst, ← bit_decomp second,
      ← bit_decomp newSecond, bitwise_bit, bitwise_bit, bit_modEq_iff]
    exact ⟨congrArg₂ combine agreeFirst.1 agreeSecond.1, ih agreeFirst.2 agreeSecond.2⟩

theorem bitwise_div (first second : Int) (width : Nat) :
    bitwise combine first second / twoTo width =
      bitwise combine (first / twoTo width) (second / twoTo width) := by
  induction width generalizing first second with
  | zero => simp
  | succ width ih =>
    have halved : ∀ number : Int, number / twoTo (width + 1) = number.div2 / twoTo width := by
      intro number
      rw [twoTo_succ, div2_val, ediv_ediv_of_nonneg (by decide)]
    have isHalf : (bitwise combine first second).div2 = bitwise combine first.div2 second.div2 := by
      conv => lhs; rw [← bit_decomp first, ← bit_decomp second]
      rw [bitwise_bit, div2_bit]
    rw [halved, halved, halved, isHalf, ih]

theorem natBitwise_zero : natBitwise combine 0 0 = 0 ∨ natBitwise combine 0 0 = -1 := by
  cases isCombined : combine false false <;> simp [natBitwise, isCombined]

/-- Bitwise operators stay within a type. -/
theorem Holds.bitwise {combine : Bool → Bool → Bool} (holdsFirst : type.Holds first)
    (keepsZero : combine false false = false) (holdsSecond : type.Holds second) :
    type.Holds (bitwise combine first second) := by
  rw [holds_iff_div] at *
  rw [bitwise_div, bitwise_div]
  split
  · rename_i isSigned
    rw [if_pos isSigned] at holdsFirst holdsSecond
    rcases holdsFirst with isFirst | isFirst <;> rcases holdsSecond with isSecond | isSecond <;>
      rw [isFirst, isSecond]
    · exact natBitwise_zero combine
    · exact natBitwise_zero fun low other => combine low !other
    · exact natBitwise_zero fun low other => combine (!low) other
    · exact natBitwise_zero fun low other => combine (!low) !other
  · rename_i notSigned
    rw [if_neg notSigned] at holdsFirst holdsSecond
    rw [holdsFirst, holdsSecond]
    simp [Int.bitwise, natBitwise, keepsZero]

theorem Holds.wrap_bitwise {combine : Bool → Bool → Bool} (holdsFirst : source.Holds first)
    (holdsSecond : source.Holds second) (keepsZero : combine false false = false) :
    target.wrap (Int.bitwise combine (target.wrap first) (target.wrap second)) =
      target.wrap (source.wrap (Int.bitwise combine first second)) := by
  rw [holdsFirst.bitwise keepsZero holdsSecond]
  exact wrap_congr (bitwise_modEq combine (target.wrap_modEq first) (target.wrap_modEq second))

/-- What is lost when the number is wrapped around in the source type does not show in the target
type. -/
def Spares (source target : IntegerType) (number : Int) : Prop :=
  target.bits ≤ source.bits ∨ source.Holds number

theorem Spares.wrap (spares : source.Spares target number) :
    target.wrap (source.wrap number) = target.wrap number := by
  rcases spares with narrow | holds
  · exact wrap_wrap_of_le narrow number
  · exact congrArg target.wrap holds

theorem Holds.tmod (holds : type.Holds number) (divisor : Int) : type.Holds (number.tmod divisor) := by
  refine holds.of_between ?_
  have isSmall : (number.tmod divisor).natAbs ≤ number.natAbs := by
    rw [natAbs_tmod]
    exact Nat.mod_le ..
  rcases le_total 0 number with isPositive | isNegative
  · have := tmod_nonneg divisor isPositive
    omega
  · have := tmod_nonneg divisor (neg_nonneg_of_nonpos isNegative)
    rw [neg_tmod] at this
    omega

theorem Holds.fdiv (holds : type.Holds number) (width : Nat) :
    type.Holds (number.fdiv (twoTo width)) := by
  have isPositive : (0 : Int) < twoTo width := natCast_pos.2 (Nat.two_pow_pos width)
  refine holds.of_between ?_
  rw [fdiv_eq_ediv_of_nonneg _ isPositive.le]
  rcases le_total 0 number with atLeast | atMost
  · exact .inl ⟨ediv_nonneg atLeast isPositive.le, ediv_le_self _ atLeast⟩
  · refine .inr ⟨(Int.le_ediv_iff_mul_le isPositive).2 ?_, ?_⟩
    · simpa using Int.mul_le_mul_of_nonpos_left atMost (add_one_le_of_lt isPositive)
    · exact Int.ediv_nonpos_of_nonpos_of_neg atMost isPositive

end IntegerType

namespace BinaryOp

open IntegerType

/-- Computing with numbers of the source type that are converted to the target type gives the
converted outcome. Bitwise operators always do; sums, differences, products and shifts to the left do
unless the target type is wider and the outcome does not fit the source type; quotients, remainders
and shifts to the right do if the target type has the numbers themselves. -/
def CarriesOver (source target : IntegerType) (left right : Int) : BinaryOp → Prop
  | .add => source.Spares target (left + right)
  | .subtract => source.Spares target (left - right)
  | .multiply => source.Spares target (left * right)
  | .and | .or | .exclusiveOr => True
  | .divide => right ≠ 0 ∧ target.Holds left ∧ target.Holds right ∧ source.Spares target (left.tdiv right)
  | .modulo => right ≠ 0 ∧ target.Holds left ∧ target.Holds right
  | .leftShift => 0 ≤ right ∧ right < source.bits ∧ right < target.bits ∧
      source.Spares target (left * twoTo right.toNat)
  | .rightShift => 0 ≤ right ∧ right < source.bits ∧ right < target.bits ∧ target.Holds left
  | _ => False

variable {op : BinaryOp} {source target : IntegerType} {left right : Int}

/-- Where an operator carries over, its outcome can be converted before or after. -/
theorem CarriesOver.outcome (carries : op.CarriesOver source target left right)
    (holdsLeft : source.Holds left) (holdsRight : op.isShift = false → source.Holds right) :
    ∃ outcome converted, op.outcome? source.bits left right = some outcome ∧
      op.outcome? target.bits (target.wrap left) (if op.isShift then right else target.wrap right) =
        some converted ∧
      target.wrap converted = target.wrap (source.wrap outcome) := by
  have leftAgrees := target.wrap_modEq left
  have rightAgrees := target.wrap_modEq right
  cases op with
  | add => exact ⟨_, _, rfl, rfl, (wrap_congr (leftAgrees.add rightAgrees)).trans carries.wrap.symm⟩
  | subtract =>
    exact ⟨_, _, rfl, rfl, (wrap_congr (leftAgrees.sub rightAgrees)).trans carries.wrap.symm⟩
  | multiply =>
    exact ⟨_, _, rfl, rfl, (wrap_congr (leftAgrees.mul rightAgrees)).trans carries.wrap.symm⟩
  | divide =>
    obtain ⟨notZero, hasLeft, hasRight, spares⟩ := carries
    refine ⟨_, _, if_neg notZero, ?_, spares.wrap.symm⟩
    rw [hasLeft, hasRight]
    exact if_neg notZero
  | modulo =>
    obtain ⟨notZero, hasLeft, hasRight⟩ := carries
    refine ⟨_, _, if_neg notZero, ?_, (congrArg target.wrap (holdsLeft.tmod right)).symm⟩
    rw [hasLeft, hasRight]
    exact if_neg notZero
  | and => exact ⟨_, _, rfl, rfl, bitwise_and ▸ holdsLeft.wrap_bitwise (holdsRight rfl) rfl⟩
  | or => exact ⟨_, _, rfl, rfl, bitwise_or ▸ holdsLeft.wrap_bitwise (holdsRight rfl) rfl⟩
  | exclusiveOr =>
    exact ⟨_, _, rfl, rfl, bitwise_xor ▸ holdsLeft.wrap_bitwise (holdsRight rfl) rfl⟩
  | leftShift =>
    obtain ⟨atLeast, inSource, inTarget, spares⟩ := carries
    refine ⟨_, _, if_pos ⟨atLeast, inSource⟩, if_pos ⟨atLeast, inTarget⟩, ?_⟩
    exact (wrap_congr (leftAgrees.mul_right _)).trans spares.wrap.symm
  | rightShift =>
    obtain ⟨atLeast, inSource, inTarget, hasLeft⟩ := carries
    refine ⟨_, _, if_pos ⟨atLeast, inSource⟩, if_pos ⟨atLeast, inTarget⟩, ?_⟩
    rw [hasLeft, holdsLeft.fdiv]
    rfl
  | _ => exact carries.elim

end BinaryOp

end CilLift
