import Mathlib.Algebra.Ring.Nat
import Mathlib.Data.List.Nodup
import CilLift.Instruction.Decode
import CilLift.Instruction.Encode
import CilLift.Proofs.Outcome

/-!
Instructions are read back as they were written: the bytes of an opcode and its operand, wherever they
stand in the code, give the same opcode and operand again.
-/

namespace CilLift

open List Nat

variable {width number : Nat} {value : Int32}

@[simp] theorem length_littleEndian (width number : Nat) :
    (littleEndian width number).length = width := by
  induction width generalizing number with
  | zero => rfl
  | succ width ih => simp [littleEndian, ih]

theorem ofLittleEndian_littleEndian (width number : Nat) :
    ofLittleEndian (littleEndian width number) = number % 256 ^ width := by
  induction width generalizing number with
  | zero => simp [littleEndian, ofLittleEndian, mod_one]
  | succ width ih =>
    have low : (number % 256).toUInt8.toNat = number % 256 := by
      simp [toUInt8]
    rw [littleEndian, ofLittleEndian, ih, low, pow_succ', mod_mul]

namespace Opcode

variable (opcode : Opcode)

theorem mem_all : opcode ∈ all := by
  have found : all[opcode.ctorIdx]? = some opcode := by
    cases opcode <;> rfl
  exact mem_of_getElem? found

/-- The place of an opcode in the order of encodings. -/
def key (opcode : Opcode) : Nat :=
  (if opcode.isPrefixed then 256 else 0) + opcode.spec.byte.toNat

theorem key_injective {first second : Opcode} (same : first.key = second.key) : first = second := by
  have increasing : (all.map key).IsChain (· < ·) := by decide +kernel
  have distinct : (all.map key).Nodup := (isChain_iff_pairwise.1 increasing).imp ne_of_lt
  exact inj_on_of_nodup_map distinct first.mem_all second.mem_all same

theorem ofByte?_byte : ofByte? opcode.isPrefixed opcode.spec.byte = some opcode := by
  cases found : ofByte? opcode.isPrefixed opcode.spec.byte with
  | none =>
    have absent := find?_eq_none.1 found opcode opcode.mem_all
    simp at absent
  | some other =>
    have isFound := find?_some found
    simp only [Bool.and_eq_true, beq_iff_eq] at isFound
    have same : other.key = opcode.key := by rw [key, key, isFound.1, isFound.2]
    rw [key_injective same]

theorem byte_ne_escapeByte : opcode.spec.byte ≠ escapeByte := by
  cases opcode <;> decide

end Opcode

namespace Cursor

variable {cursor : Cursor} {bytes rest : List UInt8}

/-- The cursor behind some bytes. -/
def skip (cursor : Cursor) (count : Nat) : Cursor :=
  { cursor with position := cursor.position + count }

theorem skip_skip (cursor : Cursor) (first second : Nat) :
    (cursor.skip first).skip second = cursor.skip (first + second) := by
  simp [skip, add_assoc]

/-- The bytes come next. -/
def Ahead (cursor : Cursor) (bytes : List UInt8) : Prop :=
  ∃ rest, cursor.data.drop cursor.position = bytes ++ rest

theorem Ahead.skip {more : List UInt8} (ahead : cursor.Ahead (bytes ++ more)) :
    cursor.Ahead bytes ∧ (cursor.skip bytes.length).Ahead more := by
  obtain ⟨rest, ahead⟩ := ahead
  refine ⟨⟨more ++ rest, by rw [ahead, append_assoc]⟩, rest, ?_⟩
  rw [Cursor.skip, ← drop_drop, ahead, append_assoc, drop_left]

theorem readNumber_ahead (ahead : cursor.Ahead bytes) :
    readNumber bytes.length cursor = .ok (ofLittleEndian bytes) (cursor.skip bytes.length) := by
  obtain ⟨rest, ahead⟩ := ahead
  simp [readNumber, ahead, skip]

theorem readNumber_littleEndian (ahead : cursor.Ahead (littleEndian width number))
    (fits : number < 256 ^ width) : readNumber width cursor = .ok number (cursor.skip width) := by
  have read := readNumber_ahead ahead
  rwa [length_littleEndian, ofLittleEndian_littleEndian, mod_eq_of_lt fits] at read

theorem readUInt8_ahead {byte : UInt8} (ahead : cursor.Ahead [byte]) :
    readUInt8 cursor = .ok byte (cursor.skip 1) := by
  refine andThen_eq_ok.2 ⟨_, _, readNumber_ahead ahead, ?_⟩
  simp [ofLittleEndian]
  rfl

end Cursor

open Cursor

theorem readOpcode_ahead {cursor : Cursor} {opcode : Opcode} (offset : Nat)
    (ahead : cursor.Ahead opcode.encoding) :
    readOpcode offset cursor = .ok opcode (cursor.skip opcode.encoding.length) := by
  unfold Opcode.encoding at ahead ⊢
  cases isPrefixed : opcode.isPrefixed with
  | true =>
    rw [isPrefixed] at ahead
    have bytes : cursor.Ahead ([Opcode.escapeByte] ++ [opcode.spec.byte]) := ahead
    obtain ⟨escape, byte⟩ := bytes.skip
    refine andThen_eq_ok.2 ⟨_, _, readUInt8_ahead escape, ?_⟩
    refine andThen_eq_ok.2 ⟨_, _, readUInt8_ahead byte, ?_⟩
    rw [← isPrefixed, Opcode.ofByte?_byte]
    simp [isPrefixed]
    rfl
  | false =>
    rw [isPrefixed] at ahead
    refine andThen_eq_ok.2 ⟨_, _, readUInt8_ahead ahead, ?_⟩
    rw [if_neg opcode.byte_ne_escapeByte, ← isPrefixed, Opcode.ofByte?_byte]
    simp [isPrefixed]
    rfl

theorem readWord_ahead {cursor : Cursor} {α : Type} (make : Nat → α)
    (ahead : cursor.Ahead (littleEndian width number)) (fits : number < 256 ^ width) :
    (do return make (← readNumber width) : Read α) cursor = .ok (make number) (cursor.skip width) :=
  andThen_eq_ok.2 ⟨_, _, readNumber_littleEndian ahead fits, rfl⟩

theorem toInt_eq_bmod (value : Int32) : value.toInt = (value.toUInt32.toNat : Int).bmod (2 ^ 32) := by
  change value.toBitVec.toInt = _
  rw [BitVec.toInt_eq_toNat_bmod]
  rfl

theorem toInt32_lowByte (fits : -128 ≤ value.toInt ∧ value.toInt < 128) :
    (value.toUInt32.toNat % 256).toUInt8.toInt8.toInt32 = value := by
  apply Int32.toInt_inj.1
  rw [Int8.toInt_toInt32]
  change (BitVec.ofNat 8 (value.toUInt32.toNat % 256)).toInt = _
  rw [toInt_eq_bmod] at fits ⊢
  rw [BitVec.toInt_ofNat']
  simp only [Int.bmod_def] at *
  omega

/-- One byte after the opcode is a number and not a slot. -/
def Opcode.takesByte (opcode : Opcode) : Bool :=
  opcode == .unaligned || opcode == .noCheck

/-- What an operand written before `next` is read back as: the distance of a branch as a place in the
code, and a single byte as the opcode wants it. -/
def Operand.readBack (opcode : Opcode) (next : Nat) : Operand → Operand
  | .int value =>
    if opcode.family = .jump then .target (Label.ofOffset (next + value.toInt).toNat) else .int value
  | .slot index => if opcode.takesByte then .byte index.toUInt8 else .slot index
  | .byte value => if opcode.takesByte then .byte value else .slot value.toUInt16
  | operand => operand

/-- A branch at `offset` that ends at `next` goes to a place behind its own, inside the code. -/
def GoesForward (opcode : Opcode) (operand : Operand) (offset next length : Nat) : Prop :=
  ∀ value, opcode.family = .jump → operand = .int value →
    (offset : Int) < next + value.toInt ∧ (next : Int) + value.toInt ≤ length

section Operands

variable {cursor : Cursor} {opcode : Opcode} {offset : Nat}

theorem relativeOperand_forward
    (forward : GoesForward opcode (.int value) offset cursor.position cursor.data.length) :
    relativeOperand offset opcode value cursor =
      .ok ((Operand.int value).readBack opcode cursor.position) cursor := by
  unfold relativeOperand Operand.readBack
  split
  · rename_i isJump
    obtain ⟨after, inside⟩ := forward value isJump rfl
    refine andThen_eq_ok.2 ⟨_, _, andThen_eq_ok.2 ⟨_, _, rfl, ?_⟩, rfl⟩
    rw [if_neg (by omega), if_neg (by omega)]
    rfl
  · rfl

theorem readInt8_ahead (fits : -128 ≤ value.toInt ∧ value.toInt < 128)
    (ahead : cursor.Ahead (littleEndian 1 value.toUInt32.toNat)) :
    ∃ found, readInt8 cursor = .ok found (cursor.skip 1) ∧ found.toInt32 = value := by
  refine ⟨_, andThen_eq_ok.2 ⟨_, _, readNumber_ahead ahead, rfl⟩, ?_⟩
  rw [ofLittleEndian_littleEndian]
  exact toInt32_lowByte fits

theorem readInt32_ahead (ahead : cursor.Ahead (littleEndian 4 value.toUInt32.toNat)) :
    readInt32 cursor = .ok value (cursor.skip 4) := by
  have isRead := readWord_ahead (fun number => number.toUInt32.toInt32) ahead value.toUInt32.toNat_lt
  have same : value.toUInt32.toNat.toUInt32.toInt32 = value := by simp
  rwa [same] at isRead

theorem readByte_ahead {next : Nat} {byte : UInt8} (kind : opcode.operandKind = .uint8)
    (ahead : cursor.Ahead [byte]) :
    readOperand offset opcode cursor =
      .ok ((Operand.byte byte).readBack opcode next) (cursor.skip 1) := by
  rw [readOperand, kind]
  refine andThen_eq_ok.2 ⟨_, _, readUInt8_ahead ahead, ?_⟩
  split
  · rfl
  · rfl
  · rename_i notUnaligned notUnchecked
    have isSlot : opcode.takesByte = false := by
      simpa [Opcode.takesByte] using And.intro notUnaligned notUnchecked
    rw [Operand.readBack, isSlot]
    rfl

theorem readBack_slot {index : UInt16} (fits : index.toNat < 256) (next : Nat) :
    (Operand.slot index).readBack opcode next = (Operand.byte index.toUInt8).readBack opcode next := by
  have same : index.toUInt8.toUInt16 = index := by
    apply UInt16.toNat_inj.1
    simp
    omega
  simp [Operand.readBack, same]

theorem readBack_wide {index : UInt16} (kind : opcode.operandKind = .uint16) (next : Nat) :
    (Operand.slot index).readBack opcode next = .slot index := by
  have isSlot : opcode.takesByte = false := by
    simp only [Opcode.takesByte, Bool.or_eq_false_iff, beq_eq_false_iff_ne]
    constructor <;> rintro rfl <;> cases kind
  simp [Operand.readBack, isSlot]

/-- The entries of a jump table. -/
def distanceBytes (distances : List Int32) : List UInt8 :=
  distances.flatMap fun distance => littleEndian 4 distance.toUInt32.toNat

@[simp] theorem length_distanceBytes (distances : List Int32) :
    (distanceBytes distances).length = 4 * distances.length := by
  simp [distanceBytes, mul_comm]

theorem readDistances_ahead (distances : List Int32) (ahead : cursor.Ahead (distanceBytes distances)) :
    readDistances distances.length cursor = .ok distances (cursor.skip (4 * distances.length)) := by
  induction distances generalizing cursor with
  | nil => rfl
  | cons distance rest ih =>
    obtain ⟨first, later⟩ := ahead.skip
    refine andThen_eq_ok.2 ⟨_, _, readInt32_ahead first, ?_⟩
    refine andThen_eq_ok.2 ⟨_, _, ih later, ?_⟩
    rw [skip_skip, add_comm 4]
    rfl

theorem readNumeric_ahead {α : Type} {value : α} (make : Nat → α) (build : α → Operand)
    (ahead : cursor.Ahead (littleEndian width number)) (fits : number < 256 ^ width)
    (same : make number = value) :
    (do return build (← (do return make (← readNumber width) : Read α)) : Read Operand) cursor =
      .ok (build value) (cursor.skip width) :=
  andThen_eq_ok.2 ⟨_, _, readWord_ahead make ahead fits, by rw [same]; rfl⟩

/-- The bytes of an operand are read back. -/
theorem readOperand_ahead {operand : Operand} {bytes : List UInt8}
    (encoded : operandBytes opcode operand = .ok bytes) (ahead : cursor.Ahead bytes) (forward :
      GoesForward opcode operand offset (cursor.position + bytes.length) cursor.data.length) :
    readOperand offset opcode cursor =
      .ok (operand.readBack opcode (cursor.position + bytes.length)) (cursor.skip bytes.length) := by
  unfold operandBytes at encoded
  split at encoded
  case h_1 kind =>
    cases encoded
    rw [readOperand, kind]
    rfl
  case h_2 value kind =>
    split at encoded
    · rename_i fits
      cases encoded
      obtain ⟨found, isRead, rfl⟩ := readInt8_ahead fits ahead
      rw [readOperand, kind]
      exact andThen_eq_ok.2 ⟨_, _, isRead, relativeOperand_forward forward⟩
    · cases encoded
  case h_3 index kind =>
    split at encoded
    · rename_i fits
      cases encoded
      have isByte : littleEndian 1 index.toNat = [index.toUInt8] := by
        rw [littleEndian, mod_eq_of_lt fits]
        rfl
      rw [isByte] at ahead
      rw [readBack_slot fits]
      exact readByte_ahead kind ahead
    · cases encoded
  case h_4 value kind =>
    cases encoded
    exact readByte_ahead kind ahead
  case h_5 index kind =>
    cases encoded
    rw [readOperand, kind, readBack_wide kind]
    exact readNumeric_ahead toUInt16 .slot ahead index.toNat_lt (by simp)
  case h_6 value kind =>
    cases encoded
    rw [readOperand, kind]
    exact andThen_eq_ok.2 ⟨_, _, readInt32_ahead ahead, relativeOperand_forward forward⟩
  case h_7 value kind =>
    cases encoded
    rw [readOperand, kind]
    exact readNumeric_ahead (·.toUInt64.toInt64) .long ahead value.toUInt64.toNat_lt (by simp)
  case h_8 bits kind =>
    cases encoded
    rw [readOperand, kind]
    exact readNumeric_ahead toUInt32 .single ahead bits.toNat_lt (by simp)
  case h_9 bits kind =>
    cases encoded
    rw [readOperand, kind]
    exact readNumeric_ahead toUInt64 .double ahead bits.toNat_lt (by simp)
  case h_10 token kind =>
    cases encoded
    rw [readOperand, kind]
    exact readNumeric_ahead toUInt32 (.token ⟨·⟩) ahead token.value.toNat_lt (by simp)
  case h_11 distances kind =>
    split at encoded
    · rename_i few
      cases encoded
      obtain ⟨count, table⟩ := ahead.skip
      have isRead := readWord_ahead toUInt32 count few
      have isCount : distances.length.toUInt32.toNat = distances.length := by
        simpa using mod_eq_of_lt few
      rw [readOperand, kind]
      refine andThen_eq_ok.2 ⟨_, _, isRead, ?_⟩
      rw [isCount]
      refine andThen_eq_ok.2 ⟨_, _, readDistances_ahead distances table, ?_⟩
      rw [skip_skip, length_append]
      exact congrArg (fun length => EStateM.Result.ok _ (cursor.skip (4 + length)))
        (length_distanceBytes distances).symm
    · cases encoded
  case h_12 => cases encoded

/-- What was written is read back as an instruction of its own. -/
theorem readInstruction_ahead {operand : Operand} {bytes : List UInt8} {size : Nat}
    (encoded : operandBytes opcode operand = .ok bytes)
    (isSize : opcode.encoding.length + bytes.length = size)
    (ahead : cursor.Ahead (opcode.encoding ++ bytes))
    (forward : GoesForward opcode operand cursor.position (cursor.position + size) cursor.data.length) :
    readInstruction cursor =
      .ok ⟨cursor.position, size, opcode, operand.readBack opcode (cursor.position + size)⟩
        (cursor.skip size) := by
  obtain ⟨ofOpcode, ofOperand⟩ := ahead.skip
  subst isSize
  have isEnd : (cursor.skip opcode.encoding.length).position + bytes.length =
      cursor.position + (opcode.encoding.length + bytes.length) := add_assoc _ _ _
  rw [← isEnd] at forward
  have isRead := readOperand_ahead encoded ofOperand forward
  rw [isEnd, skip_skip] at isRead
  refine andThen_eq_ok.2 ⟨_, _, rfl, ?_⟩
  refine andThen_eq_ok.2 ⟨_, _, readOpcode_ahead _ ofOpcode, ?_⟩
  refine andThen_eq_ok.2 ⟨_, _, isRead, ?_⟩
  refine andThen_eq_ok.2 ⟨_, _, rfl, ?_⟩
  simp [skip]
  rfl

end Operands

end CilLift
