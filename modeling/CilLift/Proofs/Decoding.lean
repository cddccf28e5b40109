import CilLift.Proofs.Encoding

/-!
Whatever is read from a code stands there as it would be written. The instructions of a code follow
one another without gap, and writing them again gives the same bytes.
-/

namespace CilLift

open List Nat Label

variable {width : Nat} {cursor next : Cursor}

theorem ofLittleEndian_lt (bytes : List UInt8) : ofLittleEndian bytes < 256 ^ bytes.length := by
  induction bytes with
  | nil => simp [ofLittleEndian]
  | cons byte rest ih =>
    have bound := byte.toNat_lt
    rw [ofLittleEndian, length_cons]
    omega

theorem littleEndian_ofLittleEndian (bytes : List UInt8) :
    littleEndian bytes.length (ofLittleEndian bytes) = bytes := by
  induction bytes with
  | nil => rfl
  | cons byte rest ih =>
    have bound := byte.toNat_lt
    have high : (byte.toNat + 256 * ofLittleEndian rest) / 256 = ofLittleEndian rest := by omega
    rw [length_cons, ofLittleEndian, littleEndian, high, ih]
    simp

namespace Opcode

theorem of_ofByte? {isPrefixed : Bool} {byte : UInt8} {opcode : Opcode}
    (found : ofByte? isPrefixed byte = some opcode) :
    opcode.isPrefixed = isPrefixed ∧ opcode.spec.byte = byte := by
  have isFound := find?_some found
  simpa using isFound

theorem encoding_length_pos (opcode : Opcode) : 0 < opcode.encoding.length := by
  unfold encoding
  split <;> simp

theorem operandKind_of_jump {opcode : Opcode} (isJump : opcode.family = .jump) :
    opcode.operandKind = .int8 ∨ opcode.operandKind = .int32 := by
  have checked : ∀ opcode ∈ all, opcode.family = .jump →
      opcode.operandKind = .int8 ∨ opcode.operandKind = .int32 := by decide +kernel
  exact checked opcode opcode.mem_all isJump

end Opcode

namespace Cursor

variable {cursor next : Cursor}

theorem readNumber_eq_ok {number : Nat} (read : readNumber width cursor = .ok number next) :
    cursor.Ahead (littleEndian width number) ∧ number < 256 ^ width ∧ next = cursor.skip width := by
  unfold readNumber at read
  dsimp only at read
  split at read
  · rename_i isLong
    cases read
    have whole := littleEndian_ofLittleEndian ((cursor.data.drop cursor.position).take width)
    have bound := ofLittleEndian_lt ((cursor.data.drop cursor.position).take width)
    rw [isLong] at whole bound
    refine ⟨⟨(cursor.data.drop cursor.position).drop width, ?_⟩, bound, rfl⟩
    rw [whole, take_append_drop]
  · cases read

theorem readWord_eq_ok {α : Type} {make : Nat → α} {value : α}
    (read : (do return make (← readNumber width) : Read α) cursor = .ok value next) :
    ∃ number, cursor.Ahead (littleEndian width number) ∧ number < 256 ^ width ∧
      value = make number ∧ next = cursor.skip width := by
  obtain ⟨number, middle, isNumber, made⟩ := andThen_eq_ok.1 read
  obtain ⟨ahead, bound, rfl⟩ := readNumber_eq_ok isNumber
  cases made
  exact ⟨number, ahead, bound, rfl, rfl⟩

theorem readUInt8_eq_ok {byte : UInt8} (read : readUInt8 cursor = .ok byte next) :
    cursor.Ahead [byte] ∧ next = cursor.skip 1 := by
  obtain ⟨number, ahead, bound, rfl, isNext⟩ := readWord_eq_ok read
  have isByte : littleEndian 1 number = [number.toUInt8] := by
    have short : number < 256 := by simpa using bound
    rw [littleEndian, littleEndian, mod_eq_of_lt short]
  exact ⟨isByte ▸ ahead, isNext⟩

theorem readInt32_eq_ok {value : Int32} (read : readInt32 cursor = .ok value next) :
    cursor.Ahead (littleEndian 4 value.toUInt32.toNat) ∧ next = cursor.skip 4 := by
  obtain ⟨number, ahead, bound, rfl, isNext⟩ := readWord_eq_ok read
  have same : number.toUInt32.toInt32.toUInt32.toNat = number := by
    simpa using mod_eq_of_lt bound
  exact ⟨same.symm ▸ ahead, isNext⟩

theorem Ahead.append {bytes more : List UInt8} (ahead : cursor.Ahead bytes)
    (later : (cursor.skip bytes.length).Ahead more) : cursor.Ahead (bytes ++ more) := by
  obtain ⟨rest, ahead⟩ := ahead
  obtain ⟨rest', later⟩ := later
  have isLater : cursor.data.drop (cursor.position + bytes.length) = rest := by
    rw [← drop_drop, ahead, drop_left]
  refine ⟨rest', ?_⟩
  rw [ahead, append_assoc, ← later]
  exact congrArg _ isLater.symm

end Cursor

open Cursor

theorem knownOpcode_eq_ok {offset : Nat} {found : Option Opcode} {opcode : Opcode}
    (read : knownOpcode offset found cursor = .ok opcode next) :
    found = some opcode ∧ next = cursor := by
  cases found with
  | none => cases read
  | some found =>
    cases read
    exact ⟨rfl, rfl⟩

theorem readOpcode_eq_ok {offset : Nat} {opcode : Opcode}
    (read : readOpcode offset cursor = .ok opcode next) :
    cursor.Ahead opcode.encoding ∧ next = cursor.skip opcode.encoding.length := by
  obtain ⟨first, middle, isFirst, later⟩ := andThen_eq_ok.1 read
  obtain ⟨aheadFirst, rfl⟩ := readUInt8_eq_ok isFirst
  unfold Opcode.encoding
  split at later
  · rename_i isEscape
    obtain ⟨second, middle, isSecond, later⟩ := andThen_eq_ok.1 later
    obtain ⟨aheadSecond, rfl⟩ := readUInt8_eq_ok isSecond
    obtain ⟨found, rfl⟩ := knownOpcode_eq_ok later
    obtain ⟨isPrefixed, isByte⟩ := Opcode.of_ofByte? found
    rw [isPrefixed, isByte, ← isEscape]
    exact ⟨aheadFirst.append aheadSecond, skip_skip ..⟩
  · obtain ⟨found, rfl⟩ := knownOpcode_eq_ok later
    obtain ⟨isPrefixed, isByte⟩ := Opcode.of_ofByte? found
    rw [isPrefixed, isByte]
    exact ⟨aheadFirst, rfl⟩

/-- The operand with which an instruction that ends at `next` is written again: a branch by its
distance, everything else as it is. -/
def Operand.relative (next : Nat) : Operand → Operand
  | .target label => .int (Int32.ofInt (label.value.toNat - next))
  | operand => operand

/-- Branches at `offset` go to a place behind their own, inside the code. -/
def Operand.LeadsForward (opcode : Opcode) (offset length : Nat) (operand : Operand) : Prop :=
  opcode.family = .jump →
    ∃ label target, operand = .target label ∧ label.offset? = some target ∧ offset < target ∧
      target ≤ length

/-- An operand found before `next` is what was written there, and leads forward if it leads anywhere.
Labels have 32 bits, which must be enough for the code. -/
def Operand.ReadFrom (written : Operand) (opcode : Opcode) (offset next length : Nat)
    (operand : Operand) : Prop :=
  length < 2 ^ 32 - 1 → operand.relative next = written ∧ operand.LeadsForward opcode offset length

section Operands

variable {cursor next : Cursor} {opcode : Opcode} {operand : Operand} {offset : Nat}

theorem readTarget_eq_ok {distance : Int} {label : Label}
    (read : readTarget offset distance cursor = .ok label next) :
    next = cursor ∧ ∃ target : Nat, label = ofOffset target ∧
      (target : Int) = cursor.position + distance ∧ offset < target ∧
      target ≤ cursor.data.length := by
  obtain ⟨found, middle, isState, later⟩ := andThen_eq_ok.1 read
  cases isState
  split at later
  · cases later
  · split at later
    · cases later
    · cases later
      exact ⟨rfl, _, rfl, by omega, by omega, by omega⟩

theorem value_ofOffset {offset : Nat} (short : offset < 2 ^ 32) :
    (ofOffset offset).value.toNat = offset := by
  simpa [ofOffset] using mod_eq_of_lt short

theorem offset?_ofOffset {offset : Nat} (short : offset < 2 ^ 32 - 1) :
    (ofOffset offset).offset? = some offset := by
  have isValue := value_ofOffset (lt_of_lt_of_le short (sub_le _ _))
  have notFinish : ofOffset offset ≠ .finish := by
    intro isFinish
    rw [isFinish] at isValue
    exact absurd isValue (ne_of_gt short)
  unfold offset? isFinish
  rw [if_neg (by simpa using notFinish), isValue]

theorem relativeOperand_eq_ok {value : Int32}
    (read : relativeOperand offset opcode value cursor = .ok operand next) :
    next = cursor ∧
      (Operand.int value).ReadFrom opcode offset cursor.position cursor.data.length operand := by
  unfold relativeOperand at read
  split at read
  · obtain ⟨label, middle, isTarget, made⟩ := andThen_eq_ok.1 read
    obtain ⟨rfl, target, rfl, isSum, after, inside⟩ := readTarget_eq_ok isTarget
    cases made
    refine ⟨rfl, fun short => ⟨?_, fun _ =>
      ⟨_, target, rfl, offset?_ofOffset (by omega), after, inside⟩⟩⟩
    have isDistance : (target : Int) - next.position = value.toInt := by omega
    rw [Operand.relative, value_ofOffset (by omega), isDistance, Int32.ofInt_toInt]
  · rename_i notJump
    cases read
    exact ⟨rfl, fun _ => ⟨rfl, fun isJump => absurd isJump notJump⟩⟩

theorem readDistances_eq_ok {count : Nat} {distances : List Int32}
    (read : readDistances count cursor = .ok distances next) :
    distances.length = count ∧ cursor.Ahead (distanceBytes distances) ∧
      next = cursor.skip (4 * count) := by
  induction count generalizing cursor distances next with
  | zero =>
    cases read
    exact ⟨rfl, ⟨_, rfl⟩, rfl⟩
  | succ count ih =>
    obtain ⟨first, middle, isFirst, later⟩ := andThen_eq_ok.1 read
    obtain ⟨aheadFirst, rfl⟩ := readInt32_eq_ok isFirst
    obtain ⟨rest, middle, isRest, made⟩ := andThen_eq_ok.1 later
    obtain ⟨isCount, aheadRest, rfl⟩ := ih isRest
    cases made
    refine ⟨by rw [length_cons, isCount], ?_, ?_⟩
    · exact aheadFirst.append aheadRest
    · rw [skip_skip, mul_add_one, add_comm 4]

theorem lowByte_toInt32 (number : Nat) :
    (-128 ≤ number.toUInt8.toInt8.toInt32.toInt ∧ number.toUInt8.toInt8.toInt32.toInt < 128) ∧
      littleEndian 1 number.toUInt8.toInt8.toInt32.toUInt32.toNat = littleEndian 1 number := by
  have isInt : number.toUInt8.toInt8.toInt32.toInt = (number : Int).bmod 256 := by
    rw [Int8.toInt_toInt32]
    change (BitVec.ofNat 8 number).toInt = _
    rw [BitVec.toInt_ofNat']
  rw [toInt_eq_bmod] at isInt ⊢
  rw [littleEndian]
  generalize number.toUInt8.toInt8.toInt32.toUInt32.toNat = word at *
  simp only [Int.bmod_def] at *
  have low : word % 256 = number % 256 := by omega
  rw [low]
  exact ⟨by omega, rfl⟩

theorem readFrom_of_kind {position length : Nat} (same : operand.relative position = operand)
    (notRelative : ¬(opcode.operandKind = .int8 ∨ opcode.operandKind = .int32)) :
    operand.ReadFrom opcode offset position length operand :=
  fun _ => ⟨same, fun isJump => absurd (Opcode.operandKind_of_jump isJump) notRelative⟩

/-- An operand that is one number stands in the bytes of the number. -/
theorem readNumeric_eq_ok {α : Type} {make : Nat → α} (build : α → Operand)
    (read : (do return build (← (do return make (← readNumber width) : Read α)) : Read Operand)
      cursor = .ok operand next) (written : ∀ number < 256 ^ width,
      operandBytes opcode (build (make number)) = .ok (littleEndian width number))
    (same : ∀ value position, (build value).relative position = build value)
    (notRelative : ¬(opcode.operandKind = .int8 ∨ opcode.operandKind = .int32)) :
    ∃ written bytes, operandBytes opcode written = .ok bytes ∧ cursor.Ahead bytes ∧
      next = cursor.skip bytes.length ∧
      written.ReadFrom opcode offset next.position cursor.data.length operand := by
  obtain ⟨value, middle, isValue, made⟩ := andThen_eq_ok.1 read
  obtain ⟨number, ahead, bound, rfl, rfl⟩ := readWord_eq_ok isValue
  cases made
  exact ⟨_, _, written number bound, ahead, by rw [length_littleEndian],
    readFrom_of_kind (same _ _) notRelative⟩

/-- An operand that was read stands in the bytes in which it is written. -/
theorem readOperand_eq_ok (read : readOperand offset opcode cursor = .ok operand next) :
    ∃ written bytes, operandBytes opcode written = .ok bytes ∧ cursor.Ahead bytes ∧
      next = cursor.skip bytes.length ∧
      written.ReadFrom opcode offset next.position cursor.data.length operand := by
  unfold readOperand at read
  cases kind : opcode.operandKind with
  | none =>
    rw [kind] at read
    cases read
    refine ⟨_, [], ?_, ⟨_, rfl⟩, rfl, readFrom_of_kind rfl (by simp [kind])⟩
    simp [operandBytes, kind]
  | int8 =>
    rw [kind] at read
    obtain ⟨value, middle, isValue, later⟩ := andThen_eq_ok.1 read
    obtain ⟨number, ahead, -, rfl, rfl⟩ := readWord_eq_ok isValue
    obtain ⟨rfl, readFrom⟩ := relativeOperand_eq_ok later
    obtain ⟨fits, isByte⟩ := lowByte_toInt32 number
    refine ⟨_, littleEndian 1 number, ?_, ahead, by rw [length_littleEndian], readFrom⟩
    unfold operandBytes
    rw [kind]
    dsimp only
    rw [if_pos fits, isByte]
  | uint8 =>
    rw [kind] at read
    obtain ⟨byte, middle, isByte, later⟩ := andThen_eq_ok.1 read
    obtain ⟨ahead, rfl⟩ := readUInt8_eq_ok isByte
    split at later
    · cases later
      exact ⟨_, [byte], rfl, ahead, rfl, readFrom_of_kind rfl (by simp [kind])⟩
    · cases later
      exact ⟨_, [byte], rfl, ahead, rfl, readFrom_of_kind rfl (by simp [kind])⟩
    · cases later
      have fits : byte.toUInt16.toNat < 256 := by simpa using byte.toNat_lt
      have isByte : littleEndian 1 byte.toUInt16.toNat = [byte] := by
        rw [littleEndian, littleEndian]
        simp
      refine ⟨_, [byte], ?_, ahead, rfl, readFrom_of_kind rfl (by simp [kind])⟩
      unfold operandBytes
      rw [kind]
      exact (if_pos fits).trans (congrArg _ isByte)
  | uint16 =>
    rw [kind] at read
    refine readNumeric_eq_ok .slot read (fun number bound => ?_) (fun _ _ => rfl) (by simp [kind])
    have same : number.toUInt16.toNat = number := by simpa using mod_eq_of_lt bound
    simp [operandBytes, kind, same]
  | int32 =>
    rw [kind] at read
    obtain ⟨value, middle, isValue, later⟩ := andThen_eq_ok.1 read
    obtain ⟨ahead, rfl⟩ := readInt32_eq_ok isValue
    obtain ⟨rfl, readFrom⟩ := relativeOperand_eq_ok later
    refine ⟨_, _, ?_, ahead, by rw [length_littleEndian], readFrom⟩
    unfold operandBytes
    rw [kind]
  | int64 =>
    rw [kind] at read
    refine readNumeric_eq_ok .long read (fun number bound => ?_) (fun _ _ => rfl) (by simp [kind])
    have same : number.toUInt64.toInt64.toUInt64.toNat = number := by
      simpa using mod_eq_of_lt bound
    simp only [operandBytes, kind, same]
  | float32 =>
    rw [kind] at read
    refine readNumeric_eq_ok .single read (fun number bound => ?_) (fun _ _ => rfl) (by simp [kind])
    have same : number.toUInt32.toNat = number := by simpa using mod_eq_of_lt bound
    simp [operandBytes, kind, same]
  | float64 =>
    rw [kind] at read
    refine readNumeric_eq_ok .double read (fun number bound => ?_) (fun _ _ => rfl) (by simp [kind])
    have same : number.toUInt64.toNat = number := by simpa using mod_eq_of_lt bound
    simp [operandBytes, kind, same]
  | token =>
    rw [kind] at read
    refine readNumeric_eq_ok (.token ⟨·⟩) read (fun number bound => ?_)
      (fun _ _ => rfl) (by simp [kind])
    have same : number.toUInt32.toNat = number := by simpa using mod_eq_of_lt bound
    simp [operandBytes, kind, same]
  | switch =>
    rw [kind] at read
    obtain ⟨count, middle, isCount, later⟩ := andThen_eq_ok.1 read
    obtain ⟨number, aheadCount, bound, rfl, rfl⟩ := readWord_eq_ok isCount
    obtain ⟨distances, middle, isTable, made⟩ := andThen_eq_ok.1 later
    obtain ⟨isLength, aheadTable, rfl⟩ := readDistances_eq_ok isTable
    cases made
    have same : number.toUInt32.toNat = number := by simpa using mod_eq_of_lt bound
    rw [same] at isLength ⊢
    refine ⟨_, littleEndian 4 number ++ distanceBytes distances, ?_,
      aheadCount.append aheadTable, ?_, readFrom_of_kind rfl (by simp [kind])⟩
    · unfold operandBytes
      rw [kind]
      simp only [isLength]
      exact if_pos bound
    · rw [skip_skip, length_append, length_littleEndian, length_distanceBytes, isLength]

end Operands

/-- An instruction stands where the cursor was when it was read, in the bytes in which it is
written. -/
structure Instruction.StandsAt (instruction : Instruction) (cursor : Cursor) : Prop where
  offset : instruction.offset = cursor.position
  size_pos : 0 < instruction.size
  exists_bytes : ∃ written bytes, operandBytes instruction.opcode written = .ok bytes ∧
    cursor.Ahead (instruction.opcode.encoding ++ bytes) ∧
    instruction.size = (instruction.opcode.encoding ++ bytes).length ∧
    written.ReadFrom instruction.opcode instruction.offset instruction.next cursor.data.length
      instruction.operand

theorem readInstruction_eq_ok {instruction : Instruction}
    (read : readInstruction cursor = .ok instruction next) :
    instruction.StandsAt cursor ∧ next = cursor.skip instruction.size := by
  obtain ⟨_, _, isState, later⟩ := andThen_eq_ok.1 read
  cases isState
  obtain ⟨opcode, middle, isOpcode, later⟩ := andThen_eq_ok.1 later
  obtain ⟨aheadOpcode, rfl⟩ := readOpcode_eq_ok isOpcode
  obtain ⟨operand, middle, isOperand, later⟩ := andThen_eq_ok.1 later
  obtain ⟨written, bytes, encoded, aheadBytes, rfl, readFrom⟩ := readOperand_eq_ok isOperand
  obtain ⟨_, _, isState, made⟩ := andThen_eq_ok.1 later
  cases isState
  cases made
  rw [skip_skip] at readFrom ⊢
  have isSize : (cursor.skip (opcode.encoding.length + bytes.length)).position - cursor.position =
      opcode.encoding.length + bytes.length := Nat.add_sub_cancel_left ..
  rw [isSize]
  exact ⟨⟨rfl, Nat.add_pos_left opcode.encoding_length_pos _, written, bytes, encoded,
    aheadOpcode.append aheadBytes, length_append.symm, readFrom⟩, rfl⟩

end CilLift
