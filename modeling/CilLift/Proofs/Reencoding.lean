import CilLift.Proofs.Decoding

/-!
Reading a code comes to an end, its instructions follow one another without gap, and writing them
again gives the same code.
-/

namespace CilLift

open List Nat Instruction

open Cursor

/-- The reading of a code, instruction by instruction, as far as it goes. -/
inductive Listing.Comes : Cursor → Listing → Prop where
  | ends {cursor : Cursor} (exhausted : cursor.hasMore = false) : Comes cursor ⟨[], none⟩
  | fails {cursor next : Cursor} {error : Error} (hasMore : cursor.hasMore = true)
      (failed : readInstruction cursor = .error error next) : Comes cursor ⟨[], some error⟩
  | reads {cursor next : Cursor} {instruction : Instruction} {rest : Listing}
      (hasMore : cursor.hasMore = true) (read : readInstruction cursor = .ok instruction next)
      (later : Comes next rest) : Comes cursor ⟨instruction :: rest.instructions, rest.failure⟩

/-- The instructions cover the code from `start` to `stop` without gap or overlap. -/
def Tiles (stop : Nat) : Nat → List Instruction → Prop
  | start, [] => start = stop
  | start, instruction :: rest =>
    instruction.offset = start ∧ 0 < instruction.size ∧ Tiles stop instruction.next rest

namespace Cursor

variable {cursor : Cursor} {bytes : List UInt8}

theorem Ahead.take (ahead : cursor.Ahead bytes) :
    cursor.data.take (cursor.position + bytes.length) = cursor.data.take cursor.position ++ bytes := by
  obtain ⟨rest, ahead⟩ := ahead
  rw [take_add, ahead, take_left]

theorem Ahead.inside (ahead : cursor.Ahead bytes) (here : cursor.position ≤ cursor.data.length) :
    cursor.position + bytes.length ≤ cursor.data.length := by
  obtain ⟨rest, ahead⟩ := ahead
  have isLength := congrArg length ahead
  rw [length_drop, length_append] at isLength
  omega

theorem hasMore_iff : cursor.hasMore = true ↔ cursor.position < cursor.data.length := by
  simp [hasMore]

end Cursor

namespace Instruction.StandsAt

variable {cursor : Cursor} {instruction : Instruction}

theorem next_eq (stands : instruction.StandsAt cursor) :
    (cursor.skip instruction.size).position = instruction.next := by
  rw [next, stands.offset, skip]

theorem inside (stands : instruction.StandsAt cursor)
    (here : cursor.position ≤ cursor.data.length) : instruction.next ≤ cursor.data.length := by
  obtain ⟨_, bytes, _, ahead, isSize, _⟩ := stands.exists_bytes
  have bound := ahead.inside here
  rwa [← isSize, ← stands.offset] at bound

theorem emits (stands : instruction.StandsAt cursor) (short : cursor.data.length < 2 ^ 32 - 1)
    {assembler : Assembler} (isCode : assembler.code = cursor.data.take cursor.position) :
    Assembler.emit instruction.opcode (instruction.operand.relative instruction.next) assembler =
      .ok () { assembler with code := cursor.data.take instruction.next } := by
  obtain ⟨written, bytes, encoded, ahead, isSize, readFrom⟩ := stands.exists_bytes
  have isNext : instruction.next = cursor.position + (instruction.opcode.encoding ++ bytes).length := by
    rw [next, stands.offset, isSize]
  unfold Assembler.emit
  rw [(readFrom short).1, encoded, isNext, ahead.take, ← isCode]
  rfl

end Instruction.StandsAt

namespace Listing

variable {cursor : Cursor}

/-- As many steps as there are bytes are enough to read a code. -/
theorem comes_readFrom {limit : Nat} (enough : cursor.data.length ≤ cursor.position + limit)
    (here : cursor.position ≤ cursor.data.length) : Comes cursor (readFrom cursor limit) := by
  induction limit generalizing cursor with
  | zero =>
    refine .ends ?_
    simp only [hasMore, decide_eq_false_iff_not]
    omega
  | succ limit ih =>
    unfold readFrom
    cases hasMore : cursor.hasMore with
    | false => exact .ends hasMore
    | true =>
      cases read : readInstruction cursor with
      | error error next => exact .fails hasMore read
      | ok instruction next =>
        obtain ⟨stands, rfl⟩ := readInstruction_eq_ok read
        have inside := stands.inside here
        have positive := stands.size_pos
        rw [← stands.next_eq] at inside
        refine .reads hasMore read (ih ?_ inside)
        simp only [skip]
        omega

theorem comes_ofCode (code : List UInt8) : Comes { data := code } (ofCode code) :=
  comes_readFrom (by simp) (zero_le _)

theorem Comes.stands {listing : Listing} (comes : Comes cursor listing) :
    ∀ instruction ∈ listing.instructions,
      instruction.StandsAt { cursor with position := instruction.offset } := by
  induction comes with
  | ends => simp
  | fails => simp
  | reads hasMore read later ih =>
    obtain ⟨stands, rfl⟩ := readInstruction_eq_ok read
    intro found mem
    rcases mem_cons.1 mem with rfl | mem
    · rwa [stands.offset]
    · exact ih found mem

theorem Comes.tiles {listing : Listing} (comes : Comes cursor listing)
    (here : cursor.position ≤ cursor.data.length) (complete : listing.failure = none) :
    Tiles cursor.data.length cursor.position listing.instructions := by
  induction comes with
  | ends exhausted =>
    simp only [hasMore, decide_eq_false_iff_not] at exhausted
    exact le_antisymm here (Nat.le_of_not_lt exhausted)
  | fails => cases complete
  | reads hasMore read later ih =>
    obtain ⟨stands, rfl⟩ := readInstruction_eq_ok read
    have inside := stands.inside here
    refine ⟨stands.offset, stands.size_pos, ?_⟩
    rw [← stands.next_eq] at inside ⊢
    exact ih inside complete

theorem Comes.unique {first second : Listing}
    (comes : Comes cursor first) (other : Comes cursor second) : first = second := by
  induction comes generalizing second with
  | ends exhausted =>
    cases other with
    | ends => rfl
    | fails hasMore => simp [exhausted] at hasMore
    | reads hasMore => simp [exhausted] at hasMore
  | fails hasMore failed =>
    cases other with
    | ends exhausted => simp [exhausted] at hasMore
    | fails _ failed' =>
      cases failed.symm.trans failed'
      rfl
    | reads _ read => cases failed.symm.trans read
  | reads hasMore read later ih =>
    cases other with
    | ends exhausted => simp [exhausted] at hasMore
    | fails _ failed => cases read.symm.trans failed
    | reads _ read' later' =>
      cases read.symm.trans read'
      rw [ih later']

end Listing

namespace Assembler

/-- Writes an instruction that was read. -/
def emitAgain (instruction : Instruction) : Assembly Unit :=
  emit instruction.opcode (instruction.operand.relative instruction.next)

/-- Writing the instructions again appends the bytes that they cover. -/
theorem emitAgain_tiles {code : List UInt8} {instructions : List Instruction} {start : Nat}
    (short : code.length < 2 ^ 32 - 1) (tiles : Tiles code.length start instructions)
    (stands : ∀ instruction ∈ instructions,
      instruction.StandsAt { data := code, position := instruction.offset })
    {assembler : Assembler} (isCode : assembler.code = code.take start) :
    instructions.forM emitAgain assembler = .ok () { assembler with code } := by
  induction instructions generalizing start assembler with
  | nil =>
    obtain rfl : start = code.length := tiles
    rw [take_length] at isCode
    rw [← isCode]
    rfl
  | cons instruction rest ih =>
    obtain ⟨rfl, -, later⟩ := tiles
    have emitted := (stands instruction mem_cons_self).emits short isCode
    exact (andThen_of_ok emitted).trans
      (ih later (fun found mem => stands found (mem_cons_of_mem _ mem)) rfl)

end Assembler

theorem decode_eq_ok {code : List UInt8} {instructions : List Instruction}
    (decoded : decode code = .ok instructions) :
    (Listing.ofCode code).failure = none ∧ (Listing.ofCode code).instructions = instructions := by
  unfold decode at decoded
  dsimp only at decoded
  split at decoded
  · rename_i complete
    cases decoded
    exact ⟨complete, rfl⟩
  · cases decoded

/-- Reading ends on every code. The instructions of a code that is read to its end tile it, their
branches go forward inside it, and writing them again, each branch by its distance, gives the same
code. -/
theorem decode_emits_same_code (code : List UInt8) :
    Listing.Comes { data := code } (Listing.ofCode code) ∧
      ∀ instructions, decode code = .ok instructions → code.length < 2 ^ 32 - 1 →
        Tiles code.length 0 instructions ∧
        (∀ instruction ∈ instructions, instruction.operand.LeadsForward instruction.opcode
          instruction.offset code.length) ∧
        ∃ assembler : Assembler, instructions.forM Assembler.emitAgain {} = .ok () assembler ∧
          assembler.finalize = .ok code := by
  have comes := Listing.comes_ofCode code
  refine ⟨comes, fun instructions decoded short => ?_⟩
  obtain ⟨complete, rfl⟩ := decode_eq_ok decoded
  have tiles := comes.tiles (zero_le _) complete
  have stands := comes.stands
  refine ⟨tiles, fun instruction mem => ?_, _, Assembler.emitAgain_tiles short tiles stands rfl, rfl⟩
  obtain ⟨_, _, _, _, _, readFrom⟩ := (stands instruction mem).exists_bytes
  exact (readFrom short).2

/-- A branch into the middle of a jump table, a number that is none, a check mask, a way back out of
a protected region. -/
def oddities : List UInt8 :=
  [0x2b, 0x01, 0x45, 0x02, 0x00, 0x00, 0x00, 0xfe, 0xff, 0xff, 0xff, 0x10, 0x00, 0x00, 0x00, 0x22,
    0x01, 0x00, 0xc0, 0x7f, 0xfe, 0x19, 0xff, 0xdd, 0xff, 0xff, 0xff, 0xff, 0x2a]

theorem decode_emits_same_code_oddities :
    ∃ instructions, decode oddities = .ok instructions ∧ oddities.length < 2 ^ 32 - 1 ∧
      instructions.map offset = [0, 2, 15, 20, 23, 28] ∧
      Tiles oddities.length 0 instructions ∧
      ∃ assembler : Assembler, instructions.forM Assembler.emitAgain {} = .ok () assembler ∧
        assembler.finalize = .ok oddities := by
  have decoded : decode oddities = .ok [
      ⟨0, 2, .brS, .target ⟨3⟩⟩, ⟨2, 13, .switch, .switch [-2, 16]⟩,
      ⟨15, 5, .ldcR4, .single 0x7fc00001⟩, ⟨20, 3, .noCheck, .byte 255⟩, ⟨23, 5, .leave, .int (-1)⟩,
      ⟨28, 1, .ret, .none⟩] := rfl
  have short : oddities.length < 2 ^ 32 - 1 := by decide
  obtain ⟨tiles, -, emitted⟩ := (decode_emits_same_code oddities).2 _ decoded short
  exact ⟨_, decoded, short, rfl, tiles, emitted⟩

end CilLift
