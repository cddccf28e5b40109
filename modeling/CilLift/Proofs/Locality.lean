import CilLift.Proofs.Faults
import CilLift.Proofs.Reencoding

/-!
How an instruction is read depends on its own bytes, on the place where it stands and on the length of
the code. So the bytes of one instruction can be overwritten without changing what the others are.
-/

namespace CilLift

open List Instruction

variable {listing : Listing}

/-- The cursors stand at one place in codes of one length, whose bytes agree from there to `stop`. -/
structure Cursor.SeenAlike (stop : Nat) (cursor other : Cursor) : Prop where
  position : other.position = cursor.position
  length : other.data.length = cursor.data.length
  bytes : ∀ place, cursor.position ≤ place → place < stop → other.data[place]? = cursor.data[place]?

namespace Cursor.SeenAlike

variable {cursor other : Cursor} {stop : Nat}

theorem shorten {earlier : Nat} (alike : SeenAlike stop cursor other) (before : earlier ≤ stop) :
    SeenAlike earlier cursor other :=
  ⟨alike.position, alike.length, fun place isBehind isBefore =>
    alike.bytes place isBehind (lt_of_lt_of_le isBefore before)⟩

theorem extend (alike : SeenAlike cursor.data.length cursor other) : SeenAlike stop cursor other := by
  refine ⟨alike.position, alike.length, fun place isBehind _ => ?_⟩
  by_cases inside : place < cursor.data.length
  · exact alike.bytes place isBehind inside
  · have outside := alike.length
    rw [getElem?_eq_none (by omega), getElem?_eq_none (by omega)]

theorem advance {next : Cursor} (alike : SeenAlike stop cursor other) (sameData : next.data = cursor.data)
    (isBehind : cursor.position ≤ next.position) :
    SeenAlike stop next { other with position := next.position } where
  position := rfl
  length := by rw [sameData, alike.length]
  bytes place later before := by
    rw [sameData]
    exact alike.bytes place (le_trans isBehind later) before

theorem window {width : Nat} (alike : SeenAlike (cursor.position + width) cursor other) :
    (other.data.drop other.position).take width = (cursor.data.drop cursor.position).take width := by
  refine ext_getElem? fun index => ?_
  rw [getElem?_take, getElem?_take]
  split
  · rw [getElem?_drop, getElem?_drop, alike.position]
    exact alike.bytes _ (Nat.le_add_right _ _) (by omega)
  · rfl

end Cursor.SeenAlike

open Cursor

/-- Reading goes forward, and what it gives depends on the bytes that it passes; a failure may depend
on all bytes that are left. -/
structure Read.Local {α : Type} (read : Read α) : Prop where
  forward : ∀ {cursor next result}, read cursor = .ok result next →
    next.data = cursor.data ∧ cursor.position ≤ next.position
  succeeds : ∀ {cursor next result other}, read cursor = .ok result next →
    SeenAlike next.position cursor other →
      read other = .ok result { other with position := next.position }
  fails : ∀ {cursor stuck error other}, read cursor = .error error stuck →
    SeenAlike cursor.data.length cursor other → ∃ stuck, read other = .error error stuck

namespace Read.Local

variable {α β : Type}

theorem pure (result : α) : Local (pure result) where
  forward success := by
    cases success
    exact ⟨rfl, le_refl _⟩
  succeeds success alike := by
    cases success
    rw [← alike.position]
    rfl
  fails failed := by cases failed

theorem throw (error : Error) : Local (throw error : Read α) where
  forward success := by cases success
  succeeds success := by cases success
  fails failed _ := by
    cases failed
    exact ⟨_, rfl⟩

/-- Two local readings in sequence are local. -/
theorem andThen {read : Read β} {second : β → Read α} (first : Local read)
    (next : ∀ result, Local (second result)) : Local (read >>= second) where
  forward success := by
    obtain ⟨found, middle, isFound, later⟩ := andThen_eq_ok.1 success
    obtain ⟨sameData, isBehind⟩ := first.forward isFound
    obtain ⟨sameData', isBehind'⟩ := (next found).forward later
    exact ⟨sameData'.trans sameData, le_trans isBehind isBehind'⟩
  succeeds success alike := by
    obtain ⟨found, middle, isFound, later⟩ := andThen_eq_ok.1 success
    obtain ⟨sameData, isBehind⟩ := first.forward isFound
    obtain ⟨-, isBehind'⟩ := (next found).forward later
    exact andThen_eq_ok.2 ⟨_, _, first.succeeds isFound (alike.shorten isBehind'),
      (next found).succeeds later (alike.advance sameData isBehind)⟩
  fails {cursor stuck error other} failed alike := by
    change EStateM.bind read second cursor = _ at failed
    change ∃ stuck, EStateM.bind read second other = _
    unfold EStateM.bind at failed ⊢
    cases isFound : read cursor with
    | ok found middle =>
      rw [isFound] at failed
      obtain ⟨sameData, isBehind⟩ := first.forward isFound
      rw [first.succeeds isFound alike.extend]
      exact (next found).fails failed (alike.extend.advance sameData isBehind)
    | error error middle =>
      rw [isFound] at failed
      cases failed
      obtain ⟨stuck, failed⟩ := first.fails isFound alike
      rw [failed]
      exact ⟨_, rfl⟩

theorem inspect (second : Nat → Nat → Read α)
    (next : ∀ position length, Local (second position length)) :
    Local (get >>= fun cursor => second cursor.position cursor.data.length) where
  forward success := (next _ _).forward success
  succeeds {cursor _ _ other} success alike := by
    change second other.position other.data.length other = _
    rw [alike.position, alike.length]
    exact (next _ _).succeeds success alike
  fails {cursor _ _ other} failed alike := by
    change ∃ stuck, second other.position other.data.length other = _
    rw [alike.position, alike.length]
    exact (next _ _).fails failed alike

theorem readNumber (width : Nat) : Local (readNumber width) where
  forward success := by
    obtain ⟨-, -, rfl⟩ := readNumber_eq_ok success
    exact ⟨rfl, Nat.le_add_right _ _⟩
  succeeds {cursor next result other} success alike := by
    obtain ⟨-, -, rfl⟩ := readNumber_eq_ok success
    have sameWindow := alike.window
    unfold Cursor.readNumber at success ⊢
    dsimp only at success ⊢
    rw [sameWindow, alike.position]
    split at success
    · rename_i isLong
      cases success
      rw [if_pos isLong]
      rfl
    · cases success
  fails {cursor stuck error other} failed alike := by
    have sameWindow : _ = (cursor.data.drop cursor.position).take width := alike.extend.window
    unfold Cursor.readNumber at failed ⊢
    dsimp only at failed ⊢
    rw [sameWindow]
    split at failed
    · cases failed
    · rename_i isShort
      cases failed
      rw [if_neg isShort]
      exact ⟨_, rfl⟩

theorem law : Law Local :=
  ⟨pure, fun _ => throw _, andThen, inspect, readNumber⟩

end Read.Local

/-- The code with `count` bytes from `start` on overwritten by instructions that do nothing. -/
def blanked (code : List UInt8) (start count : Nat) : List UInt8 :=
  code.take start ++ (replicate count Opcode.nop.spec.byte ++ code.drop (start + count))

section Blanked

variable {code : List UInt8} {start count : Nat} (inside : start + count ≤ code.length)

include inside

theorem length_blanked : (blanked code start count).length = code.length := by
  simp only [blanked, length_append, length_take, length_replicate, length_drop]
  omega

theorem blanked_outside {place : Nat} (outside : place < start ∨ start + count ≤ place) :
    (blanked code start count)[place]? = code[place]? := by
  have isLength : (code.take start).length = start := by
    rw [length_take]
    omega
  unfold blanked
  rcases outside with before | behind
  · rw [getElem?_append_left (by omega), getElem?_take, if_pos before]
  · rw [getElem?_append_right (by omega), getElem?_append_right (by simp; omega), getElem?_drop]
    congr 1
    simp only [length_replicate]
    omega

theorem blanked_inside {place : Nat} (isBehind : start ≤ place) (isBefore : place < start + count) :
    (blanked code start count)[place]? = some Opcode.nop.spec.byte := by
  have isLength : (code.take start).length = start := by
    rw [length_take]
    omega
  unfold blanked
  rw [getElem?_append_right (by omega), getElem?_append_left (by simp; omega),
    getElem?_replicate, if_pos (by omega)]

end Blanked

/-- Instructions that do nothing, one behind the other. -/
def Instruction.nops : Nat → Nat → List Instruction
  | _, 0 => []
  | start, count + 1 => ⟨start, 1, .nop, .none⟩ :: nops (start + 1) count

theorem readInstruction_nop {cursor : Cursor}
    (isNop : cursor.data[cursor.position]? = some Opcode.nop.spec.byte) :
    readInstruction cursor = .ok ⟨cursor.position, 1, .nop, .none⟩ (cursor.skip 1) := by
  have ahead : cursor.Ahead (Opcode.nop.encoding ++ []) := by
    refine ⟨cursor.data.drop (cursor.position + 1), ?_⟩
    obtain ⟨inside, isByte⟩ := List.getElem?_eq_some_iff.1 isNop
    rw [drop_eq_getElem_cons inside, isByte]
    rfl
  exact readInstruction_ahead (rfl : operandBytes .nop .none = .ok []) rfl ahead
    (fun _ isJump => by cases isJump)

namespace Listing

/-- A code is read alike from where it agrees with another. -/
theorem Comes.seenAlike {cursor other : Cursor} (comes : Comes cursor listing)
    (alike : SeenAlike cursor.data.length cursor other) : Comes other listing := by
  have sameMore : ∀ {cursor other : Cursor}, SeenAlike cursor.data.length cursor other →
      other.hasMore = cursor.hasMore := by
    intro cursor other alike
    unfold hasMore
    rw [alike.position, alike.length]
  induction comes generalizing other with
  | ends exhausted => exact .ends ((sameMore alike).trans exhausted)
  | fails hasMore failed =>
    obtain ⟨stuck, failed⟩ := Read.Local.law.readInstruction.fails failed alike
    exact .fails ((sameMore alike).trans hasMore) failed
  | reads hasMore read later ih =>
    obtain ⟨sameData, isBehind⟩ := Read.Local.law.readInstruction.forward read
    refine .reads ((sameMore alike).trans hasMore)
      (Read.Local.law.readInstruction.succeeds read alike.extend) (ih ?_)
    exact alike.extend.advance sameData isBehind

variable {cursor : Cursor}

theorem Comes.inside (comes : Comes cursor listing)
    (here : cursor.position ≤ cursor.data.length) : ∀ instruction ∈ listing.instructions,
      cursor.position ≤ instruction.offset ∧ instruction.next ≤ cursor.data.length := by
  induction comes with
  | ends => simp
  | fails => simp
  | reads hasMore read later ih =>
    obtain ⟨stands, rfl⟩ := readInstruction_eq_ok read
    have insideNext := stands.inside here
    intro found mem
    rcases mem_cons.1 mem with rfl | mem
    · exact ⟨le_of_eq stands.offset.symm, insideNext⟩
    · rw [← stands.next_eq] at insideNext
      obtain ⟨isBehind, inside⟩ := ih insideNext found mem
      exact ⟨le_trans (Nat.le_add_right _ _) isBehind, inside⟩

theorem comes_nops {instructions : List Instruction} {failure : Option Error}
    {count : Nat} (areNops : ∀ place, cursor.position ≤ place → place < cursor.position + count →
      cursor.data[place]? = some Opcode.nop.spec.byte)
    (later : Comes (cursor.skip count) ⟨instructions, failure⟩) :
    Comes cursor ⟨nops cursor.position count ++ instructions, failure⟩ := by
  induction count generalizing cursor with
  | zero => exact later
  | succ count ih =>
    have isNop := areNops cursor.position (le_refl _) (by omega)
    have inside := (List.getElem?_eq_some_iff.1 isNop).1
    rw [add_comm, ← skip_skip] at later
    have rest := ih (fun place isBehind isBefore => ?_) later
    · exact .reads (hasMore_iff.2 inside) (readInstruction_nop isNop) rest
    · simp only [skip] at isBehind isBefore
      exact areNops place (by omega) (by omega)

/-- Overwriting an instruction leaves the others as they are. -/
theorem Comes.blanked {before after : List Instruction}
    {instruction : Instruction} (comes : Comes cursor listing)
    (here : cursor.position ≤ cursor.data.length)
    (isSplit : listing.instructions = before ++ instruction :: after) :
    Comes { cursor with data := blanked cursor.data instruction.offset instruction.size }
      ⟨before ++ (nops instruction.offset instruction.size ++ after), listing.failure⟩ := by
  induction comes generalizing before with
  | ends => simp at isSplit
  | fails => simp at isSplit
  | @reads cursor next first rest hasMore read later ih =>
    obtain ⟨stands, rfl⟩ := readInstruction_eq_ok read
    have insideFirst := stands.inside here
    have hereNext : (cursor.skip first.size).position ≤ (cursor.skip first.size).data.length := by
      rwa [stands.next_eq]
    cases before with
    | nil =>
      obtain ⟨rfl, rfl⟩ := cons.inj isSplit
      rw [Instruction.next, stands.offset] at insideFirst
      rw [stands.offset]
      refine comes_nops (fun place => blanked_inside insideFirst) ?_
      refine later.seenAlike ⟨rfl, length_blanked insideFirst, fun place isBehind _ => ?_⟩
      exact blanked_outside insideFirst (.inr isBehind)
    | cons earlier before =>
      obtain ⟨rfl, isRest⟩ := cons.inj isSplit
      have mem : instruction ∈ rest.instructions := by
        rw [isRest]
        exact mem_append_right _ mem_cons_self
      obtain ⟨isBehind, inside⟩ := later.inside hereNext instruction mem
      have alike : SeenAlike (cursor.skip first.size).position cursor
          { cursor with data := CilLift.blanked cursor.data instruction.offset instruction.size } :=
        ⟨rfl, length_blanked inside, fun place _ isBefore =>
          blanked_outside inside (.inl (lt_of_lt_of_le isBefore isBehind))⟩
      have hasMore' : Cursor.hasMore { cursor with
          data := CilLift.blanked cursor.data instruction.offset instruction.size } = true := by
        rw [hasMore_iff] at hasMore ⊢
        exact lt_of_lt_of_eq hasMore (length_blanked inside).symm
      exact .reads hasMore' (Read.Local.law.readInstruction.succeeds read alike) (ih hereNext isRest)

theorem ofCode_blanked {code : List UInt8} {before after : List Instruction}
    {instruction : Instruction}
    (isSplit : (ofCode code).instructions = before ++ instruction :: after) :
    ofCode (blanked code instruction.offset instruction.size) =
      ⟨before ++ (nops instruction.offset instruction.size ++ after), (ofCode code).failure⟩ :=
  (comes_ofCode _).unique ((comes_ofCode code).blanked (Nat.zero_le _) isSplit)

end Listing

end CilLift
