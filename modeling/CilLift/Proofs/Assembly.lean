import Mathlib.Data.List.TakeWhile
import CilLift.Proofs.Reencoding

/-!
What is written is read back. An assembler takes requests, of which it refuses some; the finished code
is read as the instructions of the accepted ones, with labels replaced by the places they name.
-/

namespace CilLift

open Cursor List Assembler

variable {opcode : Opcode} {bytes code : List UInt8} {request : Request}

/-- A request to an assembler. -/
inductive Request where
  | emit (opcode : Opcode) (operand : Operand)
  | branch (opcode : Opcode) (label : String)
  | define (label : String)
  deriving DecidableEq

namespace Assembler

def perform : Request → Assembly Unit
  | .emit opcode operand => emit opcode operand
  | .branch opcode label => emitBranch opcode label
  | .define label => defineLabel label

/-- The assembler after a request, be it accepted or refused. -/
def attempt (assembler : Assembler) (request : Request) : Assembler :=
  match perform request assembler with
  | .ok _ next | .error _ next => next

/-- The requests that are not refused when all are made in turn. -/
def accepted (assembler : Assembler) : List Request → List Request
  | [] => []
  | request :: rest =>
    match perform request assembler with
    | .ok _ next => request :: next.accepted rest
    | .error _ next => next.accepted rest

theorem defineLabel_eq (label : String) (assembler : Assembler) :
    defineLabel label assembler =
      if (assembler.labels.lookup label).isSome then .error (.duplicateLabel label) assembler
      else .ok () { assembler with labels := (label, assembler.position) :: assembler.labels } := by
  refine (andThen_of_ok rfl).trans ?_
  split <;> rfl

/-- A request is refused before anything is written. -/
theorem perform_refused {assembler next : Assembler} {error : Error}
    (refused : perform request assembler = .error error next) : next = assembler := by
  cases request with
  | emit opcode operand =>
    rw [perform, emit] at refused
    cases encoded : operandBytes opcode operand with
    | ok bytes =>
      rw [encoded] at refused
      cases refused
    | error fault =>
      rw [encoded] at refused
      cases refused
      rfl
  | branch opcode label =>
    rw [perform, emitBranch] at refused
    cases isWidth : distanceWidth? opcode with
    | some width =>
      rw [isWidth] at refused
      cases refused
    | none =>
      rw [isWidth] at refused
      cases refused
      rfl
  | define label =>
    rw [perform, defineLabel_eq] at refused
    split at refused
    · cases refused
      rfl
    · cases refused

/-- The requests that are refused can be left out. -/
theorem perform_accepted (assembler : Assembler) (requests : List Request) :
    (assembler.accepted requests).forM perform assembler = .ok () (requests.foldl attempt assembler) := by
  induction requests generalizing assembler with
  | nil => rfl
  | cons request rest ih =>
    rw [accepted, foldl_cons, attempt]
    cases performed : perform request assembler with
    | ok _ next => exact (andThen_of_ok performed).trans (ih next)
    | error error next =>
      rw [perform_refused performed]
      exact ih assembler

end Assembler

/-- What follows an opcode: an operand, or the distance to a label. -/
inductive Content where
  | operand (value : Operand)
  | label (name : String)

/-- An instruction as it was requested. -/
structure Item where
  opcode : Opcode
  content : Content

namespace Item

/-- The bytes of the operand. -/
def width (item : Item) : Nat :=
  match item.opcode.operandKind with
  | .none => 0
  | .int8 | .uint8 => 1
  | .uint16 => 2
  | .int32 | .float32 | .token => 4
  | .int64 | .float64 => 8
  | .switch =>
    match item.content with
    | .operand (.switch distances) => 4 + 4 * distances.length
    | _ => 4

def size (item : Item) : Nat := item.opcode.encoding.length + item.width

/-- Where a branch that ends at `next` goes, given the places of the labels. -/
def destination? (places : String → Option Nat) (next : Nat) (item : Item) : Option Int :=
  match item.content with
  | .operand (.int distance) => some (next + distance.toInt)
  | .operand _ => none
  | .label name => (places name).map Int.ofNat

/-- The operand that is read back: branches have a place in the code, whether they were written with
a distance or a label, and only `leave` keeps its distance. -/
def operand (places : String → Option Nat) (next : Nat) (item : Item) : Operand :=
  match item.content with
  | .operand operand => operand.readBack item.opcode next
  | .label name =>
    let place := (places name).getD 0
    if item.opcode.family = .jump then .target (Label.ofOffset place)
    else .int (Int32.ofInt (place - next))

/-- The instruction that is read back at an offset. -/
def instruction (places : String → Option Nat) (offset : Nat) (item : Item) : Instruction where
  offset
  size := item.size
  opcode := item.opcode
  operand := item.operand places (offset + item.size)

/-- The items with their offsets, each the sum of the sizes before it. -/
def placed : Nat → List Item → List (Nat × Item)
  | _, [] => []
  | offset, item :: rest => (offset, item) :: placed (offset + item.size) rest

def totalSize (items : List Item) : Nat := (items.map size).sum

@[simp] theorem totalSize_append (first second : List Item) :
    totalSize (first ++ second) = totalSize first + totalSize second := by
  simp [totalSize]

theorem placed_append (offset : Nat) (first second : List Item) :
    placed offset (first ++ second) =
      placed offset first ++ placed (offset + totalSize first) second := by
  induction first generalizing offset with
  | nil => simp [placed, totalSize]
  | cons item rest ih =>
    simp [placed, ih, totalSize, add_assoc]

/-- The operand with which the item stands in the finished code. -/
def written (places : String → Option Nat) (next : Nat) (item : Item) : Operand :=
  match item.content with
  | .operand operand => operand
  | .label name => .int (Int32.ofInt ((places name).getD 0 - next))

/-- The bytes before labels are resolved. -/
def draft (item : Item) : List UInt8 :=
  item.opcode.encoding ++
    match item.content with
    | .operand operand => (operandBytes item.opcode operand).toOption.getD []
    | .label _ => replicate item.width 0

/-- The distance that is still to be written. -/
def fixup? (offset : Nat) (item : Item) : Option Fixup :=
  match item.content with
  | .operand _ => none
  | .label name => some
    { label := name
      position := offset + item.opcode.encoding.length
      width := item.width
      mnemonic := item.opcode.mnemonic }

/-- An assembler accepts the item. -/
def Valid (item : Item) : Prop :=
  match item.content with
  | .operand operand => ∃ bytes, operandBytes item.opcode operand = .ok bytes
  | .label _ => distanceWidth? item.opcode = some item.width

end Item

namespace Request

def item? : Request → Option Item
  | .emit opcode operand => some ⟨opcode, .operand operand⟩
  | .branch opcode label => some ⟨opcode, .label label⟩
  | .define _ => none

/-- The instructions among some requests. -/
def items (requests : List Request) : List Item := requests.filterMap item?

/-- The place of a label: the size of all instructions before its definition. -/
def place? (requests : List Request) (label : String) : Option Nat :=
  if .define label ∈ requests then
    some (Item.totalSize (items (requests.takeWhile (· != .define label))))
  else none

theorem items_append (first second : List Request) :
    items (first ++ second) = items first ++ items second :=
  filterMap_append

variable {requests : List Request} {label : String}

theorem place?_append_of_mem (defined : .define label ∈ requests) (more : List Request) :
    place? (requests ++ more) label = place? requests label := by
  unfold place?
  rw [if_pos (mem_append_left _ defined), if_pos defined, takeWhile_append, if_neg]
  intro whole
  have same := (List.takeWhile_prefix (· != define label)).eq_of_length whole
  have never := takeWhile_eq_self_iff.1 same _ defined
  simp at never

theorem place?_append_of_not_mem (notDefined : .define label ∉ requests) (request : Request) :
    place? (requests ++ [request]) label =
      if request = .define label then some (Item.totalSize (items requests)) else none := by
  have whole : requests.takeWhile (· != .define label) = requests := by
    rw [takeWhile_eq_self_iff]
    rintro found mem
    have isOther : found ≠ .define label := fun same => notDefined (same ▸ mem)
    simpa using isOther
  unfold place?
  by_cases isDefinition : request = .define label
  · rw [takeWhile_append, whole, isDefinition]
    simp
  · rw [if_neg isDefinition]
    simpa [notDefined] using Ne.symm isDefinition

theorem place?_eq_none_iff : place? requests label = none ↔ .define label ∉ requests := by
  simp [place?]

end Request

theorem length_operandBytes {operand : Operand}
    (encoded : operandBytes opcode operand = .ok bytes) :
    bytes.length = (Item.mk opcode (.operand operand)).width := by
  unfold operandBytes at encoded
  unfold Item.width
  split at encoded
  case h_2 kind =>
    split at encoded <;> cases encoded
    simp [kind]
  case h_3 kind =>
    split at encoded <;> cases encoded
    simp [kind]
  case h_11 distances kind =>
    split at encoded <;> cases encoded
    have isTable := length_distanceBytes distances
    unfold distanceBytes at isTable
    simp [kind, isTable]
  case h_12 => cases encoded
  all_goals
    rename_i kind
    cases encoded
    simp [kind]

theorem Item.Valid.length_draft {item : Item} (valid : item.Valid) : item.draft.length = item.size := by
  obtain ⟨opcode, content⟩ := item
  cases content with
  | operand operand =>
    obtain ⟨bytes, encoded⟩ := valid
    simp [draft, size, encoded, Except.toOption, length_operandBytes encoded]
  | label name => simp [draft, size]

/-- An assembler that has accepted the requests. -/
structure Assembler.Holds (assembler : Assembler) (requests : List Request) : Prop where
  valid : ∀ item ∈ Request.items requests, item.Valid
  code : assembler.code = (Request.items requests).flatMap Item.draft
  fixups : assembler.fixups =
    (Item.placed 0 (Request.items requests)).filterMap fun entry => entry.2.fixup? entry.1
  labels : ∀ label, assembler.labels.lookup label = Request.place? requests label

namespace Assembler.Holds

variable {assembler next : Assembler} {requests : List Request}

theorem empty : ({} : Assembler).Holds [] where
  valid := by simp [Request.items]
  code := rfl
  fixups := rfl
  labels _ := rfl

theorem length_code (holds : assembler.Holds requests) :
    assembler.code.length = Item.totalSize (Request.items requests) := by
  rw [holds.code, length_flatMap]
  exact congrArg sum (map_congr_left fun item mem => (holds.valid item mem).length_draft)

theorem place?_append (isItem : request.item?.isSome = true) (label : String) :
    Request.place? (requests ++ [request]) label = Request.place? requests label := by
  by_cases defined : .define label ∈ requests
  · exact Request.place?_append_of_mem defined _
  · rw [Request.place?_append_of_not_mem defined, Request.place?_eq_none_iff.2 defined, if_neg]
    rintro rfl
    cases isItem

/-- An accepted instruction is appended. -/
theorem append (holds : assembler.Holds requests) {item : Item} (isItem : request.item? = some item)
    (valid : item.Valid) (code : next.code = assembler.code ++ item.draft)
    (fixups : next.fixups = assembler.fixups ++ (item.fixup? assembler.code.length).toList)
    (labels : next.labels = assembler.labels) : next.Holds (requests ++ [request]) := by
  have isItems : Request.items (requests ++ [request]) = Request.items requests ++ [item] := by
    simp [Request.items, isItem]
  constructor
  · rw [isItems]
    simpa using fun found => Or.rec (holds.valid found) fun isLast => isLast ▸ valid
  · rw [isItems, code, holds.code, flatMap_append, flatMap_singleton]
  · rw [isItems, fixups, holds.fixups, holds.length_code, Item.placed_append]
    cases isFixup : item.fixup? (Item.totalSize (Request.items requests)) <;> simp [Item.placed, isFixup]
  · intro label
    rw [labels, holds.labels, place?_append (by simp [isItem])]

theorem width_of_distanceWidth? {width : Nat} (label : String)
    (isWidth : distanceWidth? opcode = some width) :
    (Item.mk opcode (.label label)).width = width := by
  unfold distanceWidth? at isWidth
  unfold Item.width
  split at isWidth
  · rename_i kind
    split at isWidth <;> cases isWidth
    simp [kind]
  · rename_i kind
    split at isWidth <;> cases isWidth
    simp [kind]
  · cases isWidth

/-- What one accepted request adds. -/
theorem perform (holds : assembler.Holds requests)
    (performed : perform request assembler = .ok () next) :
    next.Holds (requests ++ [request]) := by
  cases request with
  | emit opcode operand =>
    rw [perform, emit] at performed
    cases encoded : operandBytes opcode operand with
    | ok bytes =>
      rw [encoded] at performed
      cases performed
      refine holds.append rfl ⟨bytes, encoded⟩ ?_ ?_ rfl
      · simp [Item.draft, encoded, Except.toOption]
      · simp [Item.fixup?]
    | error fault =>
      rw [encoded] at performed
      cases performed
  | branch opcode label =>
    rw [perform, emitBranch] at performed
    cases isWidth : distanceWidth? opcode with
    | none =>
      rw [isWidth] at performed
      cases performed
    | some width =>
      rw [isWidth] at performed
      have sameWidth := width_of_distanceWidth? label isWidth
      cases performed
      have valid : (Item.mk opcode (.label label)).Valid :=
        isWidth.trans (congrArg some sameWidth.symm)
      refine holds.append rfl valid ?_ ?_ rfl
      · simp [Item.draft, sameWidth]
      · simp [Item.fixup?, position, sameWidth]
  | define label =>
    rw [perform, defineLabel_eq] at performed
    split at performed
    · cases performed
    · rename_i isNew
      cases performed
      have sameItems : Request.items (requests ++ [.define label]) = Request.items requests := by
        simp [Request.items, Request.item?]
      have fresh : .define label ∉ requests := by
        rw [← Request.place?_eq_none_iff, ← holds.labels]
        exact Option.not_isSome_iff_eq_none.1 isNew
      refine ⟨by rw [sameItems]; exact holds.valid, by rw [sameItems]; exact holds.code,
        by rw [sameItems]; exact holds.fixups, fun other => ?_⟩
      rw [lookup_cons]
      by_cases same : other = label
      · subst same
        rw [Request.place?_append_of_not_mem fresh, ← holds.length_code]
        simp [position]
      · have isOther : (other == label) = false := by simpa using same
        rw [isOther]
        rw [holds.labels]
        by_cases defined : .define other ∈ requests
        · exact (Request.place?_append_of_mem defined _).symm
        · rw [Request.place?_append_of_not_mem defined, Request.place?_eq_none_iff.2 defined]
          simpa using Ne.symm same

theorem performAll (holds : assembler.Holds requests) {more : List Request}
    (performed : more.forM Assembler.perform assembler = .ok () next) :
    next.Holds (requests ++ more) := by
  induction more generalizing assembler requests with
  | nil =>
    cases performed
    rwa [append_nil]
  | cons request rest ih =>
    obtain ⟨⟨⟩, middle, first, performed⟩ := andThen_eq_ok.1 performed
    have later := ih (holds.perform first) performed
    rwa [append_assoc] at later

end Assembler.Holds

/-- The distance to a label can be written. -/
def Item.Reaches (places : String → Option Nat) (next : Nat) (item : Item) : Prop :=
  ∀ name, item.content = .label name →
    ∃ place, places name = some place ∧ (Int32.ofInt (place - next)).toInt = place - next

/-- The bytes of the items in the finished code, from an offset on. -/
inductive Layout (places : String → Option Nat) : Nat → List Item → List UInt8 → Prop where
  | nil {offset : Nat} : Layout places offset [] []
  | cons {offset : Nat} {item : Item} {rest : List Item} {bytes later : List UInt8}
      (encoded : operandBytes item.opcode (item.written places (offset + item.size)) = .ok bytes)
      (isSize : item.opcode.encoding.length + bytes.length = item.size)
      (reaches : item.Reaches places (offset + item.size))
      (tail : Layout places (offset + item.size) rest later) :
      Layout places offset (item :: rest) (item.opcode.encoding ++ bytes ++ later)

namespace Assembler

theorem patch_middle (before after : List UInt8) {old : List UInt8}
    (same : old.length = bytes.length) :
    patch (before ++ old ++ after) before.length bytes = before ++ bytes ++ after := by
  unfold patch
  rw [append_assoc before old, take_left, ← drop_drop, drop_left, ← same, drop_left]

/-- A distance that fits is written as the number that stands for it. -/
theorem operandBytes_distance {width : Nat} {distance : Int}
    (isWidth : distanceWidth? opcode = some width) (fits : fitsWidth width distance = true) :
    operandBytes opcode (.int (Int32.ofInt distance)) =
        .ok (littleEndian width (distance % (twoTo (8 * width) : Int)).toNat) ∧
      (Int32.ofInt distance).toInt = distance := by
  have isInt : (Int32.ofInt distance).toInt = distance.bmod (2 ^ 32) := Int32.toInt_ofInt ..
  have isWord := toInt_eq_bmod (Int32.ofInt distance)
  unfold distanceWidth? at isWidth
  unfold operandBytes
  simp only [fitsWidth, decide_eq_true_eq] at fits
  split at isWidth
  · rename_i kind
    split at isWidth <;> cases isWidth
    have isLimit : twoTo (8 * 1 - 1) = 128 := rfl
    have same : (Int32.ofInt distance).toInt = distance := by
      rw [isInt, Int.bmod_def]
      omega
    have low : (Int32.ofInt distance).toUInt32.toNat % 256 = (distance % 256).toNat % 256 := by
      rw [Int.bmod_def] at isWord
      omega
    rw [kind]
    refine ⟨?_, same⟩
    dsimp only
    rw [if_pos (by omega), littleEndian, low]
    rfl
  · rename_i kind
    split at isWidth <;> cases isWidth
    have isLimit : twoTo (8 * 4 - 1) = 2147483648 := rfl
    have same : (Int32.ofInt distance).toInt = distance := by
      rw [isInt, Int.bmod_def]
      omega
    rw [kind]
    refine ⟨?_, same⟩
    rfl
  · cases isWidth

/-- Resolving the label of one item completes its bytes. -/
theorem apply_fixup {labels : List (String × Nat)} {places : String → Option Nat}
    (isPlace : ∀ label, labels.lookup label = places label) {item : Item} (valid : item.Valid)
    {before after patched : List UInt8} {fixup : Fixup}
    (isFixup : item.fixup? before.length = some fixup)
    (applied : Fixup.apply labels (before ++ item.draft ++ after) fixup = .ok patched) :
    ∃ bytes, operandBytes item.opcode (item.written places (before.length + item.size)) = .ok bytes ∧
      item.opcode.encoding.length + bytes.length = item.size ∧
      item.Reaches places (before.length + item.size) ∧
      patched = before ++ (item.opcode.encoding ++ bytes) ++ after := by
  obtain ⟨opcode, operand | name⟩ := item
  · cases isFixup
  have isWidth : distanceWidth? opcode = some (Item.mk opcode (.label name)).width := valid
  have isNext : before.length + opcode.encoding.length + (Item.mk opcode (.label name)).width =
      before.length + (Item.mk opcode (.label name)).size := add_assoc ..
  cases isFixup
  unfold Fixup.apply at applied
  dsimp only at applied
  rw [isPlace, isNext] at applied
  split at applied
  · cases applied
  · rename_i place isFound
    split at applied
    · rename_i fits
      obtain ⟨encoded, isDistance⟩ := operandBytes_distance isWidth fits
      cases applied
      refine ⟨_, trans ?_ encoded, ?_, fun other isLabel => ?_, ?_⟩
      · simp [Item.written, isFound, Option.getD_some]
      · rw [length_littleEndian]
        rfl
      · cases isLabel
        exact ⟨place, isFound, isDistance⟩
      · have sameLength (distance : Nat) :
            (replicate (Item.mk opcode (.label name)).width (0 : UInt8)).length =
              (littleEndian (Item.mk opcode (.label name)).width distance).length := by simp
        have middle := patch_middle (before ++ opcode.encoding) after (sameLength
          (((place : Int) - (before.length + (Item.mk opcode (.label name)).size : Nat)) %
            (twoTo (8 * (Item.mk opcode (.label name)).width) : Int)).toNat)
        rw [length_append] at middle
        simpa only [Item.draft, append_assoc] using middle
    · cases applied

/-- Resolving the labels of some items leaves what stands before them and completes their bytes. -/
theorem layout_of_apply {labels : List (String × Nat)} {places : String → Option Nat}
    (isPlace : ∀ label, labels.lookup label = places label) {items : List Item}
    (valid : ∀ item ∈ items, item.Valid) (before : List UInt8)
    (applied : ((Item.placed before.length items).filterMap fun entry =>
      entry.2.fixup? entry.1).foldlM (Fixup.apply labels) (before ++ items.flatMap Item.draft) =
        .ok code) : ∃ bytes, Layout places before.length items bytes ∧ code = before ++ bytes := by
  induction items generalizing before with
  | nil =>
    cases applied
    exact ⟨[], .nil, by simp⟩
  | cons item rest ih =>
    have isValid := valid item mem_cons_self
    have later := fun found mem => valid found (mem_cons_of_mem item mem)
    rw [Item.placed, flatMap_cons, ← append_assoc] at applied
    -- Either way the item is complete before the rest is looked at.
    have completed : ∃ bytes,
        operandBytes item.opcode (item.written places (before.length + item.size)) = .ok bytes ∧
        item.opcode.encoding.length + bytes.length = item.size ∧
        item.Reaches places (before.length + item.size) ∧
        ((Item.placed (before.length + item.size) rest).filterMap fun entry =>
          entry.2.fixup? entry.1).foldlM (Fixup.apply labels)
            (before ++ (item.opcode.encoding ++ bytes) ++ rest.flatMap Item.draft) = .ok code := by
      cases isFixup : item.fixup? before.length with
      | none =>
        obtain ⟨opcode, operand | name⟩ := item
        · obtain ⟨bytes, encoded⟩ := isValid
          have isDraft : Item.draft ⟨opcode, .operand operand⟩ = opcode.encoding ++ bytes := by
            simp [Item.draft, encoded, Except.toOption]
          rw [isDraft] at applied
          refine ⟨bytes, encoded, congrArg _ (length_operandBytes encoded), ?_, applied⟩
          rintro name ⟨⟩
        · cases isFixup
      | some fixup =>
        simp only [filterMap_cons, isFixup] at applied
        obtain ⟨patched, isPatched, continued⟩ := bind_eq_ok.1 applied
        obtain ⟨bytes, encoded, isSize, reaches, rfl⟩ := apply_fixup isPlace isValid isFixup isPatched
        exact ⟨bytes, encoded, isSize, reaches, continued⟩
    obtain ⟨bytes, encoded, isSize, reaches, continued⟩ := completed
    have isLength : (before ++ (item.opcode.encoding ++ bytes)).length = before.length + item.size := by
      rw [length_append, length_append, isSize]
    rw [← isLength] at continued
    obtain ⟨tail, layout, rfl⟩ := ih later _ continued
    rw [isLength] at layout
    exact ⟨_, .cons encoded isSize reaches layout, by simp [append_assoc]⟩

end Assembler

theorem Assembler.Holds.layout {assembler : Assembler} {requests : List Request}
    (holds : assembler.Holds requests) (finished : assembler.finalize = .ok code) :
    Layout (Request.place? requests) 0 (Request.items requests) code := by
  unfold finalize at finished
  rw [holds.code, holds.fixups] at finished
  obtain ⟨bytes, layout, rfl⟩ := layout_of_apply holds.labels holds.valid [] finished
  exact layout

/-- A branch at an offset goes to a place behind it, inside a code of the given length. -/
def Item.Forward (places : String → Option Nat) (length offset : Nat) (item : Item) : Prop :=
  item.opcode.family = .jump → ∀ target ∈ item.destination? places (offset + item.size),
    (offset : Int) < target ∧ target ≤ (length : Int)

instance (places : String → Option Nat) (length offset : Nat) (item : Item) :
    Decidable (item.Forward places length offset) :=
  inferInstanceAs (Decidable (_ → ∀ _ ∈ _, _))

namespace Layout

variable {places : String → Option Nat} {offset length : Nat} {item : Item}

theorem readBack_written (reaches : item.Reaches places (offset + item.size)) :
    (item.written places (offset + item.size)).readBack item.opcode (offset + item.size) =
      item.operand places (offset + item.size) := by
  obtain ⟨opcode, operand | name⟩ := item
  · rfl
  · obtain ⟨place, isPlace, isDistance⟩ := reaches name rfl
    have isSum : ((offset + (Item.mk opcode (.label name)).size : Nat) : Int) +
        ((place : Int) - (offset + (Item.mk opcode (.label name)).size : Nat)) = place := by omega
    simp only [Item.written, Item.operand, Operand.readBack, isPlace, Option.getD_some, isDistance,
      isSum, Int.toNat_natCast]

theorem goesForward (reaches : item.Reaches places (offset + item.size))
    (forward : item.Forward places length offset) :
    GoesForward item.opcode (item.written places (offset + item.size)) offset (offset + item.size)
      length := by
  intro value isJump isInt
  obtain ⟨opcode, operand | name⟩ := item
  · cases isInt
    exact forward isJump _ rfl
  · obtain ⟨place, isPlace, isDistance⟩ := reaches name rfl
    have bounds := forward isJump place (by simp [Item.destination?, isPlace])
    simp only [Item.written, isPlace, Option.getD_some] at isInt
    cases isInt
    omega

/-- The finished code is read back item by item. -/
theorem comes {items : List Item} (layout : Layout places offset items bytes)
    (isCode : code.drop offset = bytes)
    (forward : ∀ entry ∈ Item.placed offset items, entry.2.Forward places code.length entry.1) :
    Listing.Comes { data := code, position := offset }
      ⟨(Item.placed offset items).map fun entry => entry.2.instruction places entry.1, none⟩ := by
  induction layout with
  | nil =>
    refine .ends ?_
    simpa [hasMore] using isCode
  | @cons offset item rest bytes later encoded isSize reaches tail ih =>
    have ahead : Ahead { data := code, position := offset }
        (item.opcode.encoding ++ bytes) := ⟨later, isCode⟩
    have goes := goesForward reaches (forward _ mem_cons_self)
    have read := readInstruction_ahead encoded isSize ahead goes
    rw [readBack_written reaches] at read
    have isLater : code.drop (offset + item.size) = later := by
      rw [← drop_drop, isCode, ← isSize, ← length_append, drop_left]
    refine .reads ?_ read (ih isLater fun entry mem => forward entry (mem_cons_of_mem _ mem))
    rw [hasMore_iff]
    have positive := item.opcode.encoding_length_pos
    have isLength := congrArg length isCode
    simp only [length_drop, length_append] at isLength ⊢
    omega

end Layout

theorem Assembler.Holds.readBack {assembler : Assembler} {requests : List Request}
    (holds : assembler.Holds requests) (finished : assembler.finalize = .ok code)
    (forward : ∀ entry ∈ Item.placed 0 (Request.items requests),
      entry.2.Forward (Request.place? requests) code.length entry.1) :
    decode code = .ok ((Item.placed 0 (Request.items requests)).map fun entry =>
      entry.2.instruction (Request.place? requests) entry.1) := by
  have comes := (holds.layout finished).comes code.drop_zero forward
  have same := (Listing.comes_ofCode code).unique comes
  unfold decode
  rw [same]

/-- The listing of a finished code holds the accepted instructions in order, each at the sum of the
sizes before it, if the branches among them go forward inside the code. Requests that were refused
leave no trace. -/
theorem decode_finalize (requests : List Request) {code : List UInt8}
    (finished : (requests.foldl attempt {}).finalize = .ok code) :
    let accepted := ({} : Assembler).accepted requests
    let entries := Item.placed 0 (Request.items accepted)
    accepted.forM perform {} = .ok () (requests.foldl Assembler.attempt {}) ∧
      ((∀ entry ∈ entries, entry.2.Forward (Request.place? accepted) code.length entry.1) →
        decode code = .ok (entries.map fun entry =>
          entry.2.instruction (Request.place? accepted) entry.1)) := by
  have performed := Assembler.perform_accepted {} requests
  refine ⟨performed, fun forward => ?_⟩
  have holds := Assembler.Holds.empty.performAll performed
  exact holds.readBack finished forward

/-- A branch over another and a way back, with four requests that are refused. -/
def detour : List Request := [
  .define "start", .emit .ldarg0 .none, .branch .brfalseS "else", .emit .ldcI4S (.int 300),
  .emit .ldcI4S (.int (-5)), .emit .br (.int 4), .define "else", .define "else",
  .emit .unaligned (.slot 4), .branch .leaveS "start", .branch .add "end", .define "end",
  .emit .ldargS (.byte 2), .emit .ret (.int 0), .emit .ret .none]

def detourCode : List UInt8 :=
  [0x02, 0x2c, 0x07, 0x1f, 0xfb, 0x38, 0x04, 0x00, 0x00, 0x00, 0xfe, 0x12, 0x04, 0xde, 0xf1, 0x0e,
    0x02, 0x2a]

/-- Both branches of the detour go forward, so its code is read back. -/
theorem decode_finalize_detour :
    (detour.foldl attempt {}).finalize = .ok detourCode ∧ decode detourCode = .ok [
        ⟨0, 1, .ldarg0, .none⟩, ⟨1, 2, .brfalseS, .target ⟨10⟩⟩, ⟨3, 2, .ldcI4S, .int (-5)⟩,
        ⟨5, 5, .br, .target ⟨14⟩⟩, ⟨10, 3, .unaligned, .byte 4⟩, ⟨13, 2, .leaveS, .int (-15)⟩,
        ⟨15, 2, .ldargS, .slot 2⟩, ⟨17, 1, .ret, .none⟩] := by
  have finished : (detour.foldl attempt {}).finalize = .ok detourCode := rfl
  exact ⟨finished, (decode_finalize detour finished).2 (by decide +kernel)⟩

end CilLift
