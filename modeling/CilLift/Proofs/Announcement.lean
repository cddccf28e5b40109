import CilLift.Event
import CilLift.Proofs.Reencoding

/-!
Labels are announced while the code is read, from the jumps read so far. Since all jumps go forward,
the events are those of a reader that first lists the code, collects all targets and then announces
each one in its place. The call made for an instruction is described apart from the code that makes
it, by the longest form of the instruction.
-/

namespace CilLift

open List Trace Nat Instruction Label

open Cursor

variable {length start : Nat} {instructions : List Instruction} {labels : List Nat}
  {resolver : Resolver} {context : Instantiation} {instruction : Instruction}

/-! The call for an instruction. -/

namespace Opcode

/-- Prefixes, and instructions that do nothing. -/
def isSilent : Opcode → Bool
  | .nop | .debugBreak | .unaligned | .volatile | .tail | .readonly => true
  | _ => false

/-- Instructions that have no counterpart in an expression. -/
def isForeign : Opcode → Bool
  | .jmp | .calli | .switch | .ldindI1 | .ldindU1 | .ldindI2 | .ldindU2 | .ldindI4 | .ldindU4
  | .ldindI8 | .ldindI | .ldindR4 | .ldindR8 | .ldindRef | .stindRef | .stindI1 | .stindI2
  | .stindI4 | .stindI8 | .stindR4 | .stindR8 | .cpobj | .ldobj | .throw | .stobj | .convOvfIUn
  | .convOvfUUn | .ldelema | .ldelemI | .stelemI | .refanyval | .ckfinite | .mkrefany | .ldtoken
  | .convI | .convOvfI | .convOvfU | .endfinally | .leave | .stindI | .convU | .arglist
  | .localloc | .endfilter | .cpblk | .initblk | .noCheck | .rethrow | .sizeof | .refanytype => true
  | _ => false

/-- What the token of an instruction has to name. -/
def names : Opcode → MemberKind
  | .ldstr => .string
  | .ldfld | .ldflda | .stfld | .ldsfld | .ldsflda | .stsfld => .field
  | .call | .callvirt | .newobj | .ldftn | .ldvirtftn => .method
  | _ => .type

end Opcode

/-- The opcode takes an operand of this kind. -/
def Operand.Suits (opcode : Opcode) : Operand → Prop
  | .none => opcode.operandKind = .none
  | .int _ => opcode ∈ [.ldcI4S, .ldcI4, .leaveS, .leave]
  | .long _ => opcode = .ldcI8
  | .single _ => opcode = .ldcR4
  | .double _ => opcode = .ldcR8
  | .slot _ => opcode ∈ [.ldargS, .ldargaS, .stargS, .ldlocS, .ldlocaS, .stlocS, .ldarg, .ldarga,
      .starg, .ldloc, .ldloca, .stloc]
  | .byte _ => opcode ∈ [.unaligned, .noCheck]
  | .target _ => opcode.family = .jump
  | .token _ => opcode.operandKind = .token
  | .switch _ => opcode = .switch

/-- The event is a call for an instruction. -/
def Event.isCall : Event → Bool
  | .code | .locals .. | .label _ | .offset _ | .finish => false
  | _ => true

namespace Instruction

/-- The opcode and the operand of an instruction in its longest form. -/
def longhand (instruction : Instruction) : Opcode × Operand :=
  match instruction.opcode, instruction.operand with
  | .ldarg0, _ => (.ldarg, .slot 0)
  | .ldarg1, _ => (.ldarg, .slot 1)
  | .ldarg2, _ => (.ldarg, .slot 2)
  | .ldarg3, _ => (.ldarg, .slot 3)
  | .ldargS, operand => (.ldarg, operand)
  | .ldargaS, operand => (.ldarga, operand)
  | .stargS, operand => (.starg, operand)
  | .ldloc0, _ => (.ldloc, .slot 0)
  | .ldloc1, _ => (.ldloc, .slot 1)
  | .ldloc2, _ => (.ldloc, .slot 2)
  | .ldloc3, _ => (.ldloc, .slot 3)
  | .ldlocS, operand => (.ldloc, operand)
  | .ldlocaS, operand => (.ldloca, operand)
  | .stloc0, _ => (.stloc, .slot 0)
  | .stloc1, _ => (.stloc, .slot 1)
  | .stloc2, _ => (.stloc, .slot 2)
  | .stloc3, _ => (.stloc, .slot 3)
  | .stlocS, operand => (.stloc, operand)
  | .ldcI4M1, _ => (.ldcI4, .int (-1))
  | .ldcI40, _ => (.ldcI4, .int 0)
  | .ldcI41, _ => (.ldcI4, .int 1)
  | .ldcI42, _ => (.ldcI4, .int 2)
  | .ldcI43, _ => (.ldcI4, .int 3)
  | .ldcI44, _ => (.ldcI4, .int 4)
  | .ldcI45, _ => (.ldcI4, .int 5)
  | .ldcI46, _ => (.ldcI4, .int 6)
  | .ldcI47, _ => (.ldcI4, .int 7)
  | .ldcI48, _ => (.ldcI4, .int 8)
  | .ldcI4S, operand => (.ldcI4, operand)
  | .brS, operand => (.br, operand)
  | .brfalseS, operand => (.brfalse, operand)
  | .brtrueS, operand => (.brtrue, operand)
  | .beqS, operand => (.beq, operand)
  | .bgeS, operand => (.bge, operand)
  | .bgtS, operand => (.bgt, operand)
  | .bleS, operand => (.ble, operand)
  | .bltS, operand => (.blt, operand)
  | .bneUnS, operand => (.bneUn, operand)
  | .bgeUnS, operand => (.bgeUn, operand)
  | .bgtUnS, operand => (.bgtUn, operand)
  | .bleUnS, operand => (.bleUn, operand)
  | .bltUnS, operand => (.bltUn, operand)
  | .leaveS, operand => (.leave, operand)
  | opcode, operand => (opcode, operand)

/-- The one call for an instruction, in its longest form: none if it is silent, and otherwise what its
operand says, with tokens replaced by what they name. An instruction that is foreign is an error, and
so is a token that names nothing or a thing of another kind. -/
def call (resolver : Resolver) (context : Instantiation) (instruction : Instruction) :
    Except Error (Option Event) :=
  let (opcode, operand) := instruction.longhand
  if opcode.isSilent then .ok none
  else if opcode.isForeign then
    .error (.unsupportedInstruction instruction.opcode.mnemonic instruction.offset)
  else
    match operand with
    | .none => .ok (some (if opcode = .ldnull then .literal .null .object else .plain opcode))
    | .int value => .ok (some (.literal (.integer .int32 value.toInt) .int32))
    | .long value => .ok (some (.literal (.integer .int64 value.toInt) (.integer .int64)))
    | .single bits => .ok (some (.literal (.single bits) .float32))
    | .double bits => .ok (some (.literal (.double bits) .float64))
    | .slot index => .ok (some (.access opcode index.toNat))
    | .target label => .ok (some (.jump opcode label))
    | .token token =>
      -- The type of the elements is not needed.
      if opcode = .ldelem ∨ opcode = .stelem then .ok (some (.plain opcode))
      else
        match resolver.resolve token context with
        | .error error => .error error
        | .ok member =>
          match opcode.names, member with
          | .string, .string text => .ok (some (.literal (.string text) .string))
          | .field, .field field => .ok (some (.field opcode field))
          | .method, .method method => .ok (some (.method opcode method))
          | .type, .type type => .ok (some (.type opcode (type.instantiate context)))
          | expected, other => .error (.resolution (.wrongKind token other.kind expected))
    -- These belong to silent and foreign instructions.
    | .byte _ | .switch _ => .ok none

/-- The place to which an instruction leads. -/
def leadsTo? (instruction : Instruction) : Option Nat :=
  match instruction.operand with
  | .target label => label.offset?
  | _ => none

/-- What a token names is passed on, if it is of the right kind. -/
theorem event_token {offset size : Nat} {opcode : Opcode} {token : Token}
    (named : opcode.operandKind = .token) :
    event resolver context ⟨offset, size, opcode, .token token⟩ =
      call resolver context ⟨offset, size, opcode, .token token⟩ := by
  cases opcode <;> cases named <;> first
    | rfl
    | (unfold event call
       dsimp only [member, Instruction.token, literal, longhand, bind, Except.bind]
       cases resolver.resolve token context with
       | error => rfl
       | ok member => cases member <;> rfl)

/-- The event of every instruction with a suitable operand is the call for it. -/
theorem event_eq_call (suits : instruction.operand.Suits instruction.opcode) :
    instruction.event resolver context = instruction.call resolver context := by
  obtain ⟨offset, size, opcode, operand⟩ := instruction
  cases operand with
  | none => cases opcode <;> cases suits <;> rfl
  | int =>
    simp only [Operand.Suits, mem_cons, not_mem_nil, or_false] at suits
    rcases suits with rfl | rfl | rfl | rfl <;> rfl
  | slot =>
    simp only [Operand.Suits, mem_cons, not_mem_nil, or_false] at suits
    rcases suits with rfl | rfl | rfl | rfl | rfl | rfl | rfl | rfl | rfl | rfl | rfl | rfl <;> rfl
  | byte =>
    simp only [Operand.Suits, mem_cons, not_mem_nil, or_false] at suits
    rcases suits with rfl | rfl <;> rfl
  | target => cases opcode <;> cases suits <;> rfl
  | token => exact event_token suits
  | _ =>
    cases suits
    rfl

theorem jumpOffset?_eq_leadsTo? (suits : instruction.operand.Suits instruction.opcode) :
    instruction.jumpOffset? = instruction.leadsTo? := by
  obtain ⟨offset, size, opcode, operand⟩ := instruction
  unfold jumpOffset? leadsTo?
  cases operand with
  | target =>
    rw [show opcode.family = .jump from suits]
  | _ => cases opcode.family <;> rfl

/-- Whatever an instruction is, its event is a call. -/
theorem event_isCall {event : Event}
    (made : instruction.event resolver context = .ok (some event)) : event.isCall := by
  unfold Instruction.event at made
  dsimp only at made
  split at made
  case h_1 => cases made
  case h_2 => cases made
  case h_3 | h_4 =>
    cases made
    rfl
  case h_5 | h_6 | h_7 =>
    obtain ⟨found, -, made⟩ := bind_eq_ok.1 made
    cases made
    rfl
  all_goals
    obtain ⟨named, -, made⟩ := bind_eq_ok.1 made
    obtain ⟨found, -, made⟩ := bind_eq_ok.1 made
    cases made
    rfl

end Instruction

theorem Opcode.mem_of_int {opcode : Opcode} (notJump : opcode.family ≠ .jump)
    (kind : opcode.operandKind = .int8 ∨ opcode.operandKind = .int32) :
    opcode ∈ [.ldcI4S, .ldcI4, .leaveS, .leave] := by
  revert opcode
  suffices all : ∀ opcode ∈ all, opcode.family ≠ .jump →
      opcode.operandKind = .int8 ∨ opcode.operandKind = .int32 →
      opcode ∈ [.ldcI4S, .ldcI4, .leaveS, .leave] from fun {opcode} => all opcode (mem_all opcode)
  decide +kernel

theorem relativeOperand_suits {offset : Nat} {opcode : Opcode} {value : Int32} {operand : Operand}
    {cursor next : Cursor} (kind : opcode.operandKind = .int8 ∨ opcode.operandKind = .int32)
    (read : relativeOperand offset opcode value cursor = .ok operand next) :
    operand.Suits opcode := by
  unfold relativeOperand at read
  split at read
  · rename_i isJump
    obtain ⟨label, middle, -, made⟩ := andThen_eq_ok.1 read
    cases made
    exact isJump
  · rename_i notJump
    cases read
    exact Opcode.mem_of_int notJump kind

/-- An operand that was read is one that the opcode takes. -/
theorem readOperand_suits {offset : Nat} {opcode : Opcode} {operand : Operand} {cursor next : Cursor}
    (read : readOperand offset opcode cursor = .ok operand next) : operand.Suits opcode := by
  unfold readOperand at read
  cases kind : opcode.operandKind with
  | none =>
    rw [kind] at read
    cases read
    exact kind
  | int8 =>
    rw [kind] at read
    obtain ⟨value, middle, -, later⟩ := andThen_eq_ok.1 read
    exact relativeOperand_suits (.inl kind) later
  | int32 =>
    rw [kind] at read
    obtain ⟨value, middle, -, later⟩ := andThen_eq_ok.1 read
    exact relativeOperand_suits (.inr kind) later
  | token =>
    rw [kind] at read
    obtain ⟨value, middle, -, made⟩ := andThen_eq_ok.1 read
    cases made
    exact kind
  | switch =>
    rw [kind] at read
    obtain ⟨count, middle, -, later⟩ := andThen_eq_ok.1 read
    obtain ⟨distances, middle, -, made⟩ := andThen_eq_ok.1 later
    cases made
    cases opcode <;> cases kind
    rfl
  | uint8 =>
    rw [kind] at read
    obtain ⟨value, middle, -, made⟩ := andThen_eq_ok.1 read
    cases opcode <;> cases kind <;> cases made <;> simp [Operand.Suits]
  | _ =>
    rw [kind] at read
    obtain ⟨value, middle, -, made⟩ := andThen_eq_ok.1 read
    cases made
    cases opcode <;> cases kind <;> simp [Operand.Suits]

theorem readInstruction_suits {cursor next : Cursor}
    (read : readInstruction cursor = .ok instruction next) :
    instruction.operand.Suits instruction.opcode := by
  obtain ⟨before, middle, -, later⟩ := andThen_eq_ok.1 read
  obtain ⟨opcode, middle, -, later⟩ := andThen_eq_ok.1 later
  obtain ⟨operand, middle, isOperand, later⟩ := andThen_eq_ok.1 later
  obtain ⟨after, middle, -, made⟩ := andThen_eq_ok.1 later
  cases made
  exact readOperand_suits isOperand

/-- All instructions of a listing have suitable operands. -/
theorem Listing.Comes.suits {cursor : Cursor} {listing : Listing} (comes : Comes cursor listing) :
    ∀ instruction ∈ listing.instructions, instruction.operand.Suits instruction.opcode := by
  induction comes with
  | ends => exact forall_mem_nil _
  | fails => exact forall_mem_nil _
  | reads hasMore read later ih => exact forall_mem_cons.2 ⟨readInstruction_suits read, ih⟩

/-! The two ways to announce. -/

namespace Trace

variable (resolver context)

/-- The places to which instructions lead. -/
def targets (instructions : List Instruction) : List Nat :=
  instructions.filterMap leadsTo?

/-- The label of a place, if it is a target. -/
def labelAt (labels : List Nat) (offset : Nat) : List Event :=
  if offset ∈ labels then [.label (ofOffset offset)] else []

/-- The events of listed instructions, where all labels are known from the start. -/
def announced (labels : List Nat) (length : Nat) (failure : Option Error) :
    List Instruction → Trace
  | [] =>
    match failure with
    | some error => ⟨[], some error⟩
    | none => ⟨labelAt labels length ++ [.finish], none⟩
  | instruction :: rest =>
    let head := labelAt labels instruction.offset ++ [.offset instruction.offset]
    match instruction.call resolver context with
    | .error error => ⟨head, some error⟩
    | .ok event => prepend (head ++ event.toList) (announced labels length failure rest)

/-- The events of a body in two passes: list the instructions as far as they can be read, then
announce the targets of all jumps among them. -/
def ofListing (body : MethodBody) : Trace :=
  let listing := Listing.ofCode body.code
  prepend [.code, .locals body.maxStack (body.locals.map (TypeSig.instantiate context))]
    (announced resolver context (targets listing.instructions) body.code.length listing.failure
      listing.instructions)

/-- The events of listed instructions, where labels are known from the jumps before them. -/
def streamed (length : Nat) (failure : Option Error) : List Nat → List Instruction → Trace
  | labels, [] =>
    match failure with
    | some error => ⟨[], some error⟩
    | none => closing labels length
  | labels, instruction :: rest =>
    let head := announce labels instruction.offset ++ [.offset instruction.offset]
    match instruction.event resolver context with
    | .error error => ⟨head, some error⟩
    | .ok event =>
      let labels := labels.filter (· != instruction.offset)
      prepend (head ++ event.toList)
        (streamed length failure (instruction.jumpOffset?.toList ++ labels) rest)

variable {resolver context}

/-- Reading and announcing in turn announces what is listed. -/
theorem readFrom_eq_streamed (labels : List Nat) (cursor : Cursor) (limit : Nat) :
    readFrom resolver context labels cursor limit =
      streamed resolver context cursor.data.length (Listing.readFrom cursor limit).failure labels
        (Listing.readFrom cursor limit).instructions := by
  induction limit generalizing labels cursor with
  | zero => rfl
  | succ limit ih =>
    unfold readFrom Listing.readFrom
    cases cursor.hasMore with
    | false => rfl
    | true =>
      rw [if_pos rfl, if_pos rfl]
      cases read : readInstruction cursor with
      | error error next => rfl
      | ok instruction next =>
        obtain ⟨-, rfl⟩ := readInstruction_eq_ok read
        dsimp only
        rw [streamed]
        cases instruction.event resolver context with
        | error error => rfl
        | ok event =>
          rw [ih]
          rfl

/-- The instructions stand in order from `start` on with suitable operands, and where one leads
somewhere it leads forward. -/
def Ascending (length : Nat) : Nat → List Instruction → Prop
  | start, [] => start ≤ length
  | start, instruction :: rest =>
    start ≤ instruction.offset ∧ instruction.operand.Suits instruction.opcode ∧
      (∀ target ∈ instruction.leadsTo?, instruction.offset < target) ∧
      Ascending length (instruction.offset + 1) rest

theorem Ascending.weaken {earlier : Nat} (ascending : Ascending length start instructions)
    (before : earlier ≤ start) : Ascending length earlier instructions := by
  cases instructions with
  | nil => exact le_trans before ascending
  | cons => exact ⟨le_trans before ascending.1, ascending.2⟩

theorem Ascending.lt_targets (ascending : Ascending length start instructions) :
    ∀ target ∈ targets instructions, start < target := by
  induction instructions generalizing start with
  | nil => simp [targets]
  | cons instruction rest ih =>
    obtain ⟨isLater, -, forward, ascendingRest⟩ := ascending
    intro target mem
    obtain ⟨found, isFound, isTarget⟩ := mem_filterMap.1 mem
    rcases mem_cons.1 isFound with rfl | isFound
    · exact lt_of_le_of_lt isLater (forward target isTarget)
    · have later := ih ascendingRest target (mem_filterMap.2 ⟨found, isFound, isTarget⟩)
      omega

theorem announce_eq_labelAt {others : List Nat} {offset : Nat}
    (same : offset ∈ labels ↔ offset ∈ others) :
    announce labels offset = labelAt others offset := by
  unfold announce labelAt
  simp [same]

/-- The labels known from the jumps before an instruction agree, from there on, with the targets of
all jumps: the later ones go further. -/
theorem streamed_eq_announced {failure : Option Error} {earlier : List Nat}
    (ascending : Ascending length start instructions)
    (agree : ∀ offset, start ≤ offset → (offset ∈ labels ↔ offset ∈ earlier)) :
    streamed resolver context length failure labels instructions =
      announced resolver context (earlier ++ targets instructions) length failure instructions := by
  induction instructions generalizing start labels earlier with
  | nil =>
    unfold streamed announced closing
    rw [announce_eq_labelAt (agree length ascending)]
    simp [targets]
  | cons instruction rest ih =>
    obtain ⟨isLater, suits, forward, ascendingRest⟩ := ascending
    have sorted : Ascending length instruction.offset (instruction :: rest) :=
      ⟨le_refl _, suits, forward, ascendingRest⟩
    have here : announce labels instruction.offset =
        labelAt (earlier ++ targets (instruction :: rest)) instruction.offset := by
      apply announce_eq_labelAt
      rw [agree _ isLater, mem_append]
      refine ⟨.inl, fun either => either.resolve_right fun isTarget => ?_⟩
      exact lt_irrefl _ (sorted.lt_targets _ isTarget)
    have isTargets : earlier ++ targets (instruction :: rest) =
        earlier ++ instruction.leadsTo?.toList ++ targets rest := by
      rw [targets, filterMap_cons]
      cases instruction.leadsTo? <;> simp [targets]
    rw [streamed, announced, here, event_eq_call suits, jumpOffset?_eq_leadsTo? suits]
    cases instruction.call resolver context with
    | error error => rfl
    | ok event =>
      have agreeBehind : ∀ offset, instruction.offset + 1 ≤ offset →
          (offset ∈ instruction.leadsTo?.toList ++ labels.filter (· != instruction.offset) ↔
            offset ∈ earlier ++ instruction.leadsTo?.toList) := by
        intro offset isBehind
        have notHere : offset ≠ instruction.offset := by omega
        simp only [mem_append, mem_filter, bne_iff_ne, agree offset (by omega)]
        tauto
      dsimp only
      rw [ih ascendingRest agreeBehind, isTargets]

end Trace

theorem Operand.LeadsForward.lt_of_mem_jumpOffset? {target : Nat}
    (forward : instruction.operand.LeadsForward instruction.opcode instruction.offset length)
    (isTarget : target ∈ instruction.jumpOffset?) : instruction.offset < target := by
  unfold jumpOffset? at isTarget
  split at isTarget
  · rename_i label isJump isOperand
    obtain ⟨_, _, isLabel, isOffset, goesForward, -⟩ := forward isJump
    rw [isOperand] at isLabel
    cases isLabel
    rw [isOffset] at isTarget
    cases isTarget
    exact goesForward
  · cases isTarget

/-- The instructions of a listing stand in order and jump forward. -/
theorem Listing.Comes.ascending {cursor : Cursor} {listing : Listing} (comes : Comes cursor listing)
    (short : cursor.data.length < 2 ^ 32 - 1) (here : cursor.position ≤ cursor.data.length) :
    Ascending cursor.data.length cursor.position listing.instructions := by
  induction comes with
  | ends => exact here
  | fails => exact here
  | reads hasMore read later ih =>
    obtain ⟨stands, rfl⟩ := readInstruction_eq_ok read
    have inside := stands.inside here
    have positive := stands.size_pos
    have suits := readInstruction_suits read
    refine ⟨le_of_eq stands.offset.symm, suits, fun target isTarget => ?_, ?_⟩
    · obtain ⟨_, _, _, _, _, readFrom⟩ := stands.exists_bytes
      rw [← jumpOffset?_eq_leadsTo? suits] at isTarget
      exact (readFrom short).2.lt_of_mem_jumpOffset? isTarget
    · rw [← stands.next_eq] at inside
      refine (ih short inside).weaken ?_
      rw [stands.next_eq, Instruction.next]
      omega

namespace Trace

/-- Each label is announced right before the instruction there, or at the end of the code. -/
def LabelsPrecede (length : Nat) : List Event → Prop
  | [] => True
  | .label label :: after =>
    (∃ offset, label = ofOffset offset ∧
      (after.head? = some (.offset offset) ∨ offset = length ∧ after = [.finish])) ∧
    LabelsPrecede length after
  | _ :: after => LabelsPrecede length after

/-- The labels announced, in order. -/
def labelsOf (events : List Event) : List Label :=
  events.filterMap fun
    | .label label => some label
    | _ => none

theorem labelsOf_append (events more : List Event) :
    labelsOf (events ++ more) = labelsOf events ++ labelsOf more :=
  filterMap_append

theorem labelsOf_call {event : Option Event} (suits : instruction.operand.Suits instruction.opcode)
    (made : instruction.call resolver context = .ok event) : labelsOf event.toList = [] := by
  rw [← event_eq_call suits] at made
  cases event with
  | none => rfl
  | some event =>
    have isCall := event_isCall made
    cases event with
    | label => cases isCall
    | _ => rfl

theorem LabelsPrecede.call {event : Option Event} {after : List Event}
    (suits : instruction.operand.Suits instruction.opcode)
    (made : instruction.call resolver context = .ok event) (precede : LabelsPrecede length after) :
    LabelsPrecede length (event.toList ++ after) := by
  rw [← event_eq_call suits] at made
  cases event with
  | none => exact precede
  | some event =>
    have isCall := event_isCall made
    cases event with
    | label => cases isCall
    | _ => exact precede

theorem LabelsPrecede.labelAt {offset : Nat} {after : List Event}
    (precede : LabelsPrecede length after) :
    LabelsPrecede length (labelAt labels offset ++ .offset offset :: after) := by
  unfold Trace.labelAt
  split
  · exact ⟨⟨offset, rfl, .inl rfl⟩, precede⟩
  · exact precede

theorem announced_labelsPrecede (labels : List Nat) (failure : Option Error)
    (ascending : Ascending length start instructions) :
    LabelsPrecede length (announced resolver context labels length failure instructions).events := by
  induction instructions generalizing start with
  | nil =>
    unfold announced labelAt
    cases failure with
    | some => trivial
    | none =>
      dsimp only
      split
      · exact ⟨⟨length, rfl, .inr ⟨rfl, rfl⟩⟩, trivial⟩
      · trivial
  | cons instruction rest ih =>
    obtain ⟨-, suits, -, ascendingRest⟩ := ascending
    unfold announced
    cases made : instruction.call resolver context with
    | error => exact LabelsPrecede.labelAt trivial
    | ok event =>
      dsimp only [prepend]
      rw [append_assoc, append_assoc]
      exact ((ih ascendingRest).call suits made).labelAt

theorem labelsOf_labelAt (labels : List Nat) (offset : Nat) {others : List Event}
    (noLabels : labelsOf others = []) :
    (labelsOf (labelAt labels offset ++ others)).Sublist [ofOffset offset] := by
  rw [labelsOf_append, noLabels]
  unfold labelAt
  split
  · exact .refl _
  · exact nil_sublist _

/-- Only places where instructions stand are announced, and the end. -/
theorem labelsOf_announced (labels : List Nat) (failure : Option Error)
    (ascending : Ascending length start instructions) :
    (labelsOf (announced resolver context labels length failure instructions).events).Sublist
      ((instructions.map offset ++ [length]).map ofOffset) := by
  induction instructions generalizing start with
  | nil =>
    cases failure with
    | some => exact nil_sublist _
    | none => exact labelsOf_labelAt labels length rfl
  | cons instruction rest ih =>
    obtain ⟨-, suits, -, ascendingRest⟩ := ascending
    unfold announced
    cases made : instruction.call resolver context with
    | error =>
      exact (labelsOf_labelAt labels instruction.offset rfl).trans (cons_sublist_cons.2 (nil_sublist _))
    | ok event =>
      dsimp only [prepend]
      rw [labelsOf_append, append_assoc]
      have noLabels : labelsOf ([.offset instruction.offset] ++ event.toList) = [] :=
        labelsOf_call suits made
      exact (labelsOf_labelAt labels instruction.offset noLabels).append (ih ascendingRest)

/-- The places where instructions stand, and the end, come one after the other. -/
theorem Ascending.places (ascending : Ascending length start instructions) :
    (instructions.map offset ++ [length]).Pairwise (· < ·) ∧
      ∀ place ∈ instructions.map offset ++ [length], start ≤ place ∧ place ≤ length := by
  induction instructions generalizing start with
  | nil => exact ⟨pairwise_singleton _ _, by simpa using (show start ≤ length from ascending)⟩
  | cons instruction rest ih =>
    obtain ⟨isLater, -, -, ascendingRest⟩ := ascending
    obtain ⟨inOrder, later⟩ := ih ascendingRest
    refine ⟨pairwise_cons.2 ⟨fun place isPlace => (later place isPlace).1, inOrder⟩, ?_⟩
    intro place isPlace
    have bound := (later length (by simp)).1
    rcases mem_cons.1 isPlace with rfl | isPlace
    · exact ⟨isLater, by omega⟩
    · have isBehind := later place isPlace
      exact ⟨by omega, isBehind.2⟩

theorem Ascending.labels_nodup (ascending : Ascending length start instructions)
    (short : length < 2 ^ 32 - 1) : ((instructions.map offset ++ [length]).map ofOffset).Nodup := by
  obtain ⟨inOrder, bounded⟩ := ascending.places
  refine pairwise_map.2 (inOrder.imp_of_mem fun {first second} isFirst isSecond before => ?_)
  have secondBound := (bounded second isSecond).2
  intro same
  have sameOffset := congrArg offset? same
  rw [offset?_ofOffset (by omega), offset?_ofOffset (by omega)] at sameOffset
  cases sameOffset
  exact lt_irrefl _ before

theorem ofBody_eq_twoPasses {body : MethodBody} (short : body.code.length < 2 ^ 32 - 1) :
    ofBody resolver context body = ofListing resolver context body := by
  have ascending := (Listing.comes_ofCode body.code).ascending short (zero_le _)
  have agree : ∀ offset, 0 ≤ offset → (offset ∈ ([] : List Nat) ↔ offset ∈ ([] : List Nat)) :=
    fun _ _ => Iff.rfl
  refine congrArg (prepend _) ?_
  rw [readFrom_eq_streamed]
  exact streamed_eq_announced ascending agree

/-- Announcing labels while the code is read is the same as listing the code, collecting all targets
and announcing each in its place, with the one call for each instruction up to the first that has
none. So each label is announced at most once, where an instruction stands or the code ends, and right
before that. -/
theorem ofBody_eq_ofListing (resolver : Resolver) (context : Instantiation) (body : MethodBody)
    (short : body.code.length < 2 ^ 32 - 1) :
    let trace := ofBody resolver context body
    let listing := Listing.ofCode body.code
    let places := listing.instructions.map offset ++ [body.code.length]
    trace = ofListing resolver context body ∧
    (∀ instruction ∈ listing.instructions,
      instruction.event resolver context = instruction.call resolver context) ∧
    LabelsPrecede body.code.length trace.events ∧
    (labelsOf trace.events).Sublist (places.map ofOffset) ∧
    (labelsOf trace.events).Nodup := by
  intro trace listing places
  have comes := Listing.comes_ofCode body.code
  have ascending := comes.ascending short (zero_le _)
  have same : trace = ofListing resolver context body := ofBody_eq_twoPasses short
  have isSublist : (labelsOf trace.events).Sublist (places.map ofOffset) := by
    rw [same]
    exact labelsOf_announced _ _ ascending
  refine ⟨same, fun instruction mem => event_eq_call (comes.suits instruction mem), ?_, isSublist,
    isSublist.nodup (ascending.labels_nodup short)⟩
  rw [same]
  exact announced_labelsPrecede _ _ ascending

/-- Behind a prefix, a jump into the operand of an instruction, one to an instruction and one to the
end: the first has no label. -/
def jumpsAside : MethodBody :=
  { code := [0xFE, 0x13, 0x17, 0x2D, 1, 0x20, 7, 0, 0, 0, 0x2D, 1, 0x03, 0x2A, 0x2B, 0] }

theorem jumpsAside_announced :
    jumpsAside.code.length < 2 ^ 32 - 1 ∧
    targets (Listing.ofCode jumpsAside.code).instructions = [6, 13, 16] ∧
    ofBody ({} : MetadataTables).resolver {} jumpsAside =
      ⟨[.code, .locals 8 [], .offset 0, .offset 2, .literal (.integer .int32 1) .int32, .offset 3,
        .jump .brtrue (ofOffset 6), .offset 5, .literal (.integer .int32 7) .int32, .offset 10,
        .jump .brtrue (ofOffset 13), .offset 12, .access .ldarg 1, .label (ofOffset 13), .offset 13,
        .plain .ret, .offset 14, .jump .br (ofOffset 16), .label (ofOffset 16), .finish], none⟩ :=
  ⟨by decide, by rfl, (ofBody_eq_ofListing _ _ jumpsAside (by decide)).1.trans (by rfl)⟩

end Trace

end CilLift
