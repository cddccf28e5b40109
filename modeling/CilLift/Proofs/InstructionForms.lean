import CilLift.Proofs.Agreement.Execution
import CilLift.Proofs.Announcement

/-!
The form in which an instruction is written does not matter. Two codes whose instructions are the
same in their longest form, and whose jumps go to corresponding instructions, are lifted alike,
although all their offsets differ.
-/

namespace CilLift

open List Trace Nat Prod Instruction Label

variable {label : Label}

namespace Instruction

/-- Two instructions are the same in their longest form. Jumps go to places that are paired with each
other; a way out of a protected region is written by its distance, which may differ. -/
inductive Corresponds (places : List (Nat × Nat)) (instruction other : Instruction) : Prop where
  | same (sameForm : instruction.longhand = other.longhand)
      (notJump : instruction.longhand.1.family ≠ .jump)
  | jump {opcode : Opcode} {label renamed : Label} {place place' : Nat}
      (isJump : opcode.family = .jump)
      (form : instruction.longhand = (opcode, .target label))
      (form' : other.longhand = (opcode, .target renamed))
      (isPlace : label.offset? = some place) (isPlace' : renamed.offset? = some place')
      (paired : (place, place') ∈ places)
  | leave (leaves : instruction.longhand.1 = .leave) (leaves' : other.longhand.1 = .leave)

/-- The places to which a jump in a code can go: its instructions and its end. -/
def places (length : Nat) (instructions : List Instruction) : List Nat :=
  instructions.map offset ++ [length]

/-- Places of the same number in two codes. -/
def pairedPlaces (length length' : Nat) (instructions others : List Instruction) : List (Nat × Nat) :=
  (places length instructions).zip (places length' others)

/-- The instruction written in its longest form, where it is. -/
def inLongForm (instruction : Instruction) : Instruction :=
  { instruction with opcode := instruction.longhand.1, operand := instruction.longhand.2 }

variable (resolver : Resolver) (context : Instantiation)

theorem event_inLongForm (instruction : Instruction) :
    SameOutcome (instruction.event resolver context) (instruction.inLongForm.event resolver context) := by
  obtain ⟨offset, size, opcode, operand⟩ := instruction
  unfold inLongForm longhand
  dsimp only
  split
  all_goals first | exact .refl _ | (cases operand <;> first | exact .refl _ | exact .error rfl)

theorem jumpOffset?_inLongForm (instruction : Instruction) :
    instruction.inLongForm.jumpOffset? = instruction.jumpOffset? := by
  obtain ⟨offset, size, opcode, operand⟩ := instruction
  unfold inLongForm longhand
  dsimp only
  split
  all_goals rfl

theorem event_of_same {instruction other : Instruction}
    (sameOpcode : instruction.opcode = other.opcode)
    (sameOperand : instruction.operand = other.operand) :
    SameOutcome (instruction.event resolver context) (other.event resolver context) := by
  obtain ⟨offset, size, opcode, operand⟩ := instruction
  obtain ⟨offset', size', _, _⟩ := other
  obtain rfl := sameOpcode
  obtain rfl := sameOperand
  unfold event
  dsimp only
  cases opcode.family with
  | unsupported => exact .error rfl
  | _ => exact .refl _

variable {resolver context}

/-- What an instruction that is no jump does names no label. -/
theorem event_alike {instruction : Instruction} {event : Event} (renames : Label → Label → Prop)
    (notJump : instruction.opcode.family ≠ .jump)
    (made : instruction.event resolver context = .ok (some event)) : event.Alike renames event := by
  unfold Instruction.event at made
  dsimp only at made
  split at made
  case h_1 => cases made
  case h_2 => cases made
  case h_3 =>
    cases made
    exact .plain _
  case h_4 =>
    cases made
    exact .plain _
  case h_5 =>
    obtain ⟨loaded, -, made⟩ := bind_eq_ok.1 made
    cases made
    exact .literal _ _
  case h_6 =>
    obtain ⟨accessed, -, made⟩ := bind_eq_ok.1 made
    cases made
    exact .access _ _
  case h_7 isJump => exact absurd isJump notJump
  all_goals
    obtain ⟨named, -, made⟩ := bind_eq_ok.1 made
    obtain ⟨found, -, made⟩ := bind_eq_ok.1 made
    cases made
    constructor

theorem event_of_jump {instruction : Instruction} (isJump : instruction.opcode.family = .jump)
    (goes : instruction.operand = .target label) :
    instruction.event resolver context = .ok (some (.jump instruction.opcode.longForm label)) := by
  unfold event target
  dsimp only
  rw [isJump, goes]
  rfl

end Instruction

/-! Corresponding labels. -/

namespace Label

theorem ofOffset_of_offset? {offset : Nat} (isOffset : label.offset? = some offset) :
    ofOffset offset = label := by
  unfold offset? at isOffset
  split at isOffset
  · cases isOffset
  · cases isOffset
    simp [ofOffset]

theorem eq_iff_of_offset? {other : Label} {offset offset' : Nat}
    (isOffset : label.offset? = some offset) (isOffset' : other.offset? = some offset') :
    label = other ↔ offset = offset' := by
  constructor
  · rintro rfl
    exact Option.some.inj (isOffset.symm.trans isOffset')
  · rintro rfl
    rw [← ofOffset_of_offset? isOffset, ← ofOffset_of_offset? isOffset']

/-- Labels of paired places, and the end of the method on both sides. -/
def Paired (places : List (Nat × Nat)) (label renamed : Label) : Prop :=
  label = .finish ∧ renamed = .finish ∨
    ∃ place place', label.offset? = some place ∧ renamed.offset? = some place' ∧ (place, place') ∈ places

end Label

/-- No place is paired with two others. -/
def OneToOne (places : List (Nat × Nat)) : Prop :=
  ∀ place place' other other', (place, place') ∈ places → (other, other') ∈ places →
    (place = other ↔ place' = other')

theorem oneToOne_zip {places places' : List Nat} (apart : places.Nodup) (apart' : places'.Nodup) :
    OneToOne (places.zip places') := by
  intro place place' other other' mem otherMember
  obtain ⟨index, inside, isPair⟩ := getElem_of_mem mem
  obtain ⟨index', inside', isOther⟩ := getElem_of_mem otherMember
  rw [getElem_zip, Prod.mk.injEq] at isPair isOther
  rw [← isPair.1, ← isPair.2, ← isOther.1, ← isOther.2, apart.getElem_inj_iff, apart'.getElem_inj_iff]

theorem Label.renaming_paired {places : List (Nat × Nat)} (oneToOne : OneToOne places) :
    Renaming (Paired places) where
  finish := .inl ⟨rfl, rfl⟩
  faithful := by
    have apart : finish.offset? = none := rfl
    rintro label renamed label' renamed' (⟨rfl, rfl⟩ | ⟨place, place', isPlace, isPlace', paired⟩)
      (⟨rfl, rfl⟩ | ⟨other, other', isOther, isOther', otherPaired⟩)
    · simp
    · constructor
      · rintro rfl
        cases apart.symm.trans isOther
      · rintro rfl
        cases apart.symm.trans isOther'
    · constructor
      · rintro rfl
        cases apart.symm.trans isPlace
      · rintro rfl
        cases apart.symm.trans isPlace'
    · rw [eq_iff_of_offset? isPlace isOther, eq_iff_of_offset? isPlace' isOther']
      exact oneToOne place place' other other' paired otherPaired

/-- Instructions that tile a code stand at different places, all before its end. -/
theorem Tiles.pairwise {stop start : Nat} {instructions : List Instruction}
    (tiles : Tiles stop start instructions) :
    (places stop instructions).Pairwise (· < ·) ∧ ∀ place ∈ places stop instructions, start ≤ place := by
  induction instructions generalizing start with
  | nil =>
    obtain rfl := tiles
    simp [places]
  | cons instruction rest ih =>
    obtain ⟨rfl, positive, tiles⟩ := tiles
    obtain ⟨apart, later⟩ := ih tiles
    have behind : ∀ place ∈ places stop rest, instruction.offset < place := by
      intro place mem
      have := later place mem
      unfold Instruction.next at this
      omega
    refine ⟨pairwise_cons.2 ⟨behind, apart⟩, ?_⟩
    intro place mem
    rcases mem_cons.1 mem with rfl | mem
    · exact le_refl _
    · exact le_of_lt (behind place mem)

namespace Trace

variable {places : List (Nat × Nat)} {labels labels' : List Nat}

/-- Paired places that have labels. -/
def LabelsPaired (places : List (Nat × Nat)) (labels labels' : List Nat) : Prop :=
  List.Forall₂ (fun place place' => (place, place') ∈ places ∧
    Label.Paired places (ofOffset place) (ofOffset place')) labels labels'

section Labels

variable (oneToOne : OneToOne places) (paired : LabelsPaired places labels labels')
  {place place' : Nat} (isPair : (place, place') ∈ places)

include oneToOne paired isPair

theorem announce_alike :
    Forall₂ (Event.Alike (Paired places)) (announce labels place) (announce labels' place') := by
  unfold announce
  induction paired with
  | nil => exact .nil
  | @cons label label' rest rest' isLabel _ ih =>
    have same := oneToOne _ _ _ _ isPair isLabel.1
    by_cases here : place = label
    · rw [here, same.1 here]
      simpa using Event.Alike.label isLabel.2
    · have elsewhere : place' ≠ label' := mt same.2 here
      simpa [here, elsewhere] using ih

theorem LabelsPaired.filter :
    LabelsPaired places (labels.filter (· != place)) (labels'.filter (· != place')) := by
  induction paired with
  | nil => exact .nil
  | @cons label label' rest rest' isLabel _ ih =>
    have same := oneToOne _ _ _ _ isLabel.1 isPair
    by_cases here : label = place
    · rw [filter_cons_of_neg (by simpa using here), filter_cons_of_neg (by simpa using same.1 here)]
      exact ih
    · rw [filter_cons_of_pos (by simpa using here), filter_cons_of_pos (by simpa using mt same.2 here)]
      exact .cons isLabel ih

end Labels

theorem Alike.prepend {renames : Label → Label → Prop} {events others : List Event}
    {trace other : Trace} (front : Forall₂ (Event.Alike renames) events others)
    (alike : trace.Alike renames other) :
    (prepend events trace).Alike renames (prepend others other) :=
  ⟨rel_append front alike.events, alike.failure⟩

end Trace

namespace Instruction

variable (resolver : Resolver) (context : Instantiation) {places : List (Nat × Nat)}
  {instruction other : Instruction}

/-- Instructions that do the same with paired labels, or fail for one kind of reason. -/
inductive DoAlike (places : List (Nat × Nat)) (instruction other : Instruction) : Prop where
  | ok {event event' : Option Event} (made : instruction.event resolver context = .ok event)
      (made' : other.event resolver context = .ok event')
      (alike : List.Forall₂ (Event.Alike (Label.Paired places)) event.toList event'.toList)
      (jumps : Trace.LabelsPaired places instruction.jumpOffset?.toList other.jumpOffset?.toList)
  | error {error error' : Error} (failed : instruction.event resolver context = .error error)
      (failed' : other.event resolver context = .error error') (sameKind : error.SameKind error')

variable {resolver context}

theorem DoAlike.of_inLongForm
    (alike : DoAlike resolver context places instruction.inLongForm other.inLongForm) :
    DoAlike resolver context places instruction other := by
  have long := event_inLongForm resolver context instruction
  have long' := event_inLongForm resolver context other
  cases alike with
  | ok made made' alike jumps =>
    rw [jumpOffset?_inLongForm, jumpOffset?_inLongForm] at jumps
    exact .ok (made ▸ long).eq_ok (made' ▸ long').eq_ok alike jumps
  | error failed failed' sameKind =>
    obtain ⟨error, isError, kind⟩ := (failed ▸ long).exists_error
    obtain ⟨error', isError', kind'⟩ := (failed' ▸ long').exists_error
    exact .error isError isError' (kind.trans (sameKind.trans kind'.symm))

theorem jumpOffset?_of_notJump (notJump : instruction.opcode.family ≠ .jump) :
    instruction.jumpOffset? = none := by
  unfold jumpOffset?
  split
  · exact absurd ‹_› notJump
  · rfl

theorem doAlike_of_same (sameOpcode : instruction.opcode = other.opcode)
    (sameOperand : instruction.operand = other.operand)
    (notJump : instruction.opcode.family ≠ .jump) :
    DoAlike resolver context places instruction other := by
  have same := event_of_same resolver context sameOpcode sameOperand
  cases made : other.event resolver context with
  | ok event =>
    rw [made] at same
    refine .ok same.eq_ok made ?_ ?_
    · cases event with
      | none => exact .nil
      | some event => exact .cons (event_alike _ notJump same.eq_ok) .nil
    · rw [jumpOffset?_of_notJump notJump, jumpOffset?_of_notJump (sameOpcode ▸ notJump)]
      exact .nil
  | error error =>
    rw [made] at same
    obtain ⟨error', isError, kind⟩ := same.exists_error
    exact .error isError made kind

/-- Corresponding instructions do the same. -/
theorem Corresponds.doAlike (corresponds : instruction.Corresponds places other) :
    DoAlike resolver context places instruction other := by
  refine .of_inLongForm ?_
  cases corresponds with
  | same sameForm notJump =>
    exact doAlike_of_same (congrArg fst sameForm) (congrArg snd sameForm) notJump
  | @jump opcode label renamed place place' isJump form form' isPlace isPlace' paired =>
    have isOpcode : instruction.inLongForm.opcode = opcode := congrArg fst form
    have isOpcode' : other.inLongForm.opcode = opcode := congrArg fst form'
    have goes : instruction.inLongForm.operand = .target label := congrArg snd form
    have goes' : other.inLongForm.operand = .target renamed := congrArg snd form'
    have renames : Paired places label renamed :=
      .inr ⟨place, place', isPlace, isPlace', paired⟩
    refine .ok (event_of_jump (isOpcode ▸ isJump) goes) (event_of_jump (isOpcode' ▸ isJump) goes') ?_ ?_
    · rw [isOpcode, isOpcode']
      exact .cons (.jump _ renames) .nil
    · unfold jumpOffset?
      rw [isOpcode, isOpcode', isJump, goes, goes']
      dsimp only
      rw [isPlace, isPlace']
      refine .cons ⟨paired, ?_⟩ .nil
      rwa [ofOffset_of_offset? isPlace, ofOffset_of_offset? isPlace']
  | leave leaves leaves' =>
    have fails : ∀ found : Instruction, found.opcode = .leave → found.event resolver context =
          .error (.unsupportedInstruction Opcode.leave.mnemonic found.offset) := by
      rintro ⟨offset, size, _, operand⟩ rfl
      rfl
    exact .error (fails _ leaves) (fails _ leaves') rfl

end Instruction

namespace Trace

variable {resolver : Resolver} {context : Instantiation} {places : List (Nat × Nat)}
  {labels labels' : List Nat}

theorem ofBody_eq_streamed (body : MethodBody) :
    ofBody resolver context body =
      prepend [.code, .locals body.maxStack (body.locals.map (TypeSig.instantiate context))]
        (streamed resolver context body.code.length (Listing.ofCode body.code).failure []
          (Listing.ofCode body.code).instructions) := by
  unfold ofBody
  rw [readFrom_eq_streamed]
  rfl

/-- The events of corresponding instructions correspond. -/
theorem streamed_alike {length length' : Nat} {instructions others : List Instruction}
    (oneToOne : OneToOne places) (corresponds : Forall₂ (fun instruction other =>
      (instruction.offset, other.offset) ∈ places ∧ instruction.Corresponds places other)
      instructions others) (ends : (length, length') ∈ places)
    (paired : LabelsPaired places labels labels') :
    (streamed resolver context length none labels instructions).Alike (Paired places)
      (streamed resolver context length' none labels' others) := by
  induction corresponds generalizing labels labels' with
  | nil =>
    exact ⟨rel_append (announce_alike oneToOne paired ends) (.cons .finish .nil), .none⟩
  | @cons instruction other rest rest' corresponds _ ih =>
    obtain ⟨isPair, corresponds⟩ := corresponds
    have head : Forall₂ (Event.Alike (Paired places))
        (announce labels instruction.offset ++ [.offset instruction.offset])
        (announce labels' other.offset ++ [.offset other.offset]) :=
      rel_append (announce_alike oneToOne paired isPair) (.cons (.offset _ _) .nil)
    have alike : DoAlike resolver context places instruction other := corresponds.doAlike
    unfold streamed
    cases alike with
    | ok made made' alike jumps =>
      rw [made, made']
      exact Alike.prepend (rel_append head alike) (ih (rel_append jumps (paired.filter oneToOne isPair)))
    | error failed failed' sameKind =>
      rw [failed, failed']
      exact ⟨head, .some sameKind⟩

end Trace

/-- Instructions that correspond do so at paired places. -/
theorem Instruction.forall₂_places (stop stop' : Nat) {instructions others : List Instruction}
    {relates : Instruction → Instruction → Prop}
    (related : Forall₂ relates instructions others) :
    Forall₂ (fun instruction other =>
      (instruction.offset, other.offset) ∈ pairedPlaces stop stop' instructions others ∧
        relates instruction other) instructions others ∧
      (stop, stop') ∈ pairedPlaces stop stop' instructions others := by
  induction related with
  | nil => exact ⟨.nil, by simp [pairedPlaces, places]⟩
  | cons relates _ ih =>
    obtain ⟨rest, ends⟩ := ih
    refine ⟨.cons ⟨mem_cons_self, relates⟩ (rest.imp fun _ _ corresponds => ?_), mem_cons_of_mem _ ends⟩
    exact ⟨mem_cons_of_mem _ corresponds.1, corresponds.2⟩

namespace Lifter

variable {body other : MethodBody} {instructions others : List Instruction}

theorem ofBody_of_decode {resolver : Resolver} {context : Instantiation}
    (decoded : decode body.code = .ok instructions) :
    ofBody resolver context body =
      prepend [.code, .locals body.maxStack (body.locals.map (TypeSig.instantiate context))]
        (streamed resolver context body.code.length none [] instructions) := by
  obtain ⟨complete, rfl⟩ := decode_eq_ok decoded
  rw [ofBody_eq_streamed, complete]

theorem nodup_places (decoded : decode body.code = .ok instructions) :
    (places body.code.length instructions).Nodup := by
  obtain ⟨complete, rfl⟩ := decode_eq_ok decoded
  have tiles := (Listing.comes_ofCode body.code).tiles (zero_le _) complete
  exact tiles.pairwise.1.imp ne_of_lt

/-- The encoding chosen for an instruction does not matter: bodies with the same locals, whose
instructions are the same in their longest form and whose jumps go to corresponding places, are
lifted to the same tree or fail with errors of one kind. -/
theorem lift_of_corresponding_instructions (lifter : Lifter) (method : Method)
    (sameLocals : body.locals = other.locals)
    (decoded : decode body.code = .ok instructions)
    (decoded' : decode other.code = .ok others)
    (corresponds : Forall₂ (Corresponds (pairedPlaces body.code.length
      other.code.length instructions others)) instructions others) :
    SameOutcome (lifter.lift method body) (lifter.lift method other) := by
  have oneToOne := oneToOne_zip (nodup_places decoded) (nodup_places decoded')
  obtain ⟨atPlaces, ends⟩ := forall₂_places body.code.length other.code.length corresponds
  have alike : (ofBody lifter.resolver lifter.context body).Alike
      (Paired (pairedPlaces body.code.length other.code.length instructions others))
      (ofBody lifter.resolver lifter.context other) := by
    rw [ofBody_of_decode decoded, ofBody_of_decode decoded', sameLocals]
    exact Alike.prepend (.cons .code (.cons (.locals _ _ _) .nil))
      (streamed_alike oneToOne atPlaces ends .nil)
  exact lift_sameOutcome _ fun task nextNode _ =>
    Machine.agrees_runTrace task (renaming_paired oneToOne) alike _ _ ⟨rfl, rfl, .nil, rfl⟩

/-- A choice between 1 and 2 in short forms. -/
def shortChoice : List UInt8 := [0x02, 0x2d, 0x02, 0x17, 0x2a, 0x18, 0x2a]

/-- The same choice in longer forms. -/
def longChoice : List UInt8 :=
  [0x0e, 0x00, 0x3a, 0x06, 0x00, 0x00, 0x00, 0x20, 0x01, 0x00, 0x00, 0x00, 0x2a, 0x1f, 0x02, 0x2a]

theorem choice_in_short_and_long_form :
    ∃ instructions others, decode shortChoice = .ok instructions ∧ decode longChoice = .ok others ∧
      Forall₂ (Corresponds (pairedPlaces 7 16 instructions others)) instructions others ∧
      ∃ tree, withoutMembers.lift (.taking .bool ["a"])
          { code := shortChoice, locals := [], maxStack := 1 } = .ok tree ∧
        tree.text = "(a) => (!a ? 1 : 2)" ∧
        SameOutcome (.ok tree) (withoutMembers.lift
          (.taking .bool ["a"]) { code := longChoice, locals := [], maxStack := 8 }) := by
  have decoded : decode shortChoice = .ok [
      ⟨0, 1, .ldarg0, .none⟩, ⟨1, 2, .brtrueS, .target ⟨5⟩⟩, ⟨3, 1, .ldcI41, .none⟩,
      ⟨4, 1, .ret, .none⟩, ⟨5, 1, .ldcI42, .none⟩, ⟨6, 1, .ret, .none⟩] := rfl
  have decoded' : decode longChoice = .ok [
      ⟨0, 2, .ldargS, .slot 0⟩, ⟨2, 5, .brtrue, .target ⟨13⟩⟩, ⟨7, 5, .ldcI4, .int 1⟩,
      ⟨12, 1, .ret, .none⟩, ⟨13, 2, .ldcI4S, .int 2⟩, ⟨15, 1, .ret, .none⟩] := rfl
  have viewed : (withoutMembers.lift (.taking .bool ["a"])
      { code := shortChoice, locals := [], maxStack := 1 }).map MethodTree.text =
        .ok "(a) => (!a ? 1 : 2)" := by
    decide +kernel
  obtain ⟨tree, lifted, isText⟩ := exists_of_map viewed
  refine ⟨_, _, decoded, decoded', ?corresponds, tree, lifted, isText, lifted ▸
    lift_of_corresponding_instructions _ _ rfl decoded decoded' ?corresponds⟩
  exact .cons (.same rfl (by decide)) <| .cons (.jump (by decide) rfl rfl rfl rfl (by decide)) <|
    .cons (.same rfl (by decide)) <| .cons (.same rfl (by decide)) <|
    .cons (.same rfl (by decide)) <| .cons (.same rfl (by decide)) .nil

end Lifter

end CilLift
