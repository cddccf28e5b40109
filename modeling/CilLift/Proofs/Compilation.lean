import CilLift.Proofs.Acceptance
import CilLift.Proofs.Announcement
import CilLift.Proofs.Valuation

/-!
Structured integer expressions and their code: operands before opcodes, and a choice as a jump over
its first part. The code can always be assembled, and its events are those of its parts with the
labels between them.
-/

namespace CilLift

open List Option Trace Item Request Prod Label

variable {limit : Nat}

/-- An integer expression over the parameters of a method. -/
inductive Source where
  | parameter (slot : UInt16)
  | constant (value : Int32)
  | arithmetic (kind : Arithmetic) (left right : Source)
  /-- The first part where a boolean parameter holds, the second one elsewhere. -/
  | choice (slot : UInt16) (onTrue onFalse : Source)

/-- An instruction with an operand does not jump, and a branch leads behind itself, up to a
limit. -/
def Item.LeadsUpTo (places : String → Option Nat) (limit : Nat) (entry : Nat × Item) : Prop :=
  match entry.2.content with
  | .operand _ => entry.2.opcode.family ≠ .jump
  | .label label => entry.2.width = 4 ∧ ∃ place, places label = some place ∧
      entry.1 + entry.2.size ≤ place ∧ place ≤ limit

theorem Item.LeadsUpTo.forward {places : String → Option Nat} {entry : Nat × Item}
    (leads : LeadsUpTo places limit entry) : entry.2.Forward places limit entry.1 := by
  obtain ⟨offset, opcode, operand | label⟩ := entry
  · exact fun isJump => absurd isJump leads
  · obtain ⟨-, place, isPlace, isBehind, inside⟩ := leads
    intro _ target isTarget
    have isSize : 0 < (mk opcode (.label label)).size :=
      Nat.add_pos_left opcode.encoding_length_pos _
    simp only [destination?, isPlace, map_some, mem_some_iff] at isTarget
    dsimp only at isBehind ⊢
    subst isTarget
    simp only [Int.ofNat_eq_natCast]
    omega

theorem Item.LeadsUpTo.finds {places : String → Option Nat} {entry : Nat × Item}
    (leads : LeadsUpTo places limit entry) (short : limit < 2 ^ 31) :
    Assembler.Finds places entry := by
  intro label isLabel
  obtain ⟨offset, opcode, content⟩ := entry
  subst isLabel
  obtain ⟨isWidth, place, isPlace, isBehind, inside⟩ := leads
  refine ⟨place, isPlace, ?_⟩
  have isLimit : (twoTo (8 * 4 - 1) : Int) = 2147483648 := rfl
  rw [isWidth, Assembler.fitsWidth, decide_eq_true_eq]
  omega

namespace Source

/-- The bytes of the code. -/
def size : Source → Nat
  | .parameter _ => 4
  | .constant _ => 5
  | .arithmetic _ left right => left.size + right.size + 1
  | .choice _ onTrue onFalse => 14 + onTrue.size + onFalse.size

theorem size_pos (source : Source) : 0 < source.size := by
  cases source <;> simp only [size] <;> omega

/-- The requests for the code from an offset on. A choice has two labels, numbered by its offset:
the start of its second part and its end. -/
def requests (name : Nat → String) (offset : Nat) : Source → List Request
  | .parameter slot => [.emit .ldarg (.slot slot)]
  | .constant value => [.emit .ldcI4 (.int value)]
  | .arithmetic kind left right =>
    left.requests name offset ++
      (right.requests name (offset + left.size) ++ [.emit kind.opcode .none])
  | .choice slot onTrue onFalse =>
    [.emit .ldarg (.slot slot), .branch .brfalse (name (2 * offset))] ++
      (onTrue.requests name (offset + 9) ++
        ([.branch .br (name (2 * offset + 1)), .define (name (2 * offset))] ++
          (onFalse.requests name (offset + 14 + onTrue.size) ++ [.define (name (2 * offset + 1))])))

/-- The requests for a method that returns the value of the expression. -/
def program (name : Nat → String) (source : Source) : List Request :=
  source.requests name 0 ++ [.emit .ret .none]

def compile (name : Nat → String) (source : Source) : Except Error (List UInt8) := do
  match (source.program name).forM Assembler.perform {} with
  | .ok _ assembler => assembler.finalize
  | .error error _ => throw error

variable (source : Source) (name : Nat → String) (offset : Nat)

theorem totalSize_requests : totalSize (items (source.requests name offset)) = source.size := by
  induction source generalizing offset with
  | parameter | constant => rfl
  | arithmetic kind left right leftIh rightIh =>
    have isSize : totalSize (items [.emit kind.opcode .none]) = 1 := by
      cases kind <;> rfl
    simp [requests, items_append, totalSize_append, leftIh, rightIh, isSize, size, add_assoc]
  | choice slot onTrue onFalse trueIh falseIh =>
    have isEntry : totalSize (items
        [.emit .ldarg (.slot slot), .branch .brfalse (name (2 * offset))]) = 9 := rfl
    have isMiddle : totalSize (items
        [.branch .br (name (2 * offset + 1)), .define (name (2 * offset))]) = 5 := rfl
    have isExit : totalSize (items [.define (name (2 * offset + 1))]) = 0 := rfl
    simp only [requests, items_append, totalSize_append, trueIh, falseIh, size]
    omega

theorem requests_acceptable : ∀ request ∈ source.requests name offset, request.Acceptable := by
  induction source generalizing offset with
  | parameter | constant =>
    intro request mem
    obtain rfl := mem_singleton.1 mem
    exact ⟨_, rfl⟩
  | arithmetic kind left right leftIh rightIh =>
    intro request mem
    rcases mem_append.1 mem with mem | mem
    · exact leftIh offset request mem
    rcases mem_append.1 mem with mem | mem
    · exact rightIh _ request mem
    · obtain rfl := mem_singleton.1 mem
      cases kind <;> exact ⟨_, rfl⟩
  | choice slot onTrue onFalse trueIh falseIh =>
    intro request mem
    simp only [requests, mem_append, mem_cons, not_mem_nil, or_false] at mem
    rcases mem with (rfl | rfl) | mem | (rfl | rfl) | mem | rfl
    · exact ⟨_, rfl⟩
    · exact ⟨_, rfl⟩
    · exact trueIh _ request mem
    · exact ⟨_, rfl⟩
    · trivial
    · exact falseIh _ request mem
    · trivial

/-- The numbers of the labels that are defined, in order. -/
def labelNumbers (offset : Nat) : Source → List Nat
  | .parameter _ | .constant _ => []
  | .arithmetic _ left right =>
    left.labelNumbers offset ++ right.labelNumbers (offset + left.size)
  | .choice _ onTrue onFalse =>
    onTrue.labelNumbers (offset + 9) ++
      2 * offset :: (onFalse.labelNumbers (offset + 14 + onTrue.size) ++ [2 * offset + 1])

theorem labels_requests :
    labels (source.requests name offset) = (source.labelNumbers offset).map name := by
  induction source generalizing offset with
  | parameter | constant => rfl
  | arithmetic kind left right leftIh rightIh =>
    have noLabel : labels [.emit kind.opcode .none] = [] := rfl
    simp [requests, labelNumbers, labels_append, leftIh, rightIh, noLabel, map_append, append_nil]
  | choice slot onTrue onFalse trueIh falseIh =>
    simp only [requests, labelNumbers, labels_append, trueIh, falseIh, map_append, map_cons]
    rfl

theorem labelNumbers_bounds :
    ∀ number ∈ source.labelNumbers offset, 2 * offset ≤ number ∧ number < 2 * (offset + source.size) := by
  induction source generalizing offset with
  | parameter | constant => simp [labelNumbers]
  | arithmetic kind left right leftIh rightIh =>
    intro number mem
    rw [size]
    rcases mem_append.1 mem with mem | mem
    · have := leftIh offset number mem
      omega
    · have := rightIh _ number mem
      omega
  | choice slot onTrue onFalse trueIh falseIh =>
    intro number mem
    rw [size]
    simp only [labelNumbers, mem_append, mem_cons, not_mem_nil, or_false] at mem
    rcases mem with mem | rfl | mem | rfl
    · have := trueIh _ number mem
      omega
    · omega
    · have := falseIh _ number mem
      omega
    · omega

/-- No label is defined twice. -/
theorem labelNumbers_nodup : (source.labelNumbers offset).Nodup := by
  induction source generalizing offset with
  | parameter | constant => exact nodup_nil
  | arithmetic kind left right leftIh rightIh =>
    refine nodup_append.2 ⟨leftIh offset, rightIh _, ?_⟩
    intro first isFirst second isSecond
    have := left.labelNumbers_bounds offset first isFirst
    have := right.labelNumbers_bounds _ second isSecond
    omega
  | choice slot onTrue onFalse trueIh falseIh =>
    have trueBounds := onTrue.labelNumbers_bounds (offset + 9)
    have falseBounds := onFalse.labelNumbers_bounds (offset + 14 + onTrue.size)
    have falsePart : (onFalse.labelNumbers (offset + 14 + onTrue.size) ++ [2 * offset + 1]).Nodup := by
      refine nodup_append.2 ⟨falseIh _, nodup_singleton _, ?_⟩
      intro first isFirst second isSecond
      have := falseBounds first isFirst
      have := mem_singleton.1 isSecond
      omega
    have laterBounds : ∀ number ∈ onFalse.labelNumbers (offset + 14 + onTrue.size) ++
        [2 * offset + 1], number = 2 * offset + 1 ∨ 2 * (offset + 14 + onTrue.size) ≤ number := by
      intro number mem
      rcases mem_append.1 mem with mem | mem
      · exact .inr (falseBounds number mem).1
      · exact .inl (mem_singleton.1 mem)
    refine nodup_append.2 ⟨trueIh _, nodup_cons.2 ⟨fun mem => ?_, falsePart⟩, ?_⟩
    · have := laterBounds _ mem
      omega
    · intro first isFirst second isSecond
      have := trueBounds first isFirst
      rcases mem_cons.1 isSecond with rfl | isSecond
      · omega
      · have := laterBounds second isSecond
        omega

/-- The labels of all choices are known at their places. -/
def Resolves (places : String → Option Nat) (name : Nat → String) (offset : Nat) : Source → Prop
  | .parameter _ | .constant _ => True
  | .arithmetic _ left right =>
    left.Resolves places name offset ∧ right.Resolves places name (offset + left.size)
  | .choice _ onTrue onFalse =>
    places (name (2 * offset)) = some (offset + 14 + onTrue.size) ∧
      places (name (2 * offset + 1)) = some (offset + 14 + onTrue.size + onFalse.size) ∧
      onTrue.Resolves places name (offset + 9) ∧
      onFalse.Resolves places name (offset + 14 + onTrue.size)

variable {source name offset}

/-- Labels that are defined once are found where they are defined. -/
theorem resolves_place? {whole : List Request} (distinct : (labels whole).Nodup)
    (before after : List Request) (isWhole : whole = before ++ source.requests name offset ++ after)
    (isOffset : totalSize (items before) = offset) :
    source.Resolves (place? whole) name offset := by
  induction source generalizing offset before after with
  | parameter | constant => trivial
  | arithmetic kind left right leftIh rightIh =>
    constructor
    · refine leftIh before (right.requests name (offset + left.size) ++
        [.emit kind.opcode .none] ++ after) (isWhole.trans ?_) isOffset
      simp [requests, append_assoc]
    · refine rightIh (before ++ left.requests name offset)
        ([.emit kind.opcode .none] ++ after) (isWhole.trans ?_) ?_
      · simp [requests, append_assoc]
      · rw [items_append, totalSize_append, isOffset, totalSize_requests]
  | choice slot onTrue onFalse trueIh falseIh =>
    let first := onTrue.requests name (offset + 9)
    let second := onFalse.requests name (offset + 14 + onTrue.size)
    let entry := before ++ [.emit .ldarg (.slot slot), .branch .brfalse (name (2 * offset))]
    let middle := entry ++ first ++ [.branch .br (name (2 * offset + 1))]
    let exit := middle ++ [.define (name (2 * offset))] ++ second
    have isEntry : totalSize (items entry) = offset + 9 := by
      rw [items_append, totalSize_append, isOffset]
      rfl
    have isMiddle : totalSize (items middle) = offset + 14 + onTrue.size := by
      rw [items_append, items_append, totalSize_append, totalSize_append, isEntry, totalSize_requests]
      change offset + 9 + onTrue.size + 5 = _
      omega
    have isBehind : totalSize (items (middle ++ [.define (name (2 * offset))])) =
        offset + 14 + onTrue.size := by
      rw [items_append, totalSize_append, isMiddle]
      rfl
    have isExit : totalSize (items exit) = offset + 14 + onTrue.size + onFalse.size := by
      rw [items_append, totalSize_append, isBehind, totalSize_requests]
    refine ⟨?_, ?_, ?_, ?_⟩
    · rw [← isMiddle]
      refine place?_define distinct middle
        (second ++ .define (name (2 * offset + 1)) :: after) (isWhole.trans ?_)
      simp [requests, first, second, entry, middle]
    · rw [← isExit]
      refine place?_define distinct exit after (isWhole.trans ?_)
      simp [requests, first, second, entry, middle, exit]
    · refine trueIh entry ([.branch .br (name (2 * offset + 1)),
        .define (name (2 * offset))] ++ second ++ .define (name (2 * offset + 1)) :: after)
        (isWhole.trans ?_) isEntry
      simp [requests, second, entry]
    · refine falseIh (middle ++ [.define (name (2 * offset))])
        (.define (name (2 * offset + 1)) :: after) (isWhole.trans ?_) isBehind
      simp [requests, first, entry, middle]

/-- The instructions of the code with their events. -/
def entries (offset : Nat) : Source → List (Instruction × Event)
  | .parameter slot => [(⟨offset, 4, .ldarg, .slot slot⟩, .access .ldarg slot.toNat)]
  | .constant value =>
    [(⟨offset, 5, .ldcI4, .int value⟩, .literal (.integer .int32 value.toInt) .int32)]
  | .arithmetic kind left right =>
    left.entries offset ++ (right.entries (offset + left.size) ++
      [(⟨offset + left.size + right.size, 1, kind.opcode, .none⟩, .plain kind.opcode)])
  | .choice slot onTrue onFalse =>
    let behind := ofOffset (offset + 14 + onTrue.size)
    let finish := ofOffset (offset + 14 + onTrue.size + onFalse.size)
    [(⟨offset, 4, .ldarg, .slot slot⟩, .access .ldarg slot.toNat),
      (⟨offset + 4, 5, .brfalse, .target behind⟩, .jump .brfalse behind)] ++
      (onTrue.entries (offset + 9) ++
        ([(⟨offset + 9 + onTrue.size, 5, .br, .target finish⟩, .jump .br finish)] ++
          onFalse.entries (offset + 14 + onTrue.size)))

theorem call_of_mem_entries {entry : Instruction × Event} (mem : entry ∈ source.entries offset)
    (resolver : Resolver) (context : Instantiation) :
    entry.1.call resolver context = .ok (some entry.2) := by
  induction source generalizing offset with
  | parameter | constant =>
    obtain rfl := mem_singleton.1 mem
    rfl
  | arithmetic kind left right leftIh rightIh =>
    rcases mem_append.1 mem with mem | mem
    · exact leftIh mem
    rcases mem_append.1 mem with mem | mem
    · exact rightIh mem
    · obtain rfl := mem_singleton.1 mem
      cases kind <;> rfl
  | choice slot onTrue onFalse trueIh falseIh =>
    simp only [entries, mem_append, mem_cons, not_mem_nil, or_false] at mem
    rcases mem with (rfl | rfl) | mem | rfl | mem
    · rfl
    · rfl
    · exact trueIh mem
    · rfl
    · exact falseIh mem

/-- The items of the code with their offsets. -/
def placed (name : Nat → String) (offset : Nat) (source : Source) : List (Nat × Item) :=
  Item.placed offset (Request.items (source.requests name offset))

theorem placed_arithmetic (kind : Arithmetic) (left right : Source) :
    (arithmetic kind left right).placed name offset =
      left.placed name offset ++ right.placed name (offset + left.size) ++
        [(offset + left.size + right.size, ⟨kind.opcode, .operand .none⟩)] := by
  rw [placed, requests, items_append, items_append, placed_append,
    placed_append, totalSize_requests, totalSize_requests, append_assoc]
  rfl

theorem placed_choice (slot : UInt16) (onTrue onFalse : Source) :
    (choice slot onTrue onFalse).placed name offset = [(offset, ⟨.ldarg, .operand (.slot slot)⟩),
        (offset + 4, ⟨.brfalse, .label (name (2 * offset))⟩)] ++ onTrue.placed name (offset + 9) ++
        [(offset + 9 + onTrue.size, ⟨.br, .label (name (2 * offset + 1))⟩)] ++
        onFalse.placed name (offset + 14 + onTrue.size) := by
  have isEntry : totalSize (items
      [.emit .ldarg (.slot slot), .branch .brfalse (name (2 * offset))]) = 9 := rfl
  have isMiddle : totalSize (items
      [.branch .br (name (2 * offset + 1)), .define (name (2 * offset))]) = 5 := rfl
  have isSum : offset + 9 + onTrue.size + 5 = offset + 14 + onTrue.size := by omega
  have noItem (place : Nat) (label : String) : Item.placed place (items [.define label]) = [] := rfl
  simp only [placed, requests, items_append, placed_append, totalSize_requests,
    isEntry, isMiddle, isSum, noItem, append_nil, append_assoc]
  rfl

/-- The items are read back as the instructions of the code. -/
theorem instructions_placed {places : String → Option Nat}
    (resolves : source.Resolves places name offset) :
    ((source.placed name offset).map fun entry => entry.2.instruction places entry.1) =
      (source.entries offset).map fst := by
  induction source generalizing offset with
  | parameter | constant => rfl
  | arithmetic kind left right leftIh rightIh =>
    have isLast (place : Nat) : (mk kind.opcode (.operand .none)).instruction places place =
        ⟨place, 1, kind.opcode, .none⟩ := by
      cases kind <;> rfl
    rw [placed_arithmetic, entries]
    simp [map_append, leftIh resolves.1, rightIh resolves.2, map_cons, map_nil, isLast, append_assoc]
  | choice slot onTrue onFalse trueIh falseIh =>
    obtain ⟨isBehind, isFinish, trueResolves, falseResolves⟩ := resolves
    have isLoad : (mk .ldarg (.operand (.slot slot))).instruction places offset =
        ⟨offset, 4, .ldarg, .slot slot⟩ := rfl
    have isTest : (mk .brfalse (.label (name (2 * offset)))).instruction places (offset + 4) =
        ⟨offset + 4, 5, .brfalse, .target (ofOffset (offset + 14 + onTrue.size))⟩ := by
      simp only [instruction, operand, isBehind]
      rfl
    have isJump : (mk .br (.label (name (2 * offset + 1)))).instruction places
        (offset + 9 + onTrue.size) = ⟨offset + 9 + onTrue.size, 5, .br,
          .target (ofOffset (offset + 14 + onTrue.size + onFalse.size))⟩ := by
      simp only [instruction, operand, isFinish]
      rfl
    rw [placed_choice, entries]
    simp [map_append, trueIh trueResolves, falseIh falseResolves, map_cons, isLoad, isTest, isJump,
      append_assoc]

/-- All jumps of compiled code stay within it. -/
theorem leadsUpTo_placed {places : String → Option Nat}
    (resolves : source.Resolves places name offset) (inside : offset + source.size ≤ limit) :
    ∀ entry ∈ source.placed name offset, LeadsUpTo places limit entry := by
  induction source generalizing offset with
  | parameter | constant =>
    intro entry mem
    obtain rfl := mem_singleton.1 mem
    exact nofun
  | arithmetic kind left right leftIh rightIh =>
    rw [size] at inside
    intro entry mem
    simp only [placed_arithmetic, mem_append, mem_singleton] at mem
    rcases mem with (mem | mem) | rfl
    · exact leftIh resolves.1 (by omega) entry mem
    · exact rightIh resolves.2 (by omega) entry mem
    · cases kind <;> exact nofun
  | choice slot onTrue onFalse trueIh falseIh =>
    obtain ⟨isBehind, isFinish, trueResolves, falseResolves⟩ := resolves
    rw [size] at inside
    intro entry mem
    simp only [placed_choice, mem_append, mem_cons, not_mem_nil, or_false] at mem
    rcases mem with (((rfl | rfl) | mem) | rfl) | mem
    · exact nofun
    · refine ⟨rfl, _, isBehind, ?_, by omega⟩
      change offset + 4 + 5 ≤ _
      omega
    · exact trueIh trueResolves (by omega) entry mem
    · refine ⟨rfl, _, isFinish, ?_, by omega⟩
      change offset + 9 + onTrue.size + 5 ≤ _
      omega
    · exact falseIh falseResolves (by omega) entry mem

/-- The instructions of a method that returns the value of the expression, with their events. -/
def methodEntries (source : Source) : List (Instruction × Event) :=
  source.entries 0 ++ [(⟨source.size, 1, .ret, .none⟩, .plain .ret)]

/-- Short code can be assembled and is read back, whatever the labels are called. -/
theorem exists_compile (distinct : Function.Injective name) (short : source.size + 1 < 2 ^ 31) :
    ∃ code, source.compile name = .ok code ∧ code.length = source.size + 1 ∧
      decode code = .ok (source.methodEntries.map fst) := by
  have isSize : totalSize (items (source.program name)) = source.size + 1 := by
    rw [program, items_append, totalSize_append, totalSize_requests]
    rfl
  have isPlaced : Item.placed 0 (items (source.program name)) =
      source.placed name 0 ++ [(source.size, ⟨.ret, .operand .none⟩)] := by
    rw [program, items_append, placed_append, totalSize_requests, zero_add]
    rfl
  have labelsOnce : (labels (source.program name)).Nodup := by
    rw [program, labels_append, labels_requests]
    exact (append_nil _).symm ▸ (source.labelNumbers_nodup 0).map distinct
  have resolves : source.Resolves (place? (source.program name)) name 0 :=
    resolves_place? labelsOnce [] [.emit .ret .none] rfl rfl
  have leads : ∀ entry ∈ Item.placed 0 (items (source.program name)),
      LeadsUpTo (place? (source.program name)) (source.size + 1) entry := by
    intro entry mem
    rw [isPlaced] at mem
    rcases mem_append.1 mem with mem | mem
    · exact leadsUpTo_placed resolves (by omega) entry mem
    · obtain rfl := mem_singleton.1 mem
      exact nofun
  have acceptable : ∀ request ∈ source.program name, request.Acceptable := by
    intro request mem
    rcases mem_append.1 mem with mem | mem
    · exact source.requests_acceptable name 0 request mem
    · obtain rfl := mem_singleton.1 mem
      exact ⟨_, rfl⟩
  obtain ⟨assembler, performed⟩ := Assembler.Holds.empty.exists_performAll acceptable labelsOnce
  have holds := Assembler.Holds.empty.performAll performed
  rw [nil_append] at holds
  obtain ⟨code, finished⟩ := holds.exists_finalize fun entry mem => (leads entry mem).finds short
  have isLength : code.length = source.size + 1 := (holds.length_finalize finished).trans isSize
  refine ⟨code, ?_, isLength, ?_⟩
  · rw [compile, performed]
    exact finished
  · rw [holds.readBack finished fun entry mem => isLength ▸ (leads entry mem).forward,
      isPlaced, map_append, instructions_placed resolves, methodEntries, map_append]
    rfl

/-- The events between the labels at the start and at the end of the code, where `targets` are the
places that have a label. -/
def events (targets : List Nat) (offset : Nat) : Source → List Event
  | .parameter slot => [.offset offset, .access .ldarg slot.toNat]
  | .constant value => [.offset offset, .literal (.integer .int32 value.toInt) .int32]
  | .arithmetic kind left right =>
    let middle := offset + left.size
    let last := middle + right.size
    left.events targets offset ++ (labelAt targets middle ++ (right.events targets middle ++
      (labelAt targets last ++ [.offset last, .plain kind.opcode])))
  | .choice slot onTrue onFalse =>
    let skip := offset + 9 + onTrue.size
    let behind := offset + 14 + onTrue.size
    let finish := behind + onFalse.size
    [.offset offset, .access .ldarg slot.toNat] ++ (labelAt targets (offset + 4) ++
      ([.offset (offset + 4), .jump .brfalse (ofOffset behind)] ++
        (labelAt targets (offset + 9) ++ (onTrue.events targets (offset + 9) ++
          (labelAt targets skip ++ ([.offset skip, .jump .br (ofOffset finish)] ++
            (labelAt targets behind ++ onFalse.events targets behind)))))))

/-- The labels of all choices are targets. -/
def Targeted (targets : List Nat) (offset : Nat) : Source → Prop
  | .parameter _ | .constant _ => True
  | .arithmetic _ left right =>
    left.Targeted targets offset ∧ right.Targeted targets (offset + left.size)
  | .choice _ onTrue onFalse =>
    offset + 14 + onTrue.size ∈ targets ∧ offset + 14 + onTrue.size + onFalse.size ∈ targets ∧
      onTrue.Targeted targets (offset + 9) ∧ onFalse.Targeted targets (offset + 14 + onTrue.size)

end Source

namespace Trace

/-- The events of an instruction, with the label before it. -/
def block (targets : List Nat) (entry : Instruction × Event) : List Event :=
  labelAt targets entry.1.offset ++ [.offset entry.1.offset, entry.2]

theorem announced_blocks {resolver : Resolver} {context : Instantiation} {labels : List Nat}
    {length : Nat} {entries : List (Instruction × Event)}
    (areEvents : ∀ entry ∈ entries, entry.1.call resolver context = .ok (some entry.2)) :
    announced resolver context labels length none (entries.map fst) =
      ⟨entries.flatMap (block labels) ++ (labelAt labels length ++ [.finish]), none⟩ := by
  induction entries with
  | nil => rfl
  | cons entry rest ih =>
    have later := ih fun found mem =>
      areEvents found (mem_cons_of_mem _ mem)
    rw [map_cons, announced, areEvents entry mem_cons_self]
    rw [later, flatMap_cons, block]
    simp [prepend]

theorem lt_of_mem_targets {instructions : List Instruction} {target : Nat}
    (mem : target ∈ targets instructions) : target < 2 ^ 32 - 1 := by
  obtain ⟨instruction, -, isTarget⟩ := mem_filterMap.1 mem
  unfold Instruction.leadsTo? at isTarget
  split at isTarget
  · rename_i label _
    unfold offset? at isTarget
    split at isTarget
    · cases isTarget
    · rename_i notFinish
      cases isTarget
      have notLast : label.value ≠ 0xFFFFFFFF := fun isLast =>
        notFinish (beq_iff_eq.2 (congrArg Label.mk isLast))
      have isBelow := label.value.toNat_lt
      have notEqual : label.value.toNat ≠ 0xFFFFFFFF := fun isLast =>
        notLast (UInt32.toNat.inj isLast)
      omega
  · cases isTarget

end Trace

namespace Source

variable {source : Source} {name : Nat → String} {offset : Nat} {targets : List Nat}

theorem blocks_entries :
    (source.entries offset).flatMap (block targets) =
      labelAt targets offset ++ source.events targets offset := by
  induction source generalizing offset with
  | parameter | constant => simp [entries, events, block]
  | arithmetic kind left right leftIh rightIh =>
    simp [entries, events, leftIh, rightIh, block]
  | choice slot onTrue onFalse trueIh falseIh =>
    simp [entries, events, trueIh, falseIh, block]

/-- The places that the compiled code jumps to are those of its labels. -/
theorem targeted_of_entries (short : offset + source.size < 2 ^ 32 - 1)
    (inTargets : ∀ entry ∈ source.entries offset, ∀ target ∈ entry.1.leadsTo?,
      target ∈ targets) : source.Targeted targets offset := by
  induction source generalizing offset with
  | parameter | constant => trivial
  | arithmetic kind left right leftIh rightIh =>
    rw [size] at short
    refine ⟨leftIh (by omega) fun entry mem => ?_, rightIh (by omega) fun entry mem => ?_⟩
    · exact inTargets entry (mem_append_left _ mem)
    · exact inTargets entry (mem_append_right _ (mem_append_left _ mem))
  | choice slot onTrue onFalse trueIh falseIh =>
    rw [size] at short
    simp only [entries, mem_append, mem_cons, not_mem_nil, or_false] at inTargets
    refine ⟨?_, ?_, trueIh (by omega) fun entry mem => ?_, falseIh (by omega) fun entry mem => ?_⟩
    · exact inTargets _ (.inl (.inr rfl)) _ (offset?_ofOffset (by omega))
    · exact inTargets _ (.inr (.inr (.inl rfl))) _ (offset?_ofOffset (by omega))
    · exact inTargets entry (.inr (.inl mem))
    · exact inTargets entry (.inr (.inr (.inr mem)))

/-- The code of a short expression and its events, in any method. -/
theorem exists_trace (distinct : Function.Injective name) (short : source.size + 1 < 2 ^ 31) :
    ∃ code targets, source.compile name = .ok code ∧ code.length = source.size + 1 ∧
      source.Targeted targets 0 ∧ (∀ target ∈ targets, target < 2 ^ 32 - 1) ∧
      ∀ resolver context maxStack locals, ofBody resolver context ⟨code, maxStack, locals⟩ =
        ⟨.code :: .locals maxStack (locals.map (TypeSig.instantiate context)) ::
          (labelAt targets 0 ++ (source.events targets 0 ++
            (labelAt targets source.size ++ ([.offset source.size, .plain .ret] ++
              (labelAt targets (source.size + 1) ++ [.finish]))))), none⟩ := by
  obtain ⟨code, compiled, isLength, listed⟩ := exists_compile distinct short
  obtain ⟨isComplete, isListing⟩ := decode_eq_ok listed
  let targets := targets (source.methodEntries.map fst)
  have areEvents (resolver : Resolver) (context : Instantiation) : ∀ entry ∈ source.methodEntries,
      entry.1.call resolver context = .ok (some entry.2) := by
    intro entry mem
    rcases mem_append.1 mem with mem | mem
    · exact call_of_mem_entries mem resolver context
    · obtain rfl := mem_singleton.1 mem
      rfl
  refine ⟨code, targets, compiled, isLength, targeted_of_entries (by omega) ?_,
    fun _ => lt_of_mem_targets, ?_⟩
  · intro entry mem target isTarget
    exact mem_filterMap.2 ⟨entry.1, mem_map_of_mem (mem_append_left _ mem), isTarget⟩
  · intro resolver context maxStack locals
    rw [ofBody_eq_twoPasses (by dsimp only; omega), ofListing]
    rw [isComplete, isListing, announced_blocks (areEvents resolver context), isLength,
      methodEntries, flatMap_append, blocks_entries]
    simp [prepend, block, targets, methodEntries]

end Source

end CilLift
