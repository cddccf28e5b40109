import CilLift.Proofs.Assembly

/-!
Which requests an assembler accepts, and when it can finish its code: operands must fit their
opcodes, labels must be defined once, and branches must reach them.
-/

namespace CilLift

open List Item Request

namespace Request

/-- The label that a request defines. -/
def label? : Request → Option String
  | .define label => some label
  | _ => none

/-- The labels that are defined, in order. -/
def labels (requests : List Request) : List String := requests.filterMap label?

theorem labels_append (first second : List Request) :
    labels (first ++ second) = labels first ++ labels second :=
  filterMap_append

theorem mem_labels {requests : List Request} {label : String} :
    label ∈ labels requests ↔ .define label ∈ requests := by
  unfold labels
  rw [mem_filterMap]
  constructor
  · rintro ⟨request, mem, isLabel⟩
    cases request <;> cases isLabel
    exact mem
  · exact fun mem => ⟨_, mem, rfl⟩

theorem place?_define {whole : List Request} {label : String} (distinct : (labels whole).Nodup)
    (before after : List Request) (isWhole : whole = before ++ .define label :: after) :
    place? whole label = some (totalSize (items before)) := by
  subst isWhole
  have isNew : .define label ∉ before := by
    intro mem
    rw [labels_append, nodup_append] at distinct
    exact distinct.2.2 label (mem_labels.2 mem) label (mem_labels.2 mem_cons_self) rfl
  have isDefined : .define label ∈ before ++ [.define label] := by simp
  rw [append_cons, place?_append_of_mem isDefined, place?_append_of_not_mem isNew, if_pos rfl]

/-- The operand fits the opcode, or the opcode takes a distance. -/
def Acceptable : Request → Prop
  | .emit opcode operand => ∃ bytes, operandBytes opcode operand = .ok bytes
  | .branch opcode _ => ∃ width, Assembler.distanceWidth? opcode = some width
  | .define _ => True

end Request

namespace Assembler.Holds

variable {assembler : Assembler} {requests more : List Request}

theorem exists_perform (holds : assembler.Holds requests) {request : Request}
    (acceptable : request.Acceptable)
    (isNew : ∀ label ∈ request.label?, label ∉ Request.labels requests) :
    ∃ next, Assembler.perform request assembler = .ok () next := by
  cases request with
  | emit opcode operand =>
    obtain ⟨bytes, encoded⟩ := acceptable
    rw [Assembler.perform, emit, encoded]
    exact ⟨_, rfl⟩
  | branch opcode label =>
    obtain ⟨width, isWidth⟩ := acceptable
    rw [Assembler.perform, emitBranch, isWidth]
    exact ⟨_, rfl⟩
  | define label =>
    have notDefined : assembler.labels.lookup label = none := by
      rw [holds.labels, place?_eq_none_iff, ← mem_labels]
      exact isNew label rfl
    rw [Assembler.perform, defineLabel_eq, notDefined]
    exact ⟨_, rfl⟩

/-- Acceptable requests that define no label twice are all accepted. -/
theorem exists_performAll (holds : assembler.Holds requests)
    (acceptable : ∀ request ∈ more, request.Acceptable)
    (distinct : (Request.labels (requests ++ more)).Nodup) :
    ∃ next, more.forM Assembler.perform assembler = .ok () next := by
  induction more generalizing assembler requests with
  | nil => exact ⟨assembler, rfl⟩
  | cons request rest ih =>
    have isNew : ∀ label ∈ request.label?, label ∉ Request.labels requests := by
      intro label isLabel mem
      rw [labels_append, nodup_append] at distinct
      refine distinct.2.2 label mem label ?_ rfl
      exact mem_filterMap.2 ⟨request, mem_cons_self, isLabel⟩
    obtain ⟨middle, performed⟩ := holds.exists_perform (acceptable request mem_cons_self) isNew
    rw [append_cons] at distinct
    obtain ⟨next, later⟩ := ih (holds.perform performed)
      (fun found mem => acceptable found (mem_cons_of_mem _ mem)) distinct
    exact ⟨next, (andThen_of_ok performed).trans later⟩

end Assembler.Holds

namespace Assembler

/-- Distances are written if every label is defined and near enough. -/
theorem exists_applyAll {labels : List (String × Nat)} {fixups : List Fixup}
    (reachable : ∀ fixup ∈ fixups, ∃ place, labels.lookup fixup.label = some place ∧
      fitsWidth fixup.width ((place : Int) - (fixup.position + fixup.width : Nat)) = true)
    (code : List UInt8) : ∃ patched, fixups.foldlM (Fixup.apply labels) code = .ok patched := by
  induction fixups generalizing code with
  | nil => exact ⟨code, rfl⟩
  | cons fixup rest ih =>
    obtain ⟨place, isPlace, fits⟩ := reachable fixup mem_cons_self
    obtain ⟨patched, applied⟩ : ∃ patched, Fixup.apply labels code fixup = .ok patched := by
      unfold Fixup.apply
      rw [isPlace]
      dsimp only
      rw [if_pos fits]
      exact ⟨_, rfl⟩
    obtain ⟨final, later⟩ := ih (fun found mem => reachable found (mem_cons_of_mem _ mem)) patched
    exact ⟨final, by rw [foldlM_cons, applied]; exact later⟩

/-- A branch finds its label, near enough for its opcode. -/
def Finds (places : String → Option Nat) (entry : Nat × Item) : Prop :=
  ∀ name, entry.2.content = .label name → ∃ place, places name = some place ∧
    fitsWidth entry.2.width ((place : Int) - (entry.1 + entry.2.size : Nat)) = true

theorem Holds.exists_finalize {assembler : Assembler} {requests : List Request}
    (holds : assembler.Holds requests) (finds : ∀ entry ∈ placed 0 (items requests),
      Finds (place? requests) entry) : ∃ code, assembler.finalize = .ok code := by
  refine exists_applyAll (fun fixup mem => ?_) assembler.code
  rw [holds.fixups] at mem
  obtain ⟨⟨offset, opcode, content⟩, isEntry, isFixup⟩ := mem_filterMap.1 mem
  cases content with
  | operand => cases isFixup
  | label name =>
    obtain ⟨place, isPlace, fits⟩ := finds _ isEntry name rfl
    cases isFixup
    refine ⟨place, (holds.labels name).trans isPlace, ?_⟩
    rw [add_assoc]
    exact fits

end Assembler

theorem Layout.length_bytes {places : String → Option Nat} {offset : Nat} {items : List Item}
    {bytes : List UInt8} (layout : Layout places offset items bytes) :
    bytes.length = totalSize items := by
  induction layout with
  | nil => rfl
  | cons encoded isSize reaches tail ih =>
    rw [length_append, length_append, isSize, ih]
    rfl

theorem Assembler.Holds.length_finalize {assembler : Assembler} {requests : List Request}
    (holds : assembler.Holds requests) {code : List UInt8}
    (finished : assembler.finalize = .ok code) : code.length = totalSize (items requests) :=
  (holds.layout finished).length_bytes

end CilLift
