import CilLift.Proofs.Identities
import CilLift.Proofs.Regime

/-!
What steps that make no fork leave alone: the forks above every path, how many locals it has, the
identities that have been handed out, and the statements so far.
-/

namespace CilLift

open List Work

namespace Workspace

/-- The change leaves a path where it is, with as many locals. -/
def KeepsShape (change : EvalStack → EvalStack) : Prop :=
  ∀ stack, (change stack).parent = stack.parent ∧ (change stack).locals.length = stack.locals.length

/-- A relation between workspaces that ignores everything but the forks, the links of the paths to
them, how many locals there are, and what has been emitted so far. -/
structure Framing (relation : Workspace → Workspace → Prop) : Prop where
  refl : ∀ space, relation space space
  trans : ∀ {first second third}, relation first second → relation second third → relation first third
  emission : ∀ space emission, space.emission.Grows emission → relation space { space with emission }
  stack : ∀ space id change, KeepsShape change → relation space (space.modifyStack id change)

/-- The step ends in a workspace that is related to the first one. -/
def Frames {α : Type} (relation : Workspace → Workspace → Prop) (space : Workspace)
    (step : Work α) : Prop :=
  Ensures Error.IsAnswer step space fun _ next => relation space next

namespace Framing

variable {α β : Type} {relation : Workspace → Workspace → Prop} (framing : Framing relation)
  {space : Workspace} (id : StackId)

include framing

theorem andThen {step : Work β} {second : β → Work α} (first : space.Frames relation step)
    (next : ∀ result after, Frames relation after (second result)) :
    space.Frames relation (step >>= second) :=
  Ensures.andThen first fun result after related =>
    (next result after).mono fun _ _ related' => framing.trans related related'

theorem emit {step : Emission → α × Emission}
    (grows : ∀ emission : Emission, emission.Grows (step emission).2) :
    space.Frames relation (emit step) :=
  framing.emission space _ (grows space.emission)

theorem modifyStack {change : EvalStack → EvalStack} (keeps : KeepsShape change) :
    space.Frames relation (modify fun space => space.modifyStack id change) :=
  framing.stack space id change keeps

theorem place (expr : Expr) : space.Frames relation (place expr) :=
  framing.emit fun emission => emission.grows_place expr

theorem pushUntracked (value : Expr) : space.Frames relation (pushUntracked id value) :=
  framing.andThen (framing.place value) fun _ _ => framing.modifyStack id fun _ => ⟨rfl, rfl⟩

theorem push (value : Expr) : space.Frames relation (push id value) :=
  framing.andThen (framing.place value) fun _ _ =>
    framing.andThen (framing.emit fun _ => ⟨le_refl _, prefix_refl _⟩) fun _ _ =>
      framing.pushUntracked id _

theorem pop? : space.Frames relation (pop? id) := by
  refine (ensures_modifyGet _).2 ?_
  split
  · exact framing.refl space
  · exact framing.stack space id _ fun _ => ⟨rfl, rfl⟩

theorem setSlot (index : Nat) (slot : LocalSlot) :
    space.Frames relation (modify fun space => space.setSlot id index slot) :=
  framing.modifyStack id fun _ => ⟨rfl, length_set ..⟩

theorem assignLocal (index : Nat) (value : Expr) :
    space.Frames relation (assignLocal id index value) := by
  have assigned : ∀ slot : LocalSlot, Yields Error.IsFault
      (slot.assign value space.emission) fun next =>
        space.emission.Grows next.2 := fun slot =>
    (Expr.coerce_faults value slot.type).andThen fun coerced _ =>
      slot.grows_store coerced space.emission
  refine ensures_bind.2 (ensures_bind.2 (ensures_get.2 ?_))
  refine ensures_bind.2 (ensures_get.2 (ensures_bind.2 ((ensures_lift _).2 ?_)))
  refine (assigned _).mono (fun next grown => ?_) fun _ => Error.IsFault.isAnswer
  have stored := framing.stack space id
    (fun stack => { stack with locals := stack.locals.set index next.1 })
    fun _ => ⟨rfl, length_set ..⟩
  exact framing.trans stored (framing.emission _ next.2 grown)

theorem readLocal (index : Nat) : space.Frames relation (readLocal id index) :=
  ensures_bind.2 (framing.emit fun emission => (space.slot id index).grows_read emission)

theorem clearLocal (index : Nat) : space.Frames relation (clearLocal id index) :=
  ensures_bind.2 (framing.setSlot id index _)

theorem replacePlaceholder (label : Label) (id : StackId) (old new : BranchId) :
    space.Frames relation (replacePlaceholder label id old new) := by
  have popped : space.Frames relation (popPlaceholder label id old) := by
    refine framing.andThen (framing.pop? id) fun found after => ?_
    split
    · exact (ensures_pure _).2 (framing.refl after)
    · exact (ensures_throw _).2 (by simp [Error.IsAnswer])
  exact framing.andThen popped fun _ _ => framing.pushUntracked id _

end Framing

end Workspace

namespace Regime

/-- The invariant says nothing about trees and survives related changes of the workspace. -/
structure Framed (regime : Regime) (relation : Workspace → Workspace → Prop) : Prop where
  framing : Workspace.Framing relation
  sound : ∀ space expr, regime.Sound space expr
  produced : ∀ space expr, regime.Produced space expr
  answer : ∀ error, Error.IsAnswer error → regime.Tolerates error
  holds : ∀ {before after}, relation before after → regime.Holds before → regime.Holds after
  valid : ∀ {before after} id, relation before after → regime.Valid before id → regime.Valid after id
  above : ∀ space id branch, regime.Holds space → space.parent id = some branch →
    regime.Valid space (space.fork branch).parent ∧ regime.Valid space (space.fork branch).onTrue ∧
      regime.Valid space (space.fork branch).onFalse

namespace Framed

variable {α : Type} {regime : Regime} {relation : Workspace → Workspace → Prop}
  (framed : regime.Framed relation) {space : Workspace}

include framed

theorem leads {before after : Workspace} (related : relation before after) : regime.Leads before after :=
  ⟨fun expr _ => framed.sound after expr, fun expr _ => framed.produced after expr,
    fun id => framed.valid id related⟩

theorem item (space : Workspace) (expr : Expr) : regime.Item space expr :=
  ⟨framed.sound space expr, fun _ => framed.produced space expr⟩

theorem keeps {step : Work α} {post : α → Workspace → Prop} (holds : regime.Holds space)
    (frames : space.Frames relation step) (done : ∀ result next, post result next) :
    regime.Keeps step space post :=
  (Ensures.mono frames fun result next related =>
    ⟨framed.holds related holds, framed.leads related, done result next⟩).forgive framed.answer

/-- A framed regime is lawful. -/
theorem lawful : regime.Lawful where
  closed space := ⟨fun expr _ _ _ => framed.sound space expr, fun _ _ _ operand _ =>
      framed.sound space operand⟩
  answer := framed.answer
  sound_of_produced space expr _ := framed.sound space expr
  sound_store space _ _ _ _ _ := framed.sound space _
  sound_branch space _ := framed.sound space _
  test space _ _ := framed.sound space _
  item space _ item _ _ := framed.item space item
  above := framed.above
  place _ expr holds _ :=
    framed.keeps holds (framed.framing.place expr) fun _ next => framed.sound next _
  push _ id expr holds _ _ := framed.keeps holds (framed.framing.push id expr) fun _ _ => trivial
  placeholder _ id _ holds _ :=
    framed.keeps holds (framed.framing.pushUntracked id _) fun _ _ => trivial
  pop _ id holds _ :=
    framed.keeps holds (framed.framing.pop? id) fun _ next value _ => framed.item next value
  setItems _ id _ holds _ _ :=
    framed.keeps holds (framed.framing.modifyStack id fun _ => ⟨rfl, rfl⟩) fun _ _ => trivial
  markReduced _ id holds :=
    framed.keeps holds (framed.framing.modifyStack id fun _ => ⟨rfl, rfl⟩) fun _ _ => trivial
  readLocal _ id index holds _ :=
    framed.keeps holds (framed.framing.readLocal id index) fun _ next value _ =>
      framed.sound next value
  assignLocal _ id index value holds _ _ :=
    framed.keeps holds (framed.framing.assignLocal id index value) fun _ _ => trivial
  clearLocal _ id index holds _ :=
    framed.keeps holds (framed.framing.clearLocal id index) fun _ _ => trivial
  copyLocal _ _ target index holds _ _ :=
    framed.keeps holds (framed.framing.setSlot target index _) fun _ _ => trivial
  addStatement _ _ holds _ :=
    framed.keeps holds (framed.framing.emit fun emission => emission.grows_addStatement _)
      fun _ _ => trivial
  statement _ effect holds _ :=
    framed.keeps holds (framed.framing.andThen (framed.framing.place effect) fun _ _ =>
      framed.framing.emit fun _ => ⟨le_refl _, prefix_append ..⟩) fun _ _ => trivial
  materialize _ value holds _ := framed.keeps holds (framed.framing.emit fun emission =>
      emission.grows_freshName.trans (emission.freshName.2.grows_materialize value _)) fun bound next =>
        framed.produced next bound

end Framed

end Regime

end CilLift
