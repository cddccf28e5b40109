import CilLift.Proofs.Termination

/-!
Every path and every fork that a machine holds on to exists, and all paths have the same locals. Forks
and merges keep this up, and so does every event of a body.
-/

namespace CilLift

open List Workspace Ensures Outline

namespace Workspace

variable {space : Workspace} {slotCount : Nat}

/-- All links lead to paths and forks that exist, and every path has as many locals. -/
structure InRange (slotCount : Nat) (space : Workspace) : Prop where
  linked : space.outline.Linked
  slots : ∀ path ∈ space.paths, path.locals.length = slotCount

/-- How many locals each of the paths has. -/
def slotCounts (space : Workspace) : List Nat :=
  space.paths.map fun path => path.locals.length

theorem inRange_iff : space.InRange slotCount ↔
    space.outline.Linked ∧ ∀ count ∈ space.slotCounts, count = slotCount := by
  rw [slotCounts, forall_mem_map]
  exact ⟨fun ⟨linked, slots⟩ => ⟨linked, slots⟩, fun ⟨linked, slots⟩ => ⟨linked, slots⟩⟩

theorem InRange.length_locals (inRange : space.InRange slotCount) {id : StackId}
    (inside : id < space.paths.length) : (space.stack id).locals.length = slotCount := by
  rw [stack, getD_eq_getElem _ _ inside]
  exact inRange.slots _ (getElem_mem inside)

theorem slotCounts_modifyStack (space : Workspace) (id : StackId)
    {change : EvalStack → EvalStack}
    (keeps : ∀ stack, (change stack).locals.length = stack.locals.length) :
    (space.modifyStack id change).slotCounts = space.slotCounts :=
  (map_modify keeps space.paths id).trans (modify_id _ _)

theorem slotCounts_reforked (space : Workspace) (parent onTrue onFalse : StackId) (test : Expr) :
    (space.reforked parent test onTrue onFalse).slotCounts = space.slotCounts := by
  have attached : ∀ (next : Workspace) (id : StackId) (branch : BranchId),
      (next.modifyStack id fun stack => { stack with parent := some branch }).slotCounts =
        next.slotCounts := fun next id _ => slotCounts_modifyStack next id fun _ => rfl
  exact (attached _ _ _).trans (attached _ _ _)

theorem framing_shape : Framing fun before after =>
    after.outline = before.outline ∧ after.slotCounts = before.slotCounts where
  refl _ := ⟨rfl, rfl⟩
  trans same same' := ⟨same'.1.trans same.1, same'.2.trans same.2⟩
  emission _ _ _ := ⟨rfl, rfl⟩
  stack space id _ keeps := ⟨outline_modifyStack id fun stack => (keeps stack).1,
      slotCounts_modifyStack space id fun stack => (keeps stack).2⟩

end Workspace

namespace Regime

/-- The ranges of identities as an invariant. -/
def ranges (slotCount : Nat) : Regime where
  Holds space := space.InRange slotCount
  Sound _ _ := True
  Produced _ _ := True
  Valid space id := id < space.paths.length
  Tolerates _ := True

variable {slotCount : Nat}

theorem ranges_framed : (ranges slotCount).Framed fun before after =>
    after.outline = before.outline ∧ after.slotCounts = before.slotCounts where
  framing := framing_shape
  sound _ _ := trivial
  produced _ _ := trivial
  answer _ _ := trivial
  holds same holds := by
    refine inRange_iff.2 ?_
    rw [same.1, same.2]
    exact inRange_iff.1 holds
  valid id same inside := by
    change id < _
    rwa [← length_outline, same.1, length_outline]
  above space id branch holds isSide := by
    rw [parent_outline] at isSide
    have inside := holds.linked.fork_lt isSide
    rw [fork_outline, length_outline] at inside
    exact ⟨inside.2.2, inside.1, inside.2.1⟩

theorem ranges_forks : (ranges slotCount).Forks := by
  intro space parent test holds inside _
  have links : (regime Linked fun _ => True).Forks :=
    regime_forks (fun _ _ => trivial) fun _ _ linked inside => linked.addFork inside
  refine mono (withOutcome (links space parent test holds.linked inside trivial)) ?_
  rintro branch next ⟨outcome, linked, leads, trueInside, falseInside⟩
  cases outcome
  refine ⟨⟨linked, ?_⟩, ⟨fun _ => id, fun _ => id, leads.valid⟩, trueInside, falseInside⟩
  have sideSlots := holds.length_locals inside
  simp only [mem_append, mem_cons, not_mem_nil, or_false]
  rintro path (mem | rfl | rfl)
  · exact holds.slots path mem
  · exact sideSlots
  · exact sideSlots

theorem ranges_joins : (ranges slotCount).Joins where
  toLawful := ranges_framed.lawful
  reforks := by
    intro space parent test onTrue onFalse holds parentInside trueInside falseInside _
    have links := linked_joins.reforks space parent test onTrue onFalse holds.linked
      parentInside trueInside falseInside trivial
    refine mono (withOutcome links) ?_
    rintro branch next ⟨outcome, linked, leads, -⟩
    rw [refork_eq] at outcome
    cases outcome
    refine ⟨inRange_iff.2 ⟨linked, ?_⟩, ⟨fun _ => id, fun _ => id, leads.valid⟩, trivial⟩
    rw [slotCounts_reforked]
    exact (inRange_iff.1 holds).2
  climbs _ _ _ _ := trivial

theorem ranges_serves (task : Task) : (ranges slotCount).Serves task := by
  have patient : ∀ {α : Type} (value : Except Error α) (post : α → Prop), (∀ result, post result) →
      Yields (fun _ => True) value post := by
    intro α value post done
    cases value with
    | ok result => exact done result
    | error error => trivial
  exact {
    lawful := ranges_framed.lawful
    forks := ranges_forks
    parameter := fun _ _ _ _ => trivial
    target := fun _ _ _ _ => trivial
    known := fun _ _ _ _ => trivial
    methodBody := fun _ _ => patient _ _ fun _ => trivial
    capturedDelegate := fun _ _ => patient _ _ fun _ => trivial
    receiver := fun _ _ expr holds =>
      ranges_framed.keeps holds (framing_shape.place expr) fun _ _ => trivial
    nested := fun _ _ _ _ _ _ holds => patient _ _ fun _ =>
      ⟨⟨holds.linked, holds.slots⟩, ranges_framed.leads ⟨rfl, rfl⟩, trivial⟩ }

theorem ranges_free : (ranges slotCount).Free := fun _ _ holds _ =>
  ⟨⟨holds.linked, holds.slots⟩, ranges_framed.leads ⟨rfl, rfl⟩, trivial⟩

theorem ranges_initial (nextNode : Nat) :
    (ranges slotCount).Live (.initial nextNode) where
  holds := ⟨⟨nofun, nofun, nofun⟩, nofun⟩
  current := nofun
  waiters := nofun

theorem ranges_opening (task : Task) (types : List TypeSig) (nextNode : Nat) :
    (ranges types.length).Live (Machine.opening task types nextNode) where
  holds := ⟨linked_opening task types nextNode, by
    intro path mem
    rw [mem_singleton.1 mem, length_mapIdx]⟩
  current := by
    rintro _ ⟨⟩
    exact zero_lt_one
  waiters := nofun

end Regime

/-- The workspace is in range, and the current path and those that wait exist. -/
structure Machine.InRange (slotCount : Nat) (machine : Machine) : Prop where
  workspace : machine.workspace.InRange slotCount
  current : ∀ id, machine.current = some id → id < machine.workspace.paths.length
  waiters : ∀ waiter ∈ machine.waiters, waiter.2 < machine.workspace.paths.length

end CilLift
