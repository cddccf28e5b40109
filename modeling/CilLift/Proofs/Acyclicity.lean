import CilLift.Proofs.Frames
import CilLift.Proofs.Links

/-!
When climbing from a path over its forks ends. Forks and the joins of two sides never close a cycle of
links. A merge by a new fork does, exactly when the path that it moves is above its new place; a body
whose merges do not is lifted to a tree or refused, and never leaves the lifting climbing for ever.
-/

namespace CilLift

open Work Workspace Outline

variable {first second kept moved : StackId} {old : BranchId}

namespace Workspace

variable {space : Workspace}

theorem framing_outline : Framing fun before after => after.outline = before.outline where
  refl _ := rfl
  trans same same' := same'.trans same
  emission _ _ _ := rfl
  stack _ id _ keeps := outline_modifyStack id fun stack => (keeps stack).1

theorem outline_withItems (space : Workspace) (id : StackId) (items : List Expr) :
    (space.withItems id items).outline = space.outline :=
  outline_modifyStack id fun _ => rfl

theorem outline_forked (space : Workspace) (parent : StackId) (test : Expr) :
    (space.forked parent test).outline = space.outline.addFork parent := by
  simp [outline, forked, addFork]

theorem outline_reforked (space : Workspace) (parent onTrue onFalse : StackId) (test : Expr) :
    (space.reforked parent test onTrue onFalse).outline =
      space.outline.regraft parent onTrue onFalse := by
  have attached : ∀ (paths : List EvalStack) (index : Nat), (paths.modify index fun stack =>
        { stack with parent := some space.forks.length }).map EvalStack.parent =
      (paths.map EvalStack.parent).modify index fun _ => some space.forks.length :=
    map_modify fun _ => rfl
  simp only [outline, reforked, Outline.regraft, modifyStack, List.map_append, List.map_cons,
    List.map_nil, List.length_map]
  rw [attached, attached]

theorem outline_newFork (parent : StackId) (test : Expr) :
    Ensures Error.IsAnswer (newFork parent test) space fun branch next =>
      next.outline = space.outline.addFork parent ∧ (next.fork branch).onTrue = space.paths.length ∧
        (next.fork branch).onFalse = space.paths.length + 1 := by
  unfold Ensures
  rw [newFork_eq]
  have isFork := fork_forked (space.placing test) parent (space.emission.place test).1
  dsimp only
  rw [isFork]
  exact ⟨outline_forked _ parent _, rfl, rfl⟩

theorem outline_refork (parent : StackId) (test : Expr) (onTrue onFalse : StackId) :
    Ensures Error.IsAnswer (refork parent test onTrue onFalse) space fun _ next =>
      next.outline = space.outline.regraft parent onTrue onFalse := by
  exact outline_reforked _ parent onTrue onFalse _

theorem outline_regraft (label : Label) (old : BranchId) (parent : StackId) (test : Expr)
    (onTrue onFalse : StackId) :
    Ensures Error.IsAnswer (regraft label old parent test onTrue onFalse) space
      fun _ next => next.outline = space.outline.regraft parent onTrue onFalse :=
  (outline_refork parent test onTrue onFalse).andThen fun new _ grafted =>
    (framing_outline.replacePlaceholder label parent old new).mono fun _ _ same =>
      same.trans grafted

end Workspace

/-- A property of the links as an invariant. -/
def Outline.regime (admits : Outline → Prop) (tolerates : Error → Prop) : Regime where
  Holds space := admits space.outline
  Sound _ _ := True
  Produced _ _ := True
  Valid space id := id < space.paths.length
  Tolerates := tolerates

namespace Outline

variable {admits : Outline → Prop} {tolerates : Error → Prop} {space : Workspace}

theorem regime_framed (answers : ∀ error, Error.IsAnswer error → tolerates error)
    (linked : ∀ outline, admits outline → outline.Linked) :
    (regime admits tolerates).Framed fun before after => after.outline = before.outline where
  framing := framing_outline
  sound _ _ := trivial
  produced _ _ := trivial
  answer := answers
  holds same holds := by
    change admits _
    rwa [same]
  valid id same inside := by
    change id < _
    rwa [← length_outline, same, length_outline]
  above space id branch holds isSide := by
    rw [parent_outline] at isSide
    have inside := (linked _ holds).fork_lt isSide
    rw [fork_outline, length_outline] at inside
    exact ⟨inside.2.2, inside.1, inside.2.1⟩

/-- The new sides of a fork may be worked on. -/
theorem regime_forks (answers : ∀ error, Error.IsAnswer error → tolerates error)
    (admitted : ∀ outline parent, admits outline → parent < outline.parents.length →
      admits (outline.addFork parent)) : (regime admits tolerates).Forks := by
  intro space parent test holds isValid _
  refine ((outline_newFork parent test).mono ?_).forgive answers
  rintro branch next ⟨forked, isTrue, isFalse⟩
  have grown : next.paths.length = space.paths.length + 2 := by
    rw [← length_outline, forked]
    simp [addFork, length_outline]
  refine ⟨?_, ⟨fun _ => id, fun _ => id, fun id inside => ?_⟩, ?_, ?_⟩
  · change admits next.outline
    rw [forked]
    exact admitted _ parent holds (by rwa [length_outline])
  · exact Nat.lt_of_lt_of_le inside (by omega)
  · change (next.fork branch).onTrue < next.paths.length
    simp [isTrue, grown]
  · change (next.fork branch).onFalse < next.paths.length
    simp [isFalse, grown]

end Outline

namespace Workspace

variable {space : Workspace}

/-- The merge of two paths would move a path under a fork that it is above of. -/
def ClosesLoop (space : Workspace) (first second : StackId) : Prop :=
  ∃ old kept moved, space.Grafts first second old kept moved ∧
    space.outline.Over moved (space.fork old).parent

/-- There is one way to merge two paths by a new fork. -/
theorem Grafts.unique {kept' moved' : StackId} {old' : BranchId}
    (grafts : space.Grafts first second old kept moved)
    (grafts' : space.Grafts first second old' kept' moved') :
    old = old' ∧ kept = kept' ∧ moved = moved' := by
  cases grafts with
  | below pair _ olderDepth youngerDepth isDeeper olderSide youngerSide =>
    cases grafts' with
    | below pair' _ olderDepth' youngerDepth' isDeeper' olderSide' youngerSide' =>
      rcases pair with ⟨rfl, rfl⟩ | ⟨rfl, rfl⟩ <;> rcases pair' with ⟨rfl, rfl⟩ | ⟨rfl, rfl⟩
      · simp_all
      · simp_all; omega
      · simp_all; omega
      · simp_all
    | across firstDepth secondDepth =>
      rcases pair with ⟨rfl, rfl⟩ | ⟨rfl, rfl⟩ <;> simp_all
  | across firstDepth secondDepth _ firstSide secondSide _ firstRoot secondRoot =>
    cases grafts' with
    | below pair' _ olderDepth' youngerDepth' isDeeper' =>
      rcases pair' with ⟨rfl, rfl⟩ | ⟨rfl, rfl⟩ <;> simp_all
    | across _ _ _ firstSide' _ _ firstRoot' => simp_all

/-- Merging two paths by a new fork moves one path; all other merges leave the links alone. -/
theorem outline_joinPair {tolerates : Error → Prop} (linked : space.outline.Linked)
    (label : Label) (firstInside : first < space.paths.length)
    (secondInside : second < space.paths.length)
    (answers : ∀ error, Error.IsAnswer error → tolerates error)
    (climbs : ∀ id, id = first ∨ id = second → space.depth? id = none → tolerates .cyclicForks) :
    Ensures tolerates (joinPair label first second) space fun _ next =>
      (next.outline = space.outline ∧ ∀ old kept moved, ¬space.Grafts first second old kept moved) ∨
      ∃ old kept moved, space.Grafts first second old kept moved ∧
        next.outline = space.outline.regraft (space.fork old).parent kept moved := by
  have lawful : (regime (fun outline => outline = space.outline) tolerates).Lawful :=
    (regime_framed answers (by rintro _ rfl; exact linked)).lawful
  refine lawful.joinPair rfl firstInside secondInside climbs (fun noGraft => .inl ⟨rfl, noGraft⟩) ?_ ?_
  · intro branch firstSide secondSide
    refine Ensures.mono (lawful.joinSides label rfl firstSide) fun _ _ ⟨same, _⟩ => .inl ⟨same, ?_⟩
    rintro _ _ _ grafts
    cases grafts with
    | below pair _ olderDepth youngerDepth isDeeper =>
      have sameDepth : space.depth? first = space.depth? second := by
        simp [depth?, depthWithin?, firstSide, secondSide]
      rcases pair with ⟨rfl, rfl⟩ | ⟨rfl, rfl⟩ <;> simp_all
    | across _ _ _ firstSide' secondSide' isApart => simp_all
  · intro old kept moved test next grafts same _ _
    refine ((outline_regraft label old _ test kept moved).forgive answers).mono
      fun _ final grafted => .inr ⟨old, kept, moved, grafts, ?_⟩
    rw [grafted]
    exact congrArg (fun outline => regraft outline _ kept moved) same

theorem Grafts.inside (linked : space.outline.Linked)
    (grafts : space.Grafts first second old kept moved)
    (firstInside : first < space.paths.length)
    (secondInside : second < space.paths.length) :
    (space.fork old).parent < space.paths.length ∧ kept < space.paths.length ∧
      moved < space.paths.length := by
  have lawful : (regime Linked fun _ => True).Lawful :=
    (regime_framed (fun _ _ => trivial) fun _ => id).lawful
  exact lawful.grafts_valid linked firstInside secondInside grafts

theorem Grafts.not_over_kept (grafts : space.Grafts first second old kept moved)
    (acyclic : space.outline.Acyclic) :
    ¬space.outline.Over kept (space.fork old).parent := by
  cases grafts with
  | below _ _ _ _ _ olderSide =>
    exact (acyclic kept).not_over_above (by rw [above?_outline, olderSide]; rfl)
  | across _ _ _ firstSide _ _ firstRoot =>
    intro isOver
    refine (acyclic first).not_over_above (by rw [above?_outline, firstSide]; rfl) ?_
    exact .climb (by rw [above?_outline, firstRoot]; rfl) isOver

/-- A successful merge closes a cycle exactly when it moves a path that is above its new place. -/
theorem acyclic_joinPair (linked : space.outline.Linked) (acyclic : space.outline.Acyclic)
    {label : Label} {joined : Option StackId} {next : Workspace}
    (firstInside : first < space.paths.length) (secondInside : second < space.paths.length)
    (merge : joinPair label first second space = .ok joined next) :
    next.outline.Acyclic ↔ ¬space.ClosesLoop first second := by
  have merged := outline_joinPair linked label firstInside secondInside
    (fun _ _ => trivial : ∀ error, Error.IsAnswer error → True) fun _ _ _ => trivial
  rcases merged.of_ok merge with
    ⟨same, noGraft⟩ | ⟨old, kept, moved, grafts, grafted⟩
  · rw [same]
    refine ⟨fun _ => ?_, fun _ => acyclic⟩
    rintro ⟨old, kept, moved, grafts, -⟩
    exact noGraft old kept moved grafts
  · obtain ⟨-, keptInside, movedInside⟩ := grafts.inside linked firstInside secondInside
    rw [← length_outline] at keptInside movedInside
    rw [grafted, linked.acyclic_regraft acyclic keptInside movedInside]
    constructor
    · rintro ⟨-, notMoved⟩ ⟨old', kept', moved', grafts', isOver⟩
      obtain ⟨rfl, rfl, rfl⟩ := grafts.unique grafts'
      exact notMoved isOver
    · intro opens
      exact ⟨grafts.not_over_kept acyclic, fun isOver => opens ⟨old, kept, moved, grafts, isOver⟩⟩

end Workspace

end CilLift
