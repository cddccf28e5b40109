import CilLift.Paths.Join
import CilLift.Proofs.Links
import CilLift.Proofs.Steps

/-!
The forks around the path that is followed, from the inside out. The other side of each waits at a
place of its own; where the inner ones wait at one place, they all become conditionals there.
-/

namespace CilLift

open List CilLift.Expr Work Workspace Nat

variable {items : List Expr} {id : StackId}

/-- A fork around the path that is followed. What paths hold is given by shape. -/
structure Frame where
  branch : BranchId
  test : Expr
  /-- The path that forked. -/
  path : StackId
  /-- What that path holds below the placeholder. -/
  below : List Expr
  /-- The side that waits. -/
  sibling : StackId
  /-- Where it waits. -/
  place : Nat
  /-- What the true side has left. While the true side is followed, there is nothing yet. -/
  kept : Option Expr

/-- The path that is followed, what it holds, and the forks around it. -/
structure View where
  path : StackId
  items : List Expr
  frames : List Frame

def Frame.ids (frame : Frame) : List StackId := [frame.sibling, frame.path]

def View.ids (view : View) : List StackId := view.path :: view.frames.flatMap Frame.ids

/-- The fork is in the workspace, and `side` is the side of it that does not wait. -/
structure Frame.Fits (space : Workspace) (frame : Frame) (side : StackId) : Prop where
  branch : frame.branch < space.forks.length
  parent : (space.fork frame.branch).parent = frame.path
  test : (space.fork frame.branch).test.shape = frame.test
  sides : ((space.fork frame.branch).onTrue, (space.fork frame.branch).onFalse) =
    if frame.kept.isSome then (frame.sibling, side) else (side, frame.sibling)
  followed : space.parent side = some frame.branch
  waiting : space.parent frame.sibling = some frame.branch
  held : (space.stack frame.sibling).items.map shape = frame.kept.toList
  below : ∃ placeholder rest, (space.stack frame.path).items = placeholder :: rest ∧
    placeholder.branch? = some frame.branch ∧ rest.map shape = frame.below

namespace Workspace

/-- The forks around a path are those of the frames. -/
def Hangs (space : Workspace) : StackId → List Frame → Prop
  | side, [] => space.parent side = none
  | side, frame :: outer => frame.Fits space side ∧ space.Hangs frame.path outer

/-- The workspace is as the view says, no local is assigned, and there are no statements. -/
structure Shows (space : Workspace) (view : View) : Prop where
  items : (space.stack view.path).items.map shape = view.items
  inside : ∀ id ∈ view.ids, id < space.paths.length
  active : ∀ id ∈ view.ids, (space.stack id).isReduced = false
  distinct : view.ids.Nodup
  hangs : space.Hangs view.path view.frames
  placed : ∀ id, ∀ item ∈ (space.stack id).items, item.id?.isSome = true
  unassigned : ∀ slot ∈ space.slots, slot.content = .unassigned
  statements : space.emission.statements = []
  declarations : space.emission.declarations = []

variable {space next : Workspace} {side : StackId} {frame : Frame} {frames outer : List Frame}
  {view : View}

theorem fork_of_prefix (isPrefix : space.forks <+: next.forks) {branch : BranchId}
    (inside : branch < space.forks.length) : next.fork branch = space.fork branch := by
  obtain ⟨more, isMore⟩ := isPrefix
  rw [fork, fork, ← isMore, getD_append _ _ _ _ inside]

/-- A chain of forks hangs as before where its paths are unchanged. -/
theorem Hangs.transfer (hangs : space.Hangs side frames)
    (isPrefix : space.forks <+: next.forks)
    (sameParent : next.parent side = space.parent side)
    (same : ∀ id ∈ frames.flatMap Frame.ids, next.stack id = space.stack id) :
    next.Hangs side frames := by
  induction frames generalizing side with
  | nil => exact sameParent.trans hangs
  | cons frame outer ih =>
    obtain ⟨fits, hangs⟩ := hangs
    have sameFork := fork_of_prefix isPrefix fits.branch
    have sameSibling : next.stack frame.sibling = space.stack frame.sibling :=
      same _ (by simp [Frame.ids])
    have samePath : next.stack frame.path = space.stack frame.path := same _ (by simp [Frame.ids])
    refine ⟨⟨?_, ?_, ?_, ?_, ?_, ?_, ?_, ?_⟩, ih hangs ?_ ?_⟩
    · exact lt_of_lt_of_le fits.branch isPrefix.length_le
    · rw [sameFork, fits.parent]
    · rw [sameFork, fits.test]
    · rw [sameFork, fits.sides]
    · rw [sameParent, fits.followed]
    · rw [parent, sameSibling]
      exact fits.waiting
    · rw [sameSibling, fits.held]
    · rw [samePath]
      exact fits.below
    · rw [parent, samePath, parent]
    · exact fun id mem => same id (by simp [mem])

theorem Hangs.depthWithin? (hangs : space.Hangs side frames) :
    space.depthWithin? (frames.length + 1) side = some frames.length := by
  induction frames generalizing side with
  | nil =>
    have isRoot : space.parent side = none := hangs
    rw [depthWithin?, isRoot]
    rfl
  | cons frame outer ih =>
    obtain ⟨fits, hangs⟩ := hangs
    rw [depthWithin?, fits.followed]
    dsimp only
    rw [fits.parent, length_cons, ih hangs]
    rfl

theorem Hangs.depth? (hangs : space.Hangs side frames) : space.depth? side = some frames.length := by
  have bounded := depth_le_length hangs.depthWithin?
  exact depthWithin?_mono hangs.depthWithin? (by omega)

namespace Shows

/-- The path that is followed gets other items. -/
theorem withItems (shows : space.Shows view)
    (arePlaced : ∀ item ∈ items, item.id?.isSome = true) :
    (space.withItems view.path items).Shows { view with items := items.map shape } := by
  have inside := shows.inside view.path mem_cons_self
  have isHere : (space.withItems view.path items).stack view.path =
      { space.stack view.path with items } := by
    rw [Workspace.withItems, stack_modifyStack, if_pos ⟨rfl, inside⟩]
  have isOther {id : StackId} (differs : view.path ≠ id) :
      (space.withItems view.path items).stack id = space.stack id := by
    rw [Workspace.withItems, stack_modifyStack, if_neg fun same => differs same.1]
  refine ⟨?_, ?_, ?_, shows.distinct, ?_, ?_, ?_, shows.statements, shows.declarations⟩
  · rw [isHere]
  · intro id mem
    rw [Workspace.withItems, length_modifyStack]
    exact shows.inside id mem
  · intro id mem
    by_cases same : view.path = id
    · rw [← same, isHere]
      exact shows.active view.path mem_cons_self
    · rw [isOther same]
      exact shows.active id mem
  · refine shows.hangs.transfer (prefix_refl _) ?_ fun id mem => ?_
    · rw [parent, isHere, parent]
    · refine isOther fun same => ?_
      exact (nodup_cons.1 shows.distinct).1 (same ▸ mem)
  · intro id item mem
    by_cases same : view.path = id
    · rw [← same, isHere] at mem
      exact arePlaced item mem
    · rw [isOther same] at mem
      exact shows.placed id item mem
  · exact fun slot mem => shows.unassigned slot (mem_slots_modifyStack mem fun _ => rfl)

theorem withEmission (shows : space.Shows view) (emission : Emission)
    (sameStatements : emission.statements = space.emission.statements)
    (sameDeclarations : emission.declarations = space.emission.declarations) :
    { space with emission }.Shows view where
  items := shows.items
  inside := shows.inside
  active := shows.active
  distinct := shows.distinct
  hangs := shows.hangs.transfer (prefix_refl _) rfl fun _ _ => rfl
  placed := shows.placed
  unassigned := shows.unassigned
  statements := sameStatements.trans shows.statements
  declarations := sameDeclarations.trans shows.declarations

/-- A new value is on top of the path that is followed. -/
theorem withTop (shows : space.Shows view) (value : Expr) {rest : List Expr}
    (isPart : rest ⊆ (space.stack view.path).items) :
    (space.withTop view.path value rest).Shows
      { view with items := value.shape :: rest.map shape } := by
  obtain ⟨identity, isPlaced, -⟩ := value.exists_id_place space.emission.nextNode
  let placed := space.emission.place value
  have arePlaced : ∀ item ∈ placed.1 :: rest, item.id?.isSome = true := by
    intro item mem
    rcases mem_cons.1 mem with rfl | mem
    · exact Option.isSome_iff_exists.2 ⟨identity, isPlaced⟩
    · exact shows.placed view.path item (isPart mem)
  have isShape : placed.1.shape = value.shape := shape_place _ value
  have after := (shows.withEmission (placed.2.track placed.1) rfl rfl).withItems arePlaced
  rwa [map_cons, isShape] at after

theorem outward (shows : space.Shows ⟨side, items, frame :: outer⟩) :
    space.Shows ⟨frame.path, (space.stack frame.path).items.map shape, outer⟩ := by
  have isPart : ∀ id ∈ frame.path :: outer.flatMap Frame.ids,
      id ∈ View.ids ⟨side, items, frame :: outer⟩ :=
    fun id mem => mem_cons_of_mem _ (mem_cons_of_mem _ mem)
  exact ⟨rfl, fun id mem => shows.inside id (isPart id mem),
    fun id mem => shows.active id (isPart id mem),
    (nodup_cons.1 (nodup_cons.1 shows.distinct).2).2, shows.hangs.2, shows.placed,
    shows.unassigned, shows.statements, shows.declarations⟩

section

variable (shows : space.Shows view) (isBeside : id ∉ view.ids)

include shows isBeside

/-- What happens on a path outside the view is not seen. -/
theorem beside {change : EvalStack → EvalStack}
    (sameLocals : ∀ stack, (change stack).locals = stack.locals)
    (fewerItems : ∀ stack, (change stack).items ⊆ stack.items) :
    (space.modifyStack id change).Shows view := by
  have isOther {other : StackId} (mem : other ∈ view.ids) :
      (space.modifyStack id change).stack other = space.stack other := by
    rw [stack_modifyStack, if_neg]
    rintro ⟨rfl, -⟩
    exact isBeside mem
  refine ⟨?_, ?_, ?_, shows.distinct, ?_, ?_, ?_, shows.statements, shows.declarations⟩
  · rw [isOther mem_cons_self]
    exact shows.items
  · intro other mem
    rw [length_modifyStack]
    exact shows.inside other mem
  · intro other mem
    rw [isOther mem]
    exact shows.active other mem
  · refine shows.hangs.transfer (prefix_refl _) ?_ fun other mem => ?_
    · rw [parent, isOther mem_cons_self, parent]
    · exact isOther (mem_cons_of_mem _ mem)
  · intro other item mem
    rw [stack_modifyStack] at mem
    split at mem
    · exact shows.placed id item (fewerItems _ mem)
    · exact shows.placed other item mem
  · exact fun slot mem => shows.unassigned slot (mem_slots_modifyStack mem sameLocals)

theorem emptyBeside : (space.withItems id []).Shows view :=
  shows.beside isBeside (fun _ => rfl) fun _ => nil_subset _

theorem reduceBeside : (space.modifyStack id fun stack => { stack with isReduced := true }).Shows view :=
  shows.beside isBeside (fun _ => rfl) fun _ => Subset.refl _

end

/-- A side of a fork is followed after the path that forked. -/
theorem inward (fits : frame.Fits space side)
    (shows : space.Shows ⟨frame.path, items, outer⟩)
    (inside : side < space.paths.length ∧ frame.sibling < space.paths.length)
    (active : (space.stack side).isReduced = false ∧ (space.stack frame.sibling).isReduced = false)
    (distinct : (side :: frame.sibling :: View.ids ⟨frame.path, items, outer⟩).Nodup) :
    space.Shows ⟨side, (space.stack side).items.map shape, frame :: outer⟩ := by
  refine ⟨rfl, ?_, ?_, distinct, ⟨fits, shows.hangs⟩, shows.placed, shows.unassigned,
    shows.statements, shows.declarations⟩
  · exact forall_mem_cons.2 ⟨inside.1, forall_mem_cons.2 ⟨inside.2, shows.inside⟩⟩
  · exact forall_mem_cons.2 ⟨active.1, forall_mem_cons.2 ⟨active.2, shows.active⟩⟩

/-- New paths and forks are not seen. -/
theorem grow (shows : space.Shows view) (parent : StackId) (test : Expr) :
    (space.forked parent test).Shows view := by
  have isOld {id : StackId} (mem : id ∈ view.ids) :
      (space.forked parent test).stack id = space.stack id :=
    getD_append _ _ _ _ (shows.inside id mem)
  have isPrefix : space.forks <+: (space.forked parent test).forks := prefix_append ..
  refine ⟨?_, ?_, ?_, shows.distinct, ?_, ?_, ?_, shows.statements, shows.declarations⟩
  · rw [isOld mem_cons_self]
    exact shows.items
  · intro id mem
    exact lt_of_lt_of_le (shows.inside id mem) (by simp [forked])
  · intro id mem
    rw [isOld mem]
    exact shows.active id mem
  · refine shows.hangs.transfer isPrefix ?_ fun id mem => isOld (mem_cons_of_mem _ mem)
    rw [Workspace.parent, isOld mem_cons_self, Workspace.parent]
  · intro id item mem
    rw [items_forked] at mem
    exact shows.placed id item mem
  · exact fun slot mem => shows.unassigned slot (mem_slots_forked mem)

/-- The path that is followed has forked, and its true side is followed. -/
theorem fork (shows : space.Shows view) (test : Expr) (place : Nat) :
    ((space.forked view.path test).withTop view.path (.mkBranch space.forks.length)
      (space.stack view.path).items).Shows
      ⟨space.paths.length, [], ⟨space.forks.length, test.shape, view.path, view.items,
        space.paths.length + 1, place, none⟩ :: view.frames⟩ := by
  let grown := space.forked view.path test
  let covered := grown.withTop view.path (.mkBranch space.forks.length) (space.stack view.path).items
  let side : EvalStack :=
    { parent := some space.forks.length, locals := (space.stack view.path).locals }
  have fresh : ∀ id ∈ view.ids, id ≠ space.paths.length ∧ id ≠ space.paths.length + 1 :=
    fun id mem => ⟨Nat.ne_of_lt (shows.inside id mem), Nat.ne_of_lt (lt_succ_of_lt (shows.inside id mem))⟩
  have isLength : covered.paths.length = space.paths.length + 2 := by
    rw [length_withTop]
    simp [grown, forked]
  have isSide {id : StackId} (isNew : id = space.paths.length ∨ id = space.paths.length + 1) :
      covered.stack id = side := by
    rw [stack_withTop, if_neg]
    · rcases isNew with rfl | rfl <;> simp [stack, forked, grown, side]
    · rintro ⟨rfl, -⟩
      exact isNew.elim (fresh _ mem_cons_self).1 (fresh _ mem_cons_self).2
  have isFork : covered.fork space.forks.length =
      ⟨test, space.paths.length, space.paths.length + 1, view.path⟩ :=
    space.fork_forked view.path test
  have isTop : ∃ placeholder, (covered.stack view.path).items =
      placeholder :: (space.stack view.path).items ∧
      placeholder.branch? = some space.forks.length := by
    refine ⟨_, ?_, branch?_place grown.emission.nextNode (.mkBranch space.forks.length)⟩
    have inGrown := (shows.grow view.path test).inside view.path mem_cons_self
    rw [stack_withTop, if_pos ⟨rfl, inGrown⟩]
    rfl
  have isPart : (space.stack view.path).items ⊆ (grown.stack view.path).items := by
    rw [items_forked]
    exact Subset.refl _
  have isCovered := (shows.grow view.path test).withTop (.mkBranch space.forks.length) isPart
  have fits : Frame.Fits covered ⟨space.forks.length, test.shape, view.path, view.items,
      space.paths.length + 1, place, none⟩ space.paths.length := by
    refine ⟨?_, ?_, ?_, ?_, ?_, ?_, ?_, ?_⟩
    · change space.forks.length < (space.forks ++ [_]).length
      simp
    · rw [isFork]
    · rw [isFork]
    · rw [isFork]
      rfl
    · rw [parent, isSide (.inl rfl)]
    · rw [parent, isSide (.inr rfl)]
    · rw [isSide (.inr rfl)]
      rfl
    · obtain ⟨placeholder, isItems, isBranch⟩ := isTop
      exact ⟨placeholder, _, isItems, isBranch, shows.items⟩
  have after := inward fits isCovered ?_ ?_ ?_
  · rwa [isSide (.inl rfl)] at after
  · rw [isLength]
    exact ⟨Nat.lt_add_of_pos_right Nat.two_pos, lt_succ_self _⟩
  · rw [isSide (.inl rfl), isSide (.inr rfl)]
    exact ⟨rfl, rfl⟩
  · refine nodup_cons.2 ⟨fun mem => ?_, nodup_cons.2 ⟨fun mem => ?_, shows.distinct⟩⟩
    · rcases mem_cons.1 mem with same | mem
      · exact Nat.ne_of_lt (lt_succ_self _) same
      · exact (fresh _ mem).1 rfl
    · exact (fresh _ mem).2 rfl

/-- The side that has waited is followed from now on, and the other one waits with its value. -/
theorem flip {value : Expr} (shows : space.Shows ⟨side, [value], frame :: outer⟩)
    (isOpen : frame.kept = none) (finish : Nat) :
    space.Shows ⟨frame.sibling, [],
      { frame with sibling := side, place := finish, kept := some value } :: outer⟩ := by
  have fits : frame.Fits space side := shows.hangs.1
  have isSides := fits.sides
  have isHeld := fits.held
  rw [isOpen] at isSides isHeld
  have flipped : Frame.Fits space
      { frame with sibling := side, place := finish, kept := some value } frame.sibling :=
    ⟨fits.branch, fits.parent, fits.test, isSides, fits.waiting, fits.followed, shows.items, fits.below⟩
  have sideSeen : side ∈ View.ids ⟨side, [value], frame :: outer⟩ := mem_cons_self
  have siblingSeen : frame.sibling ∈ View.ids ⟨side, [value], frame :: outer⟩ :=
    mem_cons_of_mem _ mem_cons_self
  have after := inward flipped shows.outward ⟨shows.inside _ siblingSeen, shows.inside _ sideSeen⟩
    ⟨shows.active _ siblingSeen, shows.active _ sideSeen⟩
    ((Perm.swap ..).nodup_iff.1 shows.distinct)
  rwa [isHeld] at after

end Shows

/-! Locals that are not assigned are left alone. -/

theorem setSlot_self (space : Workspace) (id : StackId) (index : Nat) :
    space.setSlot id index (space.slot id index) = space := by
  have same : space.paths.modify id (fun stack =>
      { stack with locals := stack.locals.set index (space.slot id index) }) =
      space.paths := by
    refine ext_getElem? fun position => ?_
    rw [getElem?_modify]
    by_cases isSame : id = position
    · subst isSame
      cases found : space.paths[id]? with
      | none => rfl
      | some stack =>
        have isSlot : space.slot id index =
            stack.locals[index]?.getD { type := .object, name := "" } := by
          simp [slot, slot?, Workspace.stack, found]
        by_cases inside : index < stack.locals.length
        · simp [isSlot, inside]
        · simp [set_eq_of_length_le (Nat.le_of_not_lt inside)]
    · simp [isSame]
  unfold setSlot modifyStack
  rw [same]

variable (unassigned : ∀ slot ∈ space.slots, slot.content = .unassigned)

include unassigned in
/-- Locals that no path has assigned are not merged. -/
theorem joinSlot_unassigned (test : Expr) (onTrue onFalse target : StackId) (index : Nat) :
    joinSlot test onTrue onFalse target index space = .ok () space := by
  have isUnassigned (id : StackId) : (space.slot id index).content = .unassigned :=
    (space.slot_mem_or_default id index).elim (unassigned _) fun isDefault => isDefault
  have isFree (id : StackId) : (space.slot id index).value? = none := by
    rw [LocalSlot.value?, isUnassigned]
  have reads (id : StackId) : readLocal id index space = .ok none space := by
    have isRead : (space.slot id index).read space.emission = (none, space.emission) := by
      rw [LocalSlot.read, isUnassigned]
    refine (andThen_of_ok rfl).trans ?_
    change EStateM.Result.ok ((space.slot id index).read space.emission).1 { space with
      emission := ((space.slot id index).read space.emission).2 } = _
    rw [isRead]
  have isClear : (space.slot target index).clear = space.slot target index := by
    rw [LocalSlot.clear, ← isUnassigned target]
  have clears : clearLocal target index space = .ok () space := by
    change EStateM.Result.ok () (space.setSlot target index _) = _
    rw [isClear, setSlot_self]
  have differs : (space.slot onTrue index).holdsSame (space.slot onFalse index) = false := by
    rw [LocalSlot.holdsSame, isFree]
  refine (andThen_of_ok rfl).trans ((andThen_of_ok rfl).trans ?_)
  rw [differs, if_neg Bool.false_ne_true, andThen_of_ok (reads onTrue), andThen_of_ok (reads onFalse)]
  exact clears

include unassigned in
theorem joinLocals_unassigned (test : Expr) (onTrue onFalse target : StackId) :
    joinLocals test onTrue onFalse target space = .ok () space := by
  have joins (indices : List Nat) :
      indices.forM (joinSlot test onTrue onFalse target) space = .ok () space := by
    induction indices with
    | nil => rfl
    | cons index rest ih =>
      have here := joinSlot_unassigned unassigned test onTrue onFalse target index
      exact (andThen_of_ok here).trans ih
  exact (andThen_of_ok rfl).trans (joins _)

end Workspace

namespace Expr

/-- Two integers that are not both zero or one, so that a test between them is no condition. -/
structure Separate (test onTrue onFalse : Expr) : Prop where
  testType : test.type = .bool
  trueType : onTrue.type = .int32
  falseType : onFalse.type = .int32
  notBoth : onTrue.boolLiteral? = none ∨ onFalse.boolLiteral? = none

variable {test onTrue onFalse : Expr}

theorem Separate.of_shape (separate : Separate test.shape onTrue.shape onFalse.shape) :
    Separate test onTrue onFalse := by
  obtain ⟨testType, trueType, falseType, notBoth⟩ := separate
  simp only [type_shape, boolLiteral?_shape] at testType trueType falseType notBoth
  exact ⟨testType, trueType, falseType, notBoth⟩

theorem Separate.condition (separate : Separate test onTrue onFalse) :
    condition test onTrue onFalse = .ok (mkConditional test onTrue onFalse) := by
  have isBool : test.isBool = true := by
    rw [isBool, separate.testType]
    rfl
  have notBool {expr : Expr} (isType : expr.type = .int32) : ¬expr.isBool = true := by
    rw [Expr.isBool, isType]
    decide
  have chooses : chooseBetween test onTrue onFalse = .ok (mkConditional test onTrue onFalse) := by
    rw [chooseBetween, if_pos (separate.trueType.trans separate.falseType.symm)]
  have notTrue := notBool separate.trueType
  have notFalse := notBool separate.falseType
  unfold Expr.condition
  rw [if_pos isBool]
  rcases separate.notBoth with isNone | isNone
  · rw [isNone]
    rcases onFalse.boolLiteral? with - | (- | -)
    · exact chooses
    · exact (if_neg notTrue).trans chooses
    · exact (if_neg notTrue).trans chooses
  · rw [isNone]
    rcases onTrue.boolLiteral? with - | (- | -)
    · exact chooses
    · exact (if_neg notFalse).trans chooses
    · exact (if_neg notFalse).trans chooses

end Expr

namespace Workspace.Shows

variable {space : Workspace} {side : StackId} {frame : Frame} {outer : List Frame}
  {value kept : Expr}

theorem popPlaceholder {placeholder : Expr} {rest : List Expr} {path : StackId} {branch : BranchId}
    (label : Label) (isForked : (space.stack path).items = placeholder :: rest)
    (isBranch : placeholder.branch? = some branch) :
    popPlaceholder label path branch space = .ok () (space.withItems path rest) := by
  refine (andThen_of_ok (pop?_eq isForked)).trans ?_
  rw [Option.bind_some, isBranch, if_pos rfl]
  rfl

/-- The values of the sides become one on the path that forked. -/
theorem joinValues {test onTrue onFalse built : Expr} {sibling path : StackId} (label : Label)
    (branch : BranchId) (isTrue : (space.stack sibling).items = [onTrue])
    (isFalse : (space.stack side).items = [onFalse])
    (distinct : sibling ≠ side ∧ sibling ≠ path ∧ side ≠ path)
    (builds : condition test onTrue onFalse = .ok built) :
    joinValues label branch ⟨test, sibling, side, path⟩ space = .ok ()
      (((space.withItems sibling []).withItems side []).withTop path built (space.stack path).items) := by
  have isOther (space : Workspace) {id other : StackId} (differs : id ≠ other) :
      ((space.withItems id []).stack other).items = (space.stack other).items := by
    rw [items_withItems, if_neg fun same => differs same.1]
  have popsFalse : pop? side (space.withItems sibling []) =
      .ok (some onFalse) ((space.withItems sibling []).withItems side []) :=
    pop?_eq ((isOther space distinct.1).trans isFalse)
  have sameItems : (((space.withItems sibling []).withItems side []).stack path).items =
      (space.stack path).items := by
    rw [isOther _ distinct.2.2, isOther _ distinct.2.1]
  refine (andThen_of_ok (pop?_eq isTrue)).trans ((andThen_of_ok popsFalse).trans ?_)
  refine (andThen_of_ok (liftM_eq_ok.2 ⟨builds, rfl⟩)).trans ?_
  rw [push_eq, sameItems]
  rfl

theorem fork_of_kept (fits : frame.Fits space side) (isKept : frame.kept = some kept) :
    ∃ test, space.fork frame.branch = ⟨test, frame.sibling, side, frame.path⟩ ∧
      test.shape = frame.test := by
  have isSides := fits.sides
  rw [isKept] at isSides
  obtain ⟨isTrue, isFalse⟩ := Prod.mk.inj isSides
  refine ⟨_, ?_, fits.test⟩
  rw [← isTrue, ← isFalse, ← fits.parent]

section

variable (shows : space.Shows ⟨side, [value], frame :: outer⟩) (isKept : frame.kept = some kept)
  (separate : Expr.Separate frame.test kept value) (label : Label)

include shows isKept separate label

/-- The sides of the innermost fork have met: they are a conditional on the path that forked. -/
theorem joinSides :
    ∃ next, joinSides label frame.branch space = .ok frame.path next ∧
      next.Shows ⟨frame.path, .mkConditional frame.test kept value :: frame.below, outer⟩ := by
  have fits : frame.Fits space side := shows.hangs.1
  obtain ⟨test, isFork, isTest⟩ := fork_of_kept fits isKept
  obtain ⟨placeholder, rest, isForked, isBranch, isBelow⟩ := fits.below
  obtain ⟨onTrue, isTrue, isKeptShape⟩ : ∃ onTrue,
      (space.stack frame.sibling).items = [onTrue] ∧ onTrue.shape = kept := by
    have isHeld := fits.held
    rw [isKept] at isHeld
    exact map_eq_singleton_iff.1 isHeld
  obtain ⟨onFalse, isFalse, isValueShape⟩ := map_eq_singleton_iff.1 shows.items
  have separated : test.Separate onTrue onFalse :=
    Separate.of_shape (by rwa [isTest, isKeptShape, isValueShape])
  -- Neither side is in the view that is left.
  have sideApart : side ∉ frame.sibling :: frame.path :: outer.flatMap Frame.ids :=
    (nodup_cons.1 shows.distinct).1
  have siblingBeside : frame.sibling ∉ frame.path :: outer.flatMap Frame.ids :=
    (nodup_cons.1 (nodup_cons.1 shows.distinct).2).1
  have sideBeside : side ∉ frame.path :: outer.flatMap Frame.ids :=
    fun mem => sideApart (mem_cons_of_mem _ mem)
  have distinct : frame.sibling ≠ side ∧ frame.sibling ≠ frame.path ∧ side ≠ frame.path :=
    ⟨fun same => sideApart (same ▸ mem_cons_self), fun same => siblingBeside (same ▸ mem_cons_self),
      fun same => sideBeside (same ▸ mem_cons_self)⟩
  let uncovered := space.withItems frame.path rest
  have isOther {id : StackId} (differs : id ≠ frame.path) :
      (uncovered.stack id).items = (space.stack id).items := by
    rw [items_withItems, if_neg fun same => differs same.1.symm]
  have isRest : (uncovered.stack frame.path).items = rest :=
    items_withItems_self (inside_of_items isForked)
  have arePlaced : ∀ item ∈ rest, item.id?.isSome = true := fun item mem =>
    shows.placed frame.path item (isForked ▸ mem_cons_of_mem _ mem)
  let emptied := (uncovered.withItems frame.sibling []).withItems side []
  have showsUncovered : uncovered.Shows ⟨frame.path, rest.map shape, outer⟩ :=
    shows.outward.withItems arePlaced
  have showsEmptied : emptied.Shows ⟨frame.path, rest.map shape, outer⟩ :=
    (showsUncovered.emptyBeside siblingBeside).emptyBeside sideBeside
  have isPart : rest ⊆ (emptied.stack frame.path).items := by
    rw [items_withItems, if_neg fun same => distinct.2.2 same.1, items_withItems,
      if_neg fun same => distinct.2.1 same.1, isRest]
    exact Subset.refl _
  let merged := emptied.withTop frame.path (.mkConditional test onTrue onFalse) rest
  have showsMerged := showsEmptied.withTop (.mkConditional test onTrue onFalse) isPart
  have joins := joinValues label frame.branch ((isOther distinct.2.1).trans isTrue)
    ((isOther distinct.2.2).trans isFalse) distinct separated.condition
  rw [isRest] at joins
  let reduce (stack : EvalStack) : EvalStack := { stack with isReduced := true }
  refine ⟨(merged.modifyStack frame.sibling reduce).modifyStack side reduce, ?_, ?_⟩
  · refine (andThen_of_ok rfl).trans ?_
    rw [isFork]
    refine (andThen_of_ok (popPlaceholder label isForked isBranch)).trans ?_
    refine (andThen_of_ok joins).trans ?_
    exact andThen_of_ok (joinLocals_unassigned showsMerged.unassigned ..)
  · have isShape : (mkConditional test onTrue onFalse).shape = .mkConditional frame.test kept value := by
      rw [← isTest, ← isKeptShape, ← isValueShape, mkConditional, mkConditional, type_shape]
      rfl
    rw [← isShape, ← isBelow]
    exact (showsMerged.reduceBeside siblingBeside).reduceBeside sideBeside

/-- The side that waits and the one that is followed are merged. -/
theorem joinPair :
    ∃ next, joinPair label frame.sibling side space = .ok (some frame.path) next ∧
      next.Shows ⟨frame.path, .mkConditional frame.test kept value :: frame.below, outer⟩ := by
  have fits : frame.Fits space side := shows.hangs.1
  obtain ⟨next, joins, after⟩ := shows.joinSides isKept separate label
  refine ⟨next, ?_, after⟩
  have isDepth : space.depth? side = some (outer.length + 1) := shows.hangs.depth?
  have sameDepth : space.depth? frame.sibling = space.depth? side := by
    simp [depth?, depthWithin?, fits.followed, fits.waiting]
  have climbs {id : StackId} (found : space.depth? id = some (outer.length + 1)) :
      depthOf id space = .ok (outer.length + 1) space := by
    refine (andThen_of_ok rfl).trans ?_
    rw [found]
    rfl
  unfold Work.joinPair
  rw [andThen_of_ok (climbs (sameDepth.trans isDepth)), andThen_of_ok (climbs isDepth)]
  refine (andThen_of_ok rfl).trans ?_
  rw [fits.waiting, fits.followed]
  dsimp only
  rw [if_pos rfl, if_pos rfl]
  exact andThen_of_ok joins

end

end Workspace.Shows

/-- A view after some code that has left a value on top of `view` and ends at `place`: the value is
there, or it is a conditional whose false part has been followed and whose sides meet at the end. -/
inductive View.Ends (place : Nat) : View → Expr → View → Prop where
  | here {view : View} {value : Expr} :
      Ends place view value ⟨view.path, value :: view.items, view.frames⟩
  | inside {view final : View} {side : StackId} {frame : Frame} {kept value : Expr}
      (inner : Ends place ⟨side, [], frame :: view.frames⟩ value final)
      (isPlace : frame.place = place) (isPath : frame.path = view.path)
      (isBelow : frame.below = view.items) (isKept : frame.kept = some kept)
      (separate : Expr.Separate frame.test kept value) :
      Ends place view (.mkConditional frame.test kept value) final

/-- All paths that wait for the end of such code are merged, and the value is on top. -/
theorem View.Ends.joinAll {place : Nat} {view final : View} {value : Expr}
    (ends : Ends place view value final) :
    ∃ inner, final.frames = inner ++ view.frames ∧ (∀ frame ∈ inner, frame.place = place) ∧
      ∀ {space : Workspace}, space.Shows final → ∀ label others,
        ∃ next, joinAll label final.path (inner.map Frame.sibling ++ others) space =
            joinAll label view.path others next ∧
          next.Shows ⟨view.path, value :: view.items, view.frames⟩ := by
  induction ends with
  | here => exact ⟨[], rfl, nofun, fun shows label others => ⟨_, rfl, shows⟩⟩
  | @inside view final side frame kept value _ isPlace isPath isBelow isKept separate
      ih =>
    obtain ⟨inner, isFrames, atPlace, merges⟩ := ih
    refine ⟨inner ++ [frame], ?_, ?_, fun {space} shows label others => ?_⟩
    · rw [isFrames, append_assoc]
      rfl
    · intro found mem
      rcases mem_append.1 mem with mem | mem
      · exact atPlace found mem
      · rw [mem_singleton.1 mem, isPlace]
    · obtain ⟨middle, merged, showsMiddle⟩ := merges shows label (frame.sibling :: others)
      obtain ⟨next, joins, after⟩ := showsMiddle.joinPair isKept separate label
      refine ⟨next, ?_, ?_⟩
      · rw [map_append, append_assoc]
        refine merged.trans ?_
        rw [Work.joinAll, andThen_of_ok joins, ← isPath]
      · rwa [← isPath, ← isBelow]

end CilLift
