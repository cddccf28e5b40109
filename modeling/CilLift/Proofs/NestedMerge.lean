import CilLift.Proofs.Acyclicity
import CilLift.Proofs.SiblingMerge

/-!
Two empty paths, one a side of a fork and the other a side of a fork below its other side. They
become one side of a new fork. Its test holds where the forks lead to one of the two, if the older
path is on the false side of its fork; on the true side it asks for the tests of both.
-/

namespace CilLift

open CilLift.Expr Work Option Nat Bool

/-- The side of a fork that is taken. -/
def Fork.taken (valuation : Valuation) (fork : Fork) : StackId :=
  fork.side (fork.test.holds valuation)

theorem Fork.side_inj {fork : Fork} (apart : fork.onTrue ≠ fork.onFalse) {first second : Bool} :
    fork.side first = fork.side second ↔ first = second := by
  cases first <;> cases second <;> simp [side, apart, apart.symm]

/-- One side of a fork. -/
structure Side where
  branch : BranchId
  fork : Fork
  onTrue : Bool

namespace Side

def path (side : Side) : StackId := side.fork.side side.onTrue

def sibling (side : Side) : StackId := side.fork.side !side.onTrue

/-- The path to which two forks lead, the second of which lies below a side of the first. -/
def leadsTo (valuation : Valuation) (older younger : Side) : StackId :=
  if older.fork.taken valuation = younger.fork.parent then younger.fork.taken valuation
  else older.fork.taken valuation

end Side

namespace Workspace

/-- The workspace has the fork, with both its sides linked to it. -/
structure HasSide (space : Workspace) (side : Side) : Prop where
  isFork : space.fork side.branch = side.fork
  path : space.parent side.path = some side.branch
  sibling : space.parent side.sibling = some side.branch
  apart : side.fork.onTrue ≠ side.fork.onFalse

/-- Two empty paths have come to a label. One is a side of a fork and the other a side of a fork
that the path beside it has made. -/
structure Staggered (space : Workspace) (older younger : Side) (below : List Expr) : Prop where
  hasOlder : space.HasSide older
  hasYounger : space.HasSide younger
  held : younger.fork.parent = older.sibling
  climbs : (space.depth? younger.path).isSome = true
  placeholder : ∃ placeholder, placeholder.branch? = some older.branch ∧
    (space.stack older.fork.parent).items = placeholder :: below
  olderEmpty : (space.stack older.path).items = []
  youngerEmpty : (space.stack younger.path).items = []
  olderTest : older.fork.test.IsCondition
  youngerTest : younger.fork.test.IsCondition
  locals : ∀ index < (space.stack older.path).locals.length,
    LocalSlot.Mergeable (space.slot older.path index) (space.slot younger.path index)
      (space.slot older.path index)

end Workspace

namespace Work

/-- The test of a fork or its negation says which side is taken. -/
theorem testOrNegation_holds {fork : Fork} (isCondition : fork.test.IsCondition) (isKept : Bool) :
    ∃ test, testOrNegation fork isKept = .ok test ∧ test.IsCondition ∧
      ∀ valuation, fork.test.Comparable valuation → test.Comparable valuation ∧
        test.holds valuation = (fork.test.holds valuation == isKept) := by
  cases isKept with
  | true =>
    exact ⟨fork.test, rfl, isCondition, fun valuation comparable => ⟨comparable, by simp⟩⟩
  | false =>
    obtain ⟨test, isNegation, negates⟩ := isCondition.logicalNot
    refine ⟨test, isNegation, negates.isCondition, fun valuation comparable =>
      ⟨negates.comparable valuation comparable, ?_⟩⟩
    rw [negates.holds valuation comparable, beq_false]

/-- The test that a nested merge makes. -/
theorem nestedTest_holds {olderFork youngerFork : Fork} (isOlder : olderFork.test.IsCondition)
    (isYounger : youngerFork.test.IsCondition) (onTrue isAligned : Bool) :
    ∃ test, nestedTest olderFork youngerFork onTrue isAligned = .ok test ∧
      ∀ valuation, olderFork.test.Comparable valuation → youngerFork.test.Comparable valuation →
        test.holds valuation = ((olderFork.test.holds valuation &&
          (youngerFork.test.holds valuation == isAligned)) == onTrue) := by
  obtain ⟨youngerTest, isTest, isCondition, decides⟩ := testOrNegation_holds isYounger isAligned
  obtain ⟨both, isBoth, -, combines⟩ := logicalAnd_of_bool isOlder.type isCondition.type
  have combines := combines isOlder isCondition
  have combined : nestedTest olderFork youngerFork onTrue isAligned =
      if onTrue then .ok both else both.logicalNot := by
    unfold nestedTest
    rw [isTest]
    change (logicalAnd olderFork.test youngerTest >>= _) = _
    rw [isBoth]
    rfl
  rw [combined]
  cases onTrue with
  | true =>
    refine ⟨both, rfl, fun valuation olderCompares youngerCompares => ?_⟩
    rw [combines.holds, (decides valuation youngerCompares).2, beq_true]
  | false =>
    obtain ⟨test, isNegation, negates⟩ := combines.isCondition.logicalNot
    refine ⟨test, isNegation, fun valuation olderCompares youngerCompares => ?_⟩
    obtain ⟨testCompares, testHolds⟩ := decides valuation youngerCompares
    rw [negates.holds valuation (combines.comparable valuation olderCompares testCompares),
      combines.holds, testHolds, beq_false]

end Work

namespace LocalSlot

theorem holdsSame_comm (first second : LocalSlot) : first.holdsSame second = second.holdsSame first := by
  unfold holdsSame
  cases first.value? with
  | none => cases second.value? <;> rfl
  | some firstValue =>
    cases second.value? with
    | none => rfl
    | some secondValue =>
      rw [Bool.eq_iff_iff]
      simp only [isSame, and_eq_true, beq_iff_eq]
      constructor
      · rintro ⟨isPlaced, same⟩
        exact ⟨same ▸ isPlaced, same.symm⟩
      · rintro ⟨isPlaced, same⟩
        exact ⟨same ▸ isPlaced, same.symm⟩

theorem Mergeable.swap {onTrue onFalse target : LocalSlot}
    (mergeable : Mergeable onTrue onFalse target) : Mergeable onFalse onTrue target where
  typedTrue := mergeable.typedFalse
  typedFalse := mergeable.typedTrue
  sameType := mergeable.sameType.symm
  targetType := mergeable.targetType.trans mergeable.sameType.symm
  sameValue isSame := (mergeable.sameValue (holdsSame_comm .. ▸ isSame)).symm

end LocalSlot

namespace Workspace

variable {space next : Workspace} {older younger : Side} {below : List Expr} {label : Label}

/-- Two empty paths of which one lies deeper are merged in either order, the shallower one first. -/
theorem joinPair_of_depths (label : Label) {first second : StackId}
    {firstBranch secondBranch : BranchId} {depth deeper : Nat}
    (atFirst : space.depth? first = some depth)
    (atSecond : space.depth? second = some deeper) (isDeeper : depth < deeper)
    (firstSide : space.parent first = some firstBranch)
    (secondSide : space.parent second = some secondBranch)
    (firstEmpty : (space.stack first).items = [])
    (secondEmpty : (space.stack second).items = []) :
    joinPair label first second space =
        (do return some (← joinNested label first second firstBranch secondBranch) : Work _) space ∧
      joinPair label second first space =
        (do return some (← joinNested label first second firstBranch secondBranch) : Work _) space := by
  have isEmpty : (space.stack first).isEmpty = true ∧ (space.stack second).isEmpty = true := by
    simp [EvalStack.isEmpty, firstEmpty, secondEmpty]
  constructor
  · refine (andThen_of_ok (depthOf_eq atFirst)).trans ?_
    refine (andThen_of_ok (depthOf_eq atSecond)).trans ?_
    refine (andThen_of_ok rfl).trans ?_
    rw [firstSide, secondSide, isEmpty.1, isEmpty.2]
    dsimp only
    rw [if_neg (Nat.ne_of_lt isDeeper), Bool.and_self, if_pos rfl, if_neg (not_lt_of_gt isDeeper)]
  · refine (andThen_of_ok (depthOf_eq atSecond)).trans ?_
    refine (andThen_of_ok (depthOf_eq atFirst)).trans ?_
    refine (andThen_of_ok rfl).trans ?_
    rw [firstSide, secondSide, isEmpty.1, isEmpty.2]
    dsimp only
    rw [if_neg (ne_of_gt isDeeper), Bool.and_self, if_pos rfl, if_pos isDeeper]

/-- A new fork over a path that is kept and one that is moved has taken the place of an old one. -/
structure Regrafted (space : Workspace) (parent kept moved : StackId) (test : Expr)
    (below : List Expr) (next : Workspace) : Prop where
  forks : ∃ placed, next.forks = space.forks ++ [⟨placed, kept, moved, parent⟩] ∧
    placed.shape = test.shape
  keptSide : next.parent kept = some space.forks.length
  movedSide : next.parent moved = some space.forks.length
  placeholder : ∃ placeholder, placeholder.branch? = some space.forks.length ∧
    (next.stack parent).items = placeholder :: below
  items : ∀ id, id ≠ parent → (next.stack id).items = (space.stack id).items
  locals : ∀ id, (next.stack id).locals = (space.stack id).locals
  others : ∀ id, id ≠ parent → id ≠ kept → id ≠ moved → next.stack id = space.stack id

/-- Grafting succeeds where the placeholder of the old fork is on top. -/
theorem regraft_eq {parent kept moved : StackId} {test : Expr} {old : BranchId}
    (keptInside : kept < space.paths.length) (movedInside : moved < space.paths.length)
    (placeholder : ∃ placeholder, placeholder.branch? = some old ∧
      (space.stack parent).items = placeholder :: below) (label : Label) :
    ∃ next, regraft label old parent test kept moved space = .ok () next ∧
      space.Regrafted parent kept moved test below next := by
  obtain ⟨placeholder, isPlaceholder, isItems⟩ := placeholder
  let placedTest : Workspace := space.placing test
  let grafted := placedTest.reforked parent (space.emission.place test).1 kept moved
  have graftedItems : (grafted.stack parent).items = placeholder :: below :=
    (items_reforked placedTest parent parent _ kept moved).trans isItems
  let popped := grafted.withItems parent below
  let node := popped.emission.place (.mkBranch space.forks.length)
  let final := withItems { popped with emission := node.2 } parent (node.1 :: below)
  have inside : parent < grafted.paths.length := inside_of_items graftedItems
  have poppedItems : (popped.stack parent).items = below := items_withItems_self inside
  have outline : final.outline = space.outline.regraft parent kept moved := by
    refine (outline_withItems ..).trans ((outline_withItems ..).trans ?_)
    exact outline_reforked placedTest parent kept moved _
  have links : ∀ id, id = kept ∨ id = moved → final.parent id = some space.forks.length := by
    intro id isSide
    rw [← length_outline] at keptInside movedInside
    rw [parent_outline, outline, Outline.parent_regraft id keptInside movedInside, if_pos isSide]
    exact congrArg some (List.length_map ..)
  refine ⟨final, ?_, ⟨_, rfl, shape_place _ test⟩, links kept (.inl rfl),
    links moved (.inr rfl), ⟨node.1, ?_, ?_⟩, ?_, ?_, ?_⟩
  · refine (andThen_of_ok (Shows.popPlaceholder label graftedItems isPlaceholder)).trans ?_
    rw [pushUntracked_eq, poppedItems]
  · exact branch?_place popped.emission.nextNode (.mkBranch space.forks.length)
  · exact items_withItems_self (lt_of_lt_of_eq inside (length_modifyStack parent _).symm)
  · intro id differs
    rw [items_withItems, if_neg fun same => differs same.1.symm]
    refine (items_withItems ..).trans ((if_neg fun same => differs same.1.symm).trans ?_)
    exact items_reforked placedTest parent id _ kept moved
  · intro id
    refine (locals_withItems ..).trans ((locals_withItems ..).trans ?_)
    exact keep_reforked EvalStack.locals (fun _ _ => rfl) placedTest parent id _ kept moved
  · intro id notParent notKept notMoved
    refine (stack_of_ne (symm notParent) _).trans ((stack_of_ne (symm notParent) _).trans ?_)
    exact (stack_of_ne (symm notMoved) _).trans (stack_of_ne (symm notKept) _)

namespace Staggered

variable (staggered : space.Staggered older younger below)

include staggered

theorem exists_depth : ∃ depth, space.depth? older.path = some depth ∧
    space.depth? younger.path = some (depth + 1) := by
  obtain ⟨deeper, atYounger⟩ := isSome_iff_exists.1 staggered.climbs
  obtain ⟨depth, atHeld, rfl⟩ := depth?_above staggered.hasYounger.path atYounger
  rw [staggered.hasYounger.isFork, staggered.held] at atHeld
  have atOlder := depth?_sibling staggered.hasOlder.sibling staggered.hasOlder.path
  exact ⟨depth, atOlder.trans atHeld, atYounger⟩

theorem older_ne_sibling : older.path ≠ younger.sibling := by
  obtain ⟨depth, atOlder, atYounger⟩ := staggered.exists_depth
  have atSibling := (depth?_sibling staggered.hasYounger.path staggered.hasYounger.sibling).trans
    atYounger
  intro same
  rw [same, atSibling] at atOlder
  simp at atOlder

theorem older_ne_younger : older.path ≠ younger.path := by
  obtain ⟨depth, atOlder, atYounger⟩ := staggered.exists_depth
  intro same
  rw [same, atYounger] at atOlder
  simp at atOlder

theorem join_eq (label : Label) :
    join label [older.path, younger.path] space =
        joinNested label older.path younger.path older.branch younger.branch space ∧
      join label [younger.path, older.path] space =
        joinNested label older.path younger.path older.branch younger.branch space := by
  obtain ⟨depth, atOlder, atYounger⟩ := staggered.exists_depth
  obtain ⟨inOrder, inReverse⟩ := joinPair_of_depths label atOlder atYounger
    (lt_succ_self depth) staggered.hasOlder.path staggered.hasYounger.path
    staggered.olderEmpty staggered.youngerEmpty
  exact ⟨join_of_joinPair inOrder, join_of_joinPair inReverse⟩

/-- The merge of two nested forks, sides named by their tests. -/
theorem joinNested_eq (label : Label) :
    joinNested label older.path younger.path older.branch younger.branch space = (do
      let test ← nestedTest older.fork younger.fork older.onTrue (older.onTrue == younger.onTrue)
      joinLocals older.fork.test (if older.onTrue then older.path else younger.path)
        (if older.onTrue then younger.path else older.path) older.path
      regraft label older.branch older.fork.parent test older.path younger.sibling
      return older.path : Work StackId) space := by
  have onTrue : (older.fork.onTrue == older.path) = older.onTrue := by
    rw [Bool.eq_iff_iff, beq_iff_eq]
    change older.fork.side true = older.fork.side older.onTrue ↔ _
    rw [Fork.side_inj staggered.hasOlder.apart, eq_comm]
  have isAligned : (younger.fork.side older.onTrue == younger.path) =
      (older.onTrue == younger.onTrue) := by
    rw [Bool.eq_iff_iff, beq_iff_eq, beq_iff_eq]
    exact Fork.side_inj staggered.hasYounger.apart
  have isSibling : younger.fork.side (if older.onTrue == younger.onTrue then !older.onTrue
      else older.onTrue) = younger.sibling := by
    unfold Side.sibling
    cases older.onTrue <;> cases younger.onTrue <;> rfl
  refine (andThen_of_ok rfl).trans ?_
  rw [staggered.hasOlder.isFork, staggered.hasYounger.isFork, onTrue, isAligned, isSibling]

/-- The forks lead to one of the two paths where the older fork takes the one or the younger fork
would take the other. -/
theorem leadsTo_iff (valuation : Valuation) :
    (Side.leadsTo valuation older younger = older.path ∨
        Side.leadsTo valuation older younger = younger.path) ↔
      older.fork.taken valuation = older.path ∨ younger.fork.taken valuation = younger.path := by
  have sides : ∀ side : Side, side.fork.taken valuation = side.path ∨
      side.fork.taken valuation = side.sibling := by
    intro side
    unfold Fork.taken Side.path Side.sibling
    cases side.fork.test.holds valuation <;> cases side.onTrue <;> simp
  have apart : older.path ≠ older.sibling := by
    intro same
    have sameSide := (Fork.side_inj staggered.hasOlder.apart).1 same
    cases onTrue : older.onTrue <;> simp [onTrue] at sameSide
  unfold Side.leadsTo
  rw [staggered.held]
  rcases sides older with isOlder | isHeld
  · rw [isOlder, if_neg apart]
    simp
  · rw [isHeld, if_pos rfl]
    refine ⟨fun leads => .inr (leads.resolve_left ?_), fun takes => .inr (takes.resolve_left ?_)⟩
    · rcases sides younger with isYounger | isSibling
      · rw [isYounger]
        exact staggered.older_ne_younger.symm
      · rw [isSibling]
        exact staggered.older_ne_sibling.symm
    · exact apart.symm

/-- Where the test of the new fork holds. -/
theorem nestedTest_iff {test : Expr} {valuation : Valuation}
    (holds : test.holds valuation = ((older.fork.test.holds valuation &&
      (younger.fork.test.holds valuation == (older.onTrue == younger.onTrue))) == older.onTrue)) :
    test.holds valuation = true ↔ if older.onTrue then
        older.fork.taken valuation = older.path ∧ younger.fork.taken valuation = younger.path
      else older.fork.taken valuation = older.path ∨ younger.fork.taken valuation = younger.path := by
  have takesOlder : older.fork.taken valuation = older.path ↔
      older.fork.test.holds valuation = older.onTrue := Fork.side_inj staggered.hasOlder.apart
  have takesYounger : younger.fork.taken valuation = younger.path ↔
      younger.fork.test.holds valuation = younger.onTrue := Fork.side_inj staggered.hasYounger.apart
  rw [holds, takesOlder, takesYounger]
  cases older.fork.test.holds valuation <;> cases younger.fork.test.holds valuation <;>
    cases older.onTrue <;> cases younger.onTrue <;> decide

/-- The locals are merged as those of the sides of the older fork, into the older path. -/
theorem joinLocals_eq :
    ∃ locals emission, joinLocals older.fork.test
        (if older.onTrue then older.path else younger.path)
        (if older.onTrue then younger.path else older.path) older.path space =
          .ok () { space.withLocals older.path locals with emission } ∧
      locals.length = (space.stack older.path).locals.length ∧
      ∀ index slot, locals[index]? = some slot →
        slot.isAssigned = ((space.slot older.path index).isAssigned &&
          (space.slot younger.path index).isAssigned) ∧
        ((space.slot older.path index).type = .int32 → ∀ valuation : Valuation,
          valuation.Respects (space.slot older.path index) →
          valuation.Respects (space.slot younger.path index) →
          older.fork.test.Comparable valuation →
          slot.word? valuation = map₂ (fun ofOlder ofYounger =>
            if older.fork.taken valuation = older.path then ofOlder else ofYounger)
            ((space.slot older.path index).word? valuation)
            ((space.slot younger.path index).word? valuation)) := by
  have inside := inside_of_parent staggered.hasOlder.path
  have takesOlder : ∀ valuation, older.fork.taken valuation = older.path ↔
      older.fork.test.holds valuation = older.onTrue :=
    fun valuation => Fork.side_inj staggered.hasOlder.apart
  cases onTrue : older.onTrue with
  | true =>
    obtain ⟨locals, emission, joined, isLength, merges⟩ :=
      joinLocals_merges staggered.olderTest inside staggered.locals
    refine ⟨locals, emission, joined, isLength, fun index slot found => ?_⟩
    have merged := merges index slot found
    simp only [takesOlder, onTrue]
    exact ⟨merged.isAssigned, fun isNumber valuation ofOlder ofYounger compares =>
      merged.word isNumber valuation ofOlder ofYounger fun _ => compares⟩
  | false =>
    obtain ⟨locals, emission, joined, isLength, merges⟩ :=
      joinLocals_merges staggered.olderTest inside fun index bounded =>
        (staggered.locals index bounded).swap
    refine ⟨locals, emission, joined, isLength, fun index slot found => ?_⟩
    have merged := merges index slot found
    have bounded : index < (space.stack older.path).locals.length :=
      isLength ▸ (getElem?_eq_some_iff.1 found).1
    refine ⟨merged.isAssigned.trans (and_comm ..),
      fun isNumber valuation ofOlder ofYounger compares => ?_⟩
    rw [merged.word ((staggered.locals index bounded).sameType.trans isNumber) valuation ofYounger
      ofOlder fun _ => compares, map₂_swap]
    simp only [takesOlder, onTrue]
    cases older.fork.test.holds valuation <;> rfl

end Staggered

/-- The older of two staggered paths has taken the younger one in: both are the true side of a new
fork now, and the path beside the younger one is the other side. -/
structure TakesIn (space : Workspace) (older younger : Side) (below : List Expr) (fork : Fork)
    (next : Workspace) : Prop where
  forks : next.forks = space.forks ++ [fork]
  onTrue : fork.onTrue = older.path
  onFalse : fork.onFalse = younger.sibling
  parent : fork.parent = older.fork.parent
  trueSide : next.parent older.path = some space.forks.length
  falseSide : next.parent younger.sibling = some space.forks.length
  placeholder : ∃ placeholder, placeholder.branch? = some space.forks.length ∧
    (next.stack older.fork.parent).items = placeholder :: below
  items : ∀ id, id ≠ older.fork.parent → (next.stack id).items = (space.stack id).items
  isAssigned : ∀ index < (space.stack older.path).locals.length,
    (next.slot older.path index).isAssigned = ((space.slot older.path index).isAssigned &&
        (space.slot younger.path index).isAssigned)
  word : ∀ index < (space.stack older.path).locals.length,
    (space.slot older.path index).type = .int32 → ∀ valuation : Valuation,
    valuation.Respects (space.slot older.path index) →
    valuation.Respects (space.slot younger.path index) →
    older.fork.test.Comparable valuation →
    (next.slot older.path index).word? valuation = map₂ (fun ofOlder ofYounger =>
      if older.fork.taken valuation = older.path then ofOlder else ofYounger)
      ((space.slot older.path index).word? valuation)
      ((space.slot younger.path index).word? valuation)
  others : ∀ id, id ≠ older.fork.parent → id ≠ older.path → id ≠ younger.sibling →
    next.stack id = space.stack id

/-- Two staggered paths are merged in either order, with the same outcome: the older one takes the
younger one in. If it is on the false side of its fork, the test of the new fork holds exactly where
the forks lead to one of the two. If it is on the true side, the test holds where both forks would,
so it is right exactly where the forks agree. -/
theorem join_staggered (staggered : space.Staggered older younger below) (label : Label) :
    join label [older.path, younger.path] space = join label [younger.path, older.path] space ∧
      ∃ next fork, join label [older.path, younger.path] space = .ok older.path next ∧
        space.TakesIn older younger below fork next ∧
        ∀ valuation, older.fork.test.Comparable valuation → younger.fork.test.Comparable valuation →
          (fork.test.holds valuation = true ↔ if older.onTrue then
              older.fork.taken valuation = older.path ∧ younger.fork.taken valuation = younger.path
            else older.fork.taken valuation = older.path ∨ younger.fork.taken valuation = younger.path) ∧
          ((fork.test.holds valuation = true ↔ Side.leadsTo valuation older younger = older.path ∨
                Side.leadsTo valuation older younger = younger.path) ↔
            (older.onTrue = true → (older.fork.taken valuation = older.path ↔
              younger.fork.taken valuation = younger.path))) := by
  obtain ⟨inOrder, inReverse⟩ := staggered.join_eq label
  rw [inOrder, inReverse]
  obtain ⟨test, isTest, holds⟩ := nestedTest_holds staggered.olderTest
    staggered.youngerTest older.onTrue (older.onTrue == younger.onTrue)
  obtain ⟨locals, emission, joined, isLength, merges⟩ := staggered.joinLocals_eq
  let settled : Workspace := { space.withLocals older.path locals with emission }
  have olderInside := inside_of_parent staggered.hasOlder.path
  have settledItems : ∀ id, (settled.stack id).items = (space.stack id).items :=
    fun id => keep_modifyStack EvalStack.items older.path id fun _ => rfl
  have settledLength : settled.paths.length = space.paths.length := length_modifyStack ..
  obtain ⟨next, grafts, grafted⟩ : ∃ next, regraft label older.branch older.fork.parent test
      older.path younger.sibling settled = .ok () next ∧
      settled.Regrafted older.fork.parent older.path younger.sibling test below next := by
    refine regraft_eq (lt_of_lt_of_eq olderInside settledLength.symm) (lt_of_lt_of_eq
      (inside_of_parent staggered.hasYounger.sibling) settledLength.symm) ?_ label
    rw [settledItems]
    exact staggered.placeholder
  obtain ⟨placed, isForks, isShape⟩ := grafted.forks
  have sameTest : ∀ valuation, placed.holds valuation = test.holds valuation := by
    intro valuation
    rw [Expr.holds, Expr.holds, ← word_shape, isShape, word_shape]
  have isSlot : ∀ index < (space.stack older.path).locals.length,
      locals[index]? = some (next.slot older.path index) := by
    intro index bounded
    have sameLocals : (next.stack older.path).locals = locals := by
      rw [grafted.locals]
      exact congrArg EvalStack.locals ((stack_withLocals ..).trans (if_pos ⟨rfl, olderInside⟩))
    rw [slot, slot?, sameLocals, List.getElem?_eq_getElem (isLength ▸ bounded), getD_some]
  refine ⟨rfl, next, _, ?_, ⟨isForks, rfl, rfl, rfl, grafted.keptSide, grafted.movedSide,
    grafted.placeholder, ?_, ?_, ?_, ?_⟩, fun valuation olderCompares youngerCompares => ?_⟩
  · rw [staggered.joinNested_eq label]
    exact (andThen_of_ok (liftM_eq_ok.2 ⟨isTest, rfl⟩)).trans
      ((andThen_of_ok joined).trans (andThen_of_ok grafts))
  · exact fun id differs => (grafted.items id differs).trans (settledItems id)
  · exact fun index bounded => (merges index _ (isSlot index bounded)).1
  · exact fun index bounded => (merges index _ (isSlot index bounded)).2
  · intro id notParent notOlder notSibling
    exact (grafted.others id notParent notOlder notSibling).trans (stack_of_ne (symm notOlder) _)
  · have isNested : placed.holds valuation = true ↔ _ := staggered.nestedTest_iff
      ((sameTest valuation).trans (holds valuation olderCompares youngerCompares))
    rw [isNested, staggered.leadsTo_iff]
    cases older.onTrue with
    | false => simp
    | true =>
      by_cases takesOlder : older.fork.taken valuation = older.path <;> simp [takesOlder]

/-- A fork on `a` and one on `b` below its true or its false side. The path beside and the true side
of the second fork have assigned the local. -/
def nestedForks (belowTrue : Bool) : Workspace :=
  let placed (type : TypeSig) (identity : Nat) : Header := { type, id := some identity }
  let slot (content : SlotContent) : LocalSlot := { type := .int32, name := "V_0", content }
  let held : EvalStack :=
    { items := [.branch (placed .void 3) 1], parent := some 0, locals := [slot .unassigned] }
  let beside : EvalStack :=
    { parent := some 0
      locals := [slot (.direct (.constant (placed .int32 4) (.integer .int32 5)))] }
  { paths := [ { items := [.branch (placed .void 1) 0], locals := [slot .unassigned] },
      if belowTrue then held else beside,
      if belowTrue then beside else held,
      { parent := some 1, locals := [slot (.direct (.parameter (placed .int32 5) 2 "c"))] },
      { parent := some 1, locals := [slot .unassigned] }]
    forks := [⟨.parameter (placed .bool 0) 0 "a", 1, 2, 0⟩,
      ⟨.parameter (placed .bool 2) 1 "b", 3, 4, if belowTrue then 1 else 2⟩]
    emission := { nextNode := 6 } }

/-- The side of the first fork beside the second one. -/
def besideNested (belowTrue : Bool) : Side := ⟨0, (nestedForks belowTrue).fork 0, !belowTrue⟩

/-- The true side of the second fork. -/
def underNested (belowTrue : Bool) : Side := ⟨1, (nestedForks belowTrue).fork 1, true⟩

theorem staggered_nestedForks (belowTrue : Bool) :
    (nestedForks belowTrue).Staggered (besideNested belowTrue) (underNested belowTrue) [] := by
  cases belowTrue <;> exact {
    hasOlder := ⟨rfl, rfl, rfl, by decide⟩
    hasYounger := ⟨rfl, rfl, rfl, by decide⟩
    held := rfl
    climbs := by decide
    placeholder := ⟨_, rfl, rfl⟩
    olderEmpty := rfl
    youngerEmpty := rfl
    olderTest := rfl
    youngerTest := rfl
    locals := by
      intro index bounded
      obtain rfl : index = 0 := lt_one_iff.1 bounded
      refine ⟨?_, ?_, rfl, rfl, fun isSame => absurd isSame (by decide)⟩
      · rintro node ⟨⟩
        exact ⟨rfl, nofun⟩
      · rintro node ⟨⟩
        exact ⟨rfl, nofun⟩ }

/-- Below the true side of the first fork, the test of the merged paths is right. -/
theorem join_nestedForks :
    (nestedForks true).Staggered (besideNested true) (underNested true) [] ∧
      ∃ next fork, join .finish [2, 3] (nestedForks true) = .ok 2 next ∧
        (nestedForks true).TakesIn (besideNested true) (underNested true) [] fork next ∧
        ∀ valuation, fork.test.holds valuation = true ↔
          Side.leadsTo valuation (besideNested true) (underNested true) = 2 ∨
            Side.leadsTo valuation (besideNested true) (underNested true) = 3 := by
  obtain ⟨-, next, fork, joined, takesIn, isRight⟩ :=
    join_staggered (staggered_nestedForks true) .finish
  exact ⟨staggered_nestedForks true, next, fork, joined, takesIn, fun valuation =>
    (isRight valuation trivial trivial).2.2 nofun⟩

/-- Only the first argument holds. -/
def onlyFirst : Valuation where
  argument slot := if slot = 0 then 1 else 0
  content _ := 0
  other _ := 0
  compared _ _ := none

/-- Below the false side of the first fork, the test of the merged paths does not hold where `a`
does and `b` does not, though the forks lead to the first of them. -/
theorem nestedForks_miss_path :
    ∃ next, join .finish [1, 3] (nestedForks false) = .ok 1 next ∧
      (next.fork 2).onTrue = 1 ∧ (next.fork 2).onFalse = 4 ∧
      (next.fork 2).test.text = "(a && b)" ∧ (next.fork 2).test.holds onlyFirst = false ∧
      Side.leadsTo onlyFirst (besideNested false) (underNested false) = 1 :=
  exists_of_gives (by decide +kernel)

end Workspace

end CilLift
