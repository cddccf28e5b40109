import CilLift.Paths.Join
import CilLift.Proofs.Making
import CilLift.Proofs.Stacks

/-!
Invariants of a workspace and of the trees at hand. Steps take trees off stacks, make new ones of them
and put these back; an invariant that has a law for each such step is kept by every join, and by every
instruction.
-/

namespace CilLift

open CilLift.Expr Work Ensures

variable {first second : StackId} {test : Expr} {fork : Fork} {label : Label}

/-- The path that a nested merge leaves beside the older one. -/
def Workspace.leftOver (space : Workspace) (older younger : StackId)
    (olderBranch youngerBranch : BranchId) : StackId :=
  let onTrue := (space.fork olderBranch).onTrue == older
  let youngerFork := space.fork youngerBranch
  youngerFork.side (if youngerFork.side onTrue == younger then !onTrue else onTrue)

/-- Merging two empty paths puts a new fork in the place of an old one: over one of the two, which is
kept, and a path that is moved there. -/
inductive Workspace.Grafts (space : Workspace) (first second : StackId) :
    (old : BranchId) → (kept moved : StackId) → Prop where
  | below {olderBranch youngerBranch : BranchId} {older younger : StackId} {depth deeper : Nat}
      (pair : older = first ∧ younger = second ∨ older = second ∧ younger = first)
      (bothEmpty : ((space.stack first).isEmpty && (space.stack second).isEmpty) = true)
      (olderDepth : space.depth? older = some depth)
      (youngerDepth : space.depth? younger = some deeper) (isDeeper : depth < deeper)
      (olderSide : space.parent older = some olderBranch)
      (youngerSide : space.parent younger = some youngerBranch) :
      Grafts space first second olderBranch older (space.leftOver older younger olderBranch youngerBranch)
  | across {firstBranch secondBranch root : BranchId} {depth : Nat}
      (firstDepth : space.depth? first = some depth)
      (secondDepth : space.depth? second = some depth)
      (bothEmpty : ((space.stack first).isEmpty && (space.stack second).isEmpty) = true)
      (firstSide : space.parent first = some firstBranch)
      (secondSide : space.parent second = some secondBranch)
      (isApart : firstBranch ≠ secondBranch)
      (firstRoot : space.parent (space.fork firstBranch).parent = some root)
      (secondRoot : space.parent (space.fork secondBranch).parent = some root) :
      Grafts space first second root first
        ((space.fork firstBranch).side !((space.fork firstBranch).onTrue == first))

theorem Workspace.Grafts.kept_eq {space : Workspace} {kept moved : StackId} {old : BranchId}
    (grafts : space.Grafts first second old kept moved) : kept = first ∨ kept = second := by
  cases grafts with
  | below pair => exact pair.imp And.left And.left
  | across => exact .inl rfl

/-- Joining a path with earlier ones comes to try a pair, in a certain workspace. -/
inductive Work.Tries (label : Label) :
    StackId → List StackId → Workspace → StackId → StackId → Workspace → Prop where
  | latest {latest first : StackId} {rest : List StackId} {space : Workspace} :
      Tries label latest (first :: rest) space first latest space
  | merged {latest first joined left right : StackId} {rest : List StackId}
      {space next final : Workspace}
      (merge : joinPair label first latest space = .ok (some joined) next)
      (later : Tries label joined rest next left right final) :
      Tries label latest (first :: rest) space left right final
  | earlier {latest first left right : StackId} {rest : List StackId}
      {space next final : Workspace}
      (apart : joinPair label first latest space = .ok none next)
      (later : Tries label first rest next left right final) :
      Tries label latest (first :: rest) space left right final
  | again {latest first joined : StackId} {rest : List StackId} {space next final : Workspace}
      (apart : joinPair label first latest space = .ok none next)
      (others : joinAll label first rest next = .ok joined final) :
      Tries label latest (first :: rest) space joined latest final

/-- A tree at hand. -/
inductive Held where
  /-- As it was found on a stack. -/
  | item (tree : Expr)
  /-- For one use. -/
  | made (tree : Expr)
  /-- For the body of a delegate to run on. -/
  | receiver (tree : Expr)

/-- An invariant of workspaces, of trees that may be used again and again, and of the trees at hand,
with the errors that may end a step. -/
structure Custody where
  Holds : Workspace → (shared : List Expr) → (hand : List Held) → Prop
  Tolerates : Error → Prop

theorem ensures_slotOf {α : Type} {tolerates : Error → Prop} {space : Workspace} {id : StackId}
    {index : Nat} {second : LocalSlot → Work α} {post : α → Workspace → Prop}
    (ensured : Ensures tolerates (second (space.slot id index)) space post) :
    Ensures tolerates (slotOf id index >>= second) space post :=
  ensures_bind.2 ensured

namespace Custody

variable {α β : Type} {custody : Custody}

/-- The step ends with the invariant, and with the given trees at hand. -/
def Keeps (custody : Custody) (step : Work α) (space : Workspace) (shared : List Expr)
    (after : α → List Held) : Prop :=
  Ensures custody.Tolerates step space fun result next =>
    custody.Holds next shared (after result)

theorem Keeps.andThen {step : Work β} {second : β → Work α} {space : Workspace}
    {shared : List Expr} {middle : β → List Held} {post : α → Workspace → Prop}
    (kept : custody.Keeps step space shared middle)
    (next : ∀ result after, custody.Holds after shared (middle result) →
      Ensures custody.Tolerates (second result) after post) :
    Ensures custody.Tolerates (step >>= second) space post :=
  Ensures.andThen kept next

/-- What the invariant asks of the steps on single paths: those whose items a step takes and puts
back, and those whose locals it reads and assigns. -/
structure Lawful (custody : Custody) (touches views : StackId → Prop) : Prop where
  answer : ∀ error, Error.IsAnswer error → custody.Tolerates error
  perm : ∀ {space shared hand other}, hand.Perm other → custody.Holds space shared hand →
    custody.Holds space shared other
  drop : ∀ {space shared held hand}, custody.Holds space shared (held :: hand) →
    custody.Holds space shared hand
  use : ∀ {space shared tree hand}, custody.Holds space shared (.item tree :: hand) →
    custody.Holds space shared (.made tree :: hand)
  share : ∀ {space shared tree hand}, (tree.isConstant || tree.isVar) = true →
    custody.Holds space shared (.made tree :: hand) →
    custody.Holds space (tree :: shared) hand
  forget : ∀ {space shared tree hand}, custody.Holds space (tree :: shared) hand →
    custody.Holds space shared hand
  lend : ∀ {space shared tree hand}, tree ∈ shared → custody.Holds space shared hand →
    custody.Holds space shared (.made tree :: hand)
  build : ∀ {space shared tree hand} parts, Expr.MadeOf parts tree →
    custody.Holds space shared (parts.map .made ++ hand) →
    custody.Holds space shared (.made tree :: hand)
  store : ∀ {space shared target value hand}, target.isVar = false →
    custody.Holds space shared (.made target :: .made value :: hand) →
    custody.Holds space shared (.made (.mkAssign target value) :: hand)
  call : ∀ {space shared hand} target method arguments,
    custody.Holds space shared ((target.toList ++ arguments).map .made ++ hand) →
    custody.Holds space shared (.made (.mkCall target method arguments) :: hand)
  new : ∀ {space shared hand} constructor arguments,
    custody.Holds space shared (arguments.map .made ++ hand) →
    custody.Holds space shared (.made (.mkNew constructor arguments) :: hand)
  invoke : ∀ {space shared hand} target arguments type,
    custody.Holds space shared ((target :: arguments).map .made ++ hand) →
    custody.Holds space shared (.made (.mkInvoke target arguments type) :: hand)
  place : ∀ {space shared tree hand}, custody.Holds space shared (.made tree :: hand) →
    custody.Keeps (place tree) space shared fun placed => .made placed :: hand
  push : ∀ {space shared id tree hand}, touches id →
    custody.Holds space shared (.made tree :: hand) →
    custody.Keeps (push id tree) space shared fun _ => hand
  pop : ∀ {space shared id hand}, touches id → custody.Holds space shared hand →
    custody.Keeps (pop? id) space shared fun found => found.toList.map .item ++ hand
  gather : ∀ {space shared id hand}, touches id → custody.Holds space shared hand →
    custody.Holds (space.withItems id []) shared ((space.stack id).items.reverse.map .item ++ hand)
  scatter : ∀ {space shared id items hand}, touches id → (space.stack id).items = [] →
    custody.Holds space shared (items.reverse.map .item ++ hand) →
    custody.Holds (space.withItems id items) shared hand
  readLocal : ∀ {space shared id hand} index, views id → custody.Holds space shared hand →
    custody.Keeps (readLocal id index) space shared fun found =>
      found.toList.map .made ++ hand
  assignLocal : ∀ {space shared id value hand} index, views id →
    custody.Holds space shared (.made value :: hand) →
    custody.Keeps (assignLocal id index value) space shared fun _ => hand
  statement : ∀ {space shared effect hand}, custody.Holds space shared (.made effect :: hand) →
    custody.Keeps (do
      let effect ← Work.place effect
      emit fun emission => ((), (emission.track effect).addStatement effect)) space shared
      fun _ => hand
  addStatement : ∀ {space shared value hand}, value.branch? = none →
    custody.Holds space shared (.item value :: hand) →
    custody.Keeps (emit fun emission => ((), emission.addStatement value)) space shared fun _ => hand
  materialize : ∀ {space shared value hand}, value.branch? = none →
    custody.Holds space shared (.item value :: hand) →
    custody.Keeps (emit fun emission =>
      let (name, emission) := emission.freshName
      emission.materialize value name) space shared fun bound => .item bound :: hand

/-- What the invariant asks of joins besides. -/
structure Joins (custody : Custody) (touches views : StackId → Prop) : Prop
    extends custody.Lawful touches views where
  clearLocal : ∀ {space shared id hand} index, views id → custody.Holds space shared hand →
    custody.Keeps (clearLocal id index) space shared fun _ => hand
  copyLocal : ∀ {space shared source target hand} index, views source → views target →
    custody.Holds space shared hand →
    custody.Keeps (modify fun next => next.setSlot target index (space.slot source index))
      space shared fun _ => hand
  markReduced : ∀ {space shared hand} id, custody.Holds space shared hand →
    custody.Keeps (markReduced id) space shared fun _ => hand
  test : ∀ {space shared hand} branch, custody.Holds space shared hand →
    custody.Holds space ((space.fork branch).test :: shared) hand
  reshare : ∀ {space shared tree hand} part, part ∈ shared → Expr.MadeOf [part] tree →
    custody.Holds space shared hand → custody.Holds space (tree :: shared) hand
  placeShared : ∀ {space shared tree hand}, custody.Holds space (tree :: shared) hand →
    Ensures custody.Tolerates (Work.place tree) space fun placed next =>
      custody.Holds next (placed :: shared) hand

namespace Lawful

variable {touches views : StackId → Prop} {space : Workspace} {shared : List Expr}
  {hand : List Held} (lawful : custody.Lawful touches views)

include lawful

theorem bring {held : Held} (front : List Held)
    (holds : custody.Holds space shared (front ++ held :: hand)) :
    custody.Holds space shared (held :: (front ++ hand)) :=
  lawful.perm List.perm_middle holds

theorem send {held : Held} (front : List Held)
    (holds : custody.Holds space shared (held :: (front ++ hand))) :
    custody.Holds space shared (front ++ held :: hand) :=
  lawful.perm List.perm_middle.symm holds

theorem throw {error : Error} {post : α → Workspace → Prop} (answers : error.IsAnswer) :
    Ensures custody.Tolerates (throw error) space post :=
  lawful.answer error answers

theorem popPlaceholder (label : Label) (branch : BranchId) {id : StackId} (isTouched : touches id)
    (holds : custody.Holds space shared hand) :
    custody.Keeps (popPlaceholder label id branch) space shared fun _ => hand := by
  refine (lawful.pop isTouched holds).andThen fun found next holds => ?_
  split
  · cases found with
    | none => exact holds
    | some _ => exact lawful.drop holds
  · exact lawful.throw nofun

theorem restrict {fewer narrower : StackId → Prop} (touched : ∀ id, fewer id → touches id)
    (viewed : ∀ id, narrower id → views id) : custody.Lawful fewer narrower :=
  { lawful with
    push := fun isTouched => lawful.push (touched _ isTouched)
    pop := fun isTouched => lawful.pop (touched _ isTouched)
    gather := fun isTouched => lawful.gather (touched _ isTouched)
    scatter := fun isTouched => lawful.scatter (touched _ isTouched)
    readLocal := fun index isViewed => lawful.readLocal index (viewed _ isViewed)
    assignLocal := fun index isViewed => lawful.assignLocal index (viewed _ isViewed) }

theorem forms {parts : List Expr} {value : Except Error Expr} {second : Expr → Work α}
    {post : α → Workspace → Prop} (forms : Forms parts value)
    (holds : custody.Holds space shared (parts.map .made ++ hand))
    (next : ∀ tree, custody.Holds space shared (.made tree :: hand) →
      Ensures custody.Tolerates (second tree) space post) :
    Ensures custody.Tolerates (liftM value >>= second) space post := by
  refine ensures_bind.2 ((ensures_lift value).2 ?_)
  exact Yields.mono forms (fun tree made => next tree (lawful.build parts made holds))
    fun error isFault => lawful.answer error isFault.isAnswer

end Lawful

namespace Joins

variable {touches views : StackId → Prop} {space : Workspace} {shared : List Expr}
  {hand : List Held} (joins : custody.Joins touches views)

include joins

theorem condition {trueValue falseValue : Expr} {second : Expr → Work α}
    {post : α → Workspace → Prop} (isShared : test ∈ shared)
    (holds : custody.Holds space shared (.made falseValue :: .made trueValue :: hand))
    (next : ∀ tree, custody.Holds space shared (.made tree :: hand) →
      Ensures custody.Tolerates (second tree) space post) :
    Ensures custody.Tolerates (liftM (condition test trueValue falseValue) >>= second) space post := by
  have inOrder : Forms [test, falseValue, trueValue] (Expr.condition test trueValue falseValue) :=
    (condition_forms test trueValue falseValue).perm (.cons test (.swap ..))
  exact joins.forms inOrder (joins.lend isShared holds) next

theorem joinSlot {onTrue onFalse target : StackId} (index : Nat) (isShared : test ∈ shared)
    (trueViewed : views onTrue) (falseViewed : views onFalse) (targetViewed : views target)
    (holds : custody.Holds space shared hand) :
    custody.Keeps (joinSlot test onTrue onFalse target index) space shared fun _ => hand := by
  refine ensures_slotOf (ensures_slotOf ?_)
  split
  · exact joins.copyLocal index trueViewed targetViewed holds
  · refine (joins.readLocal index trueViewed holds).andThen fun trueValue middle holds => ?_
    refine (joins.readLocal index falseViewed holds).andThen fun falseValue next holds => ?_
    split
    · exact joins.condition isShared holds fun value holds =>
        joins.assignLocal index targetViewed holds
    · refine joins.clearLocal index targetViewed ?_
      cases falseValue with
      | none =>
        cases trueValue with
        | none => exact holds
        | some _ => exact joins.drop holds
      | some _ =>
        cases trueValue with
        | none => exact joins.drop holds
        | some _ => exact joins.drop (joins.drop holds)

theorem joinLocals {onTrue onFalse target : StackId} (isShared : test ∈ shared)
    (trueViewed : views onTrue) (falseViewed : views onFalse) (targetViewed : views target)
    (holds : custody.Holds space shared hand) :
    custody.Keeps (joinLocals test onTrue onFalse target) space shared fun _ => hand :=
  ensures_bind.2 (ensures_get.2 (forM (custody.Holds · shared hand)
    (fun index _ _ => joins.joinSlot index isShared trueViewed falseViewed targetViewed) holds))

theorem joinValues (label : Label) (branch : BranchId) (isShared : fork.test ∈ shared)
    (trueTouched : touches fork.onTrue) (falseTouched : touches fork.onFalse)
    (parentTouched : touches fork.parent) (holds : custody.Holds space shared hand) :
    custody.Keeps (joinValues label branch fork) space shared fun _ => hand := by
  refine (joins.pop trueTouched holds).andThen fun trueValue middle holds => ?_
  refine (joins.pop falseTouched holds).andThen fun falseValue next holds => ?_
  split
  · rename_i trueValue falseValue _
    have used := joins.bring [.made falseValue] (joins.use holds)
    exact joins.condition isShared (joins.send [.made falseValue] (joins.use used))
      fun value holds => joins.push parentTouched holds
  · exact holds
  · exact joins.throw nofun

/-- The two sides of a fork are joined into the path that forked, once its placeholder is gone. -/
theorem joinSides (label : Label) (branch : BranchId) (isFork : space.fork branch = fork)
    (trueTouched : touches fork.onTrue) (falseTouched : touches fork.onFalse)
    (parentTouched : touches fork.parent) (trueViewed : views fork.onTrue)
    (falseViewed : views fork.onFalse) (parentViewed : views fork.parent)
    (isShared : fork.test ∈ shared)
    (opened : custody.Keeps (popPlaceholder label fork.parent branch) space shared fun _ => hand) :
    Ensures custody.Tolerates (joinSides label branch) space fun joined next =>
      joined = fork.parent ∧ custody.Holds next shared hand := by
  refine ensures_bind.2 (ensures_get.2 ?_)
  rw [isFork]
  refine opened.andThen fun _ _ holds => ?_
  refine (joins.joinValues label branch isShared trueTouched falseTouched parentTouched
    holds).andThen fun _ _ holds => ?_
  refine (joins.joinLocals isShared trueViewed falseViewed parentViewed holds).andThen fun _ _ holds => ?_
  refine (joins.markReduced fork.onTrue holds).andThen fun _ _ holds => ?_
  refine (joins.markReduced fork.onFalse holds).andThen fun _ _ holds => ?_
  exact ⟨rfl, holds⟩

end Joins

theorem testOrNegation_forms (fork : Fork) (isKept : Bool) :
    Forms [fork.test] (testOrNegation fork isKept) := by
  unfold testOrNegation
  split
  · exact .itself _
  · exact logicalNot_forms _

theorem nestedTest_forms (olderFork youngerFork : Fork) (onTrue isAligned : Bool) :
    Forms [olderFork.test, youngerFork.test] (nestedTest olderFork youngerFork onTrue isAligned) := by
  refine (testOrNegation_forms youngerFork isAligned).andThen fun youngerTest youngerMade => ?_
  refine ((logicalAnd_forms olderFork.test youngerTest).ofTwo (.itself _) youngerMade).andThen
    fun both bothMade => ?_
  split
  · exact bothMade
  · exact (logicalNot_forms both).ofOne bothMade

namespace Joins

variable {touches views : StackId → Prop} {space : Workspace} {shared : List Expr}
  {hand : List Held} (joins : custody.Joins touches views)

include joins

theorem testOrNegation {isKept : Bool} {second : Expr → Work α} {post : α → Workspace → Prop}
    (isShared : fork.test ∈ shared) (holds : custody.Holds space shared hand)
    (next : ∀ test, custody.Holds space (test :: shared) hand →
      Ensures custody.Tolerates (second test) space post) :
    Ensures custody.Tolerates (liftM (testOrNegation fork isKept) >>= second) space post := by
  refine ensures_bind.2 ((ensures_lift _).2 ?_)
  exact Yields.mono (testOrNegation_forms fork isKept)
    (fun test made => next test (joins.reshare _ isShared made holds))
    fun error isFault => joins.answer error isFault.isAnswer

/-- A nested merge does what putting a fork over the older path and the one that the younger fork
leaves over does. -/
theorem joinNested {older younger : StackId} {olderBranch youngerBranch : BranchId}
    {post : StackId → Workspace → Prop} (olderViewed : views older) (youngerViewed : views younger)
    (holds : custody.Holds space [] hand)
    (grafted : ∀ test next, custody.Holds next [] (.made test :: hand) → Ensures custody.Tolerates
        (regraft label olderBranch (space.fork olderBranch).parent test older
          (space.leftOver older younger olderBranch youngerBranch)) next
        fun _ final => post older final) :
    Ensures custody.Tolerates (joinNested label older younger olderBranch youngerBranch) space post := by
  have withTests := joins.test olderBranch (joins.test youngerBranch holds)
  refine joins.forms (nestedTest_forms (space.fork olderBranch) (space.fork youngerBranch)
    _ _) (joins.lend (by simp) (joins.lend (by simp) withTests)) fun test holds => ?_
  have bothViewed : ∀ chosen : Bool, views (if chosen then older else younger) ∧
      views (if chosen then younger else older) := by
    rintro (_ | _) <;> exact ⟨‹_›, ‹_›⟩
  obtain ⟨trueViewed, falseViewed⟩ := bothViewed ((space.fork olderBranch).onTrue == older)
  refine (joins.joinLocals (by simp) trueViewed falseViewed olderViewed holds).andThen
    fun _ joined holds => ?_
  exact andThen (grafted test joined (joins.forget (joins.forget holds))) fun _ _ reached => reached

/-- A merge below both sides of one fork does what putting a fork over the first path and its sibling
in the place of that fork does. -/
theorem joinDiamond {firstBranch secondBranch : BranchId} {post : Option StackId → Workspace → Prop}
    (firstViewed : views first) (secondViewed : views second)
    (firstSides : ∀ onTrue, views ((space.fork firstBranch).side onTrue))
    (secondSides : ∀ onTrue, views ((space.fork secondBranch).side onTrue))
    (holds : custody.Holds space [] hand)
    (apart : (∀ root, space.parent (space.fork firstBranch).parent = some root →
      space.parent (space.fork secondBranch).parent ≠ some root) → post none space)
    (grafted : ∀ root test next, space.parent (space.fork firstBranch).parent = some root →
      space.parent (space.fork secondBranch).parent = some root →
      custody.Holds next [] (.made test :: hand) →
      Ensures custody.Tolerates (regraft label root (space.fork root).parent test first
          ((space.fork firstBranch).side !((space.fork firstBranch).onTrue == first))) next
        fun _ final => post (some first) final) :
    Ensures custody.Tolerates (joinDiamond label first second firstBranch secondBranch) space post := by
  refine ensures_bind.2 (ensures_get.2 ?_)
  dsimp only
  split
  · rename_i root otherRoot isRoot isOtherRoot
    split
    · rename_i sameRoot
      subst sameRoot
      have withTests := joins.test root (joins.test secondBranch (joins.test firstBranch holds))
      refine joins.testOrNegation (by simp) withTests fun firstTest holds => ?_
      refine (joins.markReduced _ holds).andThen fun _ marked holds => ?_
      refine joins.testOrNegation (by simp) holds fun secondTest holds => ?_
      refine joins.testOrNegation (by simp) holds fun rootTest holds => ?_
      refine (joins.placeShared holds).andThen fun rootTest placed holds => ?_
      refine (joins.joinLocals (by simp) firstViewed secondViewed firstViewed holds).andThen
        fun _ joined holds => ?_
      refine (joins.joinLocals (by simp) (firstSides _) (secondSides _) (firstSides _)
        holds).andThen fun _ final holds => ?_
      have lent := joins.lend (by simp : secondTest ∈ _) (joins.lend (by simp : firstTest ∈ _) holds)
      refine joins.condition (by simp) lent fun test holds => ?_
      have done := joins.forget (joins.forget (joins.forget (joins.forget (joins.forget
        (joins.forget holds)))))
      exact andThen (grafted root test final isRoot isOtherRoot done) fun _ _ reached => reached
    · refine apart fun shared isShared => ?_
      rw [isRoot] at isShared
      cases isShared
      rw [isOtherRoot]
      simpa using Ne.symm ‹_›
  · rename_i noRoot
    exact apart fun root isRoot isOtherRoot => noRoot root root isRoot isOtherRoot

/-- Two paths are merged as the sides of their fork or by a new fork, or are left alone. -/
theorem joinPair {post : Option StackId → Workspace → Prop} (firstViewed : views first)
    (secondViewed : views second) (above : ∀ id branch onTrue, space.parent id = some branch →
      views ((space.fork branch).side onTrue)) (holds : custody.Holds space [] hand)
    (climbs : ∀ id, id = first ∨ id = second → space.depth? id = none → custody.Tolerates .cyclicForks)
    (apart : (∀ old kept moved, ¬space.Grafts first second old kept moved) →
      post none space) (sides : ∀ branch, space.parent first = some branch →
      space.parent second = some branch →
      Ensures custody.Tolerates (Work.joinSides label branch) space
        fun joined final => post (some joined) final)
    (grafted : ∀ old kept moved test next, space.Grafts first second old kept moved →
      custody.Holds next [] (.made test :: hand) →
      Ensures custody.Tolerates (regraft label old (space.fork old).parent test kept moved) next
        fun _ final => post (some kept) final) :
    Ensures custody.Tolerates (joinPair label first second) space post := by
  have depthOf : ∀ id, (id = first ∨ id = second) →
      Ensures custody.Tolerates (depthOf id) space fun depth next =>
        space = next ∧ space.depth? id = some depth := by
    intro id isOne
    refine ensures_bind.2 (ensures_get.2 ?_)
    split
    · rename_i depth found
      exact ⟨rfl, found⟩
    · rename_i missing
      exact climbs id isOne missing
  refine (depthOf first (.inl rfl)).andThen ?_
  rintro firstDepth _ ⟨rfl, atFirst⟩
  refine (depthOf second (.inr rfl)).andThen ?_
  rintro secondDepth _ ⟨rfl, atSecond⟩
  refine ensures_bind.2 (ensures_get.2 ?_)
  dsimp only
  split
  · rename_i firstBranch secondBranch firstSide secondSide
    have nonEmpty : ((space.stack first).isEmpty && (space.stack second).isEmpty) ≠ true →
        ∀ old kept moved, ¬space.Grafts first second old kept moved := by
      rintro notBoth _ _ _ (⟨-, bothEmpty, -⟩ | ⟨-, -, bothEmpty, -⟩) <;> exact notBoth bothEmpty
    split
    · rename_i sameDepth
      subst sameDepth
      split
      · rename_i sameBranch
        subst sameBranch
        exact andThen (sides firstBranch firstSide secondSide) fun _ _ reached => reached
      · rename_i isApart
        split
        · rename_i bothEmpty
          refine joins.joinDiamond firstViewed secondViewed (fun _ => above _ _ _ firstSide)
            (fun _ => above _ _ _ secondSide) holds (fun noRoot => apart ?_)
            fun root test next firstRoot secondRoot => ?_
          · rintro _ _ _ grafts
            cases grafts with
            | below pair _ olderDepth youngerDepth isDeeper =>
              rcases pair with ⟨rfl, rfl⟩ | ⟨rfl, rfl⟩ <;> simp_all
            | across _ _ _ firstSide' secondSide' _ firstRoot secondRoot =>
              rw [firstSide] at firstSide'
              rw [secondSide] at secondSide'
              cases firstSide'
              cases secondSide'
              exact noRoot _ firstRoot secondRoot
          · exact grafted root first _ test next (.across atFirst atSecond bothEmpty firstSide
              secondSide isApart firstRoot secondRoot)
        · exact apart (nonEmpty ‹_›)
    · split
      · rename_i bothEmpty
        split
        · rename_i isDeeper
          refine andThen (joins.joinNested secondViewed firstViewed holds
            fun test next => grafted secondBranch second _ test next ?_)
            fun _ _ reached => reached
          exact .below (.inr ⟨rfl, rfl⟩) bothEmpty atSecond atFirst isDeeper secondSide firstSide
        · have isDeeper : firstDepth < secondDepth := by omega
          refine andThen (joins.joinNested firstViewed secondViewed holds
            fun test next => grafted firstBranch first _ test next ?_)
            fun _ _ reached => reached
          exact .below (.inl ⟨rfl, rfl⟩) bothEmpty atFirst atSecond isDeeper firstSide secondSide
      · exact apart (nonEmpty ‹_›)
  · rename_i noSides
    refine apart fun _ _ _ grafts => ?_
    cases grafts with
    | below pair _ _ _ _ olderSide youngerSide =>
      rcases pair with ⟨rfl, rfl⟩ | ⟨rfl, rfl⟩
      · exact noSides _ _ olderSide youngerSide
      · exact noSides _ _ youngerSide olderSide
    | across _ _ _ firstSide secondSide => exact noSides _ _ firstSide secondSide

end Joins

end Custody

/-- What merges two paths keeps an invariant of the workspace and the paths that are not joined yet. -/
def Work.Merges (tolerates : Error → Prop) (holds : Workspace → List StackId → Prop) (label : Label)
    (first second : StackId) (space : Workspace) : Prop :=
  ∀ others, holds space (second :: first :: others) →
    Ensures tolerates (joinPair label first second) space fun joined next =>
      match joined with
      | some id => holds next (id :: others)
      | none => holds next (second :: first :: others)

section joinAll

variable {tolerates : Error → Prop} {holds : Workspace → List StackId → Prop}
  {latest : StackId} {rest others : List StackId} {space : Workspace}
  (answer : ∀ error, Error.IsAnswer error → tolerates error)
  (perm : ∀ space ids other, List.Perm ids other → holds space ids → holds space other)

include answer perm

/-- A join keeps an invariant if every pair that it comes to try does. -/
theorem Work.joinAll_keeps
    (pairs : ∀ first second next, Tries label latest rest space first second next →
      Merges tolerates holds label first second next)
    (held : holds space (latest :: rest ++ others)) :
    Ensures tolerates (joinAll label latest rest) space fun joined next =>
      holds next (joined :: others) := by
  induction rest generalizing latest others space with
  | nil => exact held
  | cons first rest ih =>
    refine ensures_bind.2 (mono (withOutcome (pairs first latest space .latest (rest ++ others) held)) ?_)
    rintro (_ | joined) next ⟨outcome, held⟩
    · -- The earlier paths are joined while the latest one waits with the others.
      have aside : holds next (first :: rest ++ latest :: others) :=
        perm _ _ _ (@List.perm_middle _ latest (first :: rest) others).symm held
      refine ensures_bind.2 (mono (withOutcome (ih
        (fun left right final tries => pairs left right final (.earlier outcome tries)) aside)) ?_)
      rintro joined final ⟨joins, held⟩
      refine andThen (pairs joined latest final (.again outcome joins) others
        (perm _ _ _ (.swap ..) held)) ?_
      rintro (_ | merged) last held
      · exact answer _ nofun
      · exact held
    · exact ih (fun left right final tries => pairs left right final (.merged outcome tries)) held

/-- A join tries only pairs of paths that the invariant holds of. -/
theorem Work.Tries.keeps {next : Workspace}
    (tries : Tries label latest rest space first second next)
    (pairs : ∀ first second next, Tries label latest rest space first second next →
      Merges tolerates holds label first second next)
    (held : holds space (latest :: rest ++ others)) :
    ∃ aside, holds next (second :: first :: aside) := by
  induction tries generalizing others with
  | latest => exact ⟨_, held⟩
  | merged merge _ ih =>
    exact ih (fun left right final tries => pairs left right final (.merged merge tries))
      ((pairs _ _ _ .latest _ held).of_ok merge)
  | earlier apart _ ih =>
    have unmerged := (pairs _ _ _ .latest _ held).of_ok apart
    exact ih (fun left right final tries => pairs left right final (.earlier apart tries))
      (perm _ _ _ List.perm_middle.symm unmerged)
  | @again latest first _ rest _ _ _ apart joins =>
    have unmerged := (pairs _ _ _ .latest _ held).of_ok apart
    have aside : holds _ (first :: rest ++ latest :: others) :=
      perm _ _ _ (@List.perm_middle _ latest (first :: rest) others).symm unmerged
    have joined := (joinAll_keeps answer perm
      (fun left right final tries => pairs left right final (.earlier apart tries)) aside).of_ok joins
    exact ⟨others, perm _ _ _ (.swap ..) joined⟩

theorem Work.join_keeps {waiting : List StackId}
    (pairs : ∀ latest rest first second next, waiting.reverse = latest :: rest →
      Tries label latest rest space first second next →
      Merges tolerates holds label first second next)
    (held : holds space (waiting ++ others)) :
    Ensures tolerates (join label waiting) space fun joined next =>
      holds next (joined :: others) := by
  unfold join
  split
  · exact answer _ nofun
  · rename_i latest rest reversed
    have inReverse : (waiting ++ others).Perm (latest :: rest ++ others) := by
      rw [← reversed]
      exact List.Perm.append_right others waiting.reverse_perm.symm
    exact joinAll_keeps answer perm
      (fun first second next => pairs latest rest first second next reversed) (perm _ _ _ inReverse held)

end joinAll

end CilLift
