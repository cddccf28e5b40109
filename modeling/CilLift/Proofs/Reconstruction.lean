import CilLift.Proofs.Compilation
import CilLift.Proofs.OpenForks
import CilLift.Proofs.Returning

/-!
Structured integer expressions come back from their code. While the code is run, the choices that it
is in are the forks around the path that is followed; where parts end together, their forks become
conditionals one after the other, from the inside out.
-/

namespace CilLift

open Trace Label List

variable {slot : Nat} {rest : List Expr} {path : StackId} {value : Expr}

namespace Source

/-- Constants that can stand for a condition. -/
def isBit : Source → Bool
  | .constant value => value == 0 || value == 1
  | _ => false

/-- No choice is between constants that can stand for a condition: it would be taken for one. -/
def keepsChoices : Source → Bool
  | .parameter _ | .constant _ => true
  | .arithmetic _ left right => left.keepsChoices && right.keepsChoices
  | .choice _ onTrue onFalse =>
    !(onTrue.isBit && onFalse.isBit) && onTrue.keepsChoices && onFalse.keepsChoices

/-- The tree of an expression, where parameters have names. -/
def tree (names : Nat → String) : Source → Expr
  | .parameter slot => .mkParameter slot.toNat (names slot.toNat) .int32
  | .constant value => .int value.toInt
  | .arithmetic kind left right =>
    .mkBinary kind.operator (left.tree names) (right.tree names) .int32
  | .choice slot onTrue onFalse =>
    .mkConditional (.mkParameter slot.toNat (names slot.toNat) .bool) (onTrue.tree names)
      (onFalse.tree names)

/-- The parameters that are read have the type they are read with. -/
def Reads (typeOf? : Nat → Option TypeSig) : Source → Prop
  | .parameter slot => typeOf? slot.toNat = some .int32
  | .constant _ => True
  | .arithmetic _ left right => left.Reads typeOf? ∧ right.Reads typeOf?
  | .choice slot onTrue onFalse =>
    typeOf? slot.toNat = some .bool ∧ onTrue.Reads typeOf? ∧ onFalse.Reads typeOf?

variable {names : Nat → String}

theorem type_tree (source : Source) : (source.tree names).type = .int32 := by
  induction source with
  | choice slot onTrue onFalse trueIh => exact trueIh
  | _ => rfl

theorem branch?_tree (source : Source) : (source.tree names).branch? = none := by
  cases source <;> rfl

theorem boolLiteral?_tree {source : Source} (notBit : source.isBit = false) :
    (source.tree names).boolLiteral? = none := by
  cases source with
  | constant value =>
    simp only [isBit, Bool.or_eq_false_iff, beq_eq_false_iff_ne] at notBit
    have notZero : value.toInt ≠ 0 := fun isZero => notBit.1 (Int32.toInt_inj.1 isZero)
    have notOne : value.toInt ≠ 1 := fun isOne => notBit.2 (Int32.toInt_inj.1 isOne)
    simp [tree, Expr.int, Expr.mkConstant, Expr.boolLiteral?, Expr.jumpLiteral?, notZero, notOne]
  | _ => rfl

theorem separate_tree {onTrue onFalse : Source}
    (notBoth : (onTrue.isBit && onFalse.isBit) = false) :
    Expr.Separate (.mkParameter slot (names slot) .bool) (onTrue.tree names) (onFalse.tree names) :=
  ⟨rfl, onTrue.type_tree, onFalse.type_tree,
    (Bool.and_eq_false_iff.1 notBoth).imp boolLiteral?_tree boolLiteral?_tree⟩

end Source

theorem ofOffset_eq_iff {first second : Nat} (firstShort : first < 2 ^ 32)
    (secondShort : second < 2 ^ 32) : ofOffset first = ofOffset second ↔ first = second := by
  constructor
  · intro same
    rw [← value_ofOffset firstShort, same, value_ofOffset secondShort]
  · rintro rfl
    rfl

/-- The task gives parameters by their names and types, and nothing else is known. -/
structure Task.Supplies (task : Task) (names : Nat → String) (typeOf? : Nat → Option TypeSig) :
    Prop where
  target : task.target = none
  arguments : task.arguments = []
  parameter : ∀ slot type, typeOf? slot = some type → ∃ node,
    task.parameters[slot]? = some node ∧ node.shape = .mkParameter slot (names slot) type

theorem Task.Supplies.argument {task : Task} {names : Nat → String} {typeOf? : Nat → Option TypeSig}
    (supplies : task.Supplies names typeOf?) {type : TypeSig} (isType : typeOf? slot = some type)
    (machine : Machine) :
    ∃ node, Machine.argument task slot machine = .ok node machine ∧
      node.shape = .mkParameter slot (names slot) type := by
  obtain ⟨node, isNode, isShape⟩ := supplies.parameter slot type isType
  refine ⟨node, ?_, isShape⟩
  unfold Machine.argument
  rw [supplies.target, supplies.arguments]
  dsimp only [getElem?_nil]
  rw [isNode]
  rfl

def Frame.waiter (frame : Frame) : Label × StackId := (ofOffset frame.place, frame.sibling)

/-- The machine follows the path of the view, and only the other sides of its forks wait, at targets
of jumps. -/
structure Machine.Shows (targets : List Nat) (machine : Machine) (view : View) : Prop where
  workspace : machine.workspace.Shows view
  current : machine.current = some view.path
  waiters : machine.waiters = view.frames.reverse.map Frame.waiter
  targeted : ∀ frame ∈ view.frames, frame.place ∈ targets

namespace Machine

variable {targets : List Nat} {machine next : Machine} {view : View} {task : Task}
  {names : Nat → String} {typeOf? : Nat → Option TypeSig} {place : Nat}

theorem forM_of_ok {first second : List Event} {middle last : Machine}
    (runsFirst : first.forM (step task) machine = .ok () middle)
    (runsSecond : second.forM (step task) middle = .ok () last) :
    (first ++ second).forM (step task) machine = .ok () last := by
  rw [forM_append]
  exact (andThen_of_ok runsFirst).trans runsSecond

theorem forM_instruction {event : Event} {offset : Nat}
    (steps : step task event { machine with offset } = .ok () next) :
    [.offset offset, event].forM (step task) machine = .ok () next :=
  (andThen_of_ok rfl).trans (andThen_of_ok steps)

namespace Shows

section

variable (shows : machine.Shows targets view)

include shows

theorem atOffset (offset : Nat) : { machine with offset }.Shows targets view :=
  ⟨shows.workspace, shows.current, shows.waiters, shows.targeted⟩

theorem withTop (value : Expr) (isPart : rest ⊆ (machine.workspace.stack view.path).items) :
    (machine.withTop view.path value rest).Shows targets
      ⟨view.path, value.shape :: rest.map Expr.shape, view.frames⟩ :=
  ⟨shows.workspace.withTop value isPart, shows.current, shows.waiters, shows.targeted⟩

theorem pushes (value : Expr) :
    ∃ next, push view.path value machine = .ok () next ∧
      next.Shows targets ⟨view.path, value.shape :: view.items, view.frames⟩ := by
  refine ⟨_, push_eq machine view.path value, ?_⟩
  have after := shows.withTop value (List.Subset.refl _)
  rwa [shows.workspace.items] at after

theorem loads (supplies : task.Supplies names typeOf?) {type : TypeSig}
    (isType : typeOf? slot = some type) :
    ∃ next, step task (.access .ldarg slot) machine = .ok () next ∧ next.Shows targets
        ⟨view.path, .mkParameter slot (names slot) type :: view.items, view.frames⟩ := by
  obtain ⟨node, loaded, isShape⟩ := supplies.argument isType machine
  obtain ⟨next, pushed, after⟩ := shows.pushes node
  refine ⟨next, ?_, isShape ▸ after⟩
  exact (onCurrent_eq _ shows.current).trans ((andThen_of_ok loaded).trans pushed)

end

/-- Arithmetic on two integers. -/
theorem computes {left right : Expr} {frames : List Frame}
    (shows : machine.Shows targets ⟨path, right :: left :: rest, frames⟩) (kind : Arithmetic)
    (leftType : left.type = .int32) (rightType : right.type = .int32)
    (leftValue : left.branch? = none) (rightValue : right.branch? = none) :
    ∃ next, step task (.plain kind.opcode) machine = .ok () next ∧
      next.Shows targets ⟨path, .mkBinary kind.operator left right .int32 :: rest, frames⟩ := by
  obtain ⟨consumer, isOperation⟩ := kind.stackOperation?_opcode
  obtain ⟨rightItem, others, isItems, rfl, isOthers⟩ := map_eq_cons_iff.1 shows.workspace.items
  obtain ⟨leftItem, below, rfl, rfl, rfl⟩ := map_eq_cons_iff.1 isOthers
  rw [Expr.type_shape] at leftType rightType
  rw [Expr.branch?_shape] at leftValue rightValue
  have builds : Expr.numeric kind.operator leftItem rightItem =
      .ok (.mkBinary kind.operator leftItem rightItem .int32) := by
    have isOperand : Expr.operandType leftItem rightItem = .int32 := by
      rw [Expr.operandType, leftType, rightType, if_pos rfl]
    unfold Expr.numeric
    rw [isOperand]
    dsimp only
    rw [Expr.coerce_of_type leftType, Expr.coerce_of_type rightType]
    rfl
  refine ⟨_, (step_plain shows.current isOperation).trans (binary_eq_ok.2
    ⟨rightItem, leftItem, below, _, isItems, rightValue, leftValue, builds, rfl⟩), ?_⟩
  refine shows.withTop _ ?_
  rw [isItems]
  exact fun item mem => .tail _ (.tail _ mem)

end Shows

/-- The machine after a fork of a path. -/
theorem forkAt_eq (machine : Machine) (label : Label) (path : StackId) (test : Expr) :
    let placed := machine.workspace.emission.place test
    let space : Workspace := { machine.workspace with emission := placed.2 }
    forkAt label path test machine = .ok () { machine with
      workspace := (space.forked path placed.1).withTop path (.mkBranch space.forks.length)
        (space.stack path).items
      waiters := machine.waiters ++ [(label, space.paths.length + 1)]
      current := some space.paths.length } := by
  intro placed space
  have isFork := space.fork_forked path placed.1
  refine (andThen_of_ok (work_of_ok (Workspace.newFork_eq ..))).trans ((andThen_of_ok rfl).trans ?_)
  refine (andThen_of_ok (push_eq ..)).trans ?_
  rw [isFork, Workspace.items_forked]
  rfl

namespace Shows

theorem forkAt (shows : machine.Shows targets view) (test : Expr) (isTarget : place ∈ targets) :
    ∃ next side branch sibling,
      forkAt (ofOffset place) view.path test machine = .ok () next ∧
      next.Shows targets ⟨side, [], ⟨branch, test.shape, view.path, view.items, sibling, place,
        none⟩ :: view.frames⟩ := by
  let placed := machine.workspace.emission.place test
  have isShape : placed.1.shape = test.shape := Expr.shape_place _ test
  have forked := (shows.workspace.withEmission placed.2 rfl rfl).fork placed.1 place
  rw [isShape] at forked
  refine ⟨_, _, _, _, forkAt_eq machine _ view.path test, forked, rfl, ?_, ?_⟩
  · rw [shows.waiters, reverse_cons, map_append]
    rfl
  · exact forall_mem_cons.2 ⟨isTarget, shows.targeted⟩

/-- A jump on a false condition forks the path. -/
theorem forks {name : String} {frames : List Frame}
    (shows : machine.Shows targets ⟨path, .mkParameter slot name .bool :: rest, frames⟩)
    (task : Task) (isTarget : place ∈ targets) :
    ∃ next side branch sibling, step task (.jump .brfalse (ofOffset place)) machine = .ok () next ∧
      next.Shows targets ⟨side, [], ⟨branch, .mkParameter slot name .bool, path, rest, sibling,
        place, none⟩ :: frames⟩ := by
  obtain ⟨test, below, isItems, isTest, rfl⟩ := map_eq_cons_iff.1 shows.workspace.items
  have isValue : test.branch? = none := by
    rw [← Expr.branch?_shape, isTest]
    rfl
  have noLiteral : test.jumpLiteral? = none := by
    cases test with
    | parameter => rfl
    | _ => cases isTest
  have isTrue : test.isTrue = .ok test := by
    have isType : test.type = .bool := by
      rw [← Expr.type_shape, isTest]
      rfl
    rw [Expr.isTrue, Expr.isBool_of_type isType, if_pos rfl]
  have pops : pop path "brfalse" machine = .ok test (machine.withItems path below) :=
    pop_eq_ok.2 ⟨below, isItems, isValue, rfl⟩
  have arePlaced : ∀ item ∈ below, item.id?.isSome = true := fun item mem =>
    shows.workspace.placed path item (isItems ▸ mem_cons_of_mem _ mem)
  have popped : (machine.withItems path below).Shows targets ⟨path, below.map Expr.shape, frames⟩ :=
    ⟨shows.workspace.withItems arePlaced, shows.current, shows.waiters, shows.targeted⟩
  obtain ⟨next, side, branch, sibling, forked, after⟩ := popped.forkAt test isTarget
  refine ⟨next, side, branch, sibling, ?_, isTest ▸ after⟩
  refine (onCurrent_eq _ shows.current).trans ((andThen_of_ok pops).trans ?_)
  rw [noLiteral]
  exact (andThen_of_ok (liftM_eq_ok.2 ⟨isTrue, rfl⟩)).trans forked

end Shows

/-- Some wait at a label, among others that wait elsewhere: they meet there in the order of parking,
the path that is followed last. -/
theorem arriveAt_of_waiters {label : Label} {early here late : List (Label × StackId)}
    {joined : StackId} {space : Workspace}
    (isWaiters : machine.waiters = early ++ (here ++ late))
    (elsewhere : ∀ waiter ∈ early ++ late, waiter.1 ≠ label) (atLabel : ∀ waiter ∈ here,
      waiter.1 = label ∧ (machine.workspace.stack waiter.2).isReduced = false)
    (nonempty : here ≠ [])
    (joins : Work.join label (here.map Prod.snd ++ machine.current.toList) machine.workspace =
      .ok joined space) :
    arriveAt label machine =
      .ok () { machine with workspace := space, waiters := early ++ late, current := some joined } := by
  have skips {others : List (Label × StackId)} (areOthers : ∀ waiter ∈ others, waiter.1 ≠ label) :
      (others.filterMap fun waiter =>
        if waiter.1 == label && !(machine.workspace.stack waiter.2).isReduced then some waiter.2
        else none) = [] := by
    refine filterMap_eq_nil_iff.2 fun waiter mem => ?_
    rw [if_neg (by simp [areOthers waiter mem])]
  have takes : (here.filterMap fun waiter =>
      if waiter.1 == label && !(machine.workspace.stack waiter.2).isReduced then some waiter.2
      else none) = here.map Prod.snd := by
    rw [← filterMap_eq_map]
    refine filterMap_congr fun waiter mem => ?_
    rw [if_pos (by simp [atLabel waiter mem])]
    rfl
  have meets : machine.meeting label = here.map Prod.snd ++ machine.current.toList := by
    rw [meeting, isWaiters, filterMap_append, filterMap_append, takes,
      skips fun waiter mem => elsewhere waiter (mem_append_left _ mem),
      skips fun waiter mem => elsewhere waiter (mem_append_right _ mem),
      append_nil, nil_append]
  have stays {others : List (Label × StackId)} (areOthers : ∀ waiter ∈ others, waiter.1 ≠ label) :
      (others.filter fun waiter => waiter.1 != label) = others :=
    filter_eq_self.2 fun waiter mem => bne_iff_ne.2 (areOthers waiter mem)
  have remaining : (machine.waiters.filter fun waiter => waiter.1 != label) = early ++ late := by
    have leaves : (here.filter fun waiter => waiter.1 != label) = [] :=
      filter_eq_nil_iff.2 fun waiter mem => by simp [(atLabel waiter mem).1]
    rw [isWaiters, filter_append, filter_append, leaves,
      stays fun waiter mem => elsewhere waiter (mem_append_left _ mem),
      stays fun waiter mem => elsewhere waiter (mem_append_right _ mem),
      nil_append]
  have waits : (machine.waiters.any fun waiter => waiter.1 == label) = true := by
    obtain ⟨first, rest, rfl⟩ := exists_cons_of_ne_nil nonempty
    rw [isWaiters]
    simp [(atLabel first mem_cons_self).1]
  rw [arriveAt_of_join waits (meets ▸ joins), remaining]

theorem waiter_ne {frame : Frame} (bounded : ∀ target ∈ targets, target < 2 ^ 32 - 1)
    (isTarget : place ∈ targets) (frameTarget : frame.place ∈ targets)
    (differs : frame.place ≠ place) : frame.waiter.1 ≠ ofOffset place := by
  have frameShort := bounded _ frameTarget
  have short := bounded _ isTarget
  exact fun same => differs ((ofOffset_eq_iff (by omega) (by omega)).1 same)

theorem forM_labelAt_of_not_mem (notTarget : place ∉ targets) :
    (labelAt targets place).forM (step task) machine = .ok () machine := by
  rw [labelAt, if_neg notTarget]
  rfl

theorem forM_labelAt (isTarget : place ∈ targets)
    (arrives : arriveAt (ofOffset place) machine = .ok () next) :
    (labelAt targets place).forM (step task) machine = .ok () next := by
  rw [labelAt, if_pos isTarget]
  exact andThen_of_ok arrives

namespace Shows

variable (bounded : ∀ target ∈ targets, target < 2 ^ 32 - 1)

include bounded in
theorem idle (shows : machine.Shows targets view) (task : Task) (place : Nat)
    (later : ∀ frame ∈ view.frames, place < frame.place) :
    (labelAt targets place).forM (step task) machine = .ok () machine := by
  by_cases isTarget : place ∈ targets
  · refine forM_labelAt isTarget (arriveAt_idle ?_)
    rw [shows.waiters, any_eq_false]
    intro waiter mem
    obtain ⟨frame, isFrame, rfl⟩ := mem_map.1 mem
    have isFrame := mem_reverse.1 isFrame
    rw [beq_iff_eq]
    exact waiter_ne bounded isTarget (shows.targeted frame isFrame) (Nat.ne_of_gt (later frame isFrame))
  · exact forM_labelAt_of_not_mem isTarget

include bounded in
/-- Where some code ends, its value is on top of what was there before. -/
theorem settles {final : View} (ends : View.Ends place view value final)
    (shows : machine.Shows targets final) (task : Task)
    (later : ∀ frame ∈ view.frames, place < frame.place) :
    ∃ next, (labelAt targets place).forM (step task) machine = .ok () next ∧
      next.Shows targets ⟨view.path, value :: view.items, view.frames⟩ := by
  obtain ⟨inner, isFrames, atPlace, merges⟩ := ends.joinAll
  obtain ⟨space, merged, after⟩ := merges shows.workspace (ofOffset place) []
  rw [append_nil] at merged
  have targeted : ∀ frame ∈ view.frames, frame.place ∈ targets := fun frame mem =>
    shows.targeted frame (isFrames ▸ mem_append_right _ mem)
  cases inner with
  | nil =>
    rw [nil_append] at isFrames
    obtain ⟨samePath, sameWorkspace⟩ := EStateM.Result.ok.inj merged
    refine ⟨machine, shows.idle bounded task place (isFrames ▸ later), ?_, ?_, ?_, targeted⟩
    · rwa [sameWorkspace]
    · rw [shows.current, samePath]
    · rw [shows.waiters, isFrames]
  | cons first rest =>
    have isTarget : place ∈ targets := by
      rw [← atPlace first mem_cons_self]
      exact shows.targeted first (isFrames ▸ mem_append_left _ mem_cons_self)
    have isWaiters : machine.waiters = view.frames.reverse.map Frame.waiter ++
        ((first :: rest).reverse.map Frame.waiter ++ []) := by
      rw [shows.waiters, isFrames, reverse_append, map_append, append_nil]
    have areElsewhere : ∀ waiter ∈ view.frames.reverse.map Frame.waiter ++ [],
        waiter.1 ≠ ofOffset place := by
      rw [append_nil]
      intro waiter mem
      obtain ⟨frame, isFrame, rfl⟩ := mem_map.1 mem
      have isFrame := mem_reverse.1 isFrame
      exact waiter_ne bounded isTarget (targeted frame isFrame) (Nat.ne_of_gt (later frame isFrame))
    have areHere : ∀ waiter ∈ (first :: rest).reverse.map Frame.waiter, waiter.1 = ofOffset place ∧
          (machine.workspace.stack waiter.2).isReduced = false := by
      intro waiter mem
      obtain ⟨frame, isFrame, rfl⟩ := mem_map.1 mem
      have isFrame := mem_reverse.1 isFrame
      refine ⟨congrArg ofOffset (atPlace frame isFrame), shows.workspace.active _ ?_⟩
      refine mem_cons_of_mem _ (mem_flatMap.2 ⟨frame, ?_, mem_cons_self⟩)
      rw [isFrames]
      exact mem_append_left _ isFrame
    have joins : Work.join (ofOffset place)
        (((first :: rest).reverse.map Frame.waiter).map Prod.snd ++ machine.current.toList)
        machine.workspace = .ok view.path space := by
      have isReversed : (((first :: rest).reverse.map Frame.waiter).map Prod.snd ++
          machine.current.toList).reverse = final.path :: (first :: rest).map Frame.sibling := by
        rw [shows.current, map_map, map_reverse, reverse_append, reverse_reverse]
        rfl
      rw [Work.join, isReversed]
      exact merged
    exact ⟨_, forM_labelAt isTarget
      (arriveAt_of_waiters isWaiters areElsewhere areHere (by simp) joins), after, rfl,
      append_nil _, targeted⟩

include bounded in
/-- Behind the true part of a choice the code goes to its end, and the false part begins. -/
theorem skips {side : StackId} {frame : Frame} {outer : List Frame} {finish : Nat}
    (shows : machine.Shows targets ⟨side, [value], frame :: outer⟩) (task : Task) (offset : Nat)
    (isOpen : frame.kept = none) (isTarget : finish ∈ targets) (isBefore : frame.place < finish)
    (later : ∀ other ∈ outer, frame.place < other.place) :
    ∃ next, ([Event.offset offset, .jump .br (ofOffset finish)] ++
        labelAt targets frame.place).forM (step task) machine = .ok () next ∧
      next.Shows targets ⟨frame.sibling, [],
        { frame with sibling := side, place := finish, kept := some value } :: outer⟩ := by
  let flipped : Frame := { frame with sibling := side, place := finish, kept := some value }
  let parked : Machine := { machine with
    offset, current := none, waiters := machine.waiters ++ [flipped.waiter] }
  have frameTarget := shows.targeted frame mem_cons_self
  have jumps : [.offset offset, .jump .br (ofOffset finish)].forM (step task) machine = .ok () parked :=
    forM_instruction (onCurrent_eq _ (shows.atOffset offset).current)
  have isWaiters : parked.waiters =
      outer.reverse.map Frame.waiter ++ ([frame.waiter] ++ [flipped.waiter]) := by
    change machine.waiters ++ [flipped.waiter] = _
    rw [shows.waiters, reverse_cons, map_append, append_assoc]
    rfl
  have elsewhere : ∀ waiter ∈ outer.reverse.map Frame.waiter ++ [flipped.waiter],
      waiter.1 ≠ ofOffset frame.place := by
    intro waiter mem
    rcases mem_append.1 mem with mem | mem
    · obtain ⟨other, isOther, rfl⟩ := mem_map.1 mem
      have isOther := mem_reverse.1 isOther
      exact waiter_ne bounded frameTarget (shows.targeted other (mem_cons_of_mem _ isOther))
        (Nat.ne_of_gt (later other isOther))
    · rw [mem_singleton.1 mem]
      exact waiter_ne bounded frameTarget isTarget (Nat.ne_of_gt isBefore)
  have atLabel : ∀ waiter ∈ [frame.waiter], waiter.1 = ofOffset frame.place ∧
      (parked.workspace.stack waiter.2).isReduced = false := by
    intro waiter mem
    rw [mem_singleton.1 mem]
    exact ⟨rfl, shows.workspace.active _ (mem_cons_of_mem _ mem_cons_self)⟩
  have arrives := arriveAt_of_waiters isWaiters elsewhere atLabel (cons_ne_nil _ _) rfl
  refine ⟨_, forM_of_ok jumps (forM_labelAt frameTarget arrives),
    shows.workspace.flip isOpen finish, rfl, ?_, ?_⟩
  · dsimp only
    rw [reverse_cons, map_append]
    rfl
  · exact forall_mem_cons.2 ⟨isTarget, fun other mem => shows.targeted other (mem_cons_of_mem _ mem)⟩

include bounded in
/-- The code of an expression leaves its tree on top of what was there before. -/
theorem runs {source : Source} {offset : Nat} (shows : machine.Shows targets view)
    (supplies : task.Supplies names typeOf?) (reads : source.Reads typeOf?)
    (keeps : source.keepsChoices = true) (targeted : source.Targeted targets offset)
    (later : ∀ frame ∈ view.frames, offset + source.size ≤ frame.place) :
    ∃ next final, (source.events targets offset).forM (step task) machine = .ok () next ∧
      next.Shows targets final ∧
      View.Ends (offset + source.size) view (source.tree names) final := by
  induction source generalizing offset machine view with
  | parameter slot =>
    obtain ⟨next, loaded, after⟩ := (shows.atOffset offset).loads supplies reads
    exact ⟨next, _, forM_instruction loaded, after, .here⟩
  | constant value =>
    obtain ⟨next, pushed, after⟩ := (shows.atOffset offset).pushes (.int value.toInt)
    refine ⟨next, _, forM_instruction ?_, after, .here⟩
    exact (onCurrent_eq _ (shows.atOffset offset).current).trans pushed
  | arithmetic kind left right leftIh rightIh =>
    rw [Source.keepsChoices, Bool.and_eq_true] at keeps
    rw [Source.size] at later
    obtain ⟨afterLeft, _, runsLeft, showsLeft, endsLeft⟩ := leftIh shows reads.1 keeps.1
      targeted.1 fun frame mem => Nat.le_trans (by omega) (later frame mem)
    obtain ⟨betweenParts, settlesLeft, showsLeft⟩ := settles bounded endsLeft showsLeft task
      fun frame mem => Nat.lt_of_lt_of_le (by omega) (later frame mem)
    obtain ⟨afterRight, _, runsRight, showsRight, endsRight⟩ := rightIh showsLeft reads.2
      keeps.2 targeted.2 fun frame mem => Nat.le_trans (by omega) (later frame mem)
    obtain ⟨behindParts, settlesRight, showsRight⟩ := settles bounded endsRight showsRight task
      fun frame mem => Nat.lt_of_lt_of_le (by omega) (later frame mem)
    obtain ⟨next, computed, after⟩ :=
      (showsRight.atOffset (offset + left.size + right.size)).computes kind left.type_tree
        right.type_tree left.branch?_tree right.branch?_tree
    exact ⟨next, _, forM_of_ok runsLeft (forM_of_ok settlesLeft (forM_of_ok runsRight
      (forM_of_ok settlesRight (forM_instruction computed)))), after, .here⟩
  | choice slot onTrue onFalse trueIh falseIh =>
    rw [Source.keepsChoices, Bool.and_eq_true, Bool.and_eq_true, Bool.not_eq_true'] at keeps
    obtain ⟨⟨notBoth, trueKeeps⟩, falseKeeps⟩ := keeps
    obtain ⟨testType, trueReads, falseReads⟩ := reads
    obtain ⟨behindTarget, finishTarget, trueTargeted, falseTargeted⟩ := targeted
    have isEnd : offset + (Source.choice slot onTrue onFalse).size =
        offset + 14 + onTrue.size + onFalse.size := by
      rw [Source.size]
      omega
    have falseSize := onFalse.size_pos
    rw [isEnd] at later ⊢
    have laterThan (place : Nat) (isBefore : place < offset + 14 + onTrue.size + onFalse.size) :
        ∀ frame ∈ view.frames, place < frame.place :=
      fun frame mem => Nat.lt_of_lt_of_le isBefore (later frame mem)
    -- The test is loaded, and the path forks on it.
    obtain ⟨afterTest, loaded, showsTest⟩ := (shows.atOffset offset).loads supplies testType
    have idleTest := showsTest.idle bounded task (offset + 4) (laterThan _ (by omega))
    obtain ⟨afterFork, side, branch, sibling, forked, showsFork⟩ :=
      (showsTest.atOffset (offset + 4)).forks task behindTarget
    have idleFork := showsFork.idle bounded task (offset + 9)
      (forall_mem_cons.2 ⟨by dsimp only; omega, laterThan _ (by omega)⟩)
    -- The true part is followed to its end.
    obtain ⟨afterTrue, _, runsTrue, showsTrue, endsTrue⟩ := trueIh showsFork trueReads
      trueKeeps trueTargeted (forall_mem_cons.2 ⟨by dsimp only; omega,
        fun frame mem => Nat.le_trans (by omega) (later frame mem)⟩)
    obtain ⟨behindTrue, settlesTrue, showsTrue⟩ := settles bounded endsTrue showsTrue task
      (forall_mem_cons.2 ⟨by dsimp only; omega, laterThan _ (by omega)⟩)
    obtain ⟨afterSkip, skipped, showsSkip⟩ := showsTrue.skips bounded task
      (offset + 9 + onTrue.size) rfl finishTarget (by dsimp only; omega)
      (laterThan _ (by dsimp only; omega))
    -- The false part ends where the choice does.
    obtain ⟨next, final, runsFalse, showsFalse, endsFalse⟩ := falseIh showsSkip falseReads
      falseKeeps falseTargeted (forall_mem_cons.2 ⟨Nat.le_refl _, later⟩)
    have ends := View.Ends.inside endsFalse rfl rfl rfl rfl (Source.separate_tree notBoth)
    refine ⟨next, final, ?_, showsFalse, ends⟩
    rw [Source.events]
    have skipFalse := forM_of_ok skipped runsFalse
    rw [append_assoc] at skipFalse
    exact forM_of_ok (forM_instruction loaded) (forM_of_ok idleTest (forM_of_ok
      (forM_instruction forked) (forM_of_ok idleFork (forM_of_ok runsTrue (forM_of_ok settlesTrue
        skipFalse)))))

include bounded in
/-- The last instruction returns the only value. -/
theorem returns (shows : machine.Shows targets ⟨path, [value], []⟩)
    (isInteger : value.type = .int32) (returnsInteger : task.returnType = .int32)
    (offset place : Nat) :
    ∃ next result, ([Event.offset offset, .plain .ret] ++ (Trace.labelAt targets place ++
        [Event.finish])).forM (step task) machine = .ok () next ∧
      next.workspace.emission.declarations = [] ∧
      next.workspace.emission.statements = [result] ∧ result.shape = value := by
  obtain ⟨item, isItem, rfl⟩ := map_eq_singleton_iff.1 shows.workspace.items
  let parked : Machine := { machine with
    offset, current := none, waiters := [(.finish, path)] }
  have leaves : [Event.offset offset, .plain .ret].forM (step task) machine = .ok () parked := by
    refine forM_instruction ((step_plain (shows.atOffset offset).current rfl).trans ?_)
    change EStateM.Result.ok () { machine with
      offset, current := none, waiters := machine.waiters ++ [(Label.finish, path)] } = _
    rw [shows.waiters]
    rfl
  have passes : (Trace.labelAt targets place).forM (step task) parked = .ok () parked := by
    by_cases isTarget : place ∈ targets
    · refine forM_labelAt isTarget (arriveAt_idle ?_)
      have notFinish : Label.finish ≠ Label.ofOffset place := by
        intro same
        have noOffset := offset?_ofOffset (bounded place isTarget)
        rw [← same] at noOffset
        cases noOffset
      simp [parked, notFinish]
    · exact forM_labelAt_of_not_mem isTarget
  rw [Expr.type_shape] at isInteger
  have isPlaced := shows.workspace.placed path item (isItem ▸ mem_singleton_self item)
  have isValue : item.isVoid = false := by
    rw [Expr.isVoid, isInteger]
    rfl
  let result := machine.workspace.emission.place item
  have completes : parked.workspace.emission.complete (parked.workspace.stack path).items.reverse
      task.returnType task.options.inlineTrailing = .ok { result.2 with statements := [result.1] } := by
    change machine.workspace.emission.complete (machine.workspace.stack path).items.reverse _ _ = _
    rw [isItem, reverse_singleton, returnsInteger,
      Emission.complete_singleton _ shows.workspace.statements isPlaced isValue rfl,
      Expr.coerce_of_type isInteger]
    rfl
  have isWaiting : parked.waiters = [(.finish, path)] := rfl
  have isAlone : parked.current = none := rfl
  have finishes := finish_single isWaiting isAlone (shows.workspace.active path mem_cons_self) completes
  refine ⟨_, result.1, forM_of_ok leaves (forM_of_ok passes (andThen_of_ok finishes)), ?_, rfl, ?_⟩
  · exact shows.workspace.declarations
  · exact Expr.shape_place _ item

end Shows

theorem opening_shows (targets : List Nat) (task : Task) (types : List TypeSig) (nextNode : Nat) :
    (opening task types nextNode).Shows targets ⟨0, [], []⟩ where
  workspace := {
    items := rfl
    inside := by simp [View.ids, opening]
    active := by simp [View.ids, opening, Workspace.stack]
    distinct := nodup_singleton 0
    hangs := rfl
    placed := fun id item mem => by
      rw [opening_items] at mem
      cases mem
    unassigned := opening_unassigned
    statements := rfl
    declarations := rfl }
  current := rfl
  waiters := rfl
  targeted := nofun

end Machine

/-- The name by which a parameter appears in trees. -/
def Method.parameterName (method : Method) (slot : Nat) : String :=
  match method.parameters[slot]? with
  | some parameter => if parameter.name.isEmpty then s!"arg{slot}" else parameter.name
  | none => ""

namespace Lifter

/-- The type of a parameter in the context of the lifting. -/
def parameterType? (lifter : Lifter) (method : Method) (slot : Nat) : Option TypeSig :=
  method.parameters[slot]?.map fun parameter => parameter.type.instantiate lifter.context

variable {lifter : Lifter} {method : Method}

/-- A static method without too many parameters is lifted on the nodes of its parameters. -/
theorem exists_rootTask_supplies (isStatic : method.isStatic = true)
    (fewParameters : method.parameters.length ≤ 65536) :
    ∃ task nextNode, lifter.rootTask method = .ok (task, nextNode) ∧
      task.Supplies method.parameterName (lifter.parameterType? method) ∧
      task.returnType = method.returnType.instantiate lifter.context := by
  obtain ⟨task, nextNode, prepared⟩ : ∃ task nextNode, lifter.rootTask method = .ok (task, nextNode) := by
    unfold rootTask prepare parameterNodes
    simp only [isStatic, if_true]
    rw [if_neg (by omega)]
    exact ⟨_, _, rfl⟩
  obtain ⟨noTarget, noArguments, isReturn, parameters⟩ := rootTask_static prepared isStatic
  refine ⟨task, nextNode, prepared, ⟨noTarget, noArguments, fun slot type isType => ?_⟩, isReturn⟩
  obtain ⟨parameter, isParameter, rfl⟩ := Option.map_eq_some_iff.1 isType
  obtain ⟨start, isNode⟩ := parameters slot
  rw [isParameter] at isNode
  refine ⟨_, isNode, (Expr.shape_place start _).trans ?_⟩
  rw [Method.parameterName, isParameter]
  rfl

/-- A run of all events gives the tree of the method. -/
theorem lift_of_runs {task : Task} {nextNode : Nat} {body : MethodBody} {events : List Event}
    {machine : Machine} (nests : 0 < lifter.nesting)
    (prepared : lifter.rootTask method = .ok (task, nextNode)) (isTrace : lifter.trace body =
      ⟨.code :: .locals body.maxStack (body.locals.map (TypeSig.instantiate lifter.context)) ::
        events, none⟩)
    (runs : events.forM (Machine.step task) (lifter.opening task nextNode body) = .ok () machine) :
    lifter.lift method body = .ok (treeOf task machine) := by
  have completed : lifter.runBody task nextNode body = .ok () machine := by
    unfold runBody Machine.runTrace
    rw [isTrace]
    exact andThen_of_ok runs
  rw [lift_eq, if_neg (ne_of_gt nests), prepared]
  dsimp only [bind, Except.bind]
  rw [completed]
  rfl

/-- The code of a structured expression, in a static method that returns an integer, is lifted to
the tree of the expression and needs no variable. Choices may stand in operands and in parts of
choices, and any number of them may end together. -/
theorem lift_compile_eq_tree (lifter : Lifter) (method : Method) (source : Source)
    {name : Nat → String} (distinct : Function.Injective name) (short : source.size + 1 < 2 ^ 31)
    (keeps : source.keepsChoices = true) (nests : 0 < lifter.nesting)
    (isStatic : method.isStatic = true) (fewParameters : method.parameters.length ≤ 65536)
    (returnsInteger : method.returnType.instantiate lifter.context = .int32)
    (reads : source.Reads (lifter.parameterType? method)) (maxStack : Nat)
    (locals : List TypeSig) :
    ∃ code tree, source.compile name = .ok code ∧ code.length = source.size + 1 ∧
      lifter.lift method ⟨code, maxStack, locals⟩ = .ok tree ∧ tree.declarations = [] ∧
      tree.body.shape = source.tree method.parameterName := by
  obtain ⟨code, targets, compiled, isLength, targeted, bounded, isTrace⟩ :=
    Source.exists_trace distinct short
  obtain ⟨task, nextNode, prepared, supplies, isReturn⟩ :=
    exists_rootTask_supplies isStatic fewParameters
  have opens := Machine.opening_shows targets task
    (locals.map (TypeSig.instantiate lifter.context)) nextNode
  have starts := opens.idle bounded task 0 nofun
  obtain ⟨afterCode, final, runs, showsCode, ends⟩ :=
    opens.runs bounded supplies reads keeps targeted nofun
  obtain ⟨settled, settles, showsTree⟩ := Machine.Shows.settles bounded ends showsCode task nofun
  obtain ⟨last, result, returns, noDeclarations, isResult, isShape⟩ := showsTree.returns bounded
    source.type_tree (isReturn.trans returnsInteger) source.size (source.size + 1)
  rw [zero_add] at settles
  refine ⟨code, treeOf task last, compiled, isLength, ?_, noDeclarations, ?_⟩
  · exact lift_of_runs nests prepared (isTrace lifter.resolver lifter.context maxStack locals)
      (Machine.forM_of_ok starts (Machine.forM_of_ok runs (Machine.forM_of_ok settles returns)))
  · unfold treeOf MethodTree.body
    rw [noDeclarations, isResult]
    exact isShape

/-- A method of two integers and two conditions. -/
def choosing : Method where
  token := ⟨0x06000001⟩
  name := "T"
  parameters := [⟨"a", .int32, false⟩, ⟨"b", .int32, false⟩, ⟨"p", .bool, false⟩, ⟨"q", .bool, false⟩]
  returnType := .int32
  flags := { isStatic := true }

/-- A choice with one in each part: an operand of a sum in the first, and the second part itself,
which ends where the outer choice does. -/
def nestedChoices : Source :=
  .choice 2 (.arithmetic .add (.parameter 0) (.choice 3 (.constant 1) (.parameter 1)))
    (.choice 3 (.constant 2) (.arithmetic .multiply (.parameter 0) (.constant 3)))

def tally (number : Nat) : String := String.ofList (replicate number 'l')

theorem tally_injective : Function.Injective tally := by
  intro first second same
  have sameLength := congrArg (fun name => name.toList.length) same
  simpa [tally] using sameLength

theorem nestedChoices_reconstructed :
    ∃ code tree, nestedChoices.compile tally = .ok code ∧ code.length = 72 ∧
      withoutMembers.lift choosing ⟨code, 8, [.int32]⟩ = .ok tree ∧ tree.declarations = [] ∧
      tree.body.shape = nestedChoices.tree choosing.parameterName ∧
      (nestedChoices.tree choosing.parameterName).text =
        "(p ? (a + (q ? 1 : b)) : (q ? 2 : (a * 3)))" := by
  obtain ⟨code, tree, compiled, isLength, lifted, noDeclarations, isShape⟩ :=
    lift_compile_eq_tree withoutMembers choosing nestedChoices
      tally_injective (by decide) rfl (by decide) rfl (by decide) rfl
      ⟨rfl, ⟨rfl, rfl, trivial, rfl⟩, rfl, trivial, rfl, trivial⟩ 8 [.int32]
  exact ⟨code, tree, compiled, isLength, lifted, noDeclarations, isShape, by rfl⟩

end Lifter

end CilLift
