import CilLift.Proofs.Confinement

/-!
Variables of a bound call. A call numbers and names its variables by itself, whatever the receiver and
the arguments use that it is given. If those use none of its numbers and names, no declaration takes a
variable of the caller over, and a trailing variable that is left out is one of the call.
-/

namespace CilLift

open List CilLift.Expr Machine Workspace

variable {symbol : Variable}

namespace Emission

variable {emission : Emission} {outer : List Variable}

/-- The variables of the caller have none of the numbers and names that have been given. -/
def Avoids (outer : List Variable) (emission : Emission) : Prop :=
  ∀ symbol ∈ outer, emission.nextVariable ≤ symbol.number ∧ symbol.name ∉ emission.names

theorem Made.name_mem (isMade : emission.Made symbol) : symbol.name ∈ emission.names :=
  mem_reverse.1 (mem_of_getElem? isMade)

theorem Confined.number_lt (confined : emission.Confined outer) (isMade : emission.Made symbol) :
    symbol.number < emission.nextVariable := by
  obtain ⟨below, -⟩ := List.getElem?_eq_some_iff.1 isMade
  rwa [length_reverse, confined.count] at below

theorem Confined.apart {own : Variable} (confined : emission.Confined outer)
    (avoids : emission.Avoids outer) (isMade : emission.Made own) (isOuter : symbol ∈ outer) :
    own.number ≠ symbol.number ∧ own.name ≠ symbol.name := by
  obtain ⟨above, isOther⟩ := avoids symbol isOuter
  have below := confined.number_lt isMade
  refine ⟨by omega, fun same => isOther ?_⟩
  rw [← same]
  exact isMade.name_mem

/-- A trailing `v = e; v` is turned into `e`, and nothing that is left uses the number of `v`. -/
structure Collapses (whole : Emission) (statements declarations : List Expr)
    (assigned read : Variable) : Prop where
  same : assigned.number = read.number
  trailing : ∃ earlier header target value last,
    target.variableOf? = some assigned ∧ last.variableOf? = some read ∧
      whole.statements = earlier ++ [.assign header target value, last] ∧
      statements = earlier ++ [value]
  undeclared : declarations = whole.declarations.filter fun node => !node.isVarNumbered assigned.number
  unused : ∀ statement ∈ statements, ∀ symbol ∈ statement.used, symbol.number ≠ assigned.number

theorem inlineTrailing_collapses (emission : Emission) :
    emission.inlineTrailing = emission ∨ ∃ assigned read,
      emission.Collapses emission.inlineTrailing.statements emission.inlineTrailing.declarations
        assigned read := by
  rcases emission.inlineTrailing_cases with
    same | ⟨earlier, header, target, number, name, value, last, lastName, isTrailing, unused, same⟩
  · exact .inl same
  · refine .inr ⟨⟨number, name⟩, ⟨number, lastName⟩, rfl, ?_, by rw [same], ?_⟩
    · exact ⟨earlier, header, .var target number name, value, .var last number lastName, rfl, rfl,
        isTrailing, by rw [same]⟩
    · intro statement mem symbol isUsed sameSymbol
      have found := any_of_used isUsed
      rw [sameSymbol] at found
      rw [same] at mem
      simp [unused statement mem] at found

namespace Collapses

variable {statements declarations : List Expr} {assigned read : Variable}
  (collapses : emission.Collapses statements declarations assigned read)

include collapses

theorem declared_subset : declarations.filterMap variableOf? ⊆ emission.declared := by
  rw [collapses.undeclared]
  exact (filter_sublist.filterMap _).subset

/-- What is left uses only what is still declared or comes from outside. -/
theorem within (confined : emission.Confined outer) {statement : Expr}
    (mem : statement ∈ statements) (isUsed : symbol ∈ statement.used) :
    symbol ∈ declarations.filterMap variableOf? ∨ symbol ∈ outer := by
  have isAllowed : emission.Allows outer symbol := by
    obtain ⟨earlier, header, target, value, last, isAssigned, -, wholeStatements, rfl⟩ :=
      collapses.trailing
    have areWithin := confined.statements
    rw [wholeStatements] at areWithin
    rcases mem_append.1 mem with isEarlier | isLast
    · exact areWithin statement (by simp [isEarlier]) symbol isUsed
    · rw [mem_singleton.1 isLast] at isUsed
      refine (within_iff.1 (areWithin (.assign header target value) (by simp))).2 value ?_ symbol isUsed
      show value ∈ (if target.isVar then [value] else [target, value])
      split <;> simp
  refine isAllowed.imp_left fun isDeclared => ?_
  obtain ⟨node, isNode, isVariable⟩ := mem_filterMap.1 isDeclared
  refine mem_filterMap.2 ⟨node, ?_, isVariable⟩
  rw [collapses.undeclared]
  refine mem_filter.2 ⟨isNode, ?_⟩
  have isOther := collapses.unused statement mem symbol isUsed
  cases node <;> cases isVariable
  simpa [isVarNumbered] using isOther

/-- If the caller's variables are apart, the variable that is left out is one of the call, unless the
caller's trees assign and read it themselves. -/
theorem origin (confined : emission.Confined outer) (avoids : emission.Avoids outer) :
    assigned = read ∧ assigned ∈ emission.declared ∨ assigned ∈ outer ∧ read ∈ outer := by
  obtain ⟨earlier, header, target, value, last, isAssigned, isRead, wholeStatements, -⟩ :=
    collapses.trailing
  have areWithin := confined.statements
  rw [wholeStatements] at areWithin
  have assignedAllowed : emission.Allows outer assigned := by
    refine (within_iff.1 (areWithin (.assign header target value) (by simp))).1 assigned ?_
    cases target <;> cases isAssigned
    simp [touched, target?, asVar?, isVar, variableOf?]
  have readAllowed : emission.Allows outer read := by
    refine (within_iff.1 (areWithin last (by simp))).1 read ?_
    simp [touched, isRead]
  rcases assignedAllowed with assignedDeclared | assignedOuter <;>
    rcases readAllowed with readDeclared | readOuter
  · have assignedMade := confined.made assigned assignedDeclared
    have readMade := confined.made read readDeclared
    unfold Made at assignedMade readMade
    rw [collapses.same, readMade, Option.some.injEq] at assignedMade
    exact .inl ⟨Variable.ext collapses.same assignedMade.symm, assignedDeclared⟩
  · exact absurd collapses.same
      (confined.apart avoids (confined.made assigned assignedDeclared) readOuter).1
  · exact absurd collapses.same.symm
      (confined.apart avoids (confined.made read readDeclared) assignedOuter).1
  · exact .inr ⟨assignedOuter, readOuter⟩

end Collapses

end Emission

/-- The variables of the caller stay what they are in a tree: no declaration has the number or the name
of one of them, whatever the statements use is either declared or the caller's, and a trailing variable
that has been left out was declared, unless the caller's trees assign and read it themselves. -/
structure MethodTree.Hygienic (outer : List Variable) (whole : Emission) (tree : MethodTree) : Prop where
  apart : ∀ own ∈ tree.declarations.filterMap variableOf?, ∀ symbol ∈ outer,
    own.number ≠ symbol.number ∧ own.name ≠ symbol.name
  uses : ∀ statement ∈ tree.statements, ∀ symbol ∈ statement.used,
    Xor (symbol ∈ tree.declarations.filterMap variableOf?) (symbol ∈ outer)
  collapses : (tree.statements = whole.statements ∧ tree.declarations = whole.declarations) ∨
    ∃ assigned read, whole.Collapses tree.statements tree.declarations assigned read ∧
      (assigned = read ∧ assigned ∈ whole.declared ∨ assigned ∈ outer ∧ read ∈ outer)

/-- The task without leaving out trailing variables. -/
def Task.uncollapsed (task : Task) : Task :=
  { task with options := { task.options with inlineTrailing := false } }

/-- The other task takes the same steps up to the end, where it may decide otherwise on a trailing
variable. -/
structure Task.Parallels (task other : Task) : Prop where
  step : ∀ event, event.isInner = true → step other event = step task event
  opening : ∀ types nextNode, opening other types nextNode = opening task types nextNode
  returnType : other.returnType = task.returnType

/-- What a task emits in the end. -/
def Task.emits (task : Task) (whole : Emission) : Emission :=
  if task.options.inlineTrailing then whole.inlineTrailing else whole

theorem Task.parallels_uncollapsed (task : Task) : task.Parallels task.uncollapsed where
  step event isInner := by
    cases event <;> first | rfl | cases isInner
  opening _ _ := rfl
  returnType := rfl

namespace Task.Parallels

variable {task other : Task} (parallels : task.Parallels other) {passed machine : Machine}

include parallels

theorem run {events : List Event} (areInner : ∀ event ∈ events, event.isInner = true) :
    events.forM (Machine.step other) = events.forM (Machine.step task) := by
  induction events with
  | nil => rw [List.forM, List.forM]
  | cons event rest ih =>
    have sameStep := parallels.step event (areInner event (by simp))
    have sameRest := ih fun event mem => areInner event (by simp [mem])
    rw [List.forM, List.forM, sameStep, sameRest]

/-- The end of a run leaves out a trailing variable from what it would have emitted otherwise. -/
theorem finish (finished : finish task passed = .ok () machine) :
    ∃ whole, finish other passed = .ok () { machine with
        workspace := { machine.workspace with emission := other.emits whole } } ∧
      machine.workspace.emission = task.emits whole := by
  obtain ⟨arrived, stack, emission, arrives, isCurrent, allReduced, completes, rfl⟩ :=
    finish_eq_ok finished
  rw [Emission.complete_eq] at completes
  obtain ⟨whole, isWhole, isEmission⟩ := exists_of_map completes
  refine ⟨whole, ?_, isEmission.symm⟩
  have noneLost : arrived.waiters.find? (fun waiter =>
      !(arrived.workspace.stack waiter.2).isReduced) = none := by
    rw [find?_eq_none]
    intro waiter mem
    simp [allReduced waiter mem]
  have gets : (get : Run Machine) arrived = .ok arrived arrived := rfl
  have lifts : (liftM (arrived.workspace.emission.complete
      (arrived.workspace.stack stack).items.reverse other.returnType other.options.inlineTrailing) :
        Run Emission) arrived = .ok (other.emits whole) arrived := by
    rw [Emission.complete_eq, parallels.returnType, isWhole]
    rfl
  unfold finish
  rw [andThen_of_ok arrives, andThen_of_ok gets]
  simp only [noneLost, isCurrent]
  refine (andThen_of_ok lifts).trans ?_
  rw [← isCurrent]
  rfl

theorem runBody {lifter : Lifter} {start : Nat} {body : MethodBody}
    (completed : lifter.runBody task start body = .ok () machine) :
    ∃ whole, lifter.runBody other start body = .ok () { machine with
        workspace := { machine.workspace with emission := other.emits whole } } ∧
      machine.workspace.emission = task.emits whole := by
  obtain ⟨inner, passed, areInner, isBody, steps, finished⟩ := Lifter.runBody_eq_ok completed
  obtain ⟨whole, otherFinished, isEmission⟩ := parallels.finish finished
  refine ⟨whole, ?_, isEmission⟩
  unfold Lifter.runBody
  rw [isBody]
  have runs : (inner ++ [Event.finish]).forM (Machine.step other) (Machine.opening other
      (body.locals.map (TypeSig.instantiate lifter.context)) start) = .ok () { machine with
        workspace := { machine.workspace with emission := other.emits whole } } := by
    rw [forM_append, parallels.run areInner, parallels.opening, andThen_of_ok steps]
    exact andThen_of_ok otherFinished
  exact andThen_of_ok runs

end Task.Parallels

namespace Lifter

variable {lifter : Lifter} {task : Task} {method : Method} {body : MethodBody} {start : Nat}
  {machine : Machine} {outer : List Variable}

/-- A run without leaving out trailing variables ends with its variables confined. -/
theorem runBody_confined (numbers : task.Numbers)
    (given : ∀ node, node ∈ task.parameters ++ task.target.toList ∨ some node ∈ task.arguments →
      node.occurring ⊆ outer)
    (completed : lifter.runBody task.uncollapsed start body = .ok () machine) :
    machine.workspace.emission.Confined outer := by
  have live : (confinement outer).Live (Machine.opening task.uncollapsed
      (body.locals.map (TypeSig.instantiate lifter.context)) start) :=
    ⟨confined_opening, fun _ _ => trivial, fun _ _ => trivial⟩
  have serves : (confinement outer).Serves task.uncollapsed := confinement_serves numbers given
  obtain ⟨arrived, stack, emission, confined, -, completes, rfl⟩ :=
    serves.runBody confinement_joins live completed
  refine (confined.emission.complete _ fun item mem => ?_).of_ok completes
  exact confined.onStack stack item (mem_reverse.1 mem)

/-- The tree of a run is hygienic if the caller's variables are apart from those of the run. -/
theorem treeOf_hygienic {whole : Emission} (confined : whole.Confined outer)
    (avoids : whole.Avoids outer) (isEmission : machine.workspace.emission =
      if task.options.inlineTrailing then whole.inlineTrailing else whole) :
    (treeOf task machine).Hygienic outer whole := by
  have exclusive {declarations : List Expr} {symbol : Variable}
      (included : declarations.filterMap variableOf? ⊆ whole.declared)
      (isAllowed : symbol ∈ declarations.filterMap variableOf? ∨ symbol ∈ outer) :
      Xor (symbol ∈ declarations.filterMap variableOf?) (symbol ∈ outer) := by
    refine xor_iff_or_and_not_and _ _ |>.2 ⟨isAllowed, ?_⟩
    rintro ⟨isDeclared, isOuter⟩
    exact (confined.apart avoids (confined.made symbol (included isDeclared)) isOuter).1 rfl
  have unchanged : machine.workspace.emission = whole → (treeOf task machine).Hygienic outer whole := by
    intro isWhole
    unfold treeOf
    rw [isWhole]
    exact {
      apart := fun own isDeclared symbol isOuter =>
        confined.apart avoids (confined.made own isDeclared) isOuter
      uses := fun statement mem symbol isUsed =>
        exclusive (Subset.refl _) (confined.statements statement mem symbol isUsed)
      collapses := .inl ⟨rfl, rfl⟩ }
  split at isEmission
  · rcases whole.inlineTrailing_collapses with isSame | ⟨assigned, read, collapses⟩
    · exact unchanged (isEmission.trans isSame)
    · unfold treeOf
      rw [isEmission]
      exact {
        apart := fun own isDeclared symbol isOuter =>
          confined.apart avoids (confined.made own (collapses.declared_subset isDeclared)) isOuter
        uses := fun statement mem symbol isUsed =>
          exclusive collapses.declared_subset (collapses.within confined mem isUsed)
        collapses := .inr ⟨assigned, read, collapses, collapses.origin confined avoids⟩ }
  · exact unchanged isEmission

/-- The variables that occur in a receiver and in arguments. -/
def givenVariables (target : Option Expr) (arguments : List Expr) : List Variable :=
  (target.toList ++ arguments).flatMap occurring

/-- What a task is given uses the variables of the receiver and the arguments only. -/
theorem prepare_occurring {nextNode : Nat} {target : Option Expr} {arguments : List Expr}
    {liftNested : NestedLift}
    (prepared : lifter.prepare nextNode method target arguments liftNested = .ok (task, start))
    (node : Expr)
    (isGiven : node ∈ task.parameters ++ task.target.toList ∨ some node ∈ task.arguments) :
    node.occurring ⊆ givenVariables target arguments := by
  intro symbol occurs
  rcases isGiven with isSymbol | isArgument
  · obtain ⟨nodes, areNodes, placed, -⟩ := prepare_symbols prepared
    rw [placed] at isSymbol
    obtain ⟨original, isOriginal, first, -, -, rfl⟩ :=
      exists_original (placedIn_placeAll nextNode nodes) isSymbol
    rw [occurring_place] at occurs
    rcases areNodes original isOriginal with ⟨slot, name, type, rfl⟩ | isTarget
    · cases occurs
    · exact mem_flatMap.2 ⟨original, by simp [isTarget], occurs⟩
  · obtain ⟨parameters, -, prepared⟩ := bind_eq_ok.1 prepared
    cases prepared
    obtain ⟨argument, isListed, isNode⟩ := mem_map.1 isArgument
    split at isNode
    · cases isNode
    · cases isNode
      exact mem_flatMap.2 ⟨node, by simp [isListed], occurs⟩

/-- What a call emits with identities from `nextNode` on if it leaves no trailing variable out. -/
def emittedFrom (lifter : Lifter) (depth nextNode : Nat) (method : Method) (body : MethodBody)
    (target : Option Expr) (arguments : List Expr) : Except Error Emission := do
  match depth with
  | 0 => throw .nestingLimit
  | depth + 1 =>
    let (task, start) ← lifter.prepare nextNode method target arguments
      fun nextNode method body target => lifter.liftFrom depth nextNode method body target []
    match lifter.runBody task.uncollapsed start body with
    | .error error _ => throw error
    | .ok _ machine => return machine.workspace.emission

/-- What the call for a method with a known receiver and known arguments emits if it leaves no trailing
variable out. -/
def emittedBound (lifter : Lifter) (method : Method) (body : MethodBody) (target : Option Expr)
    (arguments : List Expr) : Except Error Emission :=
  let (target, arguments, nextNode) := placeGiven target arguments
  lifter.emittedFrom lifter.nesting nextNode method body target arguments

/-- A lifted tree is hygienic where the emitted one avoids the given variables. -/
theorem liftFrom_hygienic {depth nextNode after : Nat} {target : Option Expr} {arguments : List Expr}
    {tree : MethodTree}
    (lifted : lifter.liftFrom depth nextNode method body target arguments = .ok (tree, after)) :
    ∃ whole, lifter.emittedFrom depth nextNode method body target arguments = .ok whole ∧
      (whole.Avoids (givenVariables target arguments) →
        tree.Hygienic (givenVariables target arguments) whole) := by
  cases depth with
  | zero => cases lifted
  | succ depth =>
    obtain ⟨⟨task, start⟩, prepared, lifted⟩ := bind_eq_ok.1 lifted
    have numbers : task.Numbers := by
      unfold Task.Numbers
      rw [(prepare_fields prepared).2.2.2.2.1]
      exact liftFrom_nextNode lifter depth []
    dsimp only at lifted
    cases completed : lifter.runBody task start body with
    | error error machine =>
      rw [completed] at lifted
      cases lifted
    | ok result machine =>
      rw [completed] at lifted
      cases lifted
      obtain ⟨whole, wholeCompleted, isEmission⟩ := task.parallels_uncollapsed.runBody completed
      have confined := runBody_confined numbers (prepare_occurring prepared) wholeCompleted
      refine ⟨whole, ?_, fun avoids => treeOf_hygienic confined avoids isEmission⟩
      refine bind_eq_ok.2 ⟨(task, start), prepared, ?_⟩
      dsimp only
      rw [wholeCompleted]
      rfl

theorem givenVariables_placed (target : Option Expr) (arguments : List Expr) :
    givenVariables (placeGiven target arguments).1 (placeGiven target arguments).2.1 =
      givenVariables target arguments := by
  have placed (next : Nat) (exprs : List Expr) :
      (placeAll next exprs).1.flatMap occurring = exprs.flatMap occurring := by
    induction exprs generalizing next with
    | nil => rfl
    | cons expr rest ih => simp [placeAll, flatMap_cons, ih, occurring_place]
  unfold givenVariables placeGiven
  rw [flatMap_append, flatMap_append, placed]
  congr 1
  cases target with
  | none => rfl
  | some receiver => exact placed _ [receiver]

/-- No call takes a variable of its caller for one of its own, the outermost call and those for
delegates alike, if the receiver and the arguments use none of the numbers and names that the call gives
to its variables. -/
theorem bound_variables_stay_apart (lifter : Lifter) (method : Method) (body : MethodBody)
    (target : Option Expr) (arguments : List Expr) :
    (∀ tree, lifter.liftBound method body target arguments = .ok tree →
      ∃ whole, lifter.emittedBound method body target arguments = .ok whole ∧
        (whole.Avoids (givenVariables target arguments) →
          tree.Hygienic (givenVariables target arguments) whole)) ∧
    ∀ depth nextNode tree after,
      lifter.liftFrom depth nextNode method body target arguments = .ok (tree, after) →
      ∃ whole, lifter.emittedFrom depth nextNode method body target arguments = .ok whole ∧
        (whole.Avoids (givenVariables target arguments) →
          tree.Hygienic (givenVariables target arguments) whole) := by
  refine ⟨fun tree lifted => ?_, fun _ _ _ _ lifted => liftFrom_hygienic lifted⟩
  obtain ⟨⟨tree, after⟩, lifted, isTree⟩ := bind_eq_ok.1 lifted
  cases isTree
  let given := placeGiven target arguments
  change lifter.liftFrom lifter.nesting given.2.2 method body given.1 given.2.1 = _ at lifted
  have hygienic := liftFrom_hygienic lifted
  rwa [givenVariables_placed] at hygienic

/-! A method that makes an object, which it drops, and returns its receiver. -/

def maker : Method where
  token := ⟨0x0A000001⟩
  name := "F"
  returnType := .object
  flags := { isStatic := true }

def receiverAfterCall : Method where
  token := ⟨0x06000001⟩
  name := "T"
  returnType := .object

/-- Makes an object, copies it, drops both and returns the receiver. -/
def callThenReceiver : MethodBody where
  code := [0x28, 0x01, 0x00, 0x00, 0x0a, 0x25, 0x26, 0x26, 0x02, 0x2a]

def withMaker : Lifter where
  resolver := { members := [(maker.token, .method maker)] : MetadataTables }.resolver

/-- A receiver that is the variable `W` of the given number. -/
def receiverNumbered (number : Nat) : Option Expr := some (.mkVar number "W" .object)

/-- Whether a statement is a variable, and which one it assigns. -/
def variablesOf (statement : Expr) : Option Variable × Option Variable :=
  (statement.variableOf?, statement.target?.bind variableOf?)

theorem receiver_numbered_one_stays :
    ∃ tree whole,
      withMaker.liftBound receiverAfterCall callThenReceiver (receiverNumbered 1) [] = .ok tree ∧
      withMaker.emittedBound receiverAfterCall callThenReceiver (receiverNumbered 1) [] = .ok whole ∧
      tree.text = "() => { V_0 = F(); W; }" ∧
      whole.Avoids (givenVariables (receiverNumbered 1) []) ∧
      tree.Hygienic (givenVariables (receiverNumbered 1) []) whole := by
  have lifts : (withMaker.liftBound receiverAfterCall callThenReceiver
      (receiverNumbered 1) []).map MethodTree.text = .ok "() => { V_0 = F(); W; }" := by
    decide +kernel
  have emits : (withMaker.emittedBound receiverAfterCall callThenReceiver
      (receiverNumbered 1) []).map (fun whole => (whole.nextVariable, whole.names)) =
        .ok (1, ["V_0"]) := by
    decide +kernel
  obtain ⟨tree, lifted, text⟩ := exists_of_map lifts
  obtain ⟨whole, emitted, hygienic⟩ := (bound_variables_stay_apart withMaker receiverAfterCall
    callThenReceiver (receiverNumbered 1) []).1 tree lifted
  rw [emitted] at emits
  obtain ⟨isCount, areNames⟩ := Prod.mk.inj (Except.ok.inj emits)
  have avoids : whole.Avoids (givenVariables (receiverNumbered 1) []) := by
    intro symbol isGiven
    have isReceiver : symbol = ⟨1, "W"⟩ := List.mem_singleton.1 isGiven
    rw [isCount, areNames, isReceiver]
    decide
  exact ⟨tree, whole, lifted, emitted, text, avoids, hygienic avoids⟩

/-- A variable of the caller with the number zero is taken for the first one of the call, and the
object that was to be dropped is returned instead. -/
theorem receiver_numbered_zero_is_lost :
    ∃ tree whole,
      withMaker.liftBound receiverAfterCall callThenReceiver (receiverNumbered 0) [] = .ok tree ∧
      withMaker.emittedBound receiverAfterCall callThenReceiver (receiverNumbered 0) [] = .ok whole ∧
      whole.declared = [⟨0, "V_0"⟩] ∧ tree.text = "() => F()" ∧
      ¬tree.Hygienic (givenVariables (receiverNumbered 0) []) whole := by
  have lifts : (withMaker.liftBound receiverAfterCall callThenReceiver
      (receiverNumbered 0) []).map (fun tree => (tree.text, tree.statements.length)) =
        .ok ("() => F()", 1) := by
    decide +kernel
  have emits : (withMaker.emittedBound receiverAfterCall callThenReceiver
      (receiverNumbered 0) []).map (fun whole => (whole.declared, whole.statements.map variablesOf)) =
        .ok ([⟨0, "V_0"⟩], [(none, some ⟨0, "V_0"⟩), (some ⟨0, "W"⟩, none)]) := by
    decide +kernel
  obtain ⟨tree, lifted, isTree⟩ := exists_of_map lifts
  obtain ⟨whole, emitted, isWhole⟩ := exists_of_map emits
  obtain ⟨text, isShort⟩ := Prod.mk.inj isTree
  obtain ⟨declared, statements⟩ := Prod.mk.inj isWhole
  refine ⟨tree, whole, lifted, emitted, declared, text, fun hygienic => ?_⟩
  rcases hygienic.collapses with ⟨same, -⟩ | ⟨assigned, read, collapses, origin⟩
  · have isLong := congrArg List.length statements
    rw [List.length_map, ← same, isShort] at isLong
    cases isLong
  · obtain ⟨earlier, header, written, value, last, isAssigned, isRead, split, -⟩ :=
      collapses.trailing
    rw [split, List.map_append] at statements
    have isFirst : earlier = [] := by
      have lengths := congrArg List.length statements
      simpa using lengths
    subst isFirst
    simp only [List.map_nil, List.nil_append, List.map_cons, variablesOf, List.cons.injEq,
      Prod.mk.injEq] at statements
    obtain ⟨⟨-, assigns⟩, ⟨reads, -⟩, -⟩ := statements
    cases isRead.symm.trans reads
    rcases origin with ⟨rfl, isDeclared⟩ | ⟨isOuter, -⟩
    · rw [declared] at isDeclared
      revert isDeclared
      decide
    · cases List.mem_singleton.1 isOuter
      cases written <;> cases isAssigned
      have sameVariable : (⟨0, "W"⟩ : Variable) = ⟨0, "V_0"⟩ := Option.some.inj assigns
      revert sameVariable
      decide

end Lifter

end CilLift
