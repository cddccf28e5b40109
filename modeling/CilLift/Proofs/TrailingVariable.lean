import CilLift.Proofs.Evaluation
import CilLift.Proofs.Hygiene
import CilLift.Proofs.MethodResult

/-!
Leaving out a trailing variable. Whether it is left out changes neither which methods can be lifted nor
what a lifted method does: the variable only hands on the value that takes its place, and nothing that
remains knows it.
-/

namespace CilLift

open List Machine

/-- What an evaluation works on: the contents of the variables by their numbers, everything outside the
method, and the calls, constructions, field reads and stores so far, with the values of their
operands. -/
structure Memory (σ α : Type) where
  contents : Nat → α
  outside : σ
  history : List (Expr × List α)

/-- How the single nodes are evaluated, given the values of their operands. What a node stands for may
depend on the variables, as for a function, and on all that is outside the method, and may change or
fail there. -/
structure World (ε σ α : Type) where
  truth : α → Bool
  perform : (Nat → α) → Expr → List α → EStateM ε σ α

abbrev Evaluation (ε σ α : Type) := EStateM ε (Memory σ α)

namespace World

variable {ε σ α : Type} (world : World ε σ α)

/-- Evaluates a node by itself and takes down what can be observed. -/
def act (node : Expr) (operands : List α) : Evaluation ε σ α α := fun memory =>
  let history := if node.isEffect then memory.history ++ [(node, operands)] else memory.history
  match world.perform memory.contents node operands memory.outside with
  | .ok value outside => .ok value { memory with outside, history }
  | .error error outside => .error error { memory with outside, history }

def assign (number : Nat) (value : α) : Evaluation ε σ α Unit :=
  modify fun memory => { memory with contents := Function.update memory.contents number value }

mutual

/-- Evaluates a tree, operands from left to right. -/
def evaluate : Expr → Evaluation ε σ α α
  | .var _ number _ => return (← get).contents number
  | .assign _ (.var _ number _) value => do
    let result ← evaluate value
    assign number result
    return result
  | .assign header target value => do
    let place ← evaluatePlace target
    let result ← evaluate value
    world.act (.assign header target value) (place ++ [result])
  | .conditional _ test onTrue onFalse => do
    if world.truth (← evaluate test) then evaluate onTrue else evaluate onFalse
  | .binary header op left right => do
    let first ← evaluate left
    if op.skips (world.truth first) then return first
    else world.act (.binary header op left right) [first, ← evaluate right]
  | .block header declarations statements => do
    match (← evaluateAll statements).getLast? with
    | some result => return result
    | none => world.act (.block header declarations statements) []
  | .unary header op operand => do world.act (.unary header op operand) [← evaluate operand]
  | .typeIs header operand tested => do
    world.act (.typeIs header operand tested) [← evaluate operand]
  | .call header receiver method arguments => do
    let operands := (← evaluateReceiver receiver) ++ (← evaluateAll arguments)
    world.act (.call header receiver method arguments) operands
  | .new header constructor arguments => do
    world.act (.new header constructor arguments) (← evaluateAll arguments)
  | .field header receiver mem => do
    world.act (.field header receiver mem) (← evaluateReceiver receiver)
  | .index header items position => do
    world.act (.index header items position) [← evaluate items, ← evaluate position]
  | .array header elements => do world.act (.array header elements) (← evaluateAll elements)
  | .invoke header target arguments => do
    let operands := (← evaluate target) :: (← evaluateAll arguments)
    world.act (.invoke header target arguments) operands
  | .constant header value => world.act (.constant header value) []
  | .parameter header slot name => world.act (.parameter header slot name) []
  | .branch header branch => world.act (.branch header branch) []
  | .lambda header parameters body => world.act (.lambda header parameters body) []

def evaluateReceiver : Option Expr → Evaluation ε σ α (List α)
  | none => return []
  | some receiver => do return [← evaluate receiver]

/-- Evaluates what determines the place that a value is stored into. -/
def evaluatePlace : Expr → Evaluation ε σ α (List α)
  | .field _ receiver _ => evaluateReceiver receiver
  | .index _ items position => do return [← evaluate items, ← evaluate position]
  | _ => return []

def evaluateAll : List Expr → Evaluation ε σ α (List α)
  | [] => return []
  | expr :: rest => do return (← evaluate expr) :: (← evaluateAll rest)

end

/-- Evaluates the statements of a method in order; the value of the last one is the result. -/
def runMethod (tree : MethodTree) : Evaluation ε σ α (Option α) := do
  return (← world.evaluateAll tree.statements).getLast?

theorem evaluateAll_append (first second : List Expr) :
    world.evaluateAll (first ++ second) = do
      return (← world.evaluateAll first) ++ (← world.evaluateAll second) := by
  induction first with
  | nil => simp [evaluateAll]
  | cons expr rest ih => simp [evaluateAll, ih]

end World

/-- The memories differ at most in the content of one variable. -/
def Memory.AgreesBut {σ α : Type} (number : Nat) (first second : Memory σ α) : Prop :=
  first.outside = second.outside ∧ first.history = second.history ∧
    ∀ other, other ≠ number → first.contents other = second.contents other

/-- Both evaluations have the same result or the same failure, and leave the same but for the content of
one variable. -/
def EndsAlike {ε σ α β : Type} (number : Nat) :
    EStateM.Result ε (Memory σ α) β → EStateM.Result ε (Memory σ α) β → Prop
  | .ok result memory, .ok result' memory' => result = result' ∧ memory.AgreesBut number memory'
  | .error error memory, .error error' memory' => error = error' ∧ memory.AgreesBut number memory'
  | _, _ => False

/-- The tree with what has been emitted, and a choice whether a trailing variable is left out. -/
def MethodTree.emitting (tree : MethodTree) (inlineTrailing : Bool) (whole : Emission) : MethodTree :=
  let emission := if inlineTrailing then whole.inlineTrailing else whole
  { tree with statements := emission.statements, declarations := emission.declarations }

/-- The tree is the whole one without a variable that is assigned and then returned, and that occurs
nowhere else. -/
structure MethodTree.LeavesOut (whole tree : MethodTree) (number : Nat) : Prop where
  same : tree = { whole with statements := tree.statements, declarations := tree.declarations }
  trailing : ∃ header node value earlier before after, node.number? = some number ∧
    whole.statements = earlier ++ [.assign header node value, node] ∧
    tree.statements = earlier ++ [value] ∧
    whole.declarations = before ++ node :: after ∧ tree.declarations = before ++ after
  nowhere : ∀ part ∈ tree.declarations ++ tree.statements, part.any (Expr.isVarNumbered number) = false

/-- A trailing variable is left out as a whole. -/
theorem MethodTree.leavesOut_emitting {whole : MethodTree} {emission : Emission}
    (isWhole : whole = whole.emitting false emission) (defined : emission.Defined) :
    whole.emitting true emission = whole ∨
      ∃ number, whole.LeavesOut (whole.emitting true emission) number := by
  rcases emission.inlineTrailing_cases with
    same | ⟨earlier, header, target, number, name, value, last, lastName, isTrailing, unused, same⟩
  · refine .inl (trans ?_ isWhole.symm)
    unfold emitting
    rw [same]
    rfl
  · obtain ⟨isDeclared, sameNode⟩ := defined.eq_of_trailing rfl rfl isTrailing rfl
    obtain ⟨before, after, isSplit⟩ := append_of_mem isDeclared
    have others : ∀ node ∈ before ++ after, node.any (Expr.isVarNumbered number) = false := by
      intro node mem
      have distinct := defined.distinct
      rw [isSplit, map_append, map_cons, nodup_middle, nodup_cons, ← map_append] at distinct
      have isOther : node.isVarNumbered number = false := by
        rw [Bool.eq_false_iff, Ne, Emission.isVarNumbered_iff]
        exact fun isNumbered => distinct.1 (mem_map.2 ⟨node, mem, isNumbered⟩)
      have declared : node ∈ emission.declarations := by
        rw [isSplit]
        exact perm_middle.symm.subset (mem_cons_of_mem _ mem)
      obtain ⟨own, isOwn⟩ := defined.numbered node declared
      cases node <;> cases isOwn
      exact isOther
    have isLeft : emission.inlineTrailing.declarations = before ++ after := by
      rw [same]
      rw [isSplit, filter_append, filter_cons_of_neg (by simp [Expr.isVarNumbered]),
        ← filter_append, filter_eq_self.2 fun node mem => ?_]
      have isOther := others node mem
      cases node <;> simp_all [Expr.any]
    refine .inr ⟨number, rfl, ⟨header, .var last number lastName, value, earlier, before, after, rfl,
      ?_, ?_, ?_, isLeft⟩, fun part mem => ?_⟩
    · rw [isWhole]
      exact sameNode ▸ isTrailing
    · exact congrArg Emission.statements same
    · rw [isWhole]
      exact isSplit
    · rcases mem_append.1 mem with isNode | isStatement
      · exact others part (isLeft ▸ isNode)
      · refine unused part ?_
        have statements : emission.inlineTrailing.statements = earlier ++ [value] :=
          congrArg Emission.statements same
        exact statements ▸ isStatement

/-- The variable only hands its value on. -/
theorem MethodTree.LeavesOut.endsAlike {whole tree : MethodTree} {number : Nat}
    (leavesOut : whole.LeavesOut tree number) {ε σ α : Type} (world : World ε σ α)
    (memory : Memory σ α) :
    EndsAlike number (world.runMethod whole memory) (world.runMethod tree memory) := by
  obtain ⟨header, node, value, earlier, -, -, isNumber, wholeStatements, treeStatements, -⟩ :=
    leavesOut.trailing
  obtain ⟨variableHeader, name, rfl⟩ : ∃ header name, node = .var header number name := by
    cases node <;> cases isNumber
    exact ⟨_, _, rfl⟩
  have wholeRun : world.runMethod whole = do
      let values ← world.evaluateAll earlier
      let result ← world.evaluate value
      World.assign number result
      return (values ++ [result, (← get).contents number]).getLast? := by
    simp [World.runMethod, wholeStatements, World.evaluateAll_append, World.evaluateAll, World.evaluate]
  have treeRun : world.runMethod tree = do
      let values ← world.evaluateAll earlier
      let result ← world.evaluate value
      return (values ++ [result]).getLast? := by
    simp [World.runMethod, treeStatements, World.evaluateAll_append, World.evaluateAll]
  rw [wholeRun, treeRun]
  cases ran : world.evaluateAll earlier memory with
  | error error stuck =>
    rw [andThen_of_error ran, andThen_of_error ran]
    exact ⟨rfl, rfl, rfl, fun _ _ => rfl⟩
  | ok values middle =>
    rw [andThen_of_ok ran, andThen_of_ok ran]
    cases valued : world.evaluate value middle with
    | error error stuck =>
      rw [andThen_of_error valued, andThen_of_error valued]
      exact ⟨rfl, rfl, rfl, fun _ _ => rfl⟩
    | ok result last =>
      rw [andThen_of_ok valued, andThen_of_ok valued]
      refine ⟨?_, rfl, rfl, fun other isOther => Function.update_of_ne isOther _ _⟩
      simp

namespace Task

/-- Where no delegate is followed, tasks take the same steps whatever they do with trailing variables and
delegates. -/
theorem parallels_alone {task : Task} (alone : task.options.inlineDelegates = false)
    (inlineTrailing : Bool) (liftNested : NestedLift) :
    task.Parallels { task with
      options := { task.options with inlineTrailing }
      liftNested } := by
  refine ⟨fun event isInner => ?_, fun _ _ => rfl, rfl⟩
  cases event with
  | method opcode method =>
    have constructs : ∀ constructor arguments, construct { task with
        options := { task.options with inlineTrailing }, liftNested } constructor arguments =
        construct task constructor arguments := by
      intro constructor arguments
      unfold construct delegateBody
      simp only [alone]
      rfl
    have calls : ∀ target arguments, invokeDelegate { task with
        options := { task.options with inlineTrailing }, liftNested } method target arguments =
        invokeDelegate task method target arguments := by
      intro target arguments
      unfold invokeDelegate capturedDelegate
      simp only [alone]
      rfl
    unfold step runMethod methodValue call
    simp [constructs, calls]
  | code | locals | finish => cases isInner
  | _ => rfl

end Task

namespace Lifter

variable {lifter : Lifter} {method : Method} {body : MethodBody}

/-- The lifter with a choice whether trailing variables are left out. -/
def inlining (lifter : Lifter) (inlineTrailing : Bool) : Lifter :=
  { lifter with options := { lifter.options with inlineTrailing } }

theorem rootTask_inlining {first : Bool} {task : Task} {start : Nat}
    (prepared : (lifter.inlining first).rootTask method = .ok (task, start)) (second : Bool) :
    task.options = (lifter.inlining first).options ∧
      ∃ liftNested, (lifter.inlining second).rootTask method = .ok ({ task with
        options := { task.options with inlineTrailing := second }
        liftNested }, start) := by
  obtain ⟨parameters, areParameters, prepared⟩ := bind_eq_ok.1 prepared
  cases prepared
  exact ⟨rfl, _, bind_eq_ok.2 ⟨parameters, areParameters, rfl⟩⟩

/-- What lifting emits is the same up to the choice in the end. -/
theorem lift_inlining (alone : lifter.options.inlineDelegates = false) {first : Bool}
    {tree : MethodTree} (lifted : (lifter.inlining first).lift method body = .ok tree)
    (second : Bool) :
    ∃ whole, tree = tree.emitting first whole ∧
      (lifter.inlining second).lift method body = .ok (tree.emitting second whole) := by
  have isNested : (lifter.inlining first).nesting ≠ 0 := by
    intro isZero
    rw [lift_eq, if_pos isZero] at lifted
    cases lifted
  obtain ⟨task, start, machine, prepared, completed, rfl⟩ := lift_eq_ok lifted
  obtain ⟨isOptions, liftNested, otherPrepared⟩ := rootTask_inlining prepared second
  have parallels := @Task.parallels_alone task (by rw [isOptions]; exact alone) second liftNested
  obtain ⟨whole, otherCompleted, isEmission⟩ := parallels.runBody completed
  refine ⟨whole, ?_, ?_⟩
  · rw [Task.emits, isOptions] at isEmission
    rw [treeOf, isEmission]
    rfl
  · rw [lift_eq, if_neg (show (lifter.inlining second).nesting ≠ 0 from isNested)]
    refine bind_eq_ok.2 ⟨_, otherPrepared, ?_⟩
    have runs : (lifter.inlining second).runBody _ start body = _ := otherCompleted
    dsimp only
    rw [runs]
    rfl

/-- Where no delegate is followed, the same methods can be lifted with trailing variables and without.
The trees are equal, or one leaves out a variable of the other that only hands on the result, and both
do the same. -/
theorem inlining_keeps_meaning (alone : lifter.options.inlineDelegates = false) (method : Method)
    (body : MethodBody) :
    ((∃ tree, (lifter.inlining true).lift method body = .ok tree) ↔
      ∃ whole, (lifter.inlining false).lift method body = .ok whole) ∧
    ∀ whole tree, (lifter.inlining false).lift method body = .ok whole →
      (lifter.inlining true).lift method body = .ok tree →
      tree = whole ∨ ∃ number, whole.LeavesOut tree number ∧
        ∀ (ε σ α : Type) (world : World ε σ α) memory,
          EndsAlike number (world.runMethod whole memory) (world.runMethod tree memory) := by
  refine ⟨⟨fun ⟨tree, lifted⟩ => ?_, fun ⟨whole, lifted⟩ => ?_⟩, fun whole tree lifted inlined => ?_⟩
  · obtain ⟨emission, -, other⟩ := lift_inlining alone lifted false
    exact ⟨_, other⟩
  · obtain ⟨emission, -, other⟩ := lift_inlining alone lifted true
    exact ⟨_, other⟩
  · obtain ⟨emission, isWhole, other⟩ := lift_inlining alone lifted true
    cases other.symm.trans inlined
    obtain ⟨roots, space, items, defining, tidy, isItem, completes, statements, declarations, -⟩ :=
      lift_completes lifted
    have defined := (tidy.complete isItem whole.returnType false).of_ok completes
    have sameDefined : emission.Defined := by
      replace statements := (congrArg MethodTree.statements isWhole).symm.trans statements
      replace declarations := (congrArg MethodTree.declarations isWhole).symm.trans declarations
      change emission.statements = _ at statements
      change emission.declarations = _ at declarations
      exact ⟨statements ▸ declarations ▸ defined.once, declarations ▸ defined.distinct,
        declarations ▸ defined.numbered, statements ▸ defined.ordered⟩
    refine (MethodTree.leavesOut_emitting isWhole sameDefined).imp_right fun ⟨number, leavesOut⟩ => ?_
    exact ⟨number, leavesOut, fun _ _ _ world memory => leavesOut.endsAlike world memory⟩

/-- Adds two integers by way of a local. -/
def sumInLocal : MethodBody where
  code := [0x02, 0x03, 0x58, 0x0a, 0x06, 0x2a]
  locals := [.int32]

/-- The local is left out of a sum. -/
theorem sumInLocal_keeps_meaning :
    let lifter : Lifter := {
      resolver := ({} : MetadataTables).resolver, options := { inlineDelegates := false } }
    ∃ whole tree, (lifter.inlining false).lift (.taking .int32 ["a", "b"]) sumInLocal = .ok whole ∧
      whole.text = "(a, b) => \x7b V_0 = (a + b); V_0; \x7d" ∧
      (lifter.inlining true).lift (.taking .int32 ["a", "b"]) sumInLocal = .ok tree ∧
      tree.text = "(a, b) => (a + b)" ∧
      ∃ number, whole.LeavesOut tree number ∧ ∀ (ε σ α : Type) (world : World ε σ α) memory,
          EndsAlike number (world.runMethod whole memory) (world.runMethod tree memory) := by
  intro lifter
  have wholeViewed : ((lifter.inlining false).lift (.taking .int32 ["a", "b"]) sumInLocal).map
      MethodTree.text = .ok "(a, b) => \x7b V_0 = (a + b); V_0; \x7d" := by
    decide +kernel
  have viewed : ((lifter.inlining true).lift (.taking .int32 ["a", "b"]) sumInLocal).map MethodTree.text =
      .ok "(a, b) => (a + b)" := by
    decide +kernel
  obtain ⟨whole, wholeLifted, wholeView⟩ := exists_of_map wholeViewed
  obtain ⟨tree, lifted, view⟩ := exists_of_map viewed
  refine ⟨whole, tree, wholeLifted, wholeView, lifted, view, ?_⟩
  refine ((@inlining_keeps_meaning lifter rfl (.taking .int32 ["a", "b"]) sumInLocal).2 whole tree
    wholeLifted lifted).resolve_left fun same => ?_
  rw [same, wholeView] at view
  exact absurd view (by decide)

end Lifter

end CilLift
