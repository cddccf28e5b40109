import CilLift.Expr.Placement
import Mathlib.Algebra.Ring.Nat

/-! The nodes of a tree, and those that are evaluated with it. -/

namespace CilLift.Expr

open List

variable {expr node : Expr} {holds : Expr → Prop}

/-- The operands that are evaluated with a node: neither the body of a function nor the variable
that an assignment writes. -/
def operands : Expr → List Expr
  | .lambda .. => []
  | .assign _ target value => if target.isVar then [value] else [target, value]
  | other => other.children

mutual

/-- The nodes that are evaluated with a tree, the tree first. -/
def evaluated : Expr → List Expr
  | .constant header value => [.constant header value]
  | .parameter header slot name => [.parameter header slot name]
  | .var header number name => [.var header number name]
  | .branch header number => [.branch header number]
  | .unary header op operand => .unary header op operand :: operand.evaluated
  | .typeIs header operand tested => .typeIs header operand tested :: operand.evaluated
  | .binary header op left right =>
    .binary header op left right :: (left.evaluated ++ right.evaluated)
  | .conditional header test onTrue onFalse =>
    .conditional header test onTrue onFalse :: (test.evaluated ++ onTrue.evaluated ++ onFalse.evaluated)
  | .call header receiver method arguments =>
    .call header receiver method arguments :: (evaluatedReceiver receiver ++ evaluatedAll arguments)
  | .new header constructor arguments =>
    .new header constructor arguments :: evaluatedAll arguments
  | .field header receiver mem => .field header receiver mem :: evaluatedReceiver receiver
  | .index header items position =>
    .index header items position :: (items.evaluated ++ position.evaluated)
  | .array header elements => .array header elements :: evaluatedAll elements
  | .assign header target value =>
    .assign header target value :: ((if target.isVar then [] else target.evaluated) ++ value.evaluated)
  | .block header declarations statements =>
    .block header declarations statements :: evaluatedAll statements
  | .lambda header parameters body => [.lambda header parameters body]
  | .invoke header target arguments =>
    .invoke header target arguments :: (target.evaluated ++ evaluatedAll arguments)

def evaluatedReceiver : Option Expr → List Expr
  | none => []
  | some receiver => receiver.evaluated

def evaluatedAll : List Expr → List Expr
  | [] => []
  | expr :: rest => expr.evaluated ++ evaluatedAll rest

end

theorem evaluatedAll_eq (exprs : List Expr) : evaluatedAll exprs = exprs.flatMap evaluated := by
  induction exprs with
  | nil => rfl
  | cons expr rest ih => simp [evaluatedAll, ih]

theorem evaluatedReceiver_eq (receiver : Option Expr) :
    evaluatedReceiver receiver = receiver.toList.flatMap evaluated := by
  cases receiver <;> simp [evaluatedReceiver]

theorem evaluated_eq (expr : Expr) : expr.evaluated = expr :: expr.operands.flatMap evaluated := by
  cases expr <;> simp [evaluated, operands, children, evaluatedAll_eq, evaluatedReceiver_eq]
  case assign header target value => cases target.isVar <;> simp

theorem mem_children_of_mem_operands {operand : Expr} (mem : operand ∈ expr.operands) :
    operand ∈ expr.children := by
  unfold operands at mem
  split at mem
  · cases mem
  · split at mem <;> simp_all [children]
  · exact mem

theorem sizeOf_lt_of_mem_children {child : Expr} (mem : child ∈ expr.children) :
    sizeOf child < sizeOf expr := by
  have elements {items : List Expr} (inItems : child ∈ items) : sizeOf child < sizeOf items :=
    sizeOf_lt_of_mem inItems
  have receivers {receiver : Option Expr} (inReceiver : receiver = some child) :
      sizeOf child < sizeOf receiver := by
    subst inReceiver
    simp
  cases expr <;> simp [children] at mem
  case call header receiver method arguments =>
    rcases mem with found | found
    · have := receivers found; simp; omega
    · have := elements found; simp; omega
  case invoke header target arguments =>
    rcases mem with rfl | found
    · simp; omega
    · have := elements found; simp; omega
  case field header receiver name => have := receivers mem; simp; omega
  case new | array | block => have := elements mem; simp; omega
  case unary | typeIs | lambda => subst mem; simp; try omega
  case binary | index | assign => rcases mem with rfl | rfl <;> decreasing_tactic
  case conditional => rcases mem with rfl | rfl | rfl <;> decreasing_tactic

theorem operandsInduction {motive : Expr → Prop}
    (step : ∀ expr : Expr, (∀ operand ∈ expr.operands, motive operand) → motive expr)
    (expr : Expr) : motive expr :=
  step expr fun operand _ => operandsInduction step operand
termination_by sizeOf expr
decreasing_by exact sizeOf_lt_of_mem_children (mem_children_of_mem_operands ‹_›)

/-- A property holds of all nodes that are evaluated with a tree. -/
def Every (holds : Expr → Prop) (expr : Expr) : Prop :=
  ∀ node ∈ expr.evaluated, holds node

theorem every_iff : expr.Every holds ↔ holds expr ∧ ∀ operand ∈ expr.operands, operand.Every holds := by
  unfold Every
  rw [evaluated_eq]
  simp only [mem_cons, mem_flatMap, forall_eq_or_imp]
  constructor
  · rintro ⟨root, below⟩
    exact ⟨root, fun operand mem node inOperand => below node ⟨operand, mem, inOperand⟩⟩
  · rintro ⟨root, below⟩
    refine ⟨root, ?_⟩
    rintro node ⟨operand, mem, inOperand⟩
    exact below operand mem node inOperand

theorem Every.root (every : expr.Every holds) : holds expr :=
  (every_iff.1 every).1

theorem Every.mono {weaker : Expr → Prop} (every : expr.Every holds)
    (implies : ∀ node, holds node → weaker node) : expr.Every weaker :=
  fun node mem => implies node (every node mem)

theorem evaluated_trans {inner : Expr} (mem : node ∈ expr.evaluated)
    (below : inner ∈ node.evaluated) : inner ∈ expr.evaluated := by
  induction expr using operandsInduction with
  | step expr ih =>
    rw [evaluated_eq, mem_cons, mem_flatMap] at mem
    rcases mem with rfl | ⟨operand, isOperand, mem⟩
    · exact below
    · rw [evaluated_eq, mem_cons, mem_flatMap]
      exact .inr ⟨operand, isOperand, ih operand isOperand mem⟩

theorem Every.of_mem (every : expr.Every holds) (mem : node ∈ expr.evaluated) : node.Every holds :=
  fun inner below => every inner (evaluated_trans mem below)

theorem filterMap_evaluated {α : Type} (pick : Expr → Option α) (expr : Expr) :
    expr.evaluated.filterMap pick = (pick expr).toList ++ expr.operands.flatMap fun operand =>
        operand.evaluated.filterMap pick := by
  rw [evaluated_eq, filterMap_cons, filterMap_flatMap]
  cases pick expr <;> rfl

/-- The number of a variable. -/
def number? : Expr → Option Nat
  | .var _ number _ => some number
  | _ => none

/-- The node, if it is a variable. -/
def asVar? (expr : Expr) : Option Expr :=
  if expr.isVar then some expr else none

/-- The variable that a node assigns. -/
def target? : Expr → Option Expr
  | .assign _ target _ => target.asVar?
  | _ => none

/-- The variables that are read with a tree. -/
def reads (expr : Expr) : List Expr := expr.evaluated.filterMap asVar?

/-- The variables that are assigned with a tree. -/
def assigned (expr : Expr) : List Expr := expr.evaluated.filterMap target?

theorem reads_eq (expr : Expr) : expr.reads = expr.asVar?.toList ++ expr.operands.flatMap reads :=
  filterMap_evaluated asVar? expr

theorem assigned_eq (expr : Expr) :
    expr.assigned = expr.target?.toList ++ expr.operands.flatMap assigned :=
  filterMap_evaluated target? expr

theorem mem_reads : node ∈ expr.reads ↔ node ∈ expr.evaluated ∧ node.isVar = true := by
  simp only [reads, mem_filterMap, asVar?]
  constructor
  · rintro ⟨found, mem, isFound⟩
    split at isFound
    · cases isFound
      exact ⟨mem, ‹_›⟩
    · cases isFound
  · rintro ⟨mem, isVar⟩
    exact ⟨node, mem, if_pos isVar⟩

/-- Everything that stands right below a node, also the declarations of a block and the parameters of
a function. -/
def parts : Expr → List Expr
  | .block _ declarations statements => declarations ++ statements
  | .lambda _ parameters body => parameters ++ [body]
  | other => other.children

theorem nodesAll_eq (exprs : List Expr) : nodesAll exprs = exprs.flatMap nodes := by
  induction exprs with
  | nil => rfl
  | cons expr rest ih => simp [nodesAll, ih]

theorem nodesReceiver_eq (receiver : Option Expr) :
    nodesReceiver receiver = receiver.toList.flatMap nodes := by
  cases receiver <;> simp [nodesReceiver]

theorem nodes_eq (expr : Expr) : expr.nodes = expr :: expr.parts.flatMap nodes := by
  cases expr <;> simp [nodes, parts, children, nodesAll_eq, nodesReceiver_eq]

theorem mem_nodes_iff : node ∈ expr.nodes ↔ node = expr ∨ ∃ part ∈ expr.parts, node ∈ part.nodes := by
  rw [nodes_eq, mem_cons, mem_flatMap]

theorem sizeOf_lt_of_mem_parts {part : Expr} (mem : part ∈ expr.parts) : sizeOf part < sizeOf expr := by
  unfold parts at mem
  split at mem
  · rcases mem_append.1 mem with mem | mem
    · have := sizeOf_lt_of_mem mem
      simp only [block.sizeOf_spec]
      omega
    · have := sizeOf_lt_of_mem mem
      simp only [block.sizeOf_spec]
      omega
  · rcases mem_append.1 mem with mem | mem
    · have := sizeOf_lt_of_mem mem
      simp only [lambda.sizeOf_spec]
      omega
    · rw [mem_singleton] at mem
      simp only [mem, lambda.sizeOf_spec]
      omega
  · exact sizeOf_lt_of_mem_children mem

theorem partsInduction {motive : Expr → Prop}
    (step : ∀ expr : Expr, (∀ part ∈ expr.parts, motive part) → motive expr) (expr : Expr) :
    motive expr :=
  step expr fun part _ => partsInduction step part
termination_by sizeOf expr
decreasing_by exact sizeOf_lt_of_mem_parts ‹_›

theorem countP_nodes (picks : Expr → Bool) (expr : Expr) :
    expr.nodes.countP picks =
      (if picks expr then 1 else 0) + (expr.parts.map fun part => part.nodes.countP picks).sum := by
  rw [nodes_eq, countP_cons, countP_flatMap, add_comm]
  rfl

end CilLift.Expr
