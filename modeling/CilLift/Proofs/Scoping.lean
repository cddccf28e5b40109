import CilLift.Proofs.Completion

/-!
The variables of a lifting. They are numbered from zero on and no two of them share a name, and what a
lifting produces uses only variables that it declares and those of the trees that it was given.
-/

namespace CilLift

open List CilLift.Expr Option Emission Nat Bool

variable {target node value : Expr} {own : Variable}

/-- A variable, as every node of it tells. -/
@[ext] structure Variable where
  number : Nat
  name : String
  deriving DecidableEq

namespace Expr

/-- The variable that a node stands for. -/
def variableOf? : Expr → Option Variable
  | .var _ number name => some ⟨number, name⟩
  | _ => none

/-- The variables that occur in a tree, also those of functions and declarations in it. -/
def occurring (expr : Expr) : List Variable := expr.nodes.filterMap variableOf?

/-- The variables that a node itself reads or assigns. -/
def touched (node : Expr) : List Variable :=
  node.variableOf?.toList ++ (node.target?.bind variableOf?).toList

/-- The variables that are read or assigned with a tree. -/
def used (expr : Expr) : List Variable := expr.evaluated.flatMap touched

variable (expr : Expr) (next : Nat)

theorem used_eq : expr.used = expr.touched ++ expr.operands.flatMap used := by
  unfold used
  rw [evaluated_eq, flatMap_cons, flatMap_assoc]

theorem variableOf?_place (expr : Expr) : (expr.place next).1.variableOf? = expr.variableOf? := by
  cases expr with
  | _ header => cases placed : header.id <;> simp [place, placed, variableOf?]

theorem touched_place (expr : Expr) : (expr.place next).1.touched = expr.touched := by
  have assigned : (expr.place next).1.target?.bind variableOf? = expr.target?.bind variableOf? := by
    have written (target : Expr) (start : Nat) :
        (target.place start).1.asVar?.bind variableOf? = target.asVar?.bind variableOf? := by
      unfold asVar?
      rw [isVar_place]
      split
      · exact variableOf?_place start target
      · rfl
    cases expr with
    | assign header target value =>
      cases placed : header.id with
      | some identity => simp [place, placed]
      | none => simpa [place, placed, target?] using written target next
    | _ header => cases placed : header.id <;> simp [place, placed, target?]
  unfold touched
  rw [variableOf?_place, assigned]

theorem occurring_eq : expr.occurring = expr.variableOf?.toList ++ expr.parts.flatMap occurring := by
  unfold occurring
  rw [nodes_eq, filterMap_cons, filterMap_flatMap]
  cases expr.variableOf? <;> rfl

theorem occurring_shape : expr.shape.occurring = expr.occurring := by
  induction expr using partsInduction with
  | step expr ih =>
    have sameRoot : expr.shape.variableOf? = expr.variableOf? := by
      cases expr <;> rfl
    rw [occurring_eq, occurring_eq expr, sameRoot, parts_shape, flatMap_map]
    congr 1
    exact flatMap_congr ih

theorem occurring_place (expr : Expr) : (expr.place next).1.occurring = expr.occurring := by
  rw [← occurring_shape, shape_place, occurring_shape]

variable {expr : Expr}

theorem touched_of_isPlain (isPlain : expr.isPlain = true) : expr.touched = [] := by
  cases expr <;> first | rfl | cases isPlain

theorem mem_children_of_target (isTarget : expr.target? = some target) : target ∈ expr.children := by
  cases expr with
  | assign header written value =>
    simp only [target?, asVar?] at isTarget
    split at isTarget <;> cases isTarget
    exact mem_cons_self
  | _ => cases isTarget

theorem mem_nodes_of_mem_evaluated (mem : node ∈ expr.evaluated) : node ∈ expr.nodes := by
  induction expr using operandsInduction with
  | step expr ih =>
    rw [evaluated_eq, mem_cons, mem_flatMap] at mem
    rw [mem_nodes_iff]
    rcases mem with rfl | ⟨operand, isOperand, mem⟩
    · exact .inl rfl
    · refine .inr ⟨operand, ?_, ih operand isOperand mem⟩
      have isChild := mem_children_of_mem_operands isOperand
      cases expr <;> simp_all [parts, children]

theorem mem_nodes_trans {expr inner : Expr} (mem : node ∈ expr.nodes)
    (below : inner ∈ node.nodes) : inner ∈ expr.nodes := by
  induction expr using partsInduction with
  | step expr ih =>
    rcases mem_nodes_iff.1 mem with rfl | ⟨part, isPart, mem⟩
    · exact below
    · exact mem_nodes_iff.2 (.inr ⟨part, isPart, ih part isPart mem⟩)

/-- What a tree uses occurs in it. -/
theorem occurring_of_used {symbol : Variable} (isUsed : symbol ∈ expr.used) :
    symbol ∈ expr.occurring := by
  obtain ⟨node, isEvaluated, isTouched⟩ := mem_flatMap.1 isUsed
  have isNode := mem_nodes_of_mem_evaluated isEvaluated
  unfold touched at isTouched
  rw [mem_append, mem_toList, mem_toList] at isTouched
  rcases isTouched with isRead | isAssigned
  · exact mem_filterMap.2 ⟨node, isNode, isRead⟩
  · obtain ⟨target, isTarget, isVariable⟩ := bind_eq_some_iff.1 isAssigned
    refine mem_filterMap.2 ⟨target, mem_nodes_trans isNode ?_, isVariable⟩
    refine mem_nodes_iff.2 (.inr ⟨target, ?_, mem_nodes_iff.2 (.inl rfl)⟩)
    have isChild := mem_children_of_target isTarget
    cases node <;> first | exact isChild | cases isTarget

variable (holds : Expr → Bool)

theorem anyOf_eq (exprs : List Expr) : anyOf holds exprs = exprs.any (any holds) := by
  induction exprs with
  | nil => rfl
  | cons expr rest ih => rw [anyOf, ih, any_cons]

theorem anyReceiver_eq (receiver : Option Expr) :
    anyReceiver holds receiver = receiver.toList.any (any holds) := by
  cases receiver <;> simp [anyReceiver]

theorem any_eq : expr.any holds = (holds expr || expr.children.any (any holds)) := by
  cases expr <;> simp [any, children, anyOf_eq, anyReceiver_eq, Bool.or_assoc]

/-- A search for the number of a variable finds it wherever the variable is used. -/
theorem any_of_used {symbol : Variable} (isUsed : symbol ∈ expr.used) :
    expr.any (isVarNumbered symbol.number) = true := by
  have found {node : Expr} (isNode : node.variableOf? = some symbol) :
      isVarNumbered symbol.number node = true := by
    cases node <;> cases isNode
    exact beq_self_eq_true _
  induction expr using operandsInduction with
  | step expr ih =>
    rw [used_eq, mem_append, mem_flatMap] at isUsed
    rw [any_eq, or_eq_true, List.any_eq_true]
    rcases isUsed with isTouched | ⟨operand, isOperand, isUsed⟩
    · unfold touched at isTouched
      rw [mem_append, mem_toList, mem_toList] at isTouched
      rcases isTouched with isRead | isAssigned
      · exact .inl (found isRead)
      · obtain ⟨target, isTarget, isVariable⟩ := bind_eq_some_iff.1 isAssigned
        refine .inr ⟨target, mem_children_of_target isTarget, ?_⟩
        rw [any_eq, found isVariable, Bool.true_or]
    · exact .inr ⟨operand, mem_children_of_mem_operands isOperand, ih operand isOperand isUsed⟩

/-- Everything that is used with a tree is allowed. -/
def Within (allowed : Variable → Prop) (expr : Expr) : Prop := ∀ symbol ∈ expr.used, allowed symbol

section Within

variable {allowed : Variable → Prop} {expr : Expr}

theorem within_iff : expr.Within allowed ↔
    (∀ symbol ∈ expr.touched, allowed symbol) ∧ ∀ operand ∈ expr.operands, operand.Within allowed := by
  unfold Within
  rw [used_eq]
  simp only [mem_append, mem_flatMap]
  constructor
  · intro isWithin
    exact ⟨fun symbol isTouched => isWithin symbol (.inl isTouched),
      fun operand isOperand symbol isUsed => isWithin symbol (.inr ⟨operand, isOperand, isUsed⟩)⟩
  · rintro ⟨root, below⟩ symbol (isTouched | ⟨operand, isOperand, isUsed⟩)
    · exact root symbol isTouched
    · exact below operand isOperand symbol isUsed

theorem Within.mono {wider : Variable → Prop} (isWithin : expr.Within allowed)
    (implies : ∀ symbol, allowed symbol → wider symbol) : expr.Within wider :=
  fun symbol isUsed => implies symbol (isWithin symbol isUsed)

theorem Within.place (isWithin : expr.Within allowed) (next : Nat) :
    (expr.place next).1.Within allowed := by
  have every : expr.Every fun node => ∀ symbol ∈ node.touched, allowed symbol :=
    fun node isNode symbol isTouched =>
      isWithin symbol (mem_flatMap.2 ⟨node, isNode, isTouched⟩)
  have placed : (expr.place next).1.Every fun node => ∀ symbol ∈ node.touched, allowed symbol := by
    refine every.place next (fun _ => id) fun node start within _ _ _ => ?_
    rw [touched_place]
    exact within.root
  intro symbol isUsed
  obtain ⟨node, isNode, isTouched⟩ := mem_flatMap.1 isUsed
  exact placed node isNode symbol isTouched

theorem closed_within (allowed : Variable → Prop) : Closed (Within allowed) where
  build expr _ isPlain below := by
    rw [within_iff, touched_of_isPlain isPlain]
    refine ⟨by simp, fun operand isOperand => ?_⟩
    exact below operand (mem_children_of_mem_operands isOperand)
  part expr isPlain isWithin operand isChild :=
    (within_iff.1 isWithin).2 operand (operands_of_isPlain isPlain ▸ isChild)

theorem within_assign {header : Header} (isVariable : target.variableOf? = some own)
    (isAllowed : allowed own) (isWithin : value.Within allowed) :
    (assign header target value).Within allowed := by
  cases target with
  | var targetHeader number name =>
    cases isVariable
    rw [within_iff]
    constructor
    · simp [touched, variableOf?, target?, asVar?, isVar, isAllowed]
    · simpa [operands, isVar] using isWithin
  | _ => cases isVariable

theorem within_store (isOther : target.isVar = false) (targetWithin : target.Within allowed)
    (valueWithin : value.Within allowed) : (mkAssign target value).Within allowed := by
  rw [within_iff]
  constructor
  · simp [mkAssign, touched, variableOf?, target?, asVar?, isOther]
  · simp [mkAssign, operands, isOther, targetWithin, valueWithin]

theorem within_of_untouched (untouched : expr.touched = []) (isLeaf : expr.operands = []) :
    expr.Within allowed := by
  rw [within_iff, untouched, isLeaf]
  simp

theorem within_of_variableOf? (isVariable : expr.variableOf? = some own) (isAllowed : allowed own) :
    expr.Within allowed := by
  cases expr with
  | var header number name =>
    cases isVariable
    rw [within_iff]
    simp [touched, variableOf?, target?, operands, children, isAllowed]
  | _ => cases isVariable

end Within

end Expr

namespace Emission

variable {emission : Emission}

/-- A name with a number tells the number. -/
theorem numbered_injective (stem : String) :
    Function.Injective fun number : Nat => stem ++ toString number := by
  intro first second same
  have sameText : stem.toList ++ first.repr.toList = stem.toList ++ second.repr.toList := by
    rw [← String.toList_append, ← String.toList_append]
    exact congrArg String.toList same
  have sameDigits := append_cancel_left sameText
  rw [toList_repr, toList_repr] at sameDigits
  rw [← @ofDigitChars_ten_toDigits first, sameDigits, ofDigitChars_ten_toDigits]

theorem temporaryName_injective (emission : Emission) : Function.Injective emission.temporaryName := by
  intro first second same
  have sameNumber := numbered_injective emission.stem same
  unfold numberAfter UInt64.size at sameNumber
  split at sameNumber <;> split at sameNumber <;> omega

theorem taken_of_stepsToFree {steps limit : Nat}
    (isTaken : emission.temporaryName (emission.stepsToFree steps limit) ∈ emission.names) :
    ∀ step ≤ limit, emission.temporaryName (steps + step) ∈ emission.names := by
  induction limit generalizing steps with
  | zero =>
    intro step isStep
    rw [le_zero.1 isStep]
    exact isTaken
  | succ limit ih =>
    rw [stepsToFree] at isTaken
    split at isTaken
    · rename_i isFirst
      intro step isStep
      cases step with
      | zero => exact contains_iff_mem.1 isFirst
      | succ step =>
        rw [add_comm step, ← add_assoc]
        exact ih isTaken step (by omega)
    · rename_i isFree
      exact absurd (contains_iff_mem.2 isTaken) isFree

theorem freshName_not_mem : emission.freshName.1 ∉ emission.names := by
  intro isTaken
  have taken := taken_of_stepsToFree isTaken
  let seen := (range (emission.names.length + 1)).map emission.temporaryName
  have distinct : seen.Nodup := nodup_range.map emission.temporaryName_injective
  have included : seen ⊆ emission.names := by
    intro name mem
    obtain ⟨step, isStep, rfl⟩ := mem_map.1 mem
    rw [← zero_add step]
    exact taken step (Nat.lt_succ_iff.1 (mem_range.1 isStep))
  have fewer := (distinct.subperm included).length_le
  simp only [seen, length_map, length_range] at fewer
  omega

theorem newVariable_free (emission : Emission) (name : String) (type : TypeSig) :
    ∃ given nextTemporary, given ∉ emission.names ∧ emission.newVariable name type =
      (.var { type, id := some emission.nextNode } emission.nextVariable given, { emission with
          names := given :: emission.names
          nextTemporary
          nextVariable := emission.nextVariable + 1
          nextNode := emission.nextNode + 1 }) := by
  unfold newVariable
  by_cases isTaken : emission.names.contains name = true
  · rw [if_pos isTaken]
    exact ⟨_, _, freshName_not_mem, rfl⟩
  · rw [if_neg isTaken]
    exact ⟨_, _, fun mem => isTaken (contains_iff_mem.2 mem), rfl⟩

/-- The variable has been made: its name is the one given with its number. -/
def Made (emission : Emission) (symbol : Variable) : Prop :=
  emission.names.reverse[symbol.number]? = some symbol.name

/-- The variables declared so far. -/
def declared (emission : Emission) : List Variable :=
  emission.declarations.filterMap variableOf?

/-- The variable is declared or comes from outside. -/
def Allows (outer : List Variable) (emission : Emission) (symbol : Variable) : Prop :=
  symbol ∈ emission.declared ∨ symbol ∈ outer

/-- No two variables share a name, those declared have been made, and the statements use only these
and what comes from outside. -/
structure Confined (outer : List Variable) (emission : Emission) : Prop where
  count : emission.names.length = emission.nextVariable
  distinct : emission.names.Nodup
  made : ∀ symbol ∈ emission.declared, emission.Made symbol
  statements : ∀ statement ∈ emission.statements, statement.Within (emission.Allows outer)

/-- What has been made and declared stays so. -/
structure Widens (before after : Emission) : Prop where
  declared : before.declared ⊆ after.declared
  made : ∀ symbol, before.Made symbol → after.Made symbol
  nextNode : before.nextNode ≤ after.nextNode

theorem Widens.refl (emission : Emission) : emission.Widens emission :=
  ⟨Subset.refl _, fun _ => id, le_refl _⟩

theorem Widens.trans {first second third : Emission} (before : first.Widens second)
    (after : second.Widens third) : first.Widens third where
  declared := Subset.trans before.declared after.declared
  made symbol isMade := after.made symbol (before.made symbol isMade)
  nextNode := le_trans before.nextNode after.nextNode

theorem Widens.allows {before after : Emission} {outer : List Variable}
    (widens : before.Widens after) (symbol : Variable) (isAllowed : before.Allows outer symbol) :
    after.Allows outer symbol :=
  isAllowed.imp_left fun isDeclared => widens.declared isDeclared

theorem Widens.of_same {before after : Emission} (declarations : after.declarations = before.declarations)
    (names : after.names = before.names) (nextNode : before.nextNode ≤ after.nextNode) :
    before.Widens after where
  declared symbol isDeclared := by rwa [Emission.declared, declarations]
  made symbol isMade := by rwa [Made, names]
  nextNode := nextNode

theorem widens_grow {nextNode : Nat} (grown : emission.nextNode ≤ nextNode) :
    emission.Widens { emission with nextNode } :=
  .of_same rfl rfl grown

theorem widens_place (expr : Expr) : emission.Widens (emission.place expr).2 :=
  widens_grow (expr.place_le emission.nextNode)

theorem widens_addVariable (node : Expr) : emission.Widens (emission.addVariable node) where
  declared := by
    unfold declared addVariable
    rw [filterMap_append]
    exact subset_append_left _ _
  made _ := id
  nextNode := le_refl _

theorem mem_declared_addVariable (isVariable : node.variableOf? = some own) :
    own ∈ (emission.addVariable node).declared := by
  unfold declared addVariable
  simp [isVariable]

namespace Confined

variable {outer : List Variable} (confined : emission.Confined outer) (name : String)

include confined

theorem grow (nextNode : Nat) : Confined outer { emission with nextNode } :=
  ⟨confined.count, confined.distinct, confined.made, confined.statements⟩

theorem relist (ledger : List Nat) : Confined outer { emission with ledger } :=
  ⟨confined.count, confined.distinct, confined.made, confined.statements⟩

theorem restate {statements : List Expr}
    (areWithin : ∀ statement ∈ statements, statement.Within (emission.Allows outer)) :
    Confined outer { emission with statements } :=
  ⟨confined.count, confined.distinct, confined.made, areWithin⟩

theorem addStatement {statement : Expr} (isWithin : statement.Within (emission.Allows outer)) :
    Confined outer (emission.addStatement statement) := by
  refine confined.restate fun found mem => ?_
  rcases mem_append.1 mem with earlier | isLast
  · exact confined.statements found earlier
  · rwa [mem_singleton.1 isLast]

theorem addVariable (isVariable : node.variableOf? = some own) (isMade : emission.Made own) :
    Confined outer (emission.addVariable node) where
  count := confined.count
  distinct := confined.distinct
  made := by
    unfold declared Emission.addVariable
    simp only [filterMap_append, mem_append]
    rintro symbol (earlier | isLast)
    · exact confined.made symbol earlier
    · have isOwn : symbol = own := by simpa [isVariable] using isLast
      rwa [isOwn]
  statements statement mem :=
    (confined.statements statement mem).mono (widens_addVariable node).allows

theorem freshName : Confined outer emission.freshName.2 :=
  ⟨confined.count, confined.distinct, confined.made, confined.statements⟩

/-- A new variable is none of those made before. -/
theorem newVariable (type : TypeSig) :
    Confined outer (emission.newVariable name type).2 ∧
      emission.Widens (emission.newVariable name type).2 ∧
      (emission.newVariable name type).2.declarations = emission.declarations ∧
      (emission.newVariable name type).1.id? = some emission.nextNode ∧
      emission.nextNode < (emission.newVariable name type).2.nextNode ∧
      ∃ own, (emission.newVariable name type).1.variableOf? = some own ∧
        (emission.newVariable name type).2.Made own := by
  obtain ⟨given, nextTemporary, isFree, isNew⟩ := emission.newVariable_free name type
  rw [isNew]
  have kept : ∀ symbol : Variable, emission.Made symbol →
      (given :: emission.names).reverse[symbol.number]? = some symbol.name := by
    intro symbol isMade
    obtain ⟨below, -⟩ := List.getElem?_eq_some_iff.1 isMade
    rw [reverse_cons, getElem?_append_left below]
    exact isMade
  refine ⟨⟨?_, ?_, ?_, confined.statements⟩, ⟨Subset.refl _, kept, le_succ _⟩, rfl, rfl,
    lt_succ_self _, ⟨emission.nextVariable, given⟩, rfl, ?_⟩
  · exact congrArg (· + 1) confined.count
  · exact nodup_cons.2 ⟨isFree, confined.distinct⟩
  · exact fun symbol isDeclared => kept symbol (confined.made symbol isDeclared)
  · unfold Made
    simp [← confined.count]

/-- A variable is declared when it is first read, if its assignment uses nothing else that is new. -/
theorem declare {assignment : Expr} (isVariable : node.variableOf? = some own)
    (isMade : emission.Made own)
    (isWithin : assignment.Within fun symbol => symbol = own ∨ emission.Allows outer symbol)
    (known : emission.isDeclared node = true → own ∈ emission.declared) :
    Confined outer (emission.declare node assignment) ∧
      emission.Widens (emission.declare node assignment) ∧
      own ∈ (emission.declare node assignment).declared := by
  unfold Emission.declare
  split
  · rename_i isDeclared
    exact ⟨confined, .refl emission, known isDeclared⟩
  · have widens : emission.Widens (emission.addVariable node) := widens_addVariable node
    have isOwn : own ∈ (emission.addVariable node).declared := mem_declared_addVariable isVariable
    refine ⟨(confined.addVariable isVariable isMade).addStatement ?_,
      widens.trans (.of_same rfl rfl (le_refl _)), isOwn⟩
    refine isWithin.mono ?_
    rintro symbol (rfl | isAllowed)
    · exact .inl isOwn
    · exact widens.allows symbol isAllowed

/-- A value may be bound to a new variable. -/
theorem bind (type : TypeSig) (isWithin : value.Within (emission.Allows outer)) :
    let (node, created) := emission.newVariable name type
    let (assignment, placed) := created.place (.mkAssign node value)
    Confined outer (placed.addVariable node) ∧ emission.Widens (placed.addVariable node) ∧
      node.Within ((placed.addVariable node).Allows outer) ∧
      assignment.Within ((placed.addVariable node).Allows outer) ∧
      placed.declarations = emission.declarations ∧ node.id? = some emission.nextNode ∧
      emission.nextNode < placed.nextNode := by
  obtain ⟨created, widens, sameDeclarations, isNext, isLater, own, isVariable, isMade⟩ :=
    confined.newVariable name type
  generalize emission.newVariable name type = result at *
  obtain ⟨node, after⟩ := result
  have placed := after.widens_place (.mkAssign node value)
  have isOwn : own ∈ ((after.place (.mkAssign node value)).2.addVariable node).declared :=
    mem_declared_addVariable isVariable
  have wider := (widens.trans placed).trans (widens_addVariable node)
  have assigns : (mkAssign node value).Within
      (((after.place (.mkAssign node value)).2.addVariable node).Allows outer) :=
    within_assign isVariable (.inl isOwn) (isWithin.mono wider.allows)
  exact ⟨(created.grow _).addVariable isVariable isMade, wider,
    within_of_variableOf? isVariable (.inl isOwn), assigns.place after.nextNode,
    sameDeclarations, isNext, lt_of_lt_of_le isLater placed.nextNode⟩

theorem materialize (isWithin : value.Within (emission.Allows outer)) :
    let (node, bound) := emission.materialize value name
    Confined outer bound ∧ emission.Widens bound ∧ node.Within (bound.Allows outer) ∧
      bound.declarations = emission.declarations ++ [node] ∧ node.id? = some emission.nextNode ∧
      emission.nextNode < bound.nextNode := by
  obtain ⟨bound, widens, node, assignment, sameDeclarations, isNext, isLater⟩ :=
    confined.bind name value.type isWithin
  exact ⟨((bound.addStatement assignment).relist _).relist _,
    widens.trans (.of_same rfl rfl (le_refl _)), node,
    congrArg (· ++ [_]) sameDeclarations, isNext, isLater⟩

/-! The completion of the statements. -/

theorem replaceWithVariable (statement : Expr) (isWithin : value.Within (emission.Allows outer)) :
    Confined outer (emission.replaceWithVariable statement value) := by
  obtain ⟨bound, -, node, assignment, -⟩ :=
    confined.freshName.bind emission.freshName.1 value.type isWithin
  refine bound.restate fun found mem => ?_
  rcases mem_append.1 mem with earlier | isLast
  · split at earlier
    · rcases mem_or_eq_of_mem_set earlier with earlier | rfl
      · exact bound.statements found earlier
      · exact assignment
    · exact bound.statements found earlier
  · rwa [mem_singleton.1 isLast]

theorem sortStatements : Confined outer emission.sortStatements :=
  confined.restate fun statement mem =>
    confined.statements statement ((perm_sortByKey _ _).mem_iff.1 mem)

theorem moveToEnd {statement : Expr} (isWithin : statement.Within (emission.Allows outer)) :
    Confined outer (emission.moveToEnd statement) := by
  refine confined.restate fun found mem => ?_
  rcases mem_append.1 mem with earlier | isLast
  · split at earlier
    · exact confined.statements found (mem_of_mem_eraseIdx earlier)
    · exact confined.statements found earlier
  · rwa [mem_singleton.1 isLast]

theorem restoreOrder {last : Expr} (isWithin : last.Within (emission.Allows outer)) :
    Confined outer (emission.restoreOrder last).2 :=
  restoreOrder_keeps confined.sortStatements (fun _ => confined.sortStatements.moveToEnd isWithin)
    fun _ => confined.sortStatements.replaceWithVariable last isWithin

theorem returnValue (returnType : TypeSig) (lastIndex : Nat) :
    Yields (fun _ => True) (emission.returnValue returnType lastIndex) (Confined outer) := by
  refine returnValue_yields returnType lastIndex (fun _ _ => trivial) ?_
  intro index value coerced isValue _ converted
  have isCoerced := ((closed_within _).yieldsOfOne (coerce_forms value returnType)
    (confined.statements value (mem_of_getElem? isValue))).of_ok converted
  have placed := confined.grow (coerced.place emission.nextNode).2
  have isPlaced := isCoerced.place emission.nextNode
  refine ⟨placed.replaceWithVariable value isPlaced, fun _ => placed.restate fun found mem => ?_⟩
  rcases mem_or_eq_of_mem_set mem with earlier | rfl
  · exact confined.statements found earlier
  · exact isPlaced

/-- The completed statements use only what is declared or comes from outside. -/
theorem complete {remaining : List Expr} (returnType : TypeSig)
    (areWithin : ∀ item ∈ remaining, item.Within (emission.Allows outer)) :
    Yields (fun _ => True) (emission.complete remaining returnType false) (Confined outer) := by
  have joined : Confined outer { emission with statements := emission.statements ++ remaining } := by
    refine confined.restate fun statement mem => ?_
    rcases mem_append.1 mem with earlier | isRemaining
    · exact confined.statements statement earlier
    · exact areWithin statement isRemaining
  refine complete_yields (fun _ _ => trivial) (fun _ _ => joined) ?_
    fun isInlined => absurd isInlined false_ne_true
  rintro last isLast restored rfl
  have restored := joined.restoreOrder (joined.statements last isLast)
  exact ⟨fun _ => restored, restored.returnValue returnType _⟩

end Confined

end Emission

end CilLift
