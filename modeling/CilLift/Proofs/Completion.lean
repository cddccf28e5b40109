import CilLift.Proofs.Definitions

/-!
The completion of a lifting keeps its variables in order: sorted statements assign a variable before
they read it, and neither the search for the result nor its conversion changes that.
-/

namespace CilLift

open List CilLift.Expr Emission Nat

variable {statement expr result : Expr} {target : TypeSig}

/-- Every statement reads only variables that have been seen or that statements before it assign. -/
def Ordered : List Expr → List Expr → Prop
  | _, [] => True
  | seen, statement :: rest =>
    (∀ node ∈ statement.reads, node ∈ seen) ∧ Ordered (seen ++ statement.assigned) rest

namespace Ordered

variable {seen more first second : List Expr}

theorem mono (ordered : Ordered seen first) (included : ∀ node ∈ seen, node ∈ more) :
    Ordered more first := by
  induction first generalizing seen more with
  | nil => trivial
  | cons statement rest ih =>
    refine ⟨fun node isRead => included node (ordered.1 node isRead), ih ordered.2 fun node mem => ?_⟩
    exact mem_append.2 ((mem_append.1 mem).imp_left (included node))

theorem append_iff : Ordered seen (first ++ second) ↔
    Ordered seen first ∧ Ordered (seen ++ first.flatMap assigned) second := by
  induction first generalizing seen with
  | nil => simp [Ordered]
  | cons statement rest ih =>
    rw [cons_append, Ordered, Ordered, ih, flatMap_cons, append_assoc, and_assoc]

theorem replace {other : Expr} (ordered : Ordered seen (first ++ statement :: second))
    (sameReads : other.reads = statement.reads)
    (sameAssigned : other.assigned = statement.assigned) :
    Ordered seen (first ++ other :: second) := by
  rw [append_iff, Ordered] at ordered ⊢
  rwa [sameReads, sameAssigned]

theorem of_splits (splits : ∀ before statement after, first = before ++ statement :: after →
    ∀ node ∈ statement.reads, node ∈ before.flatMap assigned) : Ordered [] first := by
  have general : ∀ before rest, first = before ++ rest → Ordered (before.flatMap assigned) rest := by
    intro before rest split
    induction rest generalizing before with
    | nil => trivial
    | cons statement rest ih =>
      refine ⟨splits before statement rest split, ?_⟩
      have next := ih (before ++ [statement]) (by simp [split])
      simpa using next
  exact general [] first rfl

theorem reads (ordered : Ordered [] (first ++ statement :: second)) :
    ∀ node ∈ statement.reads, node ∈ first.flatMap assigned := by
  have later := (append_iff.1 ordered).2
  simpa using later.1

theorem reads_of_mem (ordered : Ordered [] first) (mem : statement ∈ first) :
    ∀ node ∈ statement.reads, node ∈ first.flatMap assigned := by
  obtain ⟨before, after, rfl⟩ := append_of_mem mem
  intro node isRead
  simp [ordered.reads node isRead]

end Ordered

/-- No statement that assigns shares its identity with another. -/
def Apart (statements : List Expr) : Prop :=
  statements.Pairwise fun first second =>
    first.assigned ≠ [] ∨ second.assigned ≠ [] → first.id? ≠ second.id?

theorem Apart.perm_iff {first second : List Expr} (perm : first.Perm second) :
    Apart first ↔ Apart second :=
  perm.pairwise_iff fun apart assigns => (apart assigns.symm).symm

namespace Emission

/-- The statements assign the declared variables once, and their nodes are accounted for. -/
structure Accounted (emission : Emission) : Prop where
  once : (emission.statements.flatMap assigned).Perm emission.declarations
  distinct : (emission.declarations.map number?).Nodup
  numbered : ∀ node ∈ emission.declarations, ∃ number, node.number? = some number ∧
    number < emission.nextVariable
  settled : ∀ statement ∈ emission.statements, statement.Every Expr.Settled
  bounded : ∀ statement ∈ emission.statements, ∀ identity, statement.id? = some identity →
    identity < emission.nextNode
  placed : ∀ statement ∈ emission.statements, statement.id? = none →
    statement.isVoid = true ∧ statement.isSymbol = false
  apart : Apart emission.statements

/-- The statements are accounted for, and each reads only what was assigned before it. -/
structure Sequenced (emission : Emission) : Prop extends Accounted emission where
  ordered : Ordered [] emission.statements

/-- The variables are assigned once, before they are read. -/
structure Defined (emission : Emission) : Prop where
  once : (emission.statements.flatMap assigned).Perm emission.declarations
  distinct : (emission.declarations.map number?).Nodup
  numbered : ∀ node ∈ emission.declarations, ∃ number, node.number? = some number
  ordered : Ordered [] emission.statements

variable {emission : Emission}

theorem Sequenced.defined (sequenced : emission.Sequenced) : emission.Defined where
  once := sequenced.once
  distinct := sequenced.distinct
  numbered node mem := (sequenced.numbered node mem).imp fun _ => And.left
  ordered := sequenced.ordered

/-- A statement is last found at itself or, if it assigns nothing, at another one that assigns
nothing either. -/
theorem Sequenced.exists_found (sequenced : emission.Sequenced)
    (mem : statement ∈ emission.statements) (isPlaced : statement.id?.isSome = true) :
    ∃ before found after, emission.statements = before ++ found :: after ∧
      lastIndexWhere? (isSame statement) emission.statements = some before.length ∧
      found.id? = statement.id? ∧ found.assigned = statement.assigned ∧
      ∀ node ∈ statement.reads, node ∈ before.flatMap assigned := by
  have isSelf : isSame statement statement = true := by simp [isSame, isPlaced]
  obtain ⟨before, found, after, split, isFound, noneLater⟩ := exists_last ⟨statement, mem, isSelf⟩
  have same : found.id? = statement.id? := by
    simp only [isSame, Bool.and_eq_true, beq_iff_eq] at isFound
    exact isFound.2.symm
  refine ⟨before, found, after, split, ?_, same, ?_⟩
  · rw [split]
    exact lastIndexWhere?_of_split isFound noneLater
  have ordered := sequenced.ordered
  have apart := sequenced.apart
  rw [split] at mem ordered apart
  rcases mem_append.1 mem with isBefore | isRest
  · obtain ⟨earlier, between, rfl⟩ := append_of_mem isBefore
    have differ := (pairwise_append.1 apart).2.2 statement isBefore found (by simp)
    have unassigned : statement.assigned = [] ∧ found.assigned = [] := by
      by_contra assigns
      refine differ ?_ same.symm
      by_contra neither
      exact assigns (by simpa using neither)
    refine ⟨by rw [unassigned.1, unassigned.2], fun node isRead => ?_⟩
    rw [append_assoc] at ordered
    simp [ordered.reads node isRead]
  · rcases mem_cons.1 isRest with rfl | isLater
    · exact ⟨rfl, ordered.reads⟩
    · rw [noneLater statement isLater] at isSelf
      cases isSelf

/-- Replacing a statement by the assignment of its value to a new variable. -/
theorem replaceWithVariable_eq {value : Expr} {before after : List Expr} {found : Expr}
    (split : emission.statements = before ++ found :: after)
    (isFound : lastIndexWhere? (isSame statement) emission.statements = some before.length)
    (isPlaced : value.id?.isSome = true) :
    ∃ (given : String) (node assignment : Expr),
      node = .var { type := value.type, id := some emission.nextNode } emission.nextVariable given ∧
      assignment = .assign { type := value.type, id := some (emission.nextNode + 1) } node value ∧
      (emission.replaceWithVariable statement value).statements =
        before ++ assignment :: after ++ [node] ∧
      (emission.replaceWithVariable statement value).declarations = emission.declarations ++ [node] ∧
      (emission.replaceWithVariable statement value).nextVariable = emission.nextVariable + 1 ∧
      (emission.replaceWithVariable statement value).nextNode = emission.nextNode + 2 := by
  obtain ⟨given, names, nextTemporary, isNew⟩ :=
    emission.freshName.2.newVariable_eq emission.freshName.1 value.type
  unfold replaceWithVariable
  dsimp only
  rw [isNew]
  dsimp only [addVariable]
  rw [place_mkAssign _ rfl isPlaced]
  have sameStatements : emission.freshName.2.statements = emission.statements := rfl
  rw [sameStatements, isFound]
  refine ⟨given, _, _, rfl, rfl, ?_, rfl, rfl, rfl⟩
  simp only [split, set_append, lt_irrefl, Nat.sub_self]
  rfl

/-- The value of a statement may be bound to a new variable in its place and returned at the end. -/
theorem Sequenced.replaceWithVariable (sequenced : emission.Sequenced) {value : Expr}
    (mem : statement ∈ emission.statements) (isPlaced : statement.id?.isSome = true)
    (valuePlaced : value.id?.isSome = true) (sameReads : value.reads = statement.reads)
    (sameAssigned : value.assigned = statement.assigned) (settled : value.Every Settled) :
    (emission.replaceWithVariable statement value).Sequenced := by
  obtain ⟨before, found, after, split, isFound, -, assigned, reads⟩ :=
    sequenced.exists_found mem isPlaced
  obtain ⟨given, node, assignment, isNode, isAssignment, newStatements, newDeclarations,
    nextVariable, nextNode⟩ := replaceWithVariable_eq split isFound valuePlaced
  have nodePlaced : node.id? = some emission.nextNode := by rw [isNode]; rfl
  have assignmentPlaced : assignment.id? = some (emission.nextNode + 1) := by
    rw [isAssignment]
    rfl
  have isVar : node.isVar = true := by rw [isNode]; rfl
  have nodeOperands : node.operands = [] := by rw [isNode]; rfl
  have assignmentOperands : assignment.operands = [value] := by
    rw [isAssignment, isNode]
    rfl
  have nodeReads : node.reads = [node] := by
    simp [reads_eq, asVar?, isVar, nodeOperands]
  have nodeAssigned : node.assigned = [] := by
    rw [isNode]
    rfl
  have assignmentReads : assignment.reads = statement.reads := by
    rw [reads_eq, assignmentOperands, ← sameReads, isAssignment]
    simp [asVar?, Expr.isVar]
  have assignmentAssigned : assignment.assigned = node :: found.assigned := by
    rw [assigned_eq, assignmentOperands, assigned, ← sameAssigned, isAssignment]
    simp [target?, asVar?, isVar]
  have ordered := sequenced.ordered
  have once := sequenced.once
  have apart := sequenced.apart
  rw [split] at ordered once apart
  rw [Ordered.append_iff] at ordered
  have others : ∀ other, other ∈ before ++ after → other ∈ emission.statements := by
    intro other isOther
    rw [split]
    exact (mem_append.1 isOther).elim (fun left => by simp [left]) fun right => by simp [right]
  have fresh : ∀ other, other ∈ before ++ after → ∀ identity, emission.nextNode ≤ identity →
      other.id? ≠ some identity := fun other isOther identity isNew isPlaced => by
    have := sequenced.bounded other (others other isOther) identity isPlaced
    omega
  have listed : ∀ other ∈ (emission.replaceWithVariable statement value).statements,
      other ∈ before ++ after ∨ other = assignment ∨ other = node := by
    intro other isOther
    rw [newStatements] at isOther
    simp only [mem_append, mem_cons] at isOther ⊢
    tauto
  exact {
    once := by
      rw [newStatements, newDeclarations]
      simp only [flatMap_append, flatMap_cons, flatMap_nil, nodeAssigned, assignmentAssigned, append_nil]
      refine (perm_middle.trans ?_).trans (perm_append_singleton node _).symm
      simpa using once.cons node
    distinct := by
      rw [newDeclarations]
      refine Workspace.nodup_append_number sequenced.distinct fun declared isDeclared shared => ?_
      obtain ⟨number, isNumber, below⟩ := sequenced.numbered declared isDeclared
      rw [isNumber, isNode] at shared
      cases shared
      omega
    numbered := by
      rw [newDeclarations]
      simp only [mem_append, mem_singleton]
      rintro declared (isDeclared | rfl)
      · obtain ⟨number, isNumber, below⟩ := sequenced.numbered declared isDeclared
        exact ⟨number, isNumber, by omega⟩
      · exact ⟨emission.nextVariable, by rw [isNode]; rfl, by omega⟩
    settled := by
      intro other isOther
      rcases listed other isOther with old | rfl | rfl
      · exact sequenced.settled other (others other old)
      · refine every_iff.2 ⟨fun unplaced => ?_, by simpa [assignmentOperands] using settled⟩
        rw [assignmentPlaced] at unplaced
        cases unplaced
      · refine every_iff.2 ⟨fun unplaced => ?_, by simp [nodeOperands]⟩
        rw [nodePlaced] at unplaced
        cases unplaced
    bounded := by
      intro other isOther identity isPlaced
      rcases listed other isOther with old | rfl | rfl
      · have := sequenced.bounded other (others other old) identity isPlaced
        omega
      · cases assignmentPlaced.symm.trans isPlaced
        omega
      · cases nodePlaced.symm.trans isPlaced
        omega
    placed := by
      intro other isOther unplaced
      rcases listed other isOther with old | rfl | rfl
      · exact sequenced.placed other (others other old) unplaced
      · cases assignmentPlaced.symm.trans unplaced
      · cases nodePlaced.symm.trans unplaced
    apart := by
      rw [newStatements]
      have perm : (before ++ assignment :: after ++ [node]).Perm
          (node :: assignment :: (before ++ after)) :=
        (perm_append_singleton node _).trans (perm_middle.cons node)
      rw [Apart.perm_iff perm]
      refine pairwise_cons.2 ⟨?_, pairwise_cons.2 ⟨?_, ?_⟩⟩
      · intro other isOther _ same
        rcases mem_cons.1 isOther with rfl | old
        · rw [nodePlaced, assignmentPlaced] at same
          simp at same
        · exact fresh other old _ (le_refl _) (same.symm.trans nodePlaced)
      · intro other old _ same
        exact fresh other old _ (le_succ _) (same.symm.trans assignmentPlaced)
      · exact apart.sublist (append_sublist_append_left before |>.2 (sublist_cons_self _ _))
    ordered := by
      rw [newStatements, append_assoc, Ordered.append_iff]
      refine ⟨ordered.1, ?_⟩
      rw [cons_append]
      refine ⟨by simpa [assignmentReads] using reads, ?_⟩
      rw [Ordered.append_iff]
      refine ⟨ordered.2.2.mono ?_, ?_, trivial⟩
      · simp only [assignmentAssigned, mem_append]
        tauto
      · simp [nodeReads, assignmentAssigned] }

/-- A statement that assigns nothing may be moved to the end. -/
theorem Sequenced.moveToEnd (sequenced : emission.Sequenced)
    (mem : statement ∈ emission.statements) (isPlaced : statement.id?.isSome = true)
    (unassigned : statement.assigned = []) : (emission.moveToEnd statement).Sequenced := by
  obtain ⟨before, found, after, split, isFound, same, assigned, -⟩ :=
    sequenced.exists_found mem isPlaced
  rw [unassigned] at assigned
  have newStatements : (emission.moveToEnd statement).statements = before ++ after ++ [statement] := by
    unfold Emission.moveToEnd
    rw [isFound]
    simp [split, eraseIdx_append]
  have reads := sequenced.ordered.reads_of_mem mem
  have ordered := sequenced.ordered
  have once := sequenced.once
  have apart := sequenced.apart
  rw [split] at ordered once apart reads
  rw [Ordered.append_iff] at ordered
  have listed : ∀ other ∈ (emission.moveToEnd statement).statements, other ∈ emission.statements := by
    intro other isOther
    rw [newStatements] at isOther
    simp only [mem_append, mem_singleton] at isOther
    rcases isOther with (left | right) | rfl
    · simp [split, left]
    · simp [split, right]
    · exact mem
  exact {
    once := by
      rw [newStatements]
      change Perm _ emission.declarations
      simpa [assigned, unassigned] using once
    distinct := sequenced.distinct
    numbered := sequenced.numbered
    settled := fun other isOther => sequenced.settled other (listed other isOther)
    bounded := fun other isOther => sequenced.bounded other (listed other isOther)
    placed := fun other isOther => sequenced.placed other (listed other isOther)
    apart := by
      rw [newStatements, Apart.perm_iff (perm_append_singleton statement _)]
      replace apart := (Apart.perm_iff perm_middle).1 apart
      refine pairwise_cons.2 ⟨fun other isOther => ?_, (pairwise_cons.1 apart).2⟩
      rw [unassigned]
      have differ := (pairwise_cons.1 apart).1 other isOther
      rwa [assigned, same] at differ
    ordered := by
      rw [newStatements, append_assoc, Ordered.append_iff, Ordered.append_iff]
      refine ⟨ordered.1, ?_, ?_, trivial⟩
      · simpa [assigned] using ordered.2.2
      · simpa [assigned] using reads }

theorem Sequenced.restoreOrder (sequenced : emission.sortStatements.Sequenced) {last : Expr}
    (mem : last ∈ emission.statements) : (emission.restoreOrder last).2.Sequenced := by
  have sorted : last ∈ emission.sortStatements.statements :=
    (perm_sortByKey emission.rank emission.statements).mem_iff.2 mem
  have isPlaced : last.isSymbol = true ∨ last.isVoid = false → last.id?.isSome = true := by
    intro isUsed
    cases placed : last.id? with
    | some identity => rfl
    | none =>
      have := sequenced.placed last sorted placed
      simp_all
  refine restoreOrder_keeps sequenced (fun isSymbol => ?_) fun isValue => ?_
  · refine sequenced.moveToEnd sorted (isPlaced (.inl isSymbol)) ?_
    cases last <;> simp [Expr.isSymbol, isParameter, isVar] at isSymbol <;> rfl
  · have isPlaced := isPlaced (.inr isValue)
    exact sequenced.replaceWithVariable sorted isPlaced isPlaced rfl rfl (sequenced.settled last sorted)

section Coerce

variable {α : Type} {pick : Expr → Option α}

section

variable (ignores : ∀ node : Expr, node.isPlain = true → pick node = none)

include ignores

theorem filterMap_of_isPlain (isPlain : expr.isPlain = true) :
    expr.evaluated.filterMap pick =
      expr.operands.flatMap fun operand => operand.evaluated.filterMap pick := by
  rw [filterMap_evaluated, ignores expr isPlain]
  rfl

theorem filterMap_coerceConstant {value : Constant} {source : Expr}
    (isLiteral : source.evaluated.filterMap pick = [])
    (converted : coerceConstant value source target = .ok result) :
    result.evaluated.filterMap pick = [] := by
  have literal := coerceConstant_literal converted
  clear converted
  induction literal with
  | constant value target =>
    rw [filterMap_of_isPlain ignores rfl]
    rfl
  | wrapped target =>
    rw [filterMap_of_isPlain ignores rfl]
    simpa [mkConvert, mkUnary, operands, children] using isLiteral
  | lifted inner result _ ih =>
    rw [filterMap_of_isPlain ignores rfl]
    simpa [mkConvert, mkUnary, operands, children] using ih

/-- Conversion leaves the nodes in place that are not built from operands alone. -/
theorem filterMap_coerce (converted : expr.coerce target = .ok result) :
    result.evaluated.filterMap pick = expr.evaluated.filterMap pick := by
  have plain : ∀ {node : Expr}, node.isPlain = true → node.evaluated.filterMap pick =
      node.operands.flatMap fun operand => operand.evaluated.filterMap pick :=
    filterMap_of_isPlain ignores
  have constant : ∀ value type, (mkConstant value type).evaluated.filterMap pick = [] :=
    fun value type => by rw [plain rfl]; rfl
  have coerces := coerce_coerces converted
  clear converted
  induction coerces with
  | same => rfl
  | literal header value result _ converted =>
    have isLiteral : (Expr.constant header value).evaluated.filterMap pick = [] := by
      rw [plain rfl]
      rfl
    rw [isLiteral, filterMap_coerceConstant ignores isLiteral converted]
  | fromBool expr result _ _ _ converted =>
    obtain ⟨one, oneConverted, converted⟩ := bind_eq_ok.1 converted
    obtain ⟨zero, zeroConverted, ⟨⟩⟩ := bind_eq_ok.1 converted
    rw [plain rfl]
    simp [mkConditional, operands, children,
      filterMap_coerceConstant ignores (constant _ _) oneConverted,
      filterMap_coerceConstant ignores (constant _ _) zeroConverted]
  | toBool expr =>
    rw [plain rfl]
    simp [nonZero, mkBinary, operands, children, flatMap_cons, flatMap_nil, append_nil, zeroOf, constant]
  | operands header op left right left' right' _ _ _ _ _ _ leftIh rightIh =>
    rw [plain rfl, plain rfl]
    simp [mkBinary, operands, children, leftIh, rightIh]
  | shifted header op left amount left' _ _ _ _ leftIh =>
    rw [plain rfl, plain rfl]
    simp [mkBinary, operands, children, leftIh]
  | sides header test onTrue onFalse onTrue' onFalse' _ _ _ trueIh falseIh =>
    rw [plain rfl, plain rfl]
    simp [mkConditional, operands, children, trueIh, falseIh]
  | wrapped expr =>
    rw [plain rfl]
    simp [mkConvert, mkUnary, operands, children]

end

end Coerce

theorem reads_coerce (converted : expr.coerce target = .ok result) : result.reads = expr.reads :=
  filterMap_coerce (fun node isPlain => by
    cases node <;> simp_all [Expr.isPlain, asVar?, isVar]) converted

theorem assigned_coerce (converted : expr.coerce target = .ok result) : result.assigned = expr.assigned :=
  filterMap_coerce (fun node isPlain => by
    cases node <;> simp_all [Expr.isPlain, target?]) converted

theorem closed_settled : Closed fun expr => expr.Every Settled where
  build expr unplaced isPlain below := by
    refine every_iff.2 ⟨fun _ => ?_, fun operand isOperand =>
      below operand (mem_children_of_mem_operands isOperand)⟩
    cases expr <;> simp_all [Expr.isPlain, isVar, target?]
  part expr isPlain settled operand isChild :=
    (every_iff.1 settled).2 operand (operands_of_isPlain isPlain ▸ isChild)

theorem settled_place (settled : expr.Every Settled) (next : Nat) :
    (expr.place next).1.Every Settled := by
  refine settled.place next (fun _ => id) fun node start _ _ _ _ unplaced => ?_
  obtain ⟨identity, isPlaced, -⟩ := node.exists_id_place start
  rw [unplaced] at isPlaced
  cases isPlaced

theorem Sequenced.grow (sequenced : emission.Sequenced) {nextNode : Nat}
    (grown : emission.nextNode ≤ nextNode) : Sequenced { emission with nextNode } :=
  { sequenced with
    bounded := fun statement mem identity isPlaced =>
      lt_of_lt_of_le (sequenced.bounded statement mem identity isPlaced) grown }

/-- The result takes the place of the value that it is converted from. -/
theorem Sequenced.returnValue (sequenced : emission.Sequenced) (returnType : TypeSig)
    (lastIndex : Nat) :
    Yields (fun _ => True) (emission.returnValue returnType lastIndex) Defined := by
  refine returnValue_yields returnType lastIndex (fun _ _ => trivial) ?_
  intro index value coerced isStatement isUsed converted
  have mem := mem_of_getElem? isStatement
  have isPlaced : value.id?.isSome = true := by
    cases placed : value.id? with
    | some identity => rfl
    | none =>
      have := sequenced.placed value mem placed
      simp_all
  have settled : coerced.Every Settled :=
    closed_settled.made (.coerce_ok converted) (by simpa using sequenced.settled value mem)
  have sameReads : (emission.place coerced).1.reads = value.reads :=
    (reads_place settled _).trans (reads_coerce converted)
  have sameAssigned : (emission.place coerced).1.assigned = value.assigned :=
    (assigned_place settled _).trans (assigned_coerce converted)
  have grown := sequenced.grow (emission.nextNode_place coerced)
  refine ⟨(replaceWithVariable grown mem isPlaced
    (Workspace.isSome_id?_place coerced emission) sameReads sameAssigned
    (settled_place settled _)).defined, fun _ => ?_⟩
  obtain ⟨inside, isFound⟩ := List.getElem?_eq_some_iff.1 isStatement
  have split : emission.statements =
      emission.statements.take index ++ value :: emission.statements.drop (index + 1) := by
    rw [← isFound, getElem_cons_drop, take_append_drop]
  have replaced : emission.statements.set index (emission.place coerced).1 =
      emission.statements.take index ++
        (emission.place coerced).1 :: emission.statements.drop (index + 1) := by
    rw [set_eq_take_append_cons_drop, if_pos inside]
  have ordered := sequenced.ordered
  have once := sequenced.once
  rw [split] at ordered once
  exact {
    once := by
      rw [replaced]
      change Perm _ emission.declarations
      simpa [sameAssigned] using once
    distinct := sequenced.distinct
    numbered := sequenced.defined.numbered
    ordered := by
      rw [replaced]
      exact ordered.replace sameReads sameAssigned }

theorem isVarNumbered_iff {number : Nat} {node : Expr} :
    node.isVarNumbered number = true ↔ node.number? = some number := by
  cases node <;> simp [isVarNumbered, number?]

/-- A variable that only hands its value on may be left out. -/
theorem Defined.inlineTrailing (defined : emission.Defined) : emission.inlineTrailing.Defined := by
  rcases emission.inlineTrailing_cases with
    same | ⟨earlier, header, target, number, name, value, last, lastName, isStatements, -, same⟩
  · rwa [same]
  have assigned : (assign header (.var target number name) value).assigned =
      .var target number name :: value.assigned := by
    rw [assigned_eq]
    simp [target?, asVar?, isVar, operands]
  have unassigned : (var last number lastName).assigned = [] := rfl
  have once := defined.once
  have ordered := defined.ordered
  rw [isStatements] at once ordered
  simp only [flatMap_append, flatMap_cons, flatMap_nil, assigned, unassigned, append_nil] at once
  rw [Ordered.append_iff] at ordered
  have distinct := (once.map number?).nodup_iff.2 defined.distinct
  rw [same]
  exact {
    once := by
      have isOther : ∀ node ∈ earlier.flatMap Expr.assigned ++ value.assigned,
          node.isVarNumbered number = false := by
        intro node mem
        rw [Bool.eq_false_iff, Ne, isVarNumbered_iff]
        intro isNumbered
        rw [map_append, map_cons, nodup_middle, nodup_cons] at distinct
        refine distinct.1 ?_
        rw [← map_append]
        exact mem_map.2 ⟨node, mem, isNumbered⟩
      have remaining := once.filter fun node => !node.isVarNumbered number
      rw [filter_append, filter_cons_of_neg (by simp [isVarNumbered]),
        ← filter_append, filter_eq_self.2 fun node mem => by
          simp [isOther node mem]] at remaining
      simpa using remaining
    distinct := defined.distinct.sublist (filter_sublist.map _)
    numbered := fun node mem => defined.numbered node (mem_of_mem_filter mem)
    ordered := by
      refine Ordered.append_iff.2 ⟨ordered.1, ?_, trivial⟩
      exact fun node isRead => ordered.2.1 node (by rwa [reads]) }

/-- Sorting puts the statements in order if assignments have smaller ranks than what reads them. -/
theorem Accounted.sortStatements (accounted : emission.Accounted)
    (ranked : ∀ statement ∈ emission.statements, ∀ node ∈ statement.reads,
      ∃ assignment ∈ emission.statements, node ∈ assignment.assigned ∧
        emission.rank assignment < emission.rank statement) :
    emission.sortStatements.Sequenced := by
  have perm := perm_sortByKey emission.rank emission.statements
  have sorted := pairwise_sortByKey emission.rank emission.statements
  exact {
    once := (perm.flatMap_right assigned).trans accounted.once
    distinct := accounted.distinct
    numbered := accounted.numbered
    settled := fun statement mem => accounted.settled statement (perm.mem_iff.1 mem)
    bounded := fun statement mem => accounted.bounded statement (perm.mem_iff.1 mem)
    placed := fun statement mem => accounted.placed statement (perm.mem_iff.1 mem)
    apart := (Apart.perm_iff perm).2 accounted.apart
    ordered := by
      refine Ordered.of_splits fun before statement after split node isRead => ?_
      change sortByKey emission.rank emission.statements = _ at split
      rw [split] at perm sorted
      obtain ⟨assignment, mem, isAssigned, smaller⟩ :=
        ranked statement (perm.mem_iff.1 (by simp)) node isRead
      refine mem_flatMap.2 ⟨assignment, ?_, isAssigned⟩
      rcases mem_append.1 (perm.mem_iff.2 mem) with isBefore | isLater
      · exact isBefore
      · have later := (pairwise_append.1 sorted).2.1
        rcases mem_cons.1 isLater with rfl | isLater
        · omega
        · have := (pairwise_cons.1 later).1 assignment isLater
          omega }

end Emission

end CilLift
