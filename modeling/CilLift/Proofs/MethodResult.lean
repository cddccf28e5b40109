import CilLift.Proofs.DefinitionOrder

/-!
The result of a method. However the last statement gets to its place, it is a value that fits the return
type; where a trailing variable is left out, this rests on the value of every variable fitting it.
-/

namespace CilLift

open List CilLift.Expr Emission

namespace Expr

variable {expr : Expr} {type : TypeSig}

/-- If a variable is assigned, the value fits it. -/
def Fitting : Expr → Prop
  | .assign _ (.var header _ _) value => Fits header.type value
  | _ => True

theorem Fits.of_type {other : Expr} (fits : Fits type expr)
    (sameType : other.type = expr.type) : Fits type other := by
  unfold Fits at fits ⊢
  rwa [sameType]

theorem Fits.trans {value : Expr} (fits : Fits type expr)
    (valueFits : Fits expr.type value) (isValue : type ≠ .void) : Fits type value := by
  rw [fits_iff] at fits valueFits ⊢
  rcases fits with isVoid | rfl | ⟨rfl, notVoid⟩
  · exact absurd isVoid isValue
  · exact valueFits
  · rcases valueFits with isVoid | sameType | ⟨-, notVoid⟩
    · exact absurd isVoid notVoid
    · exact .inr (.inr ⟨rfl, sameType ▸ notVoid⟩)
    · exact .inr (.inr ⟨rfl, notVoid⟩)

theorem fitting_of_target? (unassigned : expr.target? = none) : expr.Fitting := by
  unfold Fitting
  split
  · cases unassigned
  · trivial

theorem fitting_mkAssign {node value : Expr} (sameType : node.type = value.type) :
    (mkAssign node value).Fitting := by
  cases node with
  | var => exact fits_iff.2 (.inr (.inl sameType))
  | _ => trivial

theorem Fitting.place (fitting : expr.Fitting) (next : Nat) : (expr.place next).1.Fitting := by
  cases isTarget : expr.target? with
  | none =>
    refine fitting_of_target? (Option.not_isSome_iff_eq_none.1 ?_)
    rw [isSome_target?_place, isTarget]
    exact Bool.false_ne_true
  | some node =>
    cases expr with
    | assign header target value =>
      cases target with
      | var variableHeader number name =>
        obtain ⟨type, _ | identity⟩ := header
        · obtain ⟨variableType, _ | identity⟩ := variableHeader <;>
            exact @Fits.of_type value _ _ fitting (type_place _ value)
        · exact fitting
      | _ => cases isTarget
    | _ => cases isTarget

theorem Fitting.coerce {result : Expr} (fitting : expr.Fitting)
    (converted : expr.coerce type = .ok result) : result.Fitting := by
  cases coerce_coerces converted with
  | same => exact fitting
  | literal _ _ _ _ converted =>
    cases coerceConstant_literal converted <;> trivial
  | fromBool _ _ _ _ _ converted =>
    obtain ⟨one, zero, -, -, rfl⟩ := oneOrZero_eq_ok converted
    trivial
  | toBool | operands | shifted | sides | wrapped => trivial

end Expr

namespace Emission

variable {emission whole : Emission} {statement value last : Expr} {type : TypeSig}

/-- Every value fits the variable that it is assigned to. -/
def Fitting (emission : Emission) : Prop := ∀ statement ∈ emission.statements, statement.Fitting

/-- The last statement is a value of the given type. -/
def EndsIn (type : TypeSig) (emission : Emission) : Prop :=
  ∃ result, emission.statements.getLast? = some result ∧ Expr.Fits type result

theorem Fitting.sortStatements (fitting : emission.Fitting) : emission.sortStatements.Fitting :=
  fun statement mem =>
    fitting statement ((perm_sortByKey emission.rank emission.statements).mem_iff.1 mem)

theorem Fitting.moveToEnd (fitting : emission.Fitting) (lastFitting : statement.Fitting) :
    (emission.moveToEnd statement).Fitting := by
  intro found mem
  rcases mem_append.1 mem with earlier | isLast
  · split at earlier
    · exact fitting found (mem_of_mem_eraseIdx earlier)
    · exact fitting found earlier
  · rwa [mem_singleton.1 isLast]

/-- The new variable has the type of the value, comes last, and adds one to the statements. -/
theorem replaceWithVariable_spec (emission : Emission) (statement value : Expr) :
    (emission.Fitting → (emission.replaceWithVariable statement value).Fitting) ∧
      (∃ node, (emission.replaceWithVariable statement value).statements.getLast? = some node ∧
        node.type = value.type) ∧
      (emission.replaceWithVariable statement value).statements.length =
        emission.statements.length + 1 := by
  obtain ⟨given, names, nextTemporary, isNew⟩ :=
    emission.freshName.2.newVariable_eq emission.freshName.1 value.type
  unfold replaceWithVariable
  dsimp only
  rw [isNew]
  generalize isNode : var _ _ given = node
  have isType : node.type = value.type := by
    rw [← isNode]
    rfl
  have isFitting := fitting_mkAssign isType
  refine ⟨fun fitting found mem => ?_, ⟨node, getLast?_concat, isType⟩, ?_⟩
  · rcases mem_append.1 mem with earlier | isLast
    · split at earlier
      · rcases mem_or_eq_of_mem_set earlier with before | rfl
        · exact fitting found before
        · exact isFitting.place _
      · exact fitting found earlier
    · rw [mem_singleton.1 isLast, ← isNode]
      trivial
  · rw [length_append]
    split
    · rw [length_set]
      rfl
    · rfl

/-- The search for the result begins at the last statement. -/
theorem length_restoreOrder (mem : last ∈ emission.statements)
    (isPlaced : last.isSymbol = true → last.id?.isSome = true) :
    (emission.restoreOrder last).2.statements.length = (emission.restoreOrder last).1 + 1 := by
  have sorted : emission.sortStatements.statements.length = emission.statements.length :=
    (perm_sortByKey emission.rank emission.statements).length_eq
  have some := length_pos_of_mem mem
  unfold restoreOrder
  dsimp only
  split_ifs with isLast isSymbol isVoid
  · dsimp only
    omega
  · have isSelf : isSame last last = true := by simp [isSame, isPlaced isSymbol]
    have isSorted : last ∈ emission.sortStatements.statements :=
      (perm_sortByKey emission.rank emission.statements).mem_iff.2 mem
    obtain ⟨before, found, after, split, isFound, noneLater⟩ := exists_last ⟨last, isSorted, isSelf⟩
    dsimp only [moveToEnd]
    rw [split] at sorted ⊢
    rw [lastIndexWhere?_of_split isFound noneLater]
    simp only [length_append, length_cons, length_eraseIdx, length_nil] at sorted ⊢
    split_ifs <;> omega
  · dsimp only
    omega
  · rw [(replaceWithVariable_spec ..).2.2]
    omega

/-- The value that is returned comes last. -/
theorem returnValue_ends {lastIndex : Nat}
    (isLength : emission.statements.length = lastIndex + 1) (fitting : emission.Fitting) :
    Yields (fun _ => True) (emission.returnValue type lastIndex) fun whole =>
      whole.Fitting ∧ whole.EndsIn type := by
  refine returnValue_yields type lastIndex (fun _ _ => trivial) ?_
  intro index value coerced isStatement _ converted
  have fits : Fits type (emission.place coerced).1 :=
    (coerce_coerces converted).fits.of_type (type_place _ coerced)
  have coercedFitting : (emission.place coerced).1.Fitting :=
    ((fitting value (mem_of_getElem? isStatement)).coerce converted).place _
  refine ⟨?_, ?_⟩
  · obtain ⟨keeps, ⟨node, isLast, isType⟩, -⟩ :=
      (emission.place coerced).2.replaceWithVariable_spec value (emission.place coerced).1
    exact ⟨keeps fitting, node, isLast, fits.of_type isType⟩
  · rintro rfl
    refine ⟨fun found mem => ?_, (emission.place coerced).1, ?_, fits⟩
    · rcases mem_or_eq_of_mem_set mem with before | rfl
      · exact fitting found before
      · exact coercedFitting
    · rw [getLast?_eq_getElem?, length_set, isLength, Nat.add_sub_cancel, getElem?_set_self (by omega)]

/-- A variable that is assigned and then read is one node. -/
theorem Defined.eq_of_trailing (defined : whole.Defined) {earlier : List Expr} {header : Header}
    {target node : Expr} (isTarget : target.isVar = true) (isNode : node.isVar = true)
    (isTrailing : whole.statements = earlier ++ [.assign header target value, node])
    (sameNumber : target.number? = node.number?) : node ∈ whole.declarations ∧ target = node := by
  have declares : ∀ found ∈ whole.statements.flatMap assigned, found ∈ whole.declarations :=
    fun found => defined.once.mem_iff.1
  have isRead : node ∈ node.reads := by
    rw [reads_eq]
    simp [asVar?, isNode]
  have nodeDeclared : node ∈ whole.declarations :=
    declares node (defined.ordered.reads_of_mem (by simp [isTrailing]) node isRead)
  have targetDeclared : target ∈ whole.declarations := by
    refine declares target (mem_flatMap.2 ⟨.assign header target value, by simp [isTrailing], ?_⟩)
    rw [assigned_eq]
    simp [target?, asVar?, isTarget]
  exact ⟨nodeDeclared, inj_on_of_nodup_map defined.distinct targetDeclared nodeDeclared sameNumber⟩

/-- A trailing variable is left out for a value that fits it. -/
theorem EndsIn.inlineTrailing (ends : whole.EndsIn type) (isValue : type ≠ .void)
    (fitting : whole.Fitting) (defined : whole.Defined) : whole.inlineTrailing.EndsIn type := by
  rcases whole.inlineTrailing_cases with
    same | ⟨earlier, header, target, number, name, value, last, lastName, isTrailing, -, same⟩
  · rwa [same]
  obtain ⟨result, isLast, fits⟩ := ends
  have isNode : result = .var last number lastName := by
    rw [isTrailing] at isLast
    simpa using isLast.symm
  subst isNode
  obtain ⟨-, sameNode⟩ := defined.eq_of_trailing rfl rfl isTrailing rfl
  have valueFits : (assign header (.var target number name) value).Fitting :=
    fitting _ (by simp [isTrailing])
  rw [sameNode] at valueFits
  rw [same]
  exact ⟨value, getLast?_concat, fits.trans valueFits isValue⟩

end Emission

namespace Workspace.Tidy

variable {roots items : List Expr} {space : Workspace} {whole : Emission} {type : TypeSig}

theorem fitting (tidy : Tidy roots space) (isItem : ∀ item ∈ items, space.Item item) :
    (space.withRemaining items).Fitting := by
  intro statement mem
  rcases tidy.mem_withRemaining isItem mem with item | ⟨-, assigns⟩
  · exact fitting_of_target? (Every.root item.1).assigns
  · cases tidy.orderly.lasting statement assigns with
    | intro _ _ _ _ _ _ _ _ _ _ _ fits => exact fits

/-- The completed statements end in a value of the return type. -/
theorem endsIn (tidy : Tidy roots space) (isItem : ∀ item ∈ items, space.Item item)
    (isValue : type.isVoid = false) :
    Yields (fun _ => True) (space.emission.complete items type false) fun whole =>
      whole.Fitting ∧ whole.EndsIn type := by
  refine complete_yields (fun _ _ => trivial) (fun isVoid => ?_) ?_
    fun inlines => absurd inlines Bool.false_ne_true
  · rw [isValue] at isVoid
    cases isVoid
  · rintro last isLast restored rfl
    refine ⟨fun isVoid => ?_, returnValue_ends ?_ ?_⟩
    · rw [isValue] at isVoid
      cases isVoid
    · refine length_restoreOrder isLast fun isSymbol => ?_
      by_contra unplaced
      have silent := (tidy.accounted isItem).placed last isLast (by simpa using unplaced)
      simp [silent.2] at isSymbol
    · have fitting := tidy.fitting isItem
      exact @restoreOrder_keeps _ Fitting last fitting.sortStatements
        (fun _ => fitting.sortStatements.moveToEnd (fitting last isLast))
        fun _ => (replaceWithVariable_spec ..).1 fitting.sortStatements

end Workspace.Tidy

namespace Lifter

/-- A method that returns a value ends in it: the last statement is the result and has the return type,
or the method returns any object and the result is one. -/
theorem lift_ends_in_result {lifter : Lifter} {method : Method} {body : MethodBody} {tree : MethodTree}
    (lifted : lifter.lift method body = .ok tree)
    (isValue : method.returnType.instantiate lifter.context ≠ .void) :
    ∃ result, tree.result? = some result ∧ tree.statements.getLast? = some result ∧
      (result.type = method.returnType.instantiate lifter.context ∨
        method.returnType.instantiate lifter.context = .object ∧ result.type ≠ .void) := by
  obtain ⟨roots, space, items, emission, tidy, isItem, completes, sameStatements, -, isType⟩ :=
    lift_completes lifted
  rw [← isType] at isValue ⊢
  rw [complete_eq] at completes
  obtain ⟨whole, completed, isEmission⟩ := exists_of_map completes
  have notVoid : tree.returnType.isVoid = false := by
    cases isReturn : tree.returnType <;> first | rfl | exact absurd isReturn isValue
  obtain ⟨fitting, ends⟩ := (tidy.endsIn isItem notVoid).of_ok completed
  have defined := (tidy.complete isItem tree.returnType false).of_ok completed
  obtain ⟨result, isLast, fits⟩ : emission.EndsIn tree.returnType := by
    rw [← isEmission]
    split
    · exact ends.inlineTrailing isValue fitting defined
    · exact ends
  rw [← sameStatements] at isLast
  have isResult := (fits_iff.1 fits).resolve_left isValue
  have isUsed : result.isVoid = false := by
    rcases isResult with sameType | ⟨-, notVoid⟩
    · rwa [isVoid, ← sameType]
    · rw [isVoid]
      cases isFound : result.type <;> first | rfl | exact absurd isFound notVoid
  refine ⟨result, ?_, isLast, isResult.imp_left symm⟩
  rw [MethodTree.result?, isLast, Option.filter_some, isUsed]
  rfl

/-- Returns an array as an object, by way of a local. -/
def arrayAsObject : MethodBody where
  code := [0x17, 0x8d, 0x01, 0x00, 0x00, 0x01, 0x0a, 0x06, 0x2a]
  locals := [.object]

/-- The local is left out, and the array in its place has a type of its own. -/
theorem arrayAsObject_ends_in_result :
    let lifter : Lifter := {
      resolver := MetadataTables.resolver { members := [(⟨0x01000001⟩, .type .int32)] } }
    let method : Method := {
      token := ⟨0x06000001⟩, name := "T", returnType := .object, flags := { isStatic := true } }
    ∃ tree, lifter.lift method arrayAsObject = .ok tree ∧
      tree.text = "() => new int32[] \x7b 0 \x7d" ∧
      ∃ result, tree.result? = some result ∧ tree.statements.getLast? = some result ∧
        (result.type = .object ∨ TypeSig.object = .object ∧ result.type ≠ .void) := by
  intro lifter method
  have viewed : (lifter.lift method arrayAsObject).map MethodTree.text =
      .ok "() => new int32[] \x7b 0 \x7d" := by
    decide +kernel
  obtain ⟨tree, lifted, view⟩ := exists_of_map viewed
  exact ⟨tree, lifted, view, lift_ends_in_result lifted (by decide)⟩

end Lifter

end CilLift
