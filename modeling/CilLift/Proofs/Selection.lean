import CilLift.Proofs.Truth

/-!
The conditional between two words. It has the value of the side that its test selects, but where the
true side is a truth value the false side only counts as true or false.
-/

namespace CilLift.Expr

open TypeSig

variable {admits : TypeSig → Prop} {test onTrue onFalse result : Expr} {bindings : Bindings}

/-- The value of the side that a test selects, where the false side is brought to the type of the true
one. -/
def selected (test onTrue onFalse : Expr) (bindings : Bindings) : Int :=
  if test.truth bindings then onTrue.number bindings
  else onTrue.type.wrap (onFalse.number bindings)

/-- The builder fails only where the true side is a truth value and the false side a literal that is
none, and else gives a well-typed word with the selected value. -/
structure Chooses (admits : TypeSig → Prop) (test onTrue onFalse : Expr)
    (build : Except Error Expr) : Prop where
  succeeds_iff : (∃ result, build = .ok result) ↔ ¬(onTrue.isBool = true ∧ onFalse.isNumeral = true)
  word : ∀ result, build = .ok result → TypedWord admits result
  number : ∀ result, build = .ok result → ∀ bindings,
    result.number bindings = selected test onTrue onFalse bindings

theorem Chooses.of_ok {build : Except Error Expr} (isResult : build = .ok result)
    (notNumeral : onTrue.isBool = true → onFalse.isNumeral = false) (word : TypedWord admits result)
    (isNumber : ∀ bindings, result.number bindings = selected test onTrue onFalse bindings) :
    Chooses admits test onTrue onFalse build := by
  refine ⟨⟨fun _ fails => ?_, fun _ => ⟨result, isResult⟩⟩, ?_, ?_⟩
  · exact absurd ((notNumeral fails.1).symm.trans fails.2) (by decide)
  all_goals
    intro other isOther
    rw [isResult] at isOther
    cases isOther
    assumption

theorem TypedWord.isScalar (word : TypedWord admits result) : result.type.isScalar = true := by
  rcases word with typed | typed <;> rw [typed.type_eq] <;> rfl

theorem Typed.wrap_of_bool (typed : Typed admits .bool onFalse) (word : TypedWord admits onTrue) :
    onTrue.type.wrap (onFalse.number bindings) = onFalse.number bindings := by
  rw [typed.number_eq, wrap_toInt word.isScalar]

/-- A conditional whose sides have one type. -/
theorem chooses_mkConditional {type : TypeSig} {newTrue newFalse : Expr}
    (typedTest : Typed admits .bool test) (typedTrue : Typed admits type newTrue)
    (typedFalse : Typed admits type newFalse) (isWordType : type = .bool ∨ type = .int32)
    (sameTrue : ∀ bindings, newTrue.number bindings = onTrue.number bindings)
    (sameFalse : ∀ bindings, newFalse.number bindings = onTrue.type.wrap (onFalse.number bindings))
    (notNumeral : onTrue.isBool = true → onFalse.isNumeral = false) :
    Chooses admits test onTrue onFalse (.ok (mkConditional test newTrue newFalse)) := by
  have typed : Typed admits type (mkConditional test newTrue newFalse) :=
    .chosen typedTrue.type_eq typedTest typedTrue typedFalse
  refine .of_ok rfl notNumeral ?_ fun bindings => ?_
  · rcases isWordType with rfl | rfl
    · exact .inl typed
    · exact .inr typed
  · rw [mkConditional, number, sameTrue, sameFalse]
    rfl

/-- The conditional that is built where no literal can be folded away. -/
theorem chooseBetween_chooses (typedTest : Typed admits .bool test)
    (trueWord : TypedWord admits onTrue) (falseWord : TypedWord admits onFalse)
    (admitsNumber : admits .int32) :
    Chooses admits test onTrue onFalse (chooseBetween test onTrue onFalse) := by
  unfold chooseBetween
  rcases trueWord with typedTrue | typedTrue <;> rcases falseWord with typedFalse | typedFalse
  · rw [if_pos (typedTrue.type_eq.trans typedFalse.type_eq.symm)]
    exact chooses_mkConditional typedTest typedTrue typedFalse (.inl rfl) (fun _ => rfl)
      (fun _ => (typedFalse.wrap_of_bool (.inl typedTrue)).symm) fun _ => typedFalse.isNumeral
  · have isType : conditionType onTrue onFalse = .bool := by
      rw [conditionType, typedTrue.type_eq, typedFalse.type_eq]
      rfl
    rw [if_neg (by rw [typedTrue.type_eq, typedFalse.type_eq]; decide), isType]
    dsimp only
    rw [coerce_of_type typedTrue.type_eq]
    cases isNumeral : onFalse.isNumeral with
    | true =>
      obtain ⟨error, isError⟩ := typedFalse.coerce_numeral isNumeral
      rw [isError]
      refine ⟨⟨nofun, fun notBoth => ?_⟩, nofun, nofun⟩
      exact absurd ⟨isBool_of_type typedTrue.type_eq, isNumeral⟩ notBoth
    | false =>
      obtain ⟨newFalse, isFalse, means⟩ :=
        TypedWord.coerce_bool (.inr typedFalse) typedTrue.admitted isNumeral
      rw [isFalse]
      refine chooses_mkConditional typedTest typedTrue means.typed (.inl rfl) (fun _ => rfl)
        (fun bindings => ?_) fun _ => isNumeral
      rw [means.typed.number_eq, means.truth, typedTrue.type_eq]
      rfl
  · have isType : conditionType onTrue onFalse = .int32 := by
      rw [conditionType, typedTrue.type_eq, typedFalse.type_eq]
      rfl
    rw [if_neg (by rw [typedTrue.type_eq, typedFalse.type_eq]; decide), isType]
    dsimp only
    rw [coerce_of_type typedTrue.type_eq]
    obtain ⟨newFalse, isFalse, typedNew, same⟩ :=
      TypedWord.coerce_int32 (.inl typedFalse) admitsNumber
    rw [isFalse]
    refine chooses_mkConditional typedTest typedTrue typedNew (.inr rfl) (fun _ => rfl)
      (fun bindings => ?_) fun _ => typedFalse.isNumeral
    rw [same, typedFalse.wrap_of_bool (.inr typedTrue)]
  · rw [if_pos (typedTrue.type_eq.trans typedFalse.type_eq.symm)]
    refine chooses_mkConditional typedTest typedTrue typedFalse (.inr rfl) (fun _ => rfl)
      (fun bindings => ?_) fun isBool => ?_
    · rw [typedTrue.type_eq, typedFalse.wrap_number]
    · exact absurd (typedTrue.isBool.symm.trans isBool) (by decide)

theorem TypedWord.number_literal {value : Bool} (word : TypedWord admits result)
    (isLiteral : result.boolLiteral? = some value) : result.number bindings = value.toInt := by
  rcases word with typed | typed <;> exact number_of_boolLiteral? typed isLiteral

theorem isNumeral_of_literal {value : Bool} (isLiteral : result.boolLiteral? = some value) :
    result.isNumeral = false := by
  rw [isNumeral, isLiteral, Option.isNone_some, Bool.and_false]

/-- Between sides that are truth values, a condition that is true where the selected side is. -/
theorem Means.chooses {meaning first second : Bindings → Bool} {build : Except Error Expr}
    (means : Means admits meaning result) (isResult : build = .ok result)
    (trueWord : TypedWord admits onTrue) (notNumeral : onFalse.isNumeral = false)
    (isTrue : ∀ bindings, onTrue.number bindings = (first bindings).toInt)
    (isFalse : ∀ bindings, onFalse.number bindings = (second bindings).toInt) (agrees : ∀ bindings,
      meaning bindings = if test.truth bindings then first bindings else second bindings) :
    Chooses admits test onTrue onFalse build := by
  refine .of_ok isResult (fun _ => notNumeral) (.inl means.typed) fun bindings => ?_
  rw [means.typed.number_eq, means.truth, agrees, selected, isTrue, isFalse, wrap_toInt trueWord.isScalar]
  split <;> rfl

/-- A built condition has the value of the side that the test chooses. -/
theorem condition_chooses (typedTest : Typed admits .bool test) (trueWord : TypedWord admits onTrue)
    (falseWord : TypedWord admits onFalse) (admitsNumber : admits .int32) :
    Chooses admits test onTrue onFalse (condition test onTrue onFalse) := by
  have admitsBool := typedTest.admitted
  have chosen := chooseBetween_chooses typedTest trueWord falseWord admitsNumber
  obtain ⟨negated, isNegated, negates⟩ := typedTest.logicalNot
  -- two literals, a literal before a truth value, and a truth value before a literal
  have literals {first second : Bool} {meaning : Bindings → Bool} {result : Expr}
      (isTrue : onTrue.boolLiteral? = some first) (isFalse : onFalse.boolLiteral? = some second)
      (means : Means admits meaning result)
      (agrees : ∀ bindings, meaning bindings = if test.truth bindings then first else second) :
      Chooses admits test onTrue onFalse (.ok result) :=
    means.chooses rfl trueWord (isNumeral_of_literal isFalse)
      (fun _ => trueWord.number_literal isTrue) (fun _ => falseWord.number_literal isFalse) agrees
  have literalFirst {first : Bool} {meaning : Bindings → Bool} {build : Except Error Expr}
      (isTrue : onTrue.boolLiteral? = some first) (typedFalse : Typed admits .bool onFalse)
      (built : ∃ result, build = .ok result ∧ Means admits meaning result)
      (agrees : ∀ bindings, meaning bindings =
        if test.truth bindings then first else onFalse.truth bindings) :
      Chooses admits test onTrue onFalse build :=
    have ⟨_, isResult, means⟩ := built
    means.chooses isResult trueWord typedFalse.isNumeral (fun _ => trueWord.number_literal isTrue)
      typedFalse.number_eq agrees
  have literalSecond {second : Bool} {meaning : Bindings → Bool} {build : Except Error Expr}
      (typedTrue : Typed admits .bool onTrue) (isFalse : onFalse.boolLiteral? = some second)
      (built : ∃ result, build = .ok result ∧ Means admits meaning result)
      (agrees : ∀ bindings, meaning bindings =
        if test.truth bindings then onTrue.truth bindings else second) :
      Chooses admits test onTrue onFalse build :=
    have ⟨_, isResult, means⟩ := built
    means.chooses isResult trueWord (isNumeral_of_literal isFalse) typedTrue.number_eq
      (fun _ => falseWord.number_literal isFalse) agrees
  unfold condition
  rw [if_pos (isBool_of_type typedTest.type_eq), isNegated]
  split <;> rename_i literalTrue literalFalse
  · exact literals literalTrue literalFalse (means_boolean admitsBool true) fun _ => (ite_self _).symm
  · refine literals literalTrue literalFalse typedTest.means fun bindings => ?_
    cases test.truth bindings <;> rfl
  · refine literals literalTrue literalFalse negates fun bindings => ?_
    cases test.truth bindings <;> rfl
  · exact literals literalTrue literalFalse (means_boolean admitsBool false) fun _ => (ite_self _).symm
  · split_ifs with isBool
    · have typedFalse := falseWord.of_isBool isBool
      refine literalFirst literalTrue typedFalse ((logicalOr_builds (.inl typedTest) falseWord
        admitsBool).exists_means typedTest typedFalse) fun bindings => ?_
      cases test.truth bindings <;> rfl
    · exact chosen
  · split_ifs with isBool
    · have typedFalse := falseWord.of_isBool isBool
      refine literalFirst literalTrue typedFalse ((logicalAnd_builds (.inl negates.typed) falseWord
        admitsBool).exists_means negates.typed typedFalse) fun bindings => ?_
      rw [negates.truth]
      cases test.truth bindings <;> rfl
    · exact chosen
  · split_ifs with isBool
    · have typedTrue := trueWord.of_isBool isBool
      refine literalSecond typedTrue literalFalse ((logicalOr_builds (.inl negates.typed) trueWord
        admitsBool).exists_means negates.typed typedTrue) fun bindings => ?_
      rw [negates.truth]
      cases test.truth bindings <;> rfl
    · exact chosen
  · split_ifs with isBool
    · have typedTrue := trueWord.of_isBool isBool
      refine literalSecond typedTrue literalFalse ((logicalAnd_builds (.inl typedTest) trueWord
        admitsBool).exists_means typedTest typedTrue) fun bindings => ?_
      cases test.truth bindings <;> rfl
    · exact chosen
  · exact chosen

theorem wrap_bool_eq_iff (number : Int) : bool.wrap number = number ↔ number = 0 ∨ number = 1 := by
  by_cases isZero : number = 0
  · simp [isZero, wrap]
  · have isTrue : (number != 0) = true := by simpa using isZero
    simp [isZero, isTrue, wrap, eq_comm]

theorem TypedWord.wrap_eq_iff (trueWord : TypedWord admits onTrue)
    (falseWord : TypedWord admits onFalse) :
    onTrue.type.wrap (onFalse.number bindings) = onFalse.number bindings ↔
      onTrue.type = .int32 ∨ onFalse.number bindings = 0 ∨ onFalse.number bindings = 1 := by
  rcases trueWord with typedTrue | typedTrue
  · rw [typedTrue.type_eq, wrap_bool_eq_iff]
    exact (or_iff_right (by decide)).symm
  · refine iff_of_true ?_ (.inl typedTrue.type_eq)
    rcases falseWord with typedFalse | typedFalse
    · exact typedFalse.wrap_of_bool (.inr typedTrue)
    · rw [typedTrue.type_eq, typedFalse.wrap_number]

/-- A conditional between two words fails only where the true side is a truth value and the false side
a literal other than zero and one. It has the value of the side that the test selects, but for a
number against a truth value on the true side, which only counts as true or false. -/
theorem condition_of_words (typedTest : Typed admits .bool test) (trueWord : TypedWord admits onTrue)
    (falseWord : TypedWord admits onFalse) (admitsNumber : admits .int32) :
    ((∃ result, condition test onTrue onFalse = .ok result) ↔
      ¬(onTrue.isBool = true ∧ onFalse.isNumeral = true)) ∧
    ∀ result, condition test onTrue onFalse = .ok result → TypedWord admits result ∧ ∀ bindings,
        result.number bindings = selected test onTrue onFalse bindings ∧
        ((result.number bindings =
            if test.truth bindings then onTrue.number bindings else onFalse.number bindings) ↔
          test.truth bindings = true ∨ onTrue.type = .int32 ∨
            onFalse.number bindings = 0 ∨ onFalse.number bindings = 1) := by
  have chooses := condition_chooses typedTest trueWord falseWord admitsNumber
  refine ⟨chooses.succeeds_iff, fun result isResult => ⟨chooses.word result isResult, fun bindings => ?_⟩⟩
  have isNumber := chooses.number result isResult bindings
  rw [isNumber, selected, ← trueWord.wrap_eq_iff falseWord]
  cases test.truth bindings <;> simp

/-- A number and a comparison as the sides of a conditional. -/
theorem condition_of_third_and_ascending :
    ∃ result, condition (mkParameter 3 "test" .bool) (mkParameter 2 "third" .int32) ascending =
        .ok result ∧
      ∀ bindings, result.number bindings = if (mkParameter 3 "test" .bool).truth bindings then
          (mkParameter 2 "third" .int32).number bindings
        else ascending.number bindings := by
  obtain ⟨succeeds_iff, selects⟩ := condition_of_words (typed_parameter (.inl rfl) 3 "test")
    (.inr (typed_parameter (.inr rfl) 2 "third")) (.inl typed_ascending) (.inr rfl)
  obtain ⟨result, isResult⟩ := succeeds_iff.2 nofun
  exact ⟨result, isResult, fun bindings =>
    ((selects result isResult).2 bindings).2.2 (.inr (.inl rfl))⟩

/-- A truth value and a number as the sides of a conditional: the number five counts as one. -/
theorem condition_of_flag_loses_number :
    ∃ result bindings, condition (mkParameter 0 "test" .bool) (mkParameter 1 "flag" .bool)
        (mkParameter 2 "count" .int32) = .ok result ∧
      (mkParameter 0 "test" .bool).truth bindings = false ∧
      (mkParameter 2 "count" .int32).number bindings = 5 ∧ result.number bindings = 1 :=
  ⟨_, { argument := fun slot => if slot = 2 then 5 else 0, content := fun _ => 0,
        other := fun _ => 0, unanswered := fun _ _ _ _ => 0 }, rfl, rfl, rfl, rfl⟩

end CilLift.Expr
