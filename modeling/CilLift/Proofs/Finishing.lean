import CilLift.Emission.Result
import CilLift.Proofs.Ledger
import CilLift.Proofs.Making

/-!
How the statements of a method are completed: they are sorted, the last one is brought back to the end,
a value is converted to the return type, and a trailing variable may be left out. What each of these
steps keeps, the completion keeps.
-/

namespace CilLift.Emission

open List

variable {emission : Emission} {tolerates : Error → Prop} {holds : Emission → Prop}

theorem restoreOrder_keeps {last : Expr} (sorted : holds emission.sortStatements)
    (moved : last.isSymbol = true → holds (emission.sortStatements.moveToEnd last))
    (bound : last.isVoid = false → holds (emission.sortStatements.replaceWithVariable last last)) :
    holds (emission.restoreOrder last).2 := by
  unfold restoreOrder
  dsimp only
  split
  · exact sorted
  · split
    · rename_i isSymbol
      exact moved isSymbol
    · split
      · exact sorted
      · rename_i isValue
        exact bound (by simpa using isValue)

/-- A statement that is a value is converted, and bound to a variable or put in its place again. -/
theorem returnValue_yields (returnType : TypeSig) (lastIndex : Nat)
    (faults : ∀ error : Error, error.IsFault → tolerates error)
    (returned : ∀ index value coerced, emission.statements[index]? = some value →
      value.isVoid = false → value.coerce returnType = .ok coerced →
        holds ((emission.place coerced).2.replaceWithVariable value (emission.place coerced).1) ∧
        (index = lastIndex → holds { (emission.place coerced).2 with
          statements := emission.statements.set index (emission.place coerced).1 })) :
    Yields tolerates (emission.returnValue returnType lastIndex) holds := by
  unfold returnValue
  dsimp only
  split
  · exact faults _ trivial
  · rename_i index isIndex
    obtain ⟨candidate, isCandidate, isValue⟩ := lastIndexWhere?_eq_some isIndex
    split
    · exact faults _ trivial
    · rename_i value isStatement
      obtain ⟨isUsed, upTo⟩ : value.isVoid = false ∧ index ≤ lastIndex := by
        rw [getElem?_take] at isCandidate
        split at isCandidate
        · rename_i below
          rw [isStatement] at isCandidate
          cases isCandidate
          exact ⟨by simpa using isValue, Nat.le_of_lt_succ below⟩
        · cases isCandidate
      have coerces := Expr.coerce_faults value returnType
      cases converted : value.coerce returnType with
      | error error =>
        rw [converted] at coerces
        exact faults _ coerces
      | ok coerced =>
        have ⟨bound, replaced⟩ := returned index value coerced isStatement isUsed converted
        split
        · exact bound
        · exact replaced (by omega)

/-- A trailing `v = e; v` is turned into `e` if nothing else uses the number of `v`. -/
theorem inlineTrailing_cases (emission : Emission) :
    emission.inlineTrailing = emission ∨ ∃ earlier header target number name value last lastName,
      emission.statements = earlier ++
        [.assign header (.var target number name) value, .var last number lastName] ∧
      (∀ statement ∈ earlier ++ [value], statement.any (Expr.isVarNumbered number) = false) ∧
      emission.inlineTrailing = { emission with
        statements := earlier ++ [value]
        declarations := emission.declarations.filter fun node => !node.isVarNumbered number } := by
  unfold inlineTrailing
  split
  · rename_i last number lastName header target number' name value earlier reversed
    split
    · rename_i isTrailing
      simp only [Bool.and_eq_true, beq_iff_eq, Bool.not_eq_true', any_eq_false] at isTrailing
      obtain ⟨rfl, unused⟩ := isTrailing
      refine .inr ⟨earlier.reverse, header, target, number, name, value, last, lastName, ?_, ?_, rfl⟩
      · rw [← reverse_reverse emission.statements, reversed]
        simp
      · intro statement mem
        exact Bool.eq_false_iff.2 (unused statement (by simpa [or_comm] using mem))
    · exact .inl rfl
  · exact .inl rfl

/-- The statements are completed if there are any: brought into order, given a result, and rid of a
trailing variable. -/
theorem complete_yields {remaining : List Expr} {returnType : TypeSig} {inlinesTrailing : Bool}
    (faults : ∀ error : Error, error.IsFault → tolerates error)
    (nothing : returnType.isVoid = true → emission.statements ++ remaining = [] →
      holds { emission with statements := emission.statements ++ remaining })
    (given : ∀ last ∈ emission.statements ++ remaining, ∀ restored,
      restored = restoreOrder last { emission with statements := emission.statements ++ remaining } →
      (returnType.isVoid = true → holds restored.2) ∧
        Yields tolerates (restored.2.returnValue returnType restored.1) holds)
    (inlined : inlinesTrailing = true → ∀ whole, holds whole → holds whole.inlineTrailing) :
    Yields tolerates (emission.complete remaining returnType inlinesTrailing) holds := by
  unfold complete
  dsimp only
  split
  · rename_i isEmpty
    split
    · exact nothing ‹_› (getLast?_eq_none_iff.1 isEmpty)
    · exact faults _ trivial
  · rename_i last isLast
    have isMember := mem_of_getLast? isLast
    refine Yields.andThen (?_ : Yields tolerates _ holds) fun whole kept => ?_
    · unfold withResult
      split
      · exact (given last isMember _ rfl).1 ‹_›
      · exact (given last isMember _ rfl).2
    · split
      · exact inlined ‹_› whole kept
      · exact kept

/-- Whether a trailing variable is left out is decided in the end. -/
theorem complete_eq (remaining : List Expr) (returnType : TypeSig) (inlinesTrailing : Bool) :
    emission.complete remaining returnType inlinesTrailing =
      (emission.complete remaining returnType false).map fun whole =>
        if inlinesTrailing then whole.inlineTrailing else whole := by
  unfold complete
  dsimp only
  split
  · rename_i isEmpty
    split
    · have unchanged : inlineTrailing
          { emission with statements := emission.statements ++ remaining } =
          { emission with statements := emission.statements ++ remaining } := by
        rw [getLast?_eq_none_iff.1 isEmpty]
        rfl
      cases inlinesTrailing with
      | false => rfl
      | true => exact congrArg Except.ok unchanged.symm
    · rfl
  · rename_i last _
    generalize restoreOrder last _ = restored
    cases restored.2.withResult returnType restored.1 with
    | error error => rfl
    | ok whole => cases inlinesTrailing <;> rfl

end CilLift.Emission
