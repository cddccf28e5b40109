import CilLift.Proofs.EffectStatements
import CilLift.Proofs.Ledger

/-!
Completion of the statements by position, where a position without statement is a failure without
error. No position that completion looks at is without statement.
-/

namespace CilLift

open List Emission Nat

namespace Checked

variable {emission : Emission} (statement : Expr) {last : Expr}

def statementAt (emission : Emission) (index : Nat) : Except (Option Error) Expr :=
  match emission.statements[index]? with
  | some statement => .ok statement
  | none => .error none

/-- The last position of a statement, if it is anywhere. -/
def positionOf (statement : Expr) (emission : Emission) : Except (Option Error) Unit :=
  match lastIndexWhere? (Expr.isSame statement) emission.statements with
  | some index => do
    let _ ← statementAt emission index
    return ()
  | none => .ok ()

def replaceWithVariable (statement value : Expr) (emission : Emission) :
    Except (Option Error) Emission := do
  positionOf statement emission
  return emission.replaceWithVariable statement value

def moveToEnd (statement : Expr) (emission : Emission) : Except (Option Error) Emission := do
  positionOf statement emission
  return emission.moveToEnd statement

/-- Sorts the statements, of which there are some, and brings the last one back to the end if another
one stands there. -/
def restoreOrder (emission : Emission) : Except (Option Error) (Nat × Emission) := do
  let lastIndex := emission.statements.length - 1
  let last ← statementAt emission lastIndex
  let sorted := emission.sortStatements
  let found ← statementAt sorted lastIndex
  if found.isSame last then return (lastIndex, sorted)
  else if last.isSymbol then return (lastIndex, ← moveToEnd last sorted)
  else if last.isVoid then return (lastIndex, sorted)
  else return (lastIndex + 1, ← replaceWithVariable last last sorted)

/-- The last position below a limit at which a value stands. -/
def lastValue (emission : Emission) : Nat → Except (Option Error) (Option Nat)
  | 0 => .ok none
  | limit + 1 => do
    let statement ← statementAt emission limit
    if statement.isVoid then lastValue emission limit else return some limit

def returnValue (returnType : TypeSig) (lastIndex : Nat) (emission : Emission) :
    Except (Option Error) Emission := do
  match ← lastValue emission (lastIndex + 1) with
  | none => throw (some (.shape (.noValueProduced returnType)))
  | some index =>
    let value ← statementAt emission index
    let (coerced, placed) := emission.place (← (value.coerce returnType).mapError some)
    if index < lastIndex then replaceWithVariable value coerced placed
    else
      let _ ← statementAt placed index
      return { placed with statements := placed.statements.set index coerced }

def withResult (returnType : TypeSig) (lastIndex : Nat) (emission : Emission) :
    Except (Option Error) Emission :=
  if returnType.isVoid then .ok emission else returnValue returnType lastIndex emission

/-- Looks at the last two statements, if there are as many. -/
def inlineTrailing (emission : Emission) : Except (Option Error) Emission := do
  let count := emission.statements.length
  if count < 2 then return emission
  else
    let _ ← statementAt emission (count - 2)
    let _ ← statementAt emission (count - 1)
    return emission.inlineTrailing

def complete (remaining : List Expr) (returnType : TypeSig) (inlinesTrailing : Bool)
    (emission : Emission) : Except (Option Error) Emission := do
  let emission := { emission with statements := emission.statements ++ remaining }
  if emission.statements.isEmpty then
    if returnType.isVoid then return emission
    else throw (some (.shape (.noValueLeft returnType)))
  else
    let (lastIndex, emission) ← restoreOrder emission
    let emission ← withResult returnType lastIndex emission
    if inlinesTrailing then inlineTrailing emission else return emission

/-! No position is without statement. -/

theorem bind_of_ok {ε α β : Type} {first : Except ε α} {next : α → Except ε β} {result : α}
    (found : first = .ok result) : (first >>= next) = next result := by
  rw [found]
  rfl

theorem statementAt_eq {index : Nat} {statement : Expr}
    (found : emission.statements[index]? = some statement) :
    statementAt emission index = .ok statement := by
  rw [statementAt, found]

theorem positionOf_eq (emission : Emission) : positionOf statement emission = .ok () := by
  unfold positionOf
  cases found : lastIndexWhere? (Expr.isSame statement) emission.statements with
  | none => rfl
  | some index =>
    obtain ⟨item, isItem, -⟩ := lastIndexWhere?_eq_some found
    dsimp only
    rw [statementAt_eq isItem]
    rfl

theorem replaceWithVariable_eq (statement value : Expr) (emission : Emission) :
    replaceWithVariable statement value emission =
      .ok (emission.replaceWithVariable statement value) := by
  rw [replaceWithVariable, positionOf_eq]
  rfl

theorem moveToEnd_eq (emission : Emission) :
    moveToEnd statement emission = .ok (emission.moveToEnd statement) := by
  rw [moveToEnd, positionOf_eq]
  rfl

theorem length_sortStatements (emission : Emission) :
    emission.sortStatements.statements.length = emission.statements.length :=
  (perm_sortByKey emission.rank emission.statements).length_eq

theorem last_found (isLast : emission.statements.getLast? = some last) :
    emission.statements[emission.statements.length - 1]? = some last ∧
      ∃ found, emission.sortStatements.statements[emission.statements.length - 1]? = some found := by
  rw [getLast?_eq_getElem?] at isLast
  have inside := (List.getElem?_eq_some_iff.1 isLast).1
  refine ⟨isLast, _, getElem?_eq_getElem ?_⟩
  rwa [length_sortStatements]

theorem restoreOrder_eq (isLast : emission.statements.getLast? = some last) :
    restoreOrder emission = .ok (emission.restoreOrder last) := by
  obtain ⟨isStatement, found, isFound⟩ := last_found isLast
  have same : emission.sortStatements.hasAt (emission.statements.length - 1) last =
      found.isSame last := by
    rw [hasAt, isFound]
    rfl
  unfold restoreOrder Emission.restoreOrder
  dsimp only
  rw [bind_of_ok (statementAt_eq isStatement), bind_of_ok (statementAt_eq isFound), moveToEnd_eq,
    replaceWithVariable_eq, same]
  split
  · rfl
  · split
    · rfl
    · split <;> rfl

theorem length_replaceWithVariable (statement value : Expr) (emission : Emission) :
    (emission.replaceWithVariable statement value).statements.length =
      emission.statements.length + 1 := by
  obtain ⟨node, start, isReplaced⟩ := emission.statements_replaceWithVariable statement value
  rw [isReplaced]
  split <;> simp

theorem length_le_moveToEnd (emission : Emission) :
    emission.statements.length ≤ (emission.moveToEnd statement).statements.length := by
  unfold Emission.moveToEnd
  rw [length_append, length_singleton]
  split
  · rw [length_eraseIdx]
    split <;> omega
  · omega

/-- The search for the result begins at a statement. -/
theorem restoreOrder_inside (isLast : emission.statements.getLast? = some last) :
    (emission.restoreOrder last).1 < (emission.restoreOrder last).2.statements.length := by
  have inside : emission.statements.length - 1 < emission.statements.length :=
    (List.getElem?_eq_some_iff.1 (last_found isLast).1).1
  have sorted := length_sortStatements emission
  have moved := length_le_moveToEnd last emission.sortStatements
  have replaced := length_replaceWithVariable last last emission.sortStatements
  unfold Emission.restoreOrder
  dsimp only
  split
  · exact sorted.symm ▸ inside
  · split
    · exact lt_of_lt_of_le (sorted.symm ▸ inside) moved
    · split
      · exact sorted.symm ▸ inside
      · change emission.statements.length - 1 + 1 <
          (emission.sortStatements.replaceWithVariable last last).statements.length
        omega

theorem lastIndexWhere?_concat {α : Type} (holds : α → Bool) (items : List α) (item : α) :
    lastIndexWhere? holds (items ++ [item]) =
      if holds item then some items.length else lastIndexWhere? holds items := by
  by_cases isFound : holds item = true
  · rw [if_pos isFound]
    exact lastIndexWhere?_of_split isFound nofun
  · simp [lastIndexWhere?, findIdx?_cons, isFound, Function.comp_def, Nat.sub_sub, add_comm]

theorem lastValue_eq {limit : Nat} (inside : limit ≤ emission.statements.length) :
    lastValue emission limit = .ok (lastIndexWhere? (fun statement => !statement.isVoid)
      (emission.statements.take limit)) := by
  induction limit with
  | zero => rfl
  | succ limit ih =>
    have isStatement := getElem?_eq_getElem (lt_of_succ_le inside)
    rw [lastValue, statementAt_eq isStatement, take_succ_eq_append_getElem inside,
      lastIndexWhere?_concat, ih (le_of_succ_le inside), length_take_of_le (le_of_succ_le inside)]
    change (if _ then _ else _) = _
    cases isVoid : emission.statements[limit].isVoid <;> rfl

/-- The conversion of the result asks for statements that exist. -/
theorem returnValue_eq (returnType : TypeSig) {lastIndex : Nat}
    (inside : lastIndex < emission.statements.length) :
    returnValue returnType lastIndex emission =
      (emission.returnValue returnType lastIndex).mapError some := by
  unfold returnValue Emission.returnValue
  rw [bind_of_ok (lastValue_eq inside)]
  dsimp only
  cases found : lastIndexWhere? (fun statement => !statement.isVoid)
      (emission.statements.take (lastIndex + 1)) with
  | none => rfl
  | some index =>
    obtain ⟨value, isCandidate, -⟩ := lastIndexWhere?_eq_some found
    rw [getElem?_take] at isCandidate
    have isValue : emission.statements[index]? = some value := by
      split at isCandidate
      · exact isCandidate
      · cases isCandidate
    have isPlaced : ∀ coerced, (emission.place coerced).2.statements[index]? = some value :=
      fun _ => isValue
    dsimp only
    rw [bind_of_ok (statementAt_eq isValue), isValue]
    dsimp only
    cases value.coerce returnType with
    | error error => rfl
    | ok coerced =>
      change (if index < lastIndex then
          replaceWithVariable value (emission.place coerced).1 (emission.place coerced).2
        else statementAt (emission.place coerced).2 index >>= _) =
          Except.mapError some (if _ then _ else _)
      rw [replaceWithVariable_eq, bind_of_ok (statementAt_eq (isPlaced coerced))]
      split <;> rfl

theorem withResult_eq (returnType : TypeSig) {lastIndex : Nat}
    (inside : lastIndex < emission.statements.length) :
    withResult returnType lastIndex emission =
      (emission.withResult returnType lastIndex).mapError some := by
  unfold withResult Emission.withResult
  split
  · rfl
  · exact returnValue_eq returnType inside

theorem inlineTrailing_of_lt (few : emission.statements.length < 2) :
    emission.inlineTrailing = emission := by
  unfold Emission.inlineTrailing
  split
  · rename_i reversed
    have count := congrArg length reversed
    simp only [length_reverse, length_cons] at count
    omega
  · rfl

theorem inlineTrailing_eq (emission : Emission) :
    inlineTrailing emission = .ok emission.inlineTrailing := by
  unfold inlineTrailing
  dsimp only
  split
  · rw [inlineTrailing_of_lt ‹_›]
    rfl
  · have lastTwo : emission.statements.length - 2 < emission.statements.length ∧
        emission.statements.length - 1 < emission.statements.length := by omega
    rw [bind_of_ok (statementAt_eq (getElem?_eq_getElem lastTwo.1)),
      bind_of_ok (statementAt_eq (getElem?_eq_getElem lastTwo.2))]
    rfl

/-- Completion looks only at statements that are there. -/
theorem complete_eq (remaining : List Expr) (returnType : TypeSig) (inlinesTrailing : Bool)
    (emission : Emission) :
    complete remaining returnType inlinesTrailing emission =
      (emission.complete remaining returnType inlinesTrailing).mapError some := by
  unfold complete Emission.complete
  dsimp only
  cases isLast : (emission.statements ++ remaining).getLast? with
  | none =>
    rw [getLast?_eq_none_iff.1 isLast]
    change (if returnType.isVoid = true then _ else _) = Except.mapError some (if _ then _ else _)
    split <;> rfl
  | some last =>
    have isSome : (emission.statements ++ remaining).isEmpty = false := by
      rw [isEmpty_eq_false_iff]
      rintro isNil
      rw [isNil] at isLast
      cases isLast
    have begins := @restoreOrder_inside
      { emission with statements := emission.statements ++ remaining } last isLast
    rw [isSome, bind_of_ok (restoreOrder_eq isLast)]
    change (withResult returnType _ _ >>= _) =
      Except.mapError some (Emission.withResult returnType _ _ >>= _)
    rw [withResult_eq returnType begins]
    cases Emission.withResult returnType _ _ with
    | error error => rfl
    | ok result =>
      cases inlinesTrailing with
      | false => rfl
      | true => exact inlineTrailing_eq result

end Checked

end CilLift
