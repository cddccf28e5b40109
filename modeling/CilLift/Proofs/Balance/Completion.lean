import CilLift.Proofs.Balance.Execution
import CilLift.Proofs.Ledger

/-!
The completion of a lifting keeps the balance: the statements are put in order, one of them becomes the
result, and nothing is made twice.
-/

namespace CilLift

open List CilLift.Expr Emission Nat

variable {index : Nat} {value statement : Expr}

theorem sum_eraseIdx {α : Type} {items : List α} {found : α} (isFound : items[index]? = some found)
    (weigh : α → ℕ∞) :
    (items.map weigh).sum = ((items.eraseIdx index).map weigh).sum + weigh found ∧
      ∀ other, ((items.set index other).map weigh).sum =
        ((items.eraseIdx index).map weigh).sum + weigh other := by
  induction items generalizing index with
  | nil => cases isFound
  | cons head rest ih =>
    cases index with
    | zero =>
      cases isFound
      simp [add_comm]
    | succ index =>
      obtain ⟨whole, replaced⟩ := ih isFound
      simp only [map_cons, sum_cons, eraseIdx_cons_succ, set_cons_succ, whole,
        replaced, add_assoc, implies_true, and_self]

namespace Scale

variable {scale : Scale} {start space : Workspace} {active : StackId → Prop}
  {base atlas : Atlas} {pool : List (Expr × Expr)} {shared : List Expr} {hand : List Held}

namespace Balance

/-- Statements and trees at hand change places. -/
theorem restate {statements : List Expr} {held : List Held}
    (balance : scale.Balance start active base atlas pool space shared hand)
    (lighter : (statements.map (scale.weight space.emission.nextNode atlas)).sum +
        ((held.map Held.tree).map (scale.weight space.emission.nextNode atlas)).sum ≤
      (space.emission.statements.map (scale.weight space.emission.nextNode atlas)).sum +
        ((hand.map Held.tree).map (scale.weight space.emission.nextNode atlas)).sum) :
    scale.Balance start active base atlas pool
      { space with emission := { space.emission with statements } } shared held := by
  refine balance.rearrange rfl rfl (fun _ _ => rfl) rfl (fun _ => .inl) balance.backed
    balance.unexposed ?_
  have sameItems : Workspace.itemLoad (scale.weight space.emission.nextNode atlas) active
      { space with emission := { space.emission with statements } } =
      space.itemLoad (scale.weight space.emission.nextNode atlas) active := rfl
  simp only [Workspace.load, map_append, List.sum_append]
  rw [sameItems]
  generalize space.itemLoad (scale.weight space.emission.nextNode atlas) active = items
  generalize ((pool.map Prod.snd).map (scale.weight space.emission.nextNode atlas)).sum = assignments
  calc _ = items + assignments + (_ + _) := by ac_rfl
    _ ≤ items + assignments + (_ + _) := add_le_add_right lighter _
    _ = _ := by ac_rfl

theorem repeatShared {tree : Expr} (isShared : tree ∈ shared)
    (balance : scale.Balance start active base atlas pool space shared hand) :
    scale.Balance start active base atlas pool
      { space with emission := space.emission.addStatement tree } shared hand :=
  (balance.grasp (.made tree) (weight_of_exposure (balance.unexposed tree isShared))).addStatement

/-- A statement gives way to the assignment of a value that weighs no more. -/
theorem assignStatement (fair : scale.Fair) {node item : Expr} (isShared : node ∈ shared)
    (isItem : space.emission.statements[index]? = some item)
    (admits : scale.Admits space.emission.nextNode atlas value)
    (lighter : value.nodes.countP scale.isWatched ≤ item.nodes.countP scale.isWatched)
    (balance : scale.Balance start active base atlas pool space shared []) :
    ∃ wider, scale.Balance start active base wider pool
      { space with emission := Emission.addStatement node <|
        { (space.emission.place (.mkAssign node value)).2 with
          statements := space.emission.statements.set index
            (space.emission.place (.mkAssign node value)).1 } } shared [] := by
  have opened : scale.Balance start active base atlas pool
      { space with emission := { space.emission with
        statements := space.emission.statements.eraseIdx index } } shared [.made value] := by
    refine balance.restate ?_
    have isStatement := balance.admits_statement (mem_of_getElem? isItem)
    obtain ⟨whole, -⟩ := sum_eraseIdx isItem (scale.weight space.emission.nextNode atlas)
    simp only [whole, map_cons, map_nil, sum_nil, add_zero, Held.tree]
    refine add_le_add_right ?_ _
    rw [weight, tally_eq admits, tally_eq isStatement]
    exact cast_le.2 lighter
  obtain ⟨wider, assigned⟩ := opened.assign fair isShared
  refine ⟨wider, repeatShared isShared (assigned.restate ?_)⟩
  obtain ⟨-, replaced⟩ := sum_eraseIdx isItem (scale.weight
    (space.emission.place (.mkAssign node value)).2.nextNode wider)
  simpa [Held.tree, Emission.place] using (replaced (space.emission.place (.mkAssign node value)).1).le

/-- The assignment of an admitted value is made in vain. -/
theorem discardAssignment (fair : scale.Fair) {node : Expr} (isShared : node ∈ shared)
    (admits : scale.Admits space.emission.nextNode atlas value)
    (balance : scale.Balance start active base atlas pool space shared hand) :
    ∃ wider, scale.Balance start active base wider pool
      { space with emission :=
        (space.emission.place (.mkAssign node value)).2.addStatement node } shared hand := by
  have made : scale.Admits space.emission.nextNode atlas (.mkAssign node value) := by
    refine fair.build _ rfl rfl fun part mem => ?_
    rcases mem_cons.1 mem with rfl | mem
    · exact balance.admits_shared isShared
    · exact mem_singleton.1 mem ▸ admits
  obtain ⟨wider, agrees, -⟩ := fair.place_weight made
  exact ⟨wider, repeatShared isShared
    (balance.grow fair (space.emission.nextNode_place (.mkAssign node value)) agrees)⟩

end Balance

/-- Admitted trees with one identity hold the watched call equally often. -/
def Tells (scale : Scale) : Prop :=
  ∀ next atlas first second, scale.Admits next atlas first → scale.Admits next atlas second →
    isSame first second = true →
    first.nodes.countP scale.isWatched = second.nodes.countP scale.isWatched

/-- What has been produced is in balance by itself. -/
def Carries (scale : Scale) (atlas : Atlas) (emission : Emission) : Prop :=
  scale.Balance { emission } (fun _ => True) atlas atlas [] { emission } [] []

variable {emission : Emission}

namespace Carries

/-- A part of the balance of a workspace is in balance. -/
theorem of_balance (balance : scale.Balance start active base atlas pool space shared hand)
    (statements : emission.statements = space.emission.statements)
    (declarations : ∀ node ∈ emission.declarations, node ∈ space.emission.declarations)
    (nextNode : emission.nextNode = space.emission.nextNode) : scale.Carries atlas emission where
  forks := rfl
  outline := rfl
  idle _ _ := rfl
  grown := le_refl _
  agrees := .refl _ _
  declared := by
    rw [nextNode]
    exact fun node mem => balance.declared node (declarations node mem)
  backed := by simp [Workspace.slots]
  unexposed := by simp
  within := by
    rw [nextNode]
    refine le_trans ?_ balance.within
    simp only [Workspace.load, Workspace.itemLoad, length_nil, Finset.range_zero,
      Finset.sum_empty, zero_add, map_append, List.sum_append, map_nil, sum_nil,
      add_zero, statements]
    exact le_add_left le_self_add

theorem restate {statements : List Expr} (carries : scale.Carries atlas emission)
    (lighter : (statements.map (scale.weight emission.nextNode atlas)).sum ≤
      (emission.statements.map (scale.weight emission.nextNode atlas)).sum) :
    scale.Carries atlas { emission with statements } := by
  have restated : scale.Balance { emission } (fun _ => True) atlas atlas []
      { emission := { emission with statements } } [] [] :=
    Balance.restate carries (by simpa using lighter)
  exact of_balance restated rfl (fun _ => id) rfl

/-- The statements change as a value is bound to a new variable, which is put at the end. -/
theorem replaceWithVariable (fair : scale.Fair) (carries : scale.Carries atlas emission)
    (admits : scale.Admits emission.nextNode atlas value)
    (lighter : ∀ found ∈ emission.statements, isSame statement found = true →
      value.nodes.countP scale.isWatched ≤ found.nodes.countP scale.isWatched) :
    ∃ wider, Atlas.AgreesBelow emission.nextNode atlas wider ∧
      scale.Carries wider (emission.replaceWithVariable statement value) := by
  have fresh : scale.Balance { emission } (fun _ => True) atlas atlas []
      { emission := emission.freshName.2 } [] [] := Balance.emit carries rfl rfl rfl
  obtain ⟨_, named, isVar, -⟩ := fresh.newVariable fair emission.freshName.1 value.type
  have declared := named.addVariable isVar (named.admits_shared mem_cons_self)
  have admits := fair.mono declared.grown declared.agrees admits
  have sameStatements : (emission.freshName.2.newVariable emission.freshName.1
      value.type).2.statements = emission.statements := by
    obtain ⟨_, _, _, isNew⟩ := emission.freshName.2.newVariable_eq emission.freshName.1 value.type
    rw [isNew]
    rfl
  rw [← sameStatements] at lighter
  unfold Emission.replaceWithVariable
  cases found : lastIndexWhere? (isSame statement) (emission.freshName.2.newVariable
      emission.freshName.1 value.type).2.statements with
  | none =>
    obtain ⟨wider, bound⟩ := declared.discardAssignment fair mem_cons_self admits
    exact ⟨wider, bound.agrees, of_balance bound
      (by simp [Emission.place, addVariable, addStatement, found]) (fun _ => id) rfl⟩
  | some index =>
    obtain ⟨item, isItem, isSame⟩ := lastIndexWhere?_eq_some found
    obtain ⟨wider, bound⟩ := declared.assignStatement fair mem_cons_self isItem admits
      (lighter item (mem_of_getElem? isItem) isSame)
    exact ⟨wider, bound.agrees, of_balance bound
      (by simp [Emission.place, addVariable, addStatement, found]) (fun _ => id) rfl⟩

section

variable (carries : scale.Carries atlas emission)

include carries

theorem sortStatements : scale.Carries atlas emission.sortStatements :=
  carries.restate (((perm_sortByKey emission.rank emission.statements).map _).sum_eq.le)

theorem moveToEnd (isSymbol : statement.isSymbol = true)
    (admits : scale.Admits emission.nextNode atlas statement) :
    scale.Carries atlas (emission.moveToEnd statement) := by
  have weightless : scale.weight emission.nextNode atlas statement = 0 := by
    refine weight_of_exposure (exposure_symbol ?_ admits)
    simp only [Expr.isSymbol, Bool.or_eq_true] at isSymbol ⊢
    exact isSymbol.imp_left .inr
  refine carries.restate ?_
  rw [map_append, List.sum_append, map_singleton, sum_singleton, weightless, add_zero]
  split
  · rename_i index found
    obtain ⟨item, isItem, -⟩ := lastIndexWhere?_eq_some found
    rw [(sum_eraseIdx isItem _).1]
    exact le_self_add
  · exact le_rfl

theorem admits_statement (mem : statement ∈ emission.statements) :
    scale.Admits emission.nextNode atlas statement :=
  Balance.admits_statement carries mem

theorem admits :
    ∀ tree ∈ emission.statements ++ emission.declarations, scale.Admits emission.nextNode atlas tree := by
  intro tree mem
  rcases mem_append.1 mem with mem | mem
  · exact carries.admits_statement mem
  · exact (Balance.declared carries tree mem).2

end

theorem restoreOrder (fair : scale.Fair) (tells : scale.Tells) {last : Expr}
    (carries : scale.Carries atlas emission) (mem : last ∈ emission.statements) :
    ∃ wider, Atlas.AgreesBelow emission.nextNode atlas wider ∧
      scale.Carries wider (emission.restoreOrder last).2 := by
  have sorted := carries.sortStatements
  have admits := carries.admits_statement mem
  refine @restoreOrder_keeps emission (fun restored => ∃ wider,
    Atlas.AgreesBelow emission.nextNode atlas wider ∧ scale.Carries wider restored) last
    ⟨atlas, .refl _ _, sorted⟩ (fun isSymbol => ⟨atlas, .refl _ _, sorted.moveToEnd isSymbol admits⟩)
    fun _ => sorted.replaceWithVariable fair admits fun found isFound isSame => le_of_eq ?_
  exact tells _ atlas last found admits (sorted.admits_statement isFound) isSame

theorem grow (fair : scale.Fair) {nextNode : Nat} {wider : Atlas}
    (carries : scale.Carries atlas emission) (grown : emission.nextNode ≤ nextNode)
    (agrees : Atlas.AgreesBelow emission.nextNode atlas wider) :
    scale.Carries wider { emission with nextNode } :=
  of_balance (Balance.grow fair carries grown agrees) rfl (fun _ => id) rfl

theorem setStatement {item : Expr} (carries : scale.Carries atlas emission)
    (isItem : emission.statements[index]? = some item)
    (admits : scale.Admits emission.nextNode atlas value)
    (lighter : value.nodes.countP scale.isWatched ≤ item.nodes.countP scale.isWatched) :
    scale.Carries atlas { emission with statements := emission.statements.set index value } := by
  refine carries.restate ?_
  obtain ⟨whole, replaced⟩ := sum_eraseIdx isItem (scale.weight emission.nextNode atlas)
  rw [whole, replaced]
  refine add_le_add_right ?_ _
  rw [weight, tally_eq admits, tally_eq (carries.admits_statement (mem_of_getElem? isItem))]
  exact cast_le.2 lighter

/-- A value that is placed, if a call is watched, is converted and placed. -/
theorem exists_converted (fair : scale.Fair) (settles : scale.Settles) {coerced : Expr}
    {type : TypeSig} (admits : scale.Admits emission.nextNode atlas value)
    (firm : scale.watched.isSome = true → value.id?.isSome = true)
    (converted : value.coerce type = .ok coerced) :
    ∃ wider, Atlas.AgreesBelow emission.nextNode atlas wider ∧
      scale.Admits (emission.place coerced).2.nextNode wider (emission.place coerced).1 ∧
      (emission.place coerced).1.nodes.countP scale.isWatched ≤ value.nodes.countP scale.isWatched := by
  have made : MadeOf [value] coerced := (coerce_forms value type).of_ok converted
  have light : scale.exposure emission.nextNode atlas coerced ≤
      scale.exposure emission.nextNode atlas value := by
    simpa using made _ fair.weighed_exposure
  have isMade : scale.Admits emission.nextNode atlas coerced := by
    refine admits_of_tally (ne_top_of_le_ne_top ?_ light)
    rw [exposure, tally_eq admits]
    exact ENat.natCast_ne_top _
  obtain ⟨wider, agrees, isPlaced, -, exposure⟩ := fair.place_weight isMade
  refine ⟨wider, agrees, isPlaced, ?_⟩
  have exposed := exposure.trans light
  rw [Scale.exposure, tally_eq admits, countP_isExposed_eq settles admits firm] at exposed
  have weighs : scale.weight (coerced.place emission.nextNode).2 wider
      (coerced.place emission.nextNode).1 ≤ _ := weight_le_exposure.trans exposed
  rw [weight, tally_eq isPlaced] at weighs
  exact cast_le.1 weighs

/-- Converting the result keeps the statements in balance. -/
theorem returnValue (fair : scale.Fair) (tells : scale.Tells) (settles : scale.Settles)
    (returnType : TypeSig) (lastIndex : Nat) (carries : scale.Carries atlas emission)
    (firm : scale.watched.isSome = true → ∀ statement ∈ emission.statements,
      statement.isVoid = false → statement.id?.isSome = true) :
    Yields (fun _ => True) (emission.returnValue returnType lastIndex) fun result =>
      ∃ wider, Atlas.AgreesBelow emission.nextNode atlas wider ∧ scale.Carries wider result := by
  refine returnValue_yields returnType lastIndex (fun _ _ => trivial) ?_
  intro index value coerced isStatement isUsed converted
  have mem := mem_of_getElem? isStatement
  have admits := carries.admits_statement mem
  obtain ⟨wider, agrees, isPlaced, lighter⟩ :=
    exists_converted fair settles admits (fun watches => firm watches value mem isUsed) converted
  have grown := carries.grow fair (emission.nextNode_place coerced) agrees
  refine ⟨?_, fun _ => ⟨wider, agrees, grown.setStatement isStatement isPlaced lighter⟩⟩
  obtain ⟨widest, agrees', replaced⟩ := grown.replaceWithVariable fair isPlaced
    fun found isFound isSame => lighter.trans_eq (tells _ atlas value found admits
      (carries.admits_statement isFound) isSame)
  exact ⟨widest, agrees.trans (emission.nextNode_place coerced) agrees', replaced⟩

/-- So does putting the value in the place of a trailing variable. -/
theorem inlineTrailing (fair : scale.Fair) (carries : scale.Carries atlas emission) :
    scale.Carries atlas emission.inlineTrailing := by
  rcases emission.inlineTrailing_cases with
    same | ⟨earlier, header, target, number, name, value, last, lastName, isStatements, -, same⟩
  · rwa [same]
  · have restated : scale.Carries atlas { emission with statements := earlier ++ [value] } := by
      refine carries.restate ?_
      have parts : _ ≤ scale.weight emission.nextNode atlas _ :=
        fair.parts_le_tally (.assign header (.var target number name) value)
      have lighter : scale.weight emission.nextNode atlas value ≤
          scale.weight emission.nextNode atlas (.assign header (.var target number name) value) := by
        refine le_trans ?_ parts
        exact single_le_sum (by simp) _ (mem_map_of_mem (by simp [Expr.parts, children]))
      simp only [isStatements, map_append, List.sum_append, map_cons, sum_cons,
        map_nil, sum_nil, add_zero]
      exact add_le_add_right (lighter.trans le_self_add) _
    rw [same]
    exact of_balance restated rfl (fun node => mem_of_mem_filter) rfl

/-- The completed statements are in balance with the values left, if these are placed where a call is
watched. -/
theorem complete (fair : scale.Fair) (tells : scale.Tells) (settles : scale.Settles)
    {items : List Expr} (returnType : TypeSig) (inlinesTrailing : Bool)
    (carries : scale.Carries atlas { emission with statements := emission.statements ++ items })
    (firm : scale.watched.isSome = true → ∀ last ∈ emission.statements ++ items,
      ∀ statement ∈ (Emission.restoreOrder last
        { emission with statements := emission.statements ++ items }).2.statements,
      statement.isVoid = false → statement.id?.isSome = true) :
    Yields (fun _ => True) (emission.complete items returnType inlinesTrailing) fun result =>
      ∃ wider, Atlas.AgreesBelow emission.nextNode atlas wider ∧ scale.Carries wider result := by
  refine complete_yields (fun _ _ => trivial) (fun _ _ => ⟨atlas, .refl _ _, carries⟩) ?_ ?_
  · rintro last mem restored rfl
    obtain ⟨wider, agrees, restored⟩ := carries.restoreOrder fair tells mem
    have grown := nextNode_restoreOrder
      { emission with statements := emission.statements ++ items } last
    refine ⟨fun _ => ⟨wider, agrees, restored⟩, ?_⟩
    refine (restored.returnValue fair tells settles returnType _
      fun watches => firm watches last mem).mono ?_ fun _ => id
    rintro result ⟨widest, agrees', carries⟩
    exact ⟨widest, agrees.trans grown agrees', carries⟩
  · rintro - result ⟨widest, agrees, carries⟩
    exact ⟨widest, agrees, carries.inlineTrailing fair⟩

end Carries

/-- What is left at the end of a run is in balance with what has been produced. -/
theorem Standing.carries {first : Nat} {origin : Atlas} {id : StackId}
    (standing : scale.Standing first origin active atlas pool space []) (isActive : active id) :
    scale.Carries atlas { space.emission with
      statements := space.emission.statements ++ (space.stack id).items.reverse } := by
  have gathered : scale.Balance space active atlas atlas pool (space.withItems id []) []
      ((space.stack id).items.reverse.map .item) := by
    refine standing.balance.withItems isActive (le_of_eq ?_)
    simp [Function.comp_def, Held.tree]
  have restated : scale.Balance space active atlas atlas pool
      { space.withItems id [] with emission := { space.emission with
        statements := space.emission.statements ++ (space.stack id).items.reverse } } [] [] := by
    refine gathered.restate (le_of_eq ?_)
    change _ = (space.emission.statements.map _).sum + _
    simp [Function.comp_def, Held.tree]
  exact .of_balance restated rfl (fun _ mem => mem) rfl

/-- A completed run leaves its statements in balance. -/
theorem Standing.completes {first : Nat} {origin : Atlas} {id : StackId} {returnType : TypeSig}
    {inlinesTrailing : Bool} (fair : scale.Fair) (tells : scale.Tells) (settles : scale.Settles)
    (standing : scale.Standing first origin active atlas pool space []) (isActive : active id)
    (firm : scale.watched.isSome = true →
      ∀ last ∈ space.emission.statements ++ (space.stack id).items.reverse,
      ∀ statement ∈ (restoreOrder last { space.emission with
        statements := space.emission.statements ++ (space.stack id).items.reverse }).2.statements,
      statement.isVoid = false → statement.id?.isSome = true)
    (completes : space.emission.complete (space.stack id).items.reverse returnType
      inlinesTrailing = .ok emission) :
    first ≤ emission.nextNode ∧ ∃ wider, Atlas.AgreesBelow first origin wider ∧
      scale.Carries wider emission := by
  have grown : space.emission.nextNode ≤ emission.nextNode :=
    (complete_faults _ _ _ _).of_ok completes
  obtain ⟨wider, agrees, carries⟩ := ((standing.carries isActive).complete fair tells settles
    returnType inlinesTrailing firm).of_ok completes
  exact ⟨standing.begun.trans grown, wider, standing.agrees.trans standing.begun agrees, carries⟩

end Scale

end CilLift
