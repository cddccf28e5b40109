import CilLift.Proofs.Coherence
import CilLift.Proofs.DefinitionOrder
import CilLift.Proofs.Evaluation
import CilLift.Proofs.Steps

/-!
All paths share one list of statements. An instruction that leaves no value, a call without result, a
discarded call or a store into a field that the compiler added, puts its effect there, and evaluation
of the statements performs it whichever way the forks go.
-/

namespace CilLift

open Trace Regime

variable {value : Expr} {event : Event} {reached : Machine}

theorem mem_set_or {α : Type} {items : List α} {item : α} (mem : item ∈ items) (index : Nat)
    (other : α) : item ∈ items.set index other ∨ items[index]? = some item := by
  obtain ⟨found, isItem⟩ := List.mem_iff_getElem?.1 mem
  by_cases same : index = found
  · exact .inr (same ▸ isItem)
  · refine .inl (List.mem_iff_getElem?.2 ⟨found, ?_⟩)
    rw [List.getElem?_set_ne same, isItem]

namespace Emission

theorem statements_replaceWithVariable (emission : Emission) (statement value : Expr) :
    ∃ node start, (emission.replaceWithVariable statement value).statements =
      (match lastIndexWhere? (Expr.isSame statement) emission.statements with
        | some index => emission.statements.set index ((Expr.mkAssign node value).place start).1
        | none => emission.statements) ++ [node] := by
  obtain ⟨given, names, nextTemporary, isNew⟩ :=
    emission.freshName.2.newVariable_eq emission.freshName.1 value.type
  unfold replaceWithVariable
  dsimp only
  rw [isNew]
  exact ⟨_, _, rfl⟩

/-- Evaluation of the statements performs the effect whatever their tests yield. -/
def Performs (emission : Emission) (effect : Expr) : Prop :=
  ∃ statement ∈ emission.statements, Expr.Sure effect statement

namespace Performs

variable {emission : Emission} {effect : Expr} {atlas : Atlas}

theorem set {index : Nat} {item : Expr} (isItem : emission.statements[index]? = some item)
    (carried : Expr.Sure effect item → Expr.Sure effect value)
    (performs : emission.Performs effect) :
    ∃ statement ∈ emission.statements.set index value, Expr.Sure effect statement := by
  obtain ⟨statement, mem, sure⟩ := performs
  rcases mem_set_or mem index value with mem | isStatement
  · exact ⟨statement, mem, sure⟩
  · cases isItem.symm.trans isStatement
    have inside := (getElem?_eq_some_iff.1 isItem).1
    exact ⟨value, List.mem_iff_getElem.2 ⟨index, by simpa using inside, by simp⟩, carried sure⟩

/-- A statement is replaced by the assignment of a value that performs as much. -/
theorem replaceWithVariable {statement : Expr} (isPlaced : effect.id?.isSome = true)
    (unique : ∀ other ∈ emission.statements, Expr.isSame statement other = true → statement = other)
    (carried : Expr.Sure effect statement → Expr.Sure effect value)
    (performs : emission.Performs effect) :
    (emission.replaceWithVariable statement value).Performs effect := by
  obtain ⟨node, start, isReplaced⟩ := emission.statements_replaceWithVariable statement value
  have assigned : Expr.Sure effect statement →
      Expr.Sure effect ((Expr.mkAssign node value).place start).1 := fun sure =>
    Expr.Sure.place isPlaced (.within (List.mem_append_right _ List.mem_cons_self) (carried sure)) start
  unfold Performs
  rw [isReplaced]
  have kept : ∃ other ∈ (match lastIndexWhere? (Expr.isSame statement) emission.statements with
      | some index => emission.statements.set index ((Expr.mkAssign node value).place start).1
      | none => emission.statements), Expr.Sure effect other := by
    split
    · rename_i index found
      obtain ⟨item, isItem, isSame⟩ := lastIndexWhere?_eq_some found
      obtain rfl := unique item (List.mem_of_getElem? isItem) isSame
      exact performs.set isItem assigned
    · exact performs
  obtain ⟨other, mem, sure⟩ := kept
  exact ⟨other, List.mem_append_left _ mem, sure⟩

theorem sortStatements (performs : emission.Performs effect) :
    emission.sortStatements.Performs effect := by
  obtain ⟨statement, mem, sure⟩ := performs
  exact ⟨statement, (perm_sortByKey emission.rank emission.statements).mem_iff.2 mem, sure⟩

/-- A symbol is moved to the end. -/
theorem moveToEnd {statement : Expr} (isSymbol : statement.isSymbol = true)
    (unique : ∀ other ∈ emission.statements, Expr.isSame statement other = true → statement = other)
    (performs : emission.Performs effect) : (emission.moveToEnd statement).Performs effect := by
  obtain ⟨performing, mem, sure⟩ := performs
  refine ⟨performing, List.mem_append_left _ ?_, sure⟩
  split
  · rename_i index found
    obtain ⟨item, isItem, isSame⟩ := lastIndexWhere?_eq_some found
    obtain rfl := unique item (List.mem_of_getElem? isItem) isSame
    have isOther : performing ≠ statement := by
      rintro rfl
      cases performing with
      | parameter | var =>
        obtain ⟨operand, isCertain, -⟩ := sure.exists_certain rfl
        cases isCertain
      | _ => cases isSymbol
    obtain ⟨position, isPerforming⟩ := List.mem_iff_getElem?.1 mem
    refine List.mem_eraseIdx_iff_getElem?.2 ⟨position, ?_, isPerforming⟩
    rintro rfl
    cases isItem.symm.trans isPerforming
    exact isOther rfl
  · exact mem

theorem restoreOrder {last : Expr} (isPlaced : effect.id?.isSome = true)
    (unique : ∀ other ∈ emission.statements, Expr.isSame last other = true → last = other)
    (performs : emission.Performs effect) : (emission.restoreOrder last).2.Performs effect := by
  have sorted := performs.sortStatements
  have unique : ∀ other ∈ emission.sortStatements.statements, Expr.isSame last other = true →
      last = other := fun other mem =>
    unique other ((perm_sortByKey emission.rank emission.statements).mem_iff.1 mem)
  exact @restoreOrder_keeps emission (·.Performs effect) last sorted
    (fun isSymbol => sorted.moveToEnd isSymbol unique)
    fun _ => sorted.replaceWithVariable isPlaced unique id

theorem returnValue {returnType : TypeSig} {lastIndex : Nat} (isPlaced : effect.id?.isSome = true)
    (unique : ∀ first ∈ emission.statements, ∀ second ∈ emission.statements,
      Expr.isSame first second = true → first = second) (performs : emission.Performs effect) :
    Yields (fun _ => True) (emission.returnValue returnType lastIndex) fun result =>
      result.Performs effect := by
  refine returnValue_yields returnType lastIndex (fun _ _ => trivial) ?_
  intro index value coerced isValue _ converted
  have carried : Expr.Sure effect value → Expr.Sure effect (emission.place coerced).1 :=
    fun sure => (sure.coerce converted).place isPlaced _
  exact ⟨replaceWithVariable isPlaced (unique value (List.mem_of_getElem? isValue)) carried performs,
    fun _ => performs.set isValue carried⟩

/-- The value of a trailing variable takes the place of its assignment. -/
theorem inlineTrailing (performs : emission.Performs effect) :
    emission.inlineTrailing.Performs effect := by
  rcases emission.inlineTrailing_cases with
    same | ⟨earlier, header, target, number, name, value, last, lastName, isStatements, -, same⟩
  · rwa [same]
  · obtain ⟨statement, mem, sure⟩ := performs
    rw [isStatements] at mem
    rw [same]
    rcases List.mem_append.1 mem with mem | mem
    · exact ⟨statement, by simp [mem], sure⟩
    · rcases List.mem_pair.1 mem with rfl | rfl
      · obtain ⟨operand, isCertain, isSure⟩ := sure.exists_certain rfl
        obtain rfl := List.mem_singleton.1 isCertain
        exact ⟨operand, by simp, isSure⟩
      · obtain ⟨operand, isCertain, -⟩ := sure.exists_certain rfl
        cases isCertain

/-- What the statements are sure to perform, they perform when they are completed. -/
theorem complete {items : List Expr} {returnType : TypeSig} {inlinesTrailing : Bool}
    {result : Emission} (isPlaced : effect.id?.isSome = true)
    (carries : (lineage none).Carries atlas
      { emission with statements := emission.statements ++ items })
    (completes : emission.complete items returnType inlinesTrailing = .ok result)
    (performs : Performs { emission with statements := emission.statements ++ items } effect) :
    result.Performs effect := by
  have unique : ∀ {atlas : Atlas} {emission : Emission}, (lineage none).Carries atlas emission →
      ∀ first ∈ emission.statements, ∀ second ∈ emission.statements,
        Expr.isSame first second = true → first = second :=
    fun carries first isFirst second isSecond => Expr.Coherent.unique
      (carries.admits_statement isFirst) (carries.admits_statement isSecond)
  have performed : Yields (fun _ => True)
      (emission.complete items returnType inlinesTrailing) fun result => result.Performs effect := by
    refine complete_yields (fun _ _ => trivial) (fun _ _ => performs) ?_ fun _ _ =>
      inlineTrailing
    rintro last isMember restored rfl
    have restored := performs.restoreOrder isPlaced (unique carries last isMember)
    obtain ⟨wider, -, carries⟩ := carries.restoreOrder fair_lineage tells_lineage isMember
    exact ⟨fun _ => restored, restored.returnValue isPlaced (unique carries)⟩
  exact performed.of_ok completes

end Performs

end Emission

/-- The node runs the code of a method: it calls the method, or invokes a function of its type. -/
def Expr.Runs (method : Method) : Expr → Prop
  | .call _ _ callee _ => callee = method
  | .invoke header _ _ => header.type = method.returnType
  | _ => False

theorem Expr.Runs.place {method : Method} {expr : Expr} (runs : expr.Runs method) (next : Nat) :
    (expr.place next).1.Runs method ∧ (expr.place next).1.isEffect = true := by
  cases expr with
  | call header | invoke header =>
    obtain ⟨type, _ | identity⟩ := header <;> exact ⟨runs, rfl⟩
  | _ => cases runs

namespace Machine

/-- The instructions that leave an effect and no value: calls without result, discarded calls,
constructions and invocations, and stores into a field that the compiler added. -/
def isEffectful (machine : Machine) : Event → Bool
  | .method opcode method =>
    (opcode == .call || opcode == .callvirt) && method.returnType.isVoid
  | .plain opcode => opcode == .pop && machine.items.head?.any fun top =>
      top.isEffect && top.isInteresting
  | .field opcode mem => opcode == .stfld && mem.isSynthetic &&
      machine.items[1]?.any fun target => target.isSymbol || target.isConstant
  | _ => false

/-- The instruction makes the node, under a new identity, and leaves it as the last statement. -/
def Makes (task : Task) (machine : Machine) (event : Event) (effect : Expr) : Prop :=
  ∃ next identity, step task event machine = .ok () next ∧
    next.workspace.emission.statements.getLast? = some effect ∧ effect.id? = some identity ∧
    machine.workspace.emission.nextNode ≤ identity

/-- The node is the effect of the instruction: the one that it makes, or takes off the stack. -/
def Causes (task : Task) (machine : Machine) (effect : Expr) (event : Event) : Prop :=
  match event with
  | .method _ method => effect.Runs method ∧ machine.Makes task event effect
  | .plain _ => machine.items.head? = some effect
  | .field _ mem => machine.Makes task event effect ∧
    ∃ target header fieldHeader value, machine.items[1]? = some target ∧
      effect = .assign header (.field fieldHeader (some target) mem) value
  | _ => False

variable {task : Task} {machine next : Machine} {path : StackId}

/-- A call leaves a new node that runs the method. -/
theorem call_runs {method : Method} {target : Option Expr} {arguments : List Expr}
    (called : call task method target arguments machine = .ok value next) :
    value.Runs method ∧ value.type = method.returnType ∧ value.id? = none := by
  unfold call at called
  cases target with
  | none =>
    cases called
    exact ⟨rfl, rfl, rfl⟩
  | some target =>
    dsimp only at called
    split at called
    · unfold invokeDelegate at called
      split at called
      · cases called
        exact ⟨rfl, rfl, rfl⟩
      · obtain ⟨captured, _, -, called⟩ := andThen_eq_ok.1 called
        cases captured with
        | none =>
          cases called
          exact ⟨rfl, rfl, rfl⟩
        | some delegate =>
          obtain ⟨_, _, -, called⟩ := andThen_eq_ok.1 called
          obtain ⟨body, _, -, called⟩ := andThen_eq_ok.1 called
          cases body with
          | none => cases called
          | some body =>
            obtain ⟨receiver, _, -, called⟩ := andThen_eq_ok.1 called
            obtain ⟨lambda, _, -, called⟩ := andThen_eq_ok.1 called
            cases called
            exact ⟨rfl, rfl, rfl⟩
    · cases called
      exact ⟨rfl, rfl, rfl⟩

/-- A new node that becomes a statement is the last one, and gets a new identity. -/
theorem statement_last {effect : Expr} (isNew : effect.id? = none)
    (stated : statement effect machine = .ok () next) :
    ∃ identity, next.workspace.emission.statements.getLast? =
        some (effect.place machine.workspace.emission.nextNode).1 ∧
      (effect.place machine.workspace.emission.nextNode).1.id? = some identity ∧
      machine.workspace.emission.nextNode ≤ identity := by
  cases stated
  obtain ⟨identity, isPlaced, wasPlaced | later⟩ :=
    effect.exists_id_place machine.workspace.emission.nextNode
  · cases isNew.symm.trans wasPlaced
  · exact ⟨identity, List.getLast?_concat, isPlaced, later.1⟩

/-- A call without result becomes the last statement. -/
theorem runMethod_void {opcode : Opcode} {method : Method} (numbers : task.Numbers)
    (isCall : opcode = .call ∨ opcode = .callvirt) (isVoid : method.returnType.isVoid = true)
    (ran : runMethod task path opcode method machine = .ok () next) :
    ∃ effect identity, next.workspace.emission.statements.getLast? = some effect ∧
      effect.id? = some identity ∧ machine.workspace.emission.nextNode ≤ identity ∧
      effect.Runs method ∧ effect.isEffect = true := by
  obtain ⟨value, called, left, ran⟩ := andThen_eq_ok.1 ran
  have serves : (growing machine.workspace.emission).Serves task := growing_serves numbers
  have custody : ((growing machine.workspace.emission).custody machine.workspace).Serves task path :=
    serves.custody trivial
  have grown : machine.workspace.emission.Grows called.workspace.emission :=
    ((custody.methodValue opcode method (Attends.refl (.refl _))).of_ok left).1.holds
  obtain ⟨runs, isType, isNew⟩ :
      value.Runs method ∧ value.type = method.returnType ∧ value.id? = none := by
    rcases isCall with rfl | rfl
    all_goals
      obtain ⟨arguments, _, -, left⟩ := andThen_eq_ok.1 left
      obtain ⟨target, _, -, left⟩ := andThen_eq_ok.1 left
      exact call_runs left
  rw [Expr.isVoid, isType, if_pos isVoid] at ran
  obtain ⟨identity, isLast, isPlaced, later⟩ := statement_last isNew ran
  exact ⟨_, identity, isLast, isPlaced, le_trans grown.nextNode later, runs.place _⟩

theorem discard_states {top : Expr} {rest : List Expr}
    (found : (machine.workspace.stack path).items = top :: rest)
    (isInteresting : top.isInteresting = true) (discarded : discard path machine = .ok () next) :
    top ∈ next.workspace.emission.statements ∧ top.branch? = none := by
  obtain ⟨value, _, popped, discarded⟩ := andThen_eq_ok.1 discarded
  obtain ⟨_, isTop, isValue, rfl⟩ := pop_eq_ok.1 popped
  cases found.symm.trans isTop
  rw [if_pos isInteresting] at discarded
  obtain ⟨_, _, -, discarded⟩ := andThen_eq_ok.1 discarded
  obtain ⟨_, _, -, discarded⟩ := andThen_eq_ok.1 discarded
  cases discarded
  exact ⟨List.mem_append_right _ List.mem_cons_self, isValue⟩

/-- A store into a field of a symbol or a literal becomes a statement. -/
theorem storeSynthetic_states {opcode : Opcode} {mem : Field} {target : Expr} {rest : List Expr}
    (found : (machine.workspace.stack path).items = value :: target :: rest)
    (isPlaced : target.id?.isSome = true) (isHeld : (target.isSymbol || target.isConstant) = true)
    (stored : storeSynthetic path opcode mem machine = .ok () next) :
    ∃ header fieldHeader coerced identity, next.workspace.emission.statements.getLast? =
        some (.assign header (.field fieldHeader (some target) mem) coerced) ∧
      header.id = some identity ∧ machine.workspace.emission.nextNode ≤ identity := by
  obtain ⟨popped, _, isPopped, stored⟩ := andThen_eq_ok.1 stored
  obtain ⟨others, isTop, -, rfl⟩ := pop_eq_ok.1 isPopped
  cases found.symm.trans isTop
  obtain ⟨popped, _, isPopped, stored⟩ := andThen_eq_ok.1 stored
  obtain ⟨others, isTop, -, rfl⟩ := pop_again (Workspace.inside_of_items found) isPopped
  cases isTop
  have stated : ∃ coerced reached, reached.workspace.emission = machine.workspace.emission ∧
      statement (.mkAssign (.mkField (some target) mem) coerced) reached = .ok () next := by
    cases target with
    | parameter | constant | var =>
      obtain ⟨coerced, reached, coerces, stored⟩ := andThen_eq_ok.1 stored
      obtain ⟨-, rfl⟩ := liftM_eq_ok.1 coerces
      exact ⟨coerced, machine.withItems path _, rfl, stored⟩
    | _ => cases isHeld
  obtain ⟨coerced, reached, sameEmission, stated⟩ := stated
  obtain ⟨identity, isLast, isNew, later⟩ := statement_last rfl stated
  obtain ⟨_, isPlaced⟩ := Option.isSome_iff_exists.1 isPlaced
  simp only [Expr.mkAssign, Expr.mkField, Expr.place, Expr.placeReceiver,
    Expr.place_of_id isPlaced] at isLast isNew
  exact ⟨_, _, _, identity, isLast, isNew, sameEmission ▸ later⟩

/-- An instruction that leaves an effect and no value adds the effect to the statements. -/
theorem step_states (numbers : task.Numbers) (isEffectful : machine.isEffectful event = true)
    (isCurrent : machine.current = some path)
    (placed : ∀ item ∈ (machine.workspace.stack path).items, item.branch? = none →
      item.id?.isSome = true) (steps : step task event machine = .ok () next) :
    ∃ effect ∈ next.workspace.emission.statements,
      machine.Causes task effect event ∧ effect.isEffect = true ∧ effect.id?.isSome = true := by
  have items := items_of_current isCurrent
  cases event with
  | method opcode method =>
    simp only [Machine.isEffectful, Bool.and_eq_true, Bool.or_eq_true, beq_iff_eq] at isEffectful
    obtain ⟨effect, identity, isLast, isPlaced, isNew, runs, isEffect⟩ := runMethod_void numbers
      isEffectful.1 isEffectful.2 ((onCurrent_eq _ isCurrent).symm.trans steps)
    exact ⟨effect, List.mem_of_getLast? isLast,
      ⟨runs, next, identity, steps, isLast, isPlaced, isNew⟩, isEffect, by rw [isPlaced]; rfl⟩
  | plain opcode =>
    simp only [Machine.isEffectful, Bool.and_eq_true, beq_iff_eq] at isEffectful
    obtain ⟨rfl, isTop⟩ := isEffectful
    rw [step_plain isCurrent rfl] at steps
    cases found : (machine.workspace.stack path).items with
    | nil =>
      rw [items, found] at isTop
      cases isTop
    | cons top rest =>
      rw [items, found, List.head?_cons, Option.any_some, Bool.and_eq_true] at isTop
      obtain ⟨isStated, isValue⟩ := discard_states found isTop.2 steps
      refine ⟨top, isStated, ?_, isTop.1, placed top (found ▸ List.mem_cons_self) isValue⟩
      change machine.items.head? = some top
      rw [items, found, List.head?_cons]
  | field opcode mem =>
    simp only [Machine.isEffectful, Bool.and_eq_true, beq_iff_eq] at isEffectful
    obtain ⟨⟨rfl, isSynthetic⟩, isHeld⟩ := isEffectful
    have stored := (onCurrent_eq _ isCurrent).symm.trans steps
    rw [runField, if_pos isSynthetic] at stored
    match found : (machine.workspace.stack path).items with
    | [] | [_] =>
      rw [items, found] at isHeld
      cases isHeld
    | value :: target :: rest =>
      have isTarget : machine.items[1]? = some target := by rw [items, found]; rfl
      rw [isTarget] at isHeld
      have isValue : target.branch? = none := by
        cases target <;> first | rfl | cases isHeld
      obtain ⟨header, fieldHeader, coerced, identity, isLast, isPlaced, isNew⟩ :=
        storeSynthetic_states found (placed target (by simp [found]) isValue) isHeld stored
      exact ⟨_, List.mem_of_getLast? isLast, ⟨⟨next, identity, steps, isLast, isPlaced, isNew⟩,
        target, header, fieldHeader, coerced, isTarget, rfl⟩, rfl,
        Option.isSome_iff_exists.2 ⟨identity, isPlaced⟩⟩
  | _ => cases isEffectful

end Machine

/-- The event at a position of a run, and the machine on which it is performed. -/
def Machine.stage (task : Task) : List Event → Machine → Nat → Option (Event × Machine)
  | [], _, _ => none
  | event :: _, machine, 0 => some (event, machine)
  | event :: rest, machine, position + 1 =>
    match Machine.step task event machine with
    | .ok _ next => stage task rest next position
    | .error .. => none

theorem Machine.performs_of_stage {task : Task} {events : List Event} {machine : Machine}
    {position : Nat}
    (isStage : stage task events machine position = some (event, reached)) :
    Performs task events machine event reached := by
  fun_induction stage task events machine position with
  | case1 | case4 => cases isStage
  | case2 =>
    cases isStage
    exact .now
  | case3 event rest machine position _ next steps ih =>
    exact .later steps (ih isStage)

namespace Lifter

variable {lifter : Lifter} {method : Method} {body : MethodBody} {task : Task} {nextNode : Nat}

/-- Every value on a stack is placed in the machines that a method by itself comes through. -/
theorem Passage.placed {machine : Machine}
    (prepared : lifter.rootTask method = .ok (task, nextNode))
    (passage : lifter.Passage task nextNode body machine)
    (performs : Machine.Performs task passage.inner (lifter.opening task nextNode body) event reached)
    (path : StackId) :
    ∀ item ∈ (reached.workspace.stack path).items, item.branch? = none → item.id?.isSome = true := by
  obtain ⟨unbound, isRoot⟩ := rootTask_parameters prepared
  have tidy := ((Workspace.tidiness_serves (rootTask_numbers prepared) unbound).reaches
    performs.reaches ⟨fun event mem => .inl (passage.isInner event mem),
    ⟨Workspace.tidy_opening isRoot, fun _ _ => trivial, fun _ _ => trivial⟩,
    fun label first second _ _ => Workspace.tidiness_joins.merges label first second⟩).holds
  intro item mem isValue
  rcases reached.workspace.stack_mem_or_default path with isPath | isDefault
  · obtain ⟨-, identity, isPlaced, -⟩ := (tidy.item _ isPath item mem).2 isValue
    rw [isPlaced]
    rfl
  · simp [isDefault] at mem

/-- An effect without value is performed by evaluating the statements, whichever way the forks go:
its node is among the effects of a statement whatever the tests yield. -/
theorem lift_performs_effect {tree : MethodTree} {event : Event} {reached : Machine}
    {path : StackId} (lifted : lifter.lift method body = .ok tree)
    (prepared : lifter.rootTask method = .ok (task, nextNode))
    (performs : Machine.Performs task (ofBody lifter.resolver lifter.context body).events
      { workspace := { emission := { nextNode } } } event reached)
    (isCurrent : reached.current = some path) (isEffectful : reached.isEffectful event = true) :
    ∃ effect, reached.Causes task effect event ∧
      ∃ statement ∈ tree.statements, ∀ truth, effect ∈ statement.effects truth := by
  obtain ⟨_, _, machine, prepared', completed, rfl⟩ := lift_eq_ok lifted
  cases prepared.symm.trans prepared'
  obtain ⟨passage⟩ := exists_passage completed
  have isInstruction : event.isInstruction = true := by
    cases event <;> first | rfl | cases isEffectful
  have inner := passage.performed isInstruction performs
  obtain ⟨next, rest, step, steps, isLater⟩ := inner.exists_rest passage.steps
  obtain ⟨effect, isStated, causes, isEffect, isPlaced⟩ := Machine.step_states
    (rootTask_numbers prepared) isEffectful isCurrent (passage.placed prepared inner path) step
  -- The statement stays there until the last paths have met.
  have serves : (growing next.workspace.emission).Serves task :=
    growing_serves (rootTask_numbers prepared)
  have passed := ((serves.run ⟨fun event mem => .inl (passage.isInner event (isLater mem)),
    ⟨.refl _, fun _ _ => trivial, fun _ _ => trivial⟩,
    fun label first second _ _ => growing_joins.merges label first second⟩).of_ok steps).1
  have arrived := ((serves.lawful.arriveAt .finish passed
    fun _ _ first second _ _ _ _ => growing_joins.merges .finish first second).of_ok
    passage.arrives).1
  have isLeft := arrived.holds.statements.subset isStated
  obtain ⟨origin, accepts⟩ := exists_accepts_lineage prepared
  obtain ⟨atlas, carries⟩ := passage.carries accepts
  obtain ⟨statement, mem, sure⟩ := Emission.Performs.complete isPlaced carries passage.completes
    ⟨effect, List.mem_append_left _ isLeft, .root isEffect⟩
  refine ⟨effect, causes, statement, ?_, sure.performed⟩
  rw [passage.isMachine]
  exact mem

/-- The event at a position of a body, and the machine on which it is performed. -/
def stage (lifter : Lifter) (method : Method) (body : MethodBody) (position : Nat) :
    Option (Event × Machine) :=
  match lifter.rootTask method with
  | .ok (task, nextNode) =>
    Machine.stage task (lifter.trace body).events (.initial nextNode) position
  | .error _ => none

theorem performs_of_stage {position : Nat}
    (prepared : lifter.rootTask method = .ok (task, nextNode))
    (isStage : lifter.stage method body position = some (event, reached)) :
    Machine.Performs task (lifter.trace body).events (.initial nextNode) event reached := by
  rw [stage, prepared] at isStage
  exact Machine.performs_of_stage isStage

/-- A static method without result. -/
def signal : Method where
  token := ⟨0x0a000003⟩
  name := "V"
  returnType := .void
  flags := { isStatic := true }

def signalLifter : Lifter where
  resolver := MetadataTables.resolver {
    members := [
      (⟨0x0a000001⟩, .method { token := ⟨0x0a000001⟩, name := "A", returnType := .int32,
                               flags := { isStatic := true } }),
      (⟨0x0a000003⟩, .method signal)] }

/-- Calls and discards the result where one condition holds and the other does not. -/
def guardedDiscard : MethodBody where
  code := [0x02, 0x2c, 0x09, 0x03, 0x2d, 0x06, 0x28, 0x01, 0x00, 0x00, 0x0a, 0x26, 0x17, 0x2a]

/-- The call is discarded on a path below two forks, and always performed. -/
theorem guardedDiscard_performs_effect :
    ∃ tree event reached, signalLifter.lift (.taking .bool ["a", "b"]) guardedDiscard = .ok tree ∧
      tree.text = "(a, b) => \x7b A(); 1; \x7d" ∧
      signalLifter.stage (.taking .bool ["a", "b"]) guardedDiscard 13 = some (event, reached) ∧
      reached.current = some (reached.workspace.fork 1).onTrue ∧
      reached.isEffectful event = true ∧
      ∃ task nextNode effect, signalLifter.rootTask (.taking .bool ["a", "b"]) = .ok (task, nextNode) ∧
        reached.Causes task effect event ∧
        ∃ statement ∈ tree.statements, ∀ truth, effect ∈ statement.effects truth := by
  have viewed : (signalLifter.lift (.taking .bool ["a", "b"]) guardedDiscard).map MethodTree.text =
      .ok "(a, b) => \x7b A(); 1; \x7d" := by
    decide +kernel
  have staged : ((signalLifter.stage (.taking .bool ["a", "b"]) guardedDiscard 13).map
      fun (event, reached) => (decide (reached.current = some (reached.workspace.fork 1).onTrue),
        reached.isEffectful event)) = some (true, true) := by
    decide +kernel
  obtain ⟨tree, lifted, view⟩ := exists_of_map viewed
  obtain ⟨⟨event, reached⟩, isStage, view'⟩ := Option.map_eq_some_iff.1 staged
  rw [Prod.mk.injEq, decide_eq_true_eq] at view'
  obtain ⟨task, nextNode, _, prepared, -, -⟩ := lift_eq_ok lifted
  obtain ⟨effect, causes, performed⟩ :=
    lift_performs_effect lifted prepared (performs_of_stage prepared isStage) view'.1 view'.2
  exact ⟨tree, event, reached, lifted, view, isStage, view'.1, view'.2, task, nextNode, effect,
    prepared, causes, performed⟩

/-- Calls a method without result where a condition holds. -/
def guardedSignal : MethodBody where
  code := [0x02, 0x2c, 0x05, 0x28, 0x03, 0x00, 0x00, 0x0a, 0x17, 0x2a]

/-- The method is called on the path where the condition holds, but evaluation of the tree calls it
also where every test fails. -/
theorem guardedSignal_leaves_its_path :
    ∃ tree event reached, signalLifter.lift (.taking .bool ["a"]) guardedSignal = .ok tree ∧
      signalLifter.stage (.taking .bool ["a"]) guardedSignal 7 = some (event, reached) ∧
      event.text = "method call 0x0a000003 void V()" ∧
      reached.current = some (reached.workspace.fork 0).onTrue ∧
      (reached.workspace.fork 0).test.text = "a" ∧
      ∃ statement ∈ tree.statements, ∃ effect ∈ statement.effects fun _ => false,
        effect.text = "V()" := by
  have viewed : (signalLifter.lift (.taking .bool ["a"]) guardedSignal).map (fun tree =>
      decide (∃ statement ∈ tree.statements, ∃ effect ∈ statement.effects fun _ => false,
        effect.text = "V()")) = .ok true := by
    decide +kernel
  have staged : ((signalLifter.stage (.taking .bool ["a"]) guardedSignal 7).map
      fun (event, reached) => (event.text,
        decide (reached.current = some (reached.workspace.fork 0).onTrue),
        (reached.workspace.fork 0).test.text)) =
      some ("method call 0x0a000003 void V()", true, "a") := by
    decide +kernel
  obtain ⟨tree, lifted, view⟩ := exists_of_map viewed
  obtain ⟨⟨event, reached⟩, isStage, view'⟩ := Option.map_eq_some_iff.1 staged
  rw [Prod.mk.injEq, Prod.mk.injEq, decide_eq_true_eq] at view'
  rw [decide_eq_true_eq] at view
  exact ⟨tree, event, reached, lifted, isStage, view'.1, view'.2.1, view'.2.2, view⟩

end Lifter

end CilLift
