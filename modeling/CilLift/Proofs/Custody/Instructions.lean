import CilLift.Machine.Run
import CilLift.Proofs.Custody
import CilLift.Proofs.Identities

/-! Every instruction keeps an invariant of the workspace and of the trees at hand. -/

namespace CilLift

open List CilLift.Expr Machine Work Ensures

variable {arguments : List Expr}

/-- The events of instructions and of their places. -/
def Event.isInstruction : Event → Bool
  | .code | .locals .. | .label _ | .finish => false
  | _ => true

namespace Machine

/-- The tree on top of the stack is repeated as it is. -/
def repeats (task : Task) (top : Expr) : Bool :=
  match top with
  | .array .. => true
  | _ => !top.hasCalls task.options.isPureCall

theorem boxed_forms (value : Expr) : Forms [value] (.ok (boxed value)) := by
  unfold boxed
  split
  · exact .unary .convert value .object
  · exact .itself value

theorem unboxed_forms (value : Expr) (type : TypeSig) :
    Forms [value] (do return .mkConvert (← value.coerce .object) type) :=
  (coerce_forms value .object).andThen fun object made =>
    (MadeOf.unary .convert object type).ofOne made

theorem compared_forms (op : BinaryOp) (left : Expr) : Forms [left] (compared op left) := by
  unfold compared
  split
  · exact .itself left
  · exact ensureNumeric_forms left

end Machine

/-- The machine follows the same path, and the same ones wait. -/
structure Machine.SamePaths (machine next : Machine) : Prop where
  current : next.current = machine.current
  waiters : next.waiters = machine.waiters

namespace Custody

variable {α β : Type} {custody : Custody}

/-- The step ends with the invariant and the given trees at hand, on the same paths. -/
def Runs (custody : Custody) (step : Run α) (machine : Machine) (shared : List Expr)
    (after : α → List Held) : Prop :=
  Ensures custody.Tolerates step machine fun result next =>
    custody.Holds next.workspace shared (after result) ∧ machine.SamePaths next

section Runs

variable {machine : Machine} {shared : List Expr} {after : α → List Held}

theorem runs_pure {result : α} (holds : custody.Holds machine.workspace shared (after result)) :
    custody.Runs (pure result) machine shared after :=
  ensures_pure _ |>.2 ⟨holds, rfl, rfl⟩

theorem runs_get {second : Machine → Run α}
    (runs : custody.Runs (second machine) machine shared after) :
    custody.Runs (get >>= second) machine shared after :=
  ensures_bind.2 runs

theorem andThen_runs {step : Run β} {second : β → Run α} {middle : β → Machine → Prop}
    (steps : Ensures custody.Tolerates step machine fun result next =>
      middle result next ∧ machine.SamePaths next)
    (next : ∀ result following, middle result following →
      custody.Runs (second result) following shared after) :
    custody.Runs (step >>= second) machine shared after :=
  andThen steps fun result following ⟨reached, same⟩ =>
    (next result following reached).mono fun _ _ ⟨holds, same'⟩ =>
      ⟨holds, same'.current.trans same.current, same'.waiters.trans same.waiters⟩

theorem Runs.andThen {step : Run β} {second : β → Run α} {middle : β → List Held}
    (runs : custody.Runs step machine shared middle)
    (next : ∀ result following, custody.Holds following.workspace shared (middle result) →
      custody.Runs (second result) following shared after) :
    custody.Runs (step >>= second) machine shared after :=
  andThen_runs runs next

theorem ensures_work {tolerates : Error → Prop} {step : Work α} {post : α → Workspace → Prop}
    (ensured : Ensures tolerates step machine.workspace post) :
    Ensures tolerates (work step) machine fun result next =>
      post result next.workspace ∧ machine.SamePaths next := by
  unfold Ensures at ensured
  unfold Ensures work
  cases outcome : step machine.workspace with
  | ok result space =>
    rw [outcome] at ensured
    exact ⟨ensured, rfl, rfl⟩
  | error error space =>
    rw [outcome] at ensured
    exact ensured

theorem Keeps.work {step : Work α} (kept : custody.Keeps step machine.workspace shared after) :
    custody.Runs (work step) machine shared after :=
  ensures_work kept

end Runs

/-- What the invariant asks of the task besides its laws. -/
structure Serves (custody : Custody) (task : Task) (path : StackId) : Prop where
  lawful : custody.Lawful (· = path) (· = path)
  parameter : ∀ {space shared hand} node, node ∈ task.parameters →
    custody.Holds space shared hand → custody.Holds space shared (.made node :: hand)
  target : ∀ {space shared hand} node, task.target = some node →
    custody.Holds space shared hand → custody.Holds space shared (.made node :: hand)
  known : ∀ {space shared hand} node, some node ∈ task.arguments →
    custody.Holds space shared hand → custody.Holds space shared (.made node :: hand)
  receive : ∀ {space shared tree hand}, custody.Holds space shared (.made tree :: hand) →
    custody.Holds space shared (.receiver tree :: hand)
  methodBody : task.options.inlineDelegates = true → ∀ method,
    Yields custody.Tolerates (task.resolver.methodBody method) fun _ => True
  capturedDelegate : task.options.inlineDelegates = true → ∀ expr,
    Yields custody.Tolerates (task.resolver.capturedDelegate expr) fun found =>
      ∀ delegate node, found = some delegate → delegate.target = some node →
        ∀ {space shared hand}, custody.Holds space shared hand →
          custody.Keeps (place node.shape) space shared fun placed =>
            .receiver placed :: hand
  nested : task.options.inlineDelegates = true → ∀ {space shared hand} method body target type,
    custody.Holds space shared (target.toList.map .receiver ++ hand) →
    Yields custody.Tolerates (task.liftNested space.emission.nextNode method body target)
      fun (tree, nextNode) =>
        custody.Keeps (emit fun emission => ((), { emission with nextNode })) space shared
          fun _ => .made (tree.toLambda type) :: hand

namespace Serves

variable {task : Task} {machine : Machine} {path : StackId} {shared : List Expr} {hand : List Held}
  (serves : custody.Serves task path) {post : α → Machine → Prop} (opcode : Opcode)
  (consumer : String) (method : Method)

include serves

theorem throw {error : Error} (answers : error.IsAnswer) :
    Ensures custody.Tolerates (throw error) machine post :=
  serves.lawful.answer error answers

theorem malformed {fault : Nat → ShapeFault} : Ensures custody.Tolerates (malformed fault) machine post :=
  ensures_bind.2 (ensures_get.2 (serves.throw nofun))

theorem unsupported {opcode : Opcode} : Ensures custody.Tolerates (unsupported opcode) machine post :=
  ensures_bind.2 (ensures_get.2 (serves.throw nofun))

theorem forms {parts : List Expr} {value : Except Error Expr} {second : Expr → Run α}
    (forms : Forms parts value)
    (holds : custody.Holds machine.workspace shared (parts.map .made ++ hand))
    (next : ∀ tree, custody.Holds machine.workspace shared (.made tree :: hand) →
      Ensures custody.Tolerates (second tree) machine post) :
    Ensures custody.Tolerates (liftM value >>= second) machine post := by
  refine ensures_bind.2 ((ensures_lift value).2 ?_)
  exact Yields.mono forms (fun tree made => next tree (serves.lawful.build parts made holds))
    fun error isFault => serves.lawful.answer error isFault.isAnswer

/-! What most instructions are made of. -/

theorem push {value : Expr} (holds : custody.Holds machine.workspace shared (.made value :: hand)) :
    custody.Runs (push path value) machine shared fun _ => hand :=
  (serves.lawful.push rfl holds).work

theorem statement {effect : Expr}
    (holds : custody.Holds machine.workspace shared (.made effect :: hand)) :
    custody.Runs (statement effect) machine shared fun _ => hand :=
  (serves.lawful.statement holds).work

/-- A temporary may be used again and again. -/
theorem materialize {value : Expr} (isValue : value.branch? = none)
    (holds : custody.Holds machine.workspace shared (.item value :: hand)) :
    Ensures custody.Tolerates (materialize value) machine fun bound next =>
      custody.Holds next.workspace (bound :: shared) hand ∧ machine.SamePaths next := by
  have kept := serves.lawful.materialize isValue holds
  have bound : Ensures custody.Tolerates (emit fun emission =>
      emission.freshName.2.materialize value emission.freshName.1) machine.workspace fun bound next =>
        custody.Holds next (bound :: shared) hand := by
    refine mono (withOutcome kept) ?_
    rintro bound next ⟨outcome, holds⟩
    have isVar : bound.isVar = true := by
      cases outcome
      exact Emission.materialize_isVar ..
    exact serves.lawful.share (by simp [isVar]) (serves.lawful.use holds)
  exact ensures_work bound

/-- Pending values are bound to variables where they stand. -/
theorem bindAll {pending : List Expr}
    (holds : custody.Holds (machine.workspace.withItems path []) shared (pending.map .item ++ hand)) :
    Ensures custody.Tolerates (pending.mapM fun item =>
        if item.isInteresting then Machine.materialize item else pure item) machine
      fun bound next => custody.Holds (next.workspace.withItems path []) shared
        (bound.map .item ++ hand) ∧ machine.SamePaths next := by
  induction pending generalizing machine hand with
  | nil => exact ⟨holds, rfl, rfl⟩
  | cons item rest ih =>
    rw [mapM_cons]
    have boundHead : Ensures custody.Tolerates
        (if item.isInteresting then Machine.materialize item else pure item) machine
        fun bound next => custody.Holds (next.workspace.withItems path []) shared
          (.item bound :: (rest.map .item ++ hand)) ∧ machine.SamePaths next := by
      split
      · have isValue : item.branch? = none := by
          cases item <;> simp_all [Expr.isInteresting, branch?]
        exact ⟨serves.lawful.materialize isValue holds, rfl, rfl⟩
      · exact ⟨holds, rfl, rfl⟩
    refine boundHead.andThen ?_
    rintro bound next ⟨holds, same⟩
    refine andThen (ih (serves.lawful.send (rest.map .item) holds)) ?_
    rintro others final ⟨holds, same'⟩
    exact ⟨serves.lawful.bring (others.map .item) holds, same'.current.trans same.current,
      same'.waiters.trans same.waiters⟩

theorem lendAll {space : Workspace} {tree : Expr} (count : Nat)
    (holds : custody.Holds space (tree :: shared) hand) :
    custody.Holds space (tree :: shared) ((replicate count tree).map .made ++ hand) := by
  induction count with
  | zero => exact holds
  | succ count ih => exact serves.lawful.lend (by simp) ih

section

variable (holds : custody.Holds machine.workspace shared hand)

include holds

theorem popItem :
    Ensures custody.Tolerates (pop path consumer) machine fun value next =>
      (value.branch? = none ∧ custody.Holds next.workspace shared (.item value :: hand)) ∧
        machine.SamePaths next := by
  refine andThen (serves.lawful.pop rfl holds).work fun found next ⟨holds, same⟩ => ?_
  split
  · split
    · exact serves.malformed
    · rename_i isValue
      exact ⟨⟨by simpa using isValue, holds⟩, same⟩
  · exact serves.malformed

theorem pop : custody.Runs (pop path consumer) machine shared fun value => .made value :: hand :=
  mono (serves.popItem consumer holds) fun _ _ ⟨⟨_, holds⟩, same⟩ =>
    ⟨serves.lawful.use holds, same⟩

theorem binary {build : Expr → Expr → Except Error Expr}
    (built : ∀ left right, Forms [left, right] (build left right)) :
    custody.Runs (binary path consumer build) machine shared fun _ => hand := by
  refine (serves.pop consumer holds).andThen fun right _ holds => ?_
  refine (serves.pop consumer holds).andThen fun left _ holds => ?_
  exact serves.forms (built left right) holds fun value holds => serves.push holds

theorem unary {build : Expr → Except Error Expr}
    (built : ∀ operand, Forms [operand] (build operand)) :
    custody.Runs (unary path consumer build) machine shared fun _ => hand := by
  refine (serves.pop consumer holds).andThen fun operand _ holds => ?_
  exact serves.forms (built operand) holds fun value holds => serves.push holds

/-! Arithmetic, comparison, conversion, array elements and the bare stack operations. -/

theorem maskOrAnd : custody.Runs (maskOrAnd path) machine shared fun _ => hand := by
  refine (serves.pop "and" holds).andThen fun right _ holds => ?_
  refine (serves.pop "and" holds).andThen fun left _ holds => ?_
  split
  · exact serves.push (serves.lawful.drop (serves.lawful.bring [.made left] holds))
  · exact serves.forms (bitwise_forms .and left right) holds fun value holds =>
      serves.push holds

theorem greaterUnsigned : custody.Runs (greaterUnsigned path) machine shared fun _ => hand := by
  refine (serves.pop "cgt.un" holds).andThen fun right _ holds => ?_
  refine (serves.pop "cgt.un" holds).andThen fun left _ holds => ?_
  split
  · split
    · exact serves.push (serves.lawful.drop (serves.lawful.bring [.made left] holds))
    · exact serves.forms (notEqual_forms left right) holds fun value holds =>
        serves.push holds
  · exact serves.forms (numericComparison_forms .greaterThan left right) holds
      fun value holds => serves.push holds

/-- The top of the stack is repeated as it is, which has to be allowed, or bound to a variable. -/
theorem duplicate (doubles : ∀ top rest, (machine.workspace.stack path).items = top :: rest →
      repeats task top = true →
      custody.Holds machine.workspace shared (.made top :: hand)) :
    custody.Runs (duplicate task path) machine shared fun _ => hand := by
  refine runs_get ?_
  split
  · exact serves.malformed
  · rename_i top rest found
    change custody.Runs (if repeats task top = true then Machine.push path top else do
      let value ← Machine.pop path "dup"
      let bound ← Machine.materialize value
      Machine.push path bound
      Machine.push path bound) machine shared fun _ => hand
    split
    · exact serves.push (doubles top rest found ‹_›)
    · refine andThen_runs (serves.popItem "dup" holds) ?_
      rintro value _ ⟨isValue, holds⟩
      refine andThen_runs (serves.materialize isValue holds) fun bound _ holds => ?_
      have pushed : ∀ machine : Machine, custody.Holds machine.workspace (bound :: shared) hand →
          custody.Runs (Machine.push path bound) machine (bound :: shared) fun _ => hand :=
        fun _ holds => serves.push (serves.lawful.lend (by simp) holds)
      refine andThen_runs (pushed _ holds) fun _ _ holds => ?_
      refine mono (pushed _ holds) ?_
      rintro _ _ ⟨holds, same⟩
      exact ⟨serves.lawful.forget holds, same⟩

theorem discard : custody.Runs (discard path) machine shared fun _ => hand := by
  refine andThen_runs (serves.popItem "pop" holds) fun value popped ⟨isValue, holds⟩ => ?_
  split
  · refine runs_get ?_
    refine andThen_runs (serves.bindAll (serves.lawful.gather rfl holds)) fun bound next holds => ?_
    have replaced : custody.Runs (modify fun machine => { machine with
        workspace := machine.workspace.withItems path bound.reverse }) next shared
        fun _ => .item value :: hand := by
      refine ⟨?_, rfl, rfl⟩
      change custody.Holds (next.workspace.withItems path bound.reverse) _ _
      rw [← Workspace.withItems_withItems next.workspace path []]
      refine serves.lawful.scatter rfl (next.workspace.stack_withItems_nil path) ?_
      rwa [reverse_reverse]
    refine replaced.andThen fun _ final holds => ?_
    exact (serves.lawful.addStatement isValue holds).work
  · exact runs_pure (serves.lawful.drop holds)

theorem storeElement : custody.Runs (storeElement path) machine shared fun _ => hand := by
  refine (serves.pop "stelem" holds).andThen fun value _ holds => ?_
  refine (serves.pop "stelem" holds).andThen fun position _ holds => ?_
  refine (serves.pop "stelem" holds).andThen fun items _ holds => ?_
  split
  · exact serves.malformed
  · rename_i index _
    split
    · rename_i header elements
      refine (serves.pop "stelem" holds).andThen fun duplicated _ holds => ?_
      split
      · split
        · have parts := serves.lawful.bring [.made (.array header elements), .made position]
            (serves.lawful.drop holds)
          refine serves.forms (coerce_forms value _) parts fun element holds => ?_
          exact serves.push (serves.lawful.build [element, .array header elements, position]
            ((MadeOf.set _ header elements index.toNat element).weaken (by simp)) holds)
        · exact serves.malformed
      · exact serves.malformed
    · exact serves.malformed

/-- The operations that leave the path where it is. -/
theorem operate (operation : StackOperation) (isStraight : operation ≠ .leave)
    (doubles : operation = .duplicate → ∀ top rest,
      (machine.workspace.stack path).items = top :: rest → repeats task top = true →
      custody.Holds machine.workspace shared (.made top :: hand)) :
    custody.Runs (operate task path operation) machine shared fun _ => hand := by
  cases operation with
  | arithmetic consumer op => exact serves.binary consumer holds (numeric_forms op)
  | bitwise consumer op => exact serves.binary consumer holds (bitwise_forms op)
  | maskOrAnd => exact serves.maskOrAnd holds
  | shift consumer op => exact serves.binary consumer holds (shift_forms op)
  | negate => exact serves.unary "neg" holds negate_forms
  | complement => exact serves.unary "not" holds bitwiseNot_forms
  | equal => exact serves.binary "ceq" holds equal_forms
  | compare consumer op => exact serves.binary consumer holds (numericComparison_forms op)
  | greaterUnsigned => exact serves.greaterUnsigned holds
  | convert type => exact serves.unary "conv" holds fun operand => convert_forms operand type
  | duplicate => exact serves.duplicate holds (doubles rfl)
  | discard => exact serves.discard holds
  | leave => exact absurd rfl isStraight
  | arrayLength => exact serves.unary "ldlen" holds fun items => .unary .arrayLength items .int32
  | loadElement => exact serves.binary "ldelem" holds fun items position => .index items position
  | storeElement => exact serves.storeElement holds

/-! Arguments, locals and fields. -/

section

variable (index : Nat)

include index

theorem argument :
    custody.Runs (argument task index) machine shared fun value => .made value :: hand := by
  unfold Machine.argument
  dsimp only
  split
  · rename_i target found
    exact runs_pure (serves.target target found holds)
  all_goals
    split
    · rename_i bound found
      exact runs_pure (serves.known bound (mem_of_getElem? found) holds)
    · rename_i parameter found _
      exact runs_pure (serves.parameter parameter (mem_of_getElem? found) holds)
    · exact serves.malformed

theorem requireLocal : custody.Runs (requireLocal path index) machine shared fun _ => hand := by
  refine runs_get ?_
  split
  · exact runs_pure holds
  · exact serves.malformed

theorem loadAddress : custody.Runs (loadAddress path index) machine shared fun _ => hand := by
  refine (serves.requireLocal holds index).andThen fun slot _ holds => ?_
  refine (serves.lawful.readLocal index rfl holds).work.andThen fun found next holds => ?_
  split
  · exact serves.push holds
  · have zero : Ensures custody.Tolerates (place (.zeroOf slot.type)) next.workspace
        fun placed following => custody.Holds following (placed :: shared) hand :=
      serves.lawful.share rfl (serves.lawful.place (serves.lawful.build [] (.constant _ _ _) holds))
    refine andThen_runs (ensures_work zero) fun value third holds => ?_
    have assigned : custody.Runs (work (assignLocal path index value)) third
        (value :: shared) fun _ => hand :=
      (serves.lawful.assignLocal index rfl (serves.lawful.lend (by simp) holds)).work
    refine andThen_runs assigned fun _ _ holds => ?_
    exact serves.push (serves.lawful.bring [] (serves.lawful.forget (serves.lawful.lend (by simp) holds)))

theorem loadLocal : custody.Runs (loadLocal path index) machine shared fun _ => hand := by
  refine (serves.requireLocal holds index).andThen fun slot _ holds => ?_
  refine (serves.lawful.readLocal index rfl holds).work.andThen fun found next holds => ?_
  split
  · exact serves.push holds
  · exact serves.malformed

theorem storeLocal : custody.Runs (storeLocal path index) machine shared fun _ => hand := by
  refine (serves.pop "stloc" holds).andThen fun value _ holds => ?_
  refine (serves.requireLocal holds index).andThen fun slot _ holds => ?_
  exact (serves.lawful.assignLocal index rfl holds).work

theorem runAccess : custody.Runs (runAccess task path opcode index) machine shared fun _ => hand := by
  have loaded : custody.Runs (do Machine.push path (← Machine.argument task index)) machine shared
      fun _ => hand :=
    (serves.argument holds index).andThen fun value _ holds => serves.push holds
  unfold Machine.runAccess
  split
  · exact loaded
  · exact loaded
  · exact serves.loadAddress holds index
  · exact serves.loadLocal holds index
  · exact serves.storeLocal holds index
  · exact serves.unsupported

end

theorem storeSynthetic (mem : Field) :
    custody.Runs (storeSynthetic path opcode mem) machine shared fun _ => hand := by
  refine (serves.pop "stfld" holds).andThen fun value _ holds => ?_
  refine (serves.pop "stfld" holds).andThen fun target next holds => ?_
  have stored : custody.Runs (do
      let value ← value.coerce mem.type
      Machine.statement (.mkAssign (.mkField (some target) mem) value)) next shared
      fun _ => hand := by
    refine serves.forms (coerce_forms value _) (serves.lawful.bring [.made target] holds)
      fun value holds => ?_
    have parts := serves.lawful.bring [.made value] holds
    have field := serves.lawful.build [target] (.field (some target) mem) parts
    exact serves.statement (serves.lawful.store rfl field)
  split
  · exact runs_pure (serves.lawful.drop (serves.lawful.drop holds))
  · exact stored
  · exact stored
  · exact stored
  · exact serves.unsupported

theorem runField (mem : Field) :
    custody.Runs (runField path opcode mem) machine shared fun _ => hand := by
  have loaded : custody.Runs (Machine.unary path "ldfld" fun target =>
      .ok (.mkField (some target) mem)) machine shared fun _ => hand :=
    serves.unary "ldfld" holds fun target => .field (some target) mem
  have loadedStatic : custody.Runs
      (if mem.isSynthetic = true then Machine.push path (.zeroOf mem.type)
      else Machine.push path (.mkField none mem)) machine shared fun _ => hand := by
    split
    · exact serves.push (serves.lawful.build [] (.constant _ _ _) holds)
    · exact serves.push (serves.lawful.build [] (.field none mem) holds)
  unfold Machine.runField
  split
  · exact loaded
  · exact loaded
  · exact loadedStatic
  · exact loadedStatic
  · split
    · exact (serves.pop "stsfld" holds).andThen fun _ _ holds =>
        runs_pure (serves.lawful.drop holds)
    · exact serves.unsupported
  · split
    · exact serves.storeSynthetic _ holds mem
    · exact serves.unsupported
  · exact serves.unsupported

/-! Casts, boxes, type tests and new arrays. -/

theorem newArray (element : TypeSig) :
    custody.Runs (newArray path element) machine shared fun _ => hand := by
  refine (serves.pop "newarr" holds).andThen fun length next holds => ?_
  have holds := serves.lawful.drop holds
  split
  · exact serves.malformed
  · split
    · have zero : Ensures custody.Tolerates (place (.zeroOf element)) next.workspace
          fun placed following => custody.Holds following (placed :: shared) hand :=
        serves.lawful.share rfl (serves.lawful.place (serves.lawful.build [] (.constant _ _ _) holds))
      refine andThen_runs (ensures_work zero) fun value third holds => ?_
      exact serves.push (serves.lawful.forget (serves.lawful.build _ (.array element _)
        (serves.lendAll _ holds)))
    · exact serves.malformed

theorem runType (type : TypeSig) :
    custody.Runs (runType path opcode type) machine shared fun _ => hand := by
  have cast : custody.Runs (Machine.unary path "cast" fun value => value.convert type) machine
      shared fun _ => hand :=
    serves.unary "cast" holds fun value => convert_forms value type
  unfold Machine.runType
  split
  · exact serves.unary "box" holds boxed_forms
  · exact cast
  · exact cast
  · exact cast
  · exact serves.unary "unbox.any" holds fun value => unboxed_forms value type
  · exact serves.unary "isinst" holds fun value => .typeIs value type
  · exact (serves.pop "initobj" holds).andThen fun _ _ holds => runs_pure (serves.lawful.drop holds)
  · exact serves.newArray holds type
  · exact serves.unsupported

/-! Calls, constructions and delegates. -/

theorem popArgument (parameter : Parameter) :
    custody.Runs (popArgument path parameter) machine shared fun value => .made value :: hand := by
  refine (serves.pop "call argument" holds).andThen fun value next holds => ?_
  have holds : custody.Holds next.workspace shared
      (.made (emptyArrayArgument parameter value) :: hand) := by
    refine serves.lawful.build [value] ?_ holds
    unfold emptyArrayArgument
    split
    · split
      · exact (MadeOf.array _ []).weaken (by simp)
      · exact .itself _
    · exact .itself value
  dsimp only
  split
  · exact runs_pure holds
  · exact (ensures_lift _).2 (Yields.mono (coerce_forms _ parameter.type)
      (fun value made => ⟨serves.lawful.build _ made holds, rfl, rfl⟩)
      fun error isFault => serves.lawful.answer error isFault.isAnswer)

theorem popAll {parameters : List Parameter} :
    custody.Runs (parameters.mapM (Machine.popArgument path)) machine shared
      fun arguments => arguments.reverse.map .made ++ hand := by
  induction parameters generalizing machine hand with
  | nil => exact runs_pure holds
  | cons parameter rest ih =>
    rw [mapM_cons]
    refine (serves.popArgument holds parameter).andThen fun value _ holds => ?_
    refine (ih holds).andThen fun arguments _ holds => runs_pure ?_
    simpa using holds

theorem popArguments :
    custody.Runs (popArguments path method) machine shared fun arguments => arguments.map .made ++ hand :=
  (serves.popAll holds).andThen fun _ _ holds => runs_pure holds

theorem popReceiver :
    custody.Runs (popReceiver path method) machine shared
      fun receiver => receiver.toList.map .made ++ hand := by
  unfold Machine.popReceiver
  split
  · exact runs_pure holds
  · exact (serves.pop "call instance" holds).andThen fun value _ holds => runs_pure holds

end

theorem inlineBody (inlines : task.options.inlineDelegates = true) (method : Method)
    (body : MethodBody) (target : Option Expr) (type : TypeSig)
    (holds : custody.Holds machine.workspace shared (target.toList.map .receiver ++ hand)) :
    custody.Runs (inlineBody task method body target type) machine shared
      fun lambda => .made lambda :: hand := by
  refine runs_get ?_
  refine ensures_bind.2 ((ensures_lift _).2 ?_)
  refine (serves.nested inlines method body target type holds).mono ?_ fun _ => id
  rintro ⟨tree, nextNode⟩ kept
  refine kept.work.andThen fun _ numbered holds => ?_
  have flagged : custody.Runs (modify fun machine => { machine with
      notCacheable := machine.notCacheable || tree.notCacheable }) numbered shared
      fun _ => .made (tree.toLambda type) :: hand := ⟨holds, rfl, rfl⟩
  exact flagged.andThen fun _ _ holds => runs_pure holds

/-- A new object is built of its arguments. -/
theorem construct (constructor : Method)
    (holds : custody.Holds machine.workspace shared (arguments.map .made ++ hand)) :
    custody.Runs (construct task constructor arguments) machine shared
      fun value => .made value :: hand := by
  have built := serves.lawful.new constructor arguments holds
  unfold Machine.construct
  split
  · split
    · rename_i target handle
      split
      · rename_i method
        refine ensures_bind.2 ((ensures_lift _).2 ?_)
        unfold delegateBody
        split
        · rename_i inlines
          refine (serves.methodBody inlines method).mono (fun body _ => ?_) fun _ => id
          cases body with
          | some body =>
            refine serves.inlineBody inlines method body _ _ ?_
            have received := serves.receive (serves.lawful.drop (serves.lawful.bring [.made target]
              holds))
            split
            · exact serves.lawful.drop received
            · exact received
          | none => exact runs_pure built
        · exact runs_pure built
      · exact serves.throw nofun
    · exact serves.throw nofun
  · exact runs_pure built

/-- A captured delegate is lifted in the place of its invocation. -/
theorem invokeCaptured (inlines : task.options.inlineDelegates = true) (method : Method)
    (target : Expr) (delegate : DelegateTarget) (receives : ∀ node, delegate.target = some node →
      ∀ {space shared hand}, custody.Holds space shared hand →
        custody.Keeps (place node.shape) space shared fun placed =>
          .receiver placed :: hand)
    (holds : custody.Holds machine.workspace shared (arguments.map .made ++ hand)) :
    custody.Runs (invokeCaptured task method target arguments delegate) machine shared
      fun value => .made value :: hand := by
  have marked : custody.Runs (modify fun machine => { machine with notCacheable := true }) machine
      shared fun _ => arguments.map .made ++ hand := ⟨holds, rfl, rfl⟩
  refine marked.andThen fun _ _ holds => ?_
  refine ensures_bind.2 ((ensures_lift _).2 ?_)
  refine (serves.methodBody inlines delegate.method).mono (fun body _ => ?_) fun _ => id
  cases body with
  | none => exact serves.throw nofun
  | some body =>
    have received : ∀ machine : Machine,
        custody.Holds machine.workspace shared (arguments.map .made ++ hand) →
        custody.Runs (capturedReceiver delegate) machine shared fun receiver =>
          receiver.toList.map .receiver ++ (arguments.map .made ++ hand) := by
      intro machine holds
      unfold capturedReceiver
      split
      · rename_i node isTarget
        exact (receives node isTarget holds).work.andThen fun _ _ holds => runs_pure holds
      · exact runs_pure holds
    refine (received _ holds).andThen fun receiver _ holds => ?_
    refine (serves.inlineBody inlines delegate.method body receiver target.type holds).andThen
      fun lambda _ holds => ?_
    exact runs_pure (serves.lawful.invoke lambda arguments method.returnType holds)

theorem invokeDelegate {target : Expr}
    (holds : custody.Holds machine.workspace shared ((target :: arguments).map .made ++ hand)) :
    custody.Runs (invokeDelegate task method target arguments) machine shared
      fun value => .made value :: hand := by
  have called := serves.lawful.call (some target) method arguments holds
  unfold Machine.invokeDelegate
  split
  · exact runs_pure (serves.lawful.invoke _ arguments method.returnType holds)
  · refine ensures_bind.2 ((ensures_lift _).2 ?_)
    unfold Machine.capturedDelegate
    split
    · rename_i inlines
      refine (serves.capturedDelegate inlines _).mono (fun captured receives => ?_) fun _ => id
      cases captured with
      | some delegate =>
        exact serves.invokeCaptured inlines method _ delegate
          (fun node => receives delegate node rfl) (serves.lawful.drop holds)
      | none => exact runs_pure called
    · exact runs_pure called

theorem call {target : Option Expr} (holds : custody.Holds machine.workspace shared
      ((target.toList ++ arguments).map .made ++ hand)) :
    custody.Runs (call task method target arguments) machine shared fun value => .made value :: hand := by
  have called := serves.lawful.call target method arguments holds
  unfold Machine.call
  split
  · split
    · exact serves.invokeDelegate method holds
    · exact runs_pure called
  · exact runs_pure called

section

variable (holds : custody.Holds machine.workspace shared hand)

include holds

theorem methodValue :
    custody.Runs (methodValue task path opcode method) machine shared
      fun value => .made value :: hand := by
  have called : custody.Runs (do
      let arguments ← Machine.popArguments path method
      let target ← Machine.popReceiver path method
      Machine.call task method target arguments) machine shared fun value => .made value :: hand := by
    refine (serves.popArguments method holds).andThen fun arguments _ holds => ?_
    refine (serves.popReceiver method holds).andThen fun target _ holds => ?_
    exact serves.call method (by simpa using holds)
  unfold Machine.methodValue
  split
  · exact runs_pure (serves.lawful.build [] (.constant _ _ _) holds)
  · exact (serves.pop "ldvirtftn" holds).andThen fun _ _ holds =>
      runs_pure (serves.lawful.build [] (.constant _ _ _) (serves.lawful.drop holds))
  · exact (serves.popArguments method holds).andThen fun arguments _ holds =>
      serves.construct method holds
  · exact called
  · exact called
  · exact serves.unsupported

theorem runMethod : custody.Runs (runMethod task path opcode method) machine shared fun _ => hand := by
  refine (serves.methodValue opcode method holds).andThen fun value _ holds => ?_
  split
  · exact serves.statement holds
  · exact serves.push holds

end

/-! Jumps. -/

/-- What a jump can come to: going to the label, going on, or a fork. -/
structure Leaves (custody : Custody) (machine : Machine) (path : StackId) (label : Label)
    (post : Machine → Prop) : Prop where
  jump : ∀ next, custody.Holds next.workspace [] [] → machine.SamePaths next →
    Ensures custody.Tolerates (jumpTo label path) next fun _ final => post final
  stay : ∀ next, custody.Holds next.workspace [] [] → machine.SamePaths next → post next
  fork : ∀ next test, custody.Holds next.workspace [] [.made test] → machine.SamePaths next →
    Ensures custody.Tolerates (forkAt label path test) next fun _ final => post final

variable {label : Label} {post : Machine → Prop}

theorem jumpOnComparison (op : BinaryOp) (holds : custody.Holds machine.workspace [] [])
    (leaves : Leaves custody machine path label post) :
    Ensures custody.Tolerates (jumpOnComparison label path op) machine fun _ final => post final := by
  refine andThen (serves.pop "branch" holds) fun right popped ⟨holds, same⟩ => ?_
  refine andThen (serves.pop "branch" holds) fun left next ⟨holds, same'⟩ => ?_
  refine serves.forms (compared_forms op left) holds fun left holds => ?_
  refine serves.forms (coerce_forms right _) (serves.lawful.bring [.made left] holds)
    fun right holds => ?_
  have parts := serves.lawful.bring [.made right] holds
  exact leaves.fork next _ (serves.lawful.build [left, right] (.binary op left right .bool) parts)
    ⟨same'.current.trans same.current, same'.waiters.trans same.waiters⟩

theorem jumpIfTrue (holds : custody.Holds machine.workspace [] [])
    (leaves : Leaves custody machine path label post) :
    Ensures custody.Tolerates (jumpIfTrue task label path) machine fun _ final => post final := by
  refine andThen (serves.pop "brtrue" holds) fun value next ⟨holds, same⟩ => ?_
  split
  · exact leaves.jump next (serves.lawful.drop holds) same
  · exact leaves.stay next (serves.lawful.drop holds) same
  · exact serves.forms (isFalse_forms value) holds fun test holds =>
      leaves.fork next test holds same

theorem jumpIfFalse (holds : custody.Holds machine.workspace [] [])
    (leaves : Leaves custody machine path label post) :
    Ensures custody.Tolerates (jumpIfFalse label path) machine fun _ final => post final := by
  refine andThen (serves.pop "brfalse" holds) fun value next ⟨holds, same⟩ => ?_
  split
  · exact leaves.stay next (serves.lawful.drop holds) same
  · exact leaves.jump next (serves.lawful.drop holds) same
  · exact serves.forms (isTrue_forms value) holds fun test holds =>
      leaves.fork next test holds same

theorem runJump (holds : custody.Holds machine.workspace [] [])
    (leaves : Leaves custody machine path label post) :
    Ensures custody.Tolerates (runJump task path opcode label) machine fun _ final => post final := by
  have jumped := fun op => serves.jumpOnComparison op holds leaves
  unfold Machine.runJump
  split
  · exact leaves.jump machine holds ⟨rfl, rfl⟩
  · exact serves.jumpIfFalse holds leaves
  · exact serves.jumpIfTrue holds leaves
  all_goals first | exact jumped _ | exact serves.unsupported

/-! Events. -/

/-- Every instruction keeps the invariant on the same paths, goes to a label or makes a fork. -/
theorem step {event : Event} (isInstruction : event.isInstruction = true)
    (isCurrent : machine.current = some path) (holds : custody.Holds machine.workspace [] [])
    (doubles : ∀ opcode, event = .plain opcode →
      stackOperation? opcode = some .duplicate → ∀ top rest,
      (machine.workspace.stack path).items = top :: rest → repeats task top = true →
      custody.Holds machine.workspace [] [.made top])
    (leaves : ∀ label, Leaves custody machine path label post) :
    Ensures custody.Tolerates (step task event) machine fun _ final => post final := by
  have stays : ∀ {instruction : Run Unit}, (custody.Runs instruction machine [] fun _ => []) →
      Ensures custody.Tolerates instruction machine fun _ final => post final :=
    fun runs => runs.mono fun _ next ⟨holds, same⟩ => (leaves .finish).stay next holds same
  have current : ∀ {instruction : StackId → Run Unit},
      Ensures custody.Tolerates (instruction path) machine (fun _ final => post final) →
      Ensures custody.Tolerates (onCurrent instruction) machine fun _ final => post final := by
    intro instruction ensured
    refine ensures_bind.2 (ensures_get.2 ?_)
    rw [isCurrent]
    exact ensured
  cases event with
  | code | locals | label | finish => cases isInstruction
  | offset position => exact (leaves .finish).stay _ holds ⟨rfl, rfl⟩
  | plain opcode =>
    refine current ?_
    unfold runPlain
    split
    · rename_i operation isOperation
      by_cases isLeave : operation = .leave
      · rw [isLeave]
        exact (leaves .finish).jump machine holds ⟨rfl, rfl⟩
      · exact stays (serves.operate holds operation isLeave fun isDuplicate =>
          doubles opcode rfl (isDuplicate ▸ isOperation))
    · exact serves.unsupported
  | literal value type =>
    exact current (stays (serves.push (serves.lawful.build [] (.constant value type _) holds)))
  | access opcode index => exact current (stays (serves.runAccess opcode holds index))
  | jump opcode label => exact current (serves.runJump opcode holds (leaves label))
  | field opcode mem => exact current (stays (serves.runField opcode holds mem))
  | method opcode method => exact current (stays (serves.runMethod opcode method holds))
  | type opcode type => exact current (stays (serves.runType opcode holds type))

end Serves

end Custody

end CilLift
