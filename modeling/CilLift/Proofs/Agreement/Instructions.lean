import CilLift.Proofs.Agreement
import CilLift.Proofs.Custody.Instructions
import Mathlib.Data.List.Forall2

/-!
Two machines that differ in the names of their labels and in their offsets do the same: both occur
in errors only, apart from the question which paths wait for one label.
-/

namespace CilLift

open CilLift.Expr

/-- The labels of two bodies correspond one to one, and the end to the end. -/
structure Label.Renaming (renames : Label → Label → Prop) : Prop where
  finish : renames .finish .finish
  faithful : ∀ {label renamed label' renamed'}, renames label renamed → renames label' renamed' →
    (label = label' ↔ renamed = renamed')

/-- The same paths wait for corresponding labels. -/
abbrev Label.Waiting (renames : Label → Label → Prop) (waiters waiters' : List (Label × StackId)) :
    Prop :=
  List.Forall₂ (fun waiter waiter' => renames waiter.1 waiter'.1 ∧ waiter.2 = waiter'.2) waiters waiters'

/-- Two machines are alike but for the names of the labels at which paths wait, for the offset, and for
their marks that keep the tree out of a cache. -/
structure Machine.Akin (renames : Label → Label → Prop) (marks : Bool → Bool → Prop)
    (machine other : Machine) : Prop where
  workspace : machine.workspace = other.workspace
  current : machine.current = other.current
  waiters : Label.Waiting renames machine.waiters other.waiters
  notCacheable : marks machine.notCacheable other.notCacheable

/-- Two machines are alike but for the names of the labels at which paths wait, and for the offset. -/
abbrev Machine.Alike (renames : Label → Label → Prop) : Machine → Machine → Prop := Akin renames Eq

/-- What the errors are that a task hands on from its resolver and from nested delegates. -/
structure Task.Relays (errors : Error → Error → Prop) (task : Task) : Prop where
  lenient : Error.Lenient errors
  methodBody : ∀ method,
    Yields (fun error => errors error error) (task.resolver.methodBody method) fun _ => True
  capturedDelegate : ∀ expr,
    Yields (fun error => errors error error) (task.resolver.capturedDelegate expr) fun _ => True
  nested : ∀ nextNode method body target, task.resolver.methodBody method = .ok (some body) →
    Yields (fun error => errors error error) (task.liftNested nextNode method body target) fun _ => True

variable {errors : Error → Error → Prop} {renames : Label → Label → Prop}
  {marks : Bool → Bool → Prop}

namespace Machine

variable {α : Type} {label renamed : Label}

variable (errors renames marks) in
/-- The step does the same from akin machines. -/
abbrev Blind (step : Run α) : Prop := Agrees errors (Akin renames marks) step step

theorem agrees_work {step other : Work α} (agrees : Agrees errors Eq step other) :
    Agrees errors (Akin renames marks) (work step) (work other) := by
  intro first second akin
  have agree := agrees first.workspace second.workspace akin.workspace
  unfold work
  cases stepped : step first.workspace <;> cases otherStepped : other second.workspace <;>
    rw [stepped, otherStepped] at agree <;> cases agree
  · rename_i same
    exact .ok ⟨same, akin.current, akin.waiters, akin.notCacheable⟩
  · exact .error ‹_›

theorem agrees_work_of_total {step : Work α}
    (total : ∀ space, ∃ result next, step space = .ok result next) :
    Blind errors renames marks (work step) :=
  agrees_work (agrees_of_total total)

theorem agrees_push (stack : StackId) (value : Expr) : Blind errors renames marks (push stack value) :=
  agrees_work_of_total fun _ => ⟨_, _, rfl⟩

theorem agrees_statement (effect : Expr) : Blind errors renames marks (statement effect) :=
  agrees_work_of_total fun _ => ⟨_, _, rfl⟩

theorem agrees_materialize (value : Expr) : Blind errors renames marks (materialize value) :=
  agrees_work_of_total fun _ => ⟨_, _, rfl⟩

theorem agrees_onCurrent {instruction instruction' : StackId → Run Unit}
    (agrees : ∀ stack, Agrees errors (Akin renames marks) (instruction stack) (instruction' stack)) :
    Agrees errors (Akin renames marks) (onCurrent instruction) (onCurrent instruction') := by
  refine agrees_get fun first second akin => ?_
  rw [akin.current]
  split
  · exact agrees _
  · exact agrees_pure _

/-! Where paths wait. -/

theorem agrees_park (isRenamed : renames label renamed) (stack : StackId) :
    Agrees errors (Akin renames marks) (park label stack) (park renamed stack) :=
  agrees_modify fun _ _ akin => ⟨akin.workspace, akin.current,
    List.rel_append akin.waiters (.cons ⟨isRenamed, rfl⟩ .nil), akin.notCacheable⟩

theorem agrees_follow (current : Option StackId) :
    Blind errors renames marks (modify fun machine => { machine with current }) :=
  agrees_modify fun _ _ akin => ⟨akin.workspace, rfl, akin.waiters, akin.notCacheable⟩

theorem agrees_jumpTo (isRenamed : renames label renamed) (stack : StackId) :
    Agrees errors (Akin renames marks) (jumpTo label stack) (jumpTo renamed stack) :=
  (agrees_park isRenamed stack).andThen fun _ => agrees_follow none

theorem agrees_forkAt (isRenamed : renames label renamed) (stack : StackId) (test : Expr) :
    Agrees errors (Akin renames marks) (forkAt label stack test) (forkAt renamed stack test) := by
  refine (agrees_work_of_total fun _ => ⟨_, _, rfl⟩).andThen fun branch => ?_
  refine agrees_get fun first second akin => ?_
  rw [akin.workspace]
  refine (agrees_push stack _).andThen fun _ => ?_
  exact (agrees_park isRenamed _).andThen fun _ => agrees_follow _

section Waiting

variable {label renamed : Label} {waiters waiters' : List (Label × StackId)}
  (isRenaming : Label.Renaming renames) (isRenamed : renames label renamed)
  (waiting : Label.Waiting renames waiters waiters')

include isRenaming isRenamed waiting

theorem any_waiting :
    (waiters.any fun waiter => waiter.1 == label) = waiters'.any fun waiter => waiter.1 == renamed := by
  induction waiting with
  | nil => rfl
  | cons corresponds _ ih =>
    have same := isRenaming.faithful corresponds.1 isRenamed
    rw [List.any_cons, List.any_cons, ih, beq_eq_decide, beq_eq_decide, decide_eq_decide.2 same]

theorem filter_waiting :
    Label.Waiting renames (waiters.filter fun waiter => waiter.1 != label)
      (waiters'.filter fun waiter => waiter.1 != renamed) := by
  induction waiting with
  | nil => exact .nil
  | @cons waiter waiter' rest rest' corresponds _ ih =>
    have same := isRenaming.faithful corresponds.1 isRenamed
    by_cases leaves : waiter.1 = label
    · rw [List.filter_cons_of_neg (by simpa using leaves),
        List.filter_cons_of_neg (by simpa using same.1 leaves)]
      exact ih
    · rw [List.filter_cons_of_pos (by simpa using leaves),
        List.filter_cons_of_pos (by simpa using mt same.2 leaves)]
      exact .cons corresponds ih

theorem filterMap_waiting (keep : StackId → Bool) :
    (waiters.filterMap fun waiter =>
      if waiter.1 == label && keep waiter.2 then some waiter.2 else none) =
    waiters'.filterMap fun waiter =>
      if waiter.1 == renamed && keep waiter.2 then some waiter.2 else none := by
  induction waiting with
  | nil => rfl
  | cons corresponds _ ih =>
    have same := isRenaming.faithful corresponds.1 isRenamed
    rw [List.filterMap_cons, List.filterMap_cons, ih, corresponds.2,
      beq_eq_decide, beq_eq_decide, decide_eq_decide.2 same]

end Waiting

theorem Akin.meeting {machine other : Machine}
    (isRenaming : Label.Renaming renames) (isRenamed : renames label renamed)
    (akin : Akin renames marks machine other) : machine.meeting label = other.meeting renamed := by
  unfold Machine.meeting
  rw [akin.current, akin.workspace, filterMap_waiting isRenaming isRenamed akin.waiters
    fun stack => !(other.workspace.stack stack).isReduced]

theorem agrees_arriveAt (lenient : Error.Lenient errors) (isRenaming : Label.Renaming renames)
    (isRenamed : renames label renamed) :
    Agrees errors (Akin renames marks) (arriveAt label) (arriveAt renamed) := by
  refine agrees_get fun first second akin => ?_
  rw [any_waiting isRenaming isRenamed akin.waiters, akin.meeting isRenaming isRenamed]
  split
  · refine (agrees_set ⟨akin.workspace, akin.current,
      filter_waiting isRenaming isRenamed akin.waiters, akin.notCacheable⟩).andThen fun _ => ?_
    split
    · exact agrees_follow none
    · exact (agrees_work (lenient.join label renamed _)).andThen fun joined =>
        agrees_follow (some joined)
  · exact agrees_pure _

end Machine

namespace Task.Relays

open Machine

variable {α : Type} {task : Task} (relays : task.Relays errors) (stack : StackId) (method : Method)

include relays

theorem malformed (fault : Nat → ShapeFault) : Blind errors renames marks (malformed fault : Run α) :=
  agrees_get fun _ _ _ => agrees_throw (relays.lenient _ _ rfl nofun)

theorem unsupported (opcode : Opcode) : Blind errors renames marks (unsupported opcode : Run α) :=
  agrees_get fun _ _ _ => agrees_throw (relays.lenient _ _ rfl nofun)

theorem pop (consumer : String) : Blind errors renames marks (pop stack consumer) := by
  refine (agrees_work_of_total fun _ => ⟨_, _, rfl⟩).andThen fun found => ?_
  split
  · split
    · exact relays.malformed _
    · exact agrees_pure _
  · exact relays.malformed _

theorem binary (consumer : String) {build : Expr → Expr → Except Error Expr}
    (forms : ∀ left right, Forms [left, right] (build left right)) :
    Blind errors renames marks (binary stack consumer build) :=
  (relays.pop stack consumer).andThen fun right =>
    (relays.pop stack consumer).andThen fun left =>
      (relays.lenient.lift (forms left right)).andThen fun value => agrees_push stack value

theorem unary (consumer : String) {build : Expr → Except Error Expr}
    (forms : ∀ operand, Forms [operand] (build operand)) :
    Blind errors renames marks (unary stack consumer build) :=
  (relays.pop stack consumer).andThen fun operand =>
    (relays.lenient.lift (forms operand)).andThen fun value => agrees_push stack value

/-! Arithmetic, comparison, conversion, array elements and the bare stack operations. -/

theorem maskOrAnd : Blind errors renames marks (maskOrAnd stack) := by
  refine (relays.pop stack "and").andThen fun right => ?_
  refine (relays.pop stack "and").andThen fun left => ?_
  split
  · exact agrees_push stack left
  · exact (relays.lenient.lift (bitwise_forms _ _ _)).andThen fun value =>
      agrees_push stack value

theorem greaterUnsigned : Blind errors renames marks (greaterUnsigned stack) := by
  refine (relays.pop stack "cgt.un").andThen fun right => ?_
  refine (relays.pop stack "cgt.un").andThen fun left => ?_
  split
  · split
    · exact agrees_push stack left
    · exact (relays.lenient.lift (notEqual_forms _ _)).andThen fun value =>
        agrees_push stack value
  · exact (relays.lenient.lift (numericComparison_forms _ _ _)).andThen fun value =>
      agrees_push stack value

theorem duplicate : Blind errors renames marks (duplicate task stack) := by
  refine agrees_get fun first second akin => ?_
  rw [akin.workspace]
  split
  · exact relays.malformed _
  · rename_i top _ _
    have eitherWay : ∀ isShared : Bool, Blind errors renames marks (if isShared = true then push stack top
        else do
          let value ← Machine.pop stack "dup"
          let bound ← materialize value
          push stack bound
          push stack bound) := by
      intro isShared
      split
      · exact agrees_push stack _
      · refine (relays.pop stack "dup").andThen fun value => ?_
        refine (agrees_materialize value).andThen fun bound => ?_
        exact (agrees_push stack bound).andThen fun _ => agrees_push stack bound
    exact eitherWay _

theorem discard : Blind errors renames marks (discard stack) := by
  refine (relays.pop stack "pop").andThen fun value => ?_
  split
  · refine agrees_get fun first second akin => ?_
    rw [akin.workspace]
    refine (Agrees.mapM fun item => ?_).andThen fun bound => ?_
    · split
      · exact agrees_materialize item
      · exact agrees_pure item
    · refine (agrees_modify fun first second akin => ?_).andThen fun _ =>
        agrees_work_of_total fun _ => ⟨_, _, rfl⟩
      exact ⟨by rw [akin.workspace], akin.current, akin.waiters, akin.notCacheable⟩
  · exact agrees_pure _

theorem storeElement : Blind errors renames marks (storeElement stack) := by
  refine (relays.pop stack "stelem").andThen fun value => ?_
  refine (relays.pop stack "stelem").andThen fun position => ?_
  refine (relays.pop stack "stelem").andThen fun items => ?_
  split
  · exact relays.malformed _
  · split
    · refine (relays.pop stack "stelem").andThen fun duplicated => ?_
      split
      · split
        · exact (relays.lenient.lift (coerce_faults _ _)).andThen fun element =>
            agrees_push stack _
        · exact relays.malformed _
      · exact relays.malformed _
    · exact relays.malformed _

/-- Every operation on the stack is the same for akin machines. -/
theorem operate (isRenaming : Label.Renaming renames) (stack : StackId)
    (operation : StackOperation) :
    Blind errors renames marks (operate task stack operation) := by
  cases operation with
  | arithmetic consumer op => exact relays.binary stack consumer (numeric_forms op)
  | bitwise consumer op => exact relays.binary stack consumer (bitwise_forms op)
  | maskOrAnd => exact relays.maskOrAnd stack
  | shift consumer op => exact relays.binary stack consumer (shift_forms op)
  | negate => exact relays.unary stack "neg" negate_forms
  | complement => exact relays.unary stack "not" bitwiseNot_forms
  | equal => exact relays.binary stack "ceq" equal_forms
  | compare consumer op =>
    exact relays.binary stack consumer (numericComparison_forms op)
  | greaterUnsigned => exact relays.greaterUnsigned stack
  | convert type =>
    exact relays.unary stack "conv" fun operand => convert_forms operand type
  | duplicate => exact relays.duplicate stack
  | discard => exact relays.discard stack
  | leave => exact agrees_jumpTo isRenaming.finish stack
  | arrayLength => exact relays.unary stack "ldlen" fun items => .unary .arrayLength items .int32
  | loadElement => exact relays.binary stack "ldelem" fun items position => .index items position
  | storeElement => exact relays.storeElement stack

theorem runPlain (isRenaming : Label.Renaming renames) (stack : StackId) (opcode : Opcode) :
    Blind errors renames marks (runPlain task stack opcode) := by
  unfold Machine.runPlain
  split
  · exact relays.operate isRenaming stack _
  · exact relays.unsupported opcode

/-! Arguments, locals and fields. -/

theorem argument (index : Nat) : Blind errors renames marks (argument task index) := by
  unfold Machine.argument
  dsimp only
  split
  · exact agrees_pure _
  all_goals
    split
    · exact agrees_pure _
    · exact agrees_pure _
    · exact relays.malformed _

theorem requireLocal (index : Nat) : Blind errors renames marks (requireLocal stack index) := by
  refine agrees_get fun first second akin => ?_
  rw [akin.workspace]
  split
  · exact agrees_pure _
  · exact relays.malformed _

theorem assignLocal (index : Nat) (value : Expr) :
    Blind errors renames marks (work (Work.assignLocal stack index value)) :=
  agrees_work (relays.lenient.assignLocal stack index value)

theorem loadAddress (index : Nat) : Blind errors renames marks (loadAddress stack index) := by
  refine (relays.requireLocal stack index).andThen fun slot => ?_
  refine (agrees_work_of_total fun _ => ⟨_, _, rfl⟩).andThen fun found => ?_
  split
  · exact agrees_push stack _
  · refine (agrees_work_of_total fun _ => ⟨_, _, rfl⟩).andThen fun value => ?_
    exact (relays.assignLocal stack index value).andThen fun _ => agrees_push stack value

theorem loadLocal (index : Nat) : Blind errors renames marks (loadLocal stack index) := by
  refine (relays.requireLocal stack index).andThen fun slot => ?_
  refine (agrees_work_of_total fun _ => ⟨_, _, rfl⟩).andThen fun found => ?_
  split
  · exact agrees_push stack _
  · exact relays.malformed _

theorem runAccess (opcode : Opcode) (index : Nat) :
    Blind errors renames marks (runAccess task stack opcode index) := by
  unfold Machine.runAccess
  split
  · exact (relays.argument index).andThen fun value => agrees_push stack value
  · exact (relays.argument index).andThen fun value => agrees_push stack value
  · exact relays.loadAddress stack index
  · exact relays.loadLocal stack index
  · exact (relays.pop stack "stloc").andThen fun value =>
      (relays.requireLocal stack index).andThen fun _ => relays.assignLocal stack index value
  · exact relays.unsupported _

theorem storeSynthetic (opcode : Opcode) (mem : Field) :
    Blind errors renames marks (storeSynthetic stack opcode mem) := by
  refine (relays.pop stack "stfld").andThen fun value => ?_
  refine (relays.pop stack "stfld").andThen fun target => ?_
  have stored : Blind errors renames marks (do
      let value ← value.coerce mem.type
      statement (.mkAssign (.mkField (some target) mem) value)) :=
    (relays.lenient.lift (coerce_faults _ _)).andThen fun _ => agrees_statement _
  split
  · exact agrees_pure _
  · exact stored
  · exact stored
  · exact stored
  · exact relays.unsupported opcode

theorem runField (opcode : Opcode) (mem : Field) :
    Blind errors renames marks (runField stack opcode mem) := by
  have loadedStatic : Blind errors renames marks (if mem.isSynthetic = true then
      push stack (.zeroOf mem.type) else push stack (.mkField none mem)) := by
    split
    · exact agrees_push stack _
    · exact agrees_push stack _
  unfold Machine.runField
  split
  · exact relays.unary stack "ldfld" fun receiver => .field (some receiver) mem
  · exact relays.unary stack "ldfld" fun receiver => .field (some receiver) mem
  · exact loadedStatic
  · exact loadedStatic
  · split
    · exact (relays.pop stack "stsfld").andThen fun _ => agrees_pure _
    · exact relays.unsupported _
  · split
    · exact relays.storeSynthetic stack _ mem
    · exact relays.unsupported _
  · exact relays.unsupported _

/-! Casts, boxes, type tests and new arrays. -/

theorem newArray (element : TypeSig) : Blind errors renames marks (newArray stack element) := by
  refine (relays.pop stack "newarr").andThen fun length => ?_
  split
  · exact relays.malformed _
  · split
    · exact (agrees_work_of_total fun _ => ⟨_, _, rfl⟩).andThen fun zero => agrees_push stack _
    · exact relays.malformed _

theorem runType (opcode : Opcode) (type : TypeSig) :
    Blind errors renames marks (runType stack opcode type) := by
  have cast : Blind errors renames marks (Machine.unary stack "cast" fun value => value.convert type) :=
    relays.unary stack "cast" fun value => convert_forms value type
  unfold Machine.runType
  split
  · exact relays.unary stack "box" boxed_forms
  · exact cast
  · exact cast
  · exact cast
  · exact relays.unary stack "unbox.any" fun value => unboxed_forms value type
  · exact relays.unary stack "isinst" fun value => .typeIs value type
  · exact (relays.pop stack "initobj").andThen fun _ => agrees_pure _
  · exact relays.newArray stack type
  · exact relays.unsupported _

/-! Calls, constructions and delegates. -/

theorem popArguments : Blind errors renames marks (popArguments stack method) := by
  refine (Agrees.mapM fun parameter => ?_).andThen fun arguments => agrees_pure _
  refine (relays.pop stack "call argument").andThen fun value => ?_
  dsimp only
  split
  · exact agrees_pure _
  · exact relays.lenient.lift (coerce_faults _ _)

theorem inlineBody {method : Method} {body : MethodBody} (target : Option Expr) (type : TypeSig)
    (known : task.resolver.methodBody method = .ok (some body)) :
    Agrees errors (Akin renames Eq) (inlineBody task method body target type)
      (inlineBody task method body target type) := by
  refine agrees_get fun first second akin => ?_
  rw [akin.workspace]
  refine (agrees_lift (relays.nested _ method body target known)).andThen fun (tree, nextNode) => ?_
  refine (agrees_work_of_total fun _ => ⟨_, _, rfl⟩).andThen fun _ => ?_
  refine (agrees_modify fun first second akin => ?_).andThen fun _ => agrees_pure _
  exact ⟨akin.workspace, akin.current, akin.waiters, by rw [akin.notCacheable]⟩

/-- A body is inlined where the resolver knows it. -/
theorem withBody {method : Method} {next next' : Option MethodBody → Run α}
    (missing : Agrees errors (Akin renames Eq) (next none) (next' none))
    (found : ∀ body, task.resolver.methodBody method = .ok (some body) →
      Agrees errors (Akin renames Eq) (next (some body)) (next' (some body))) :
    Agrees errors (Akin renames Eq) (liftM (task.resolver.methodBody method) >>= next)
      (liftM (task.resolver.methodBody method) >>= next') := by
  have answered := relays.methodBody method
  cases known : task.resolver.methodBody method with
  | error error =>
    rw [known] at answered
    exact fun _ _ _ => .error answered
  | ok body =>
    cases body with
    | none => exact missing
    | some body => exact found body known

theorem construct (constructor : Method) (arguments : List Expr) :
    Agrees errors (Akin renames Eq) (construct task constructor arguments)
      (construct task constructor arguments) := by
  unfold Machine.construct
  split
  · split
    · split
      · unfold delegateBody
        split
        · exact relays.withBody (agrees_pure _) fun body known => relays.inlineBody _ _ known
        · exact agrees_pure _
      · exact relays.lenient.shape _ _
    · exact relays.lenient.shape _ _
  · exact agrees_pure _

theorem invokeCaptured (target : Expr) (arguments : List Expr) (delegate : DelegateTarget) :
    Agrees errors (Akin renames Eq) (invokeCaptured task method target arguments delegate)
      (invokeCaptured task method target arguments delegate) := by
  refine (agrees_modify fun first second akin => ?_).andThen fun _ => ?_
  · exact ⟨akin.workspace, akin.current, akin.waiters, rfl⟩
  · refine relays.withBody (agrees_throw (relays.lenient _ _ rfl nofun)) fun body known => ?_
    refine Agrees.andThen ?_ fun receiver => ?_
    · unfold capturedReceiver
      split
      · exact (agrees_work_of_total fun _ => ⟨_, _, rfl⟩).andThen fun _ => agrees_pure _
      · exact agrees_pure _
    · exact (relays.inlineBody receiver target.type known).andThen fun _ => agrees_pure _

theorem invokeDelegate (target : Expr) (arguments : List Expr) :
    Agrees errors (Akin renames Eq) (invokeDelegate task method target arguments)
      (invokeDelegate task method target arguments) := by
  unfold Machine.invokeDelegate
  split
  · exact agrees_pure _
  · unfold Machine.capturedDelegate
    refine Agrees.andThen ?_ fun captured => ?_
    · split
      · exact agrees_lift (relays.capturedDelegate _)
      · exact agrees_lift trivial
    · split
      · exact relays.invokeCaptured method _ arguments _
      · exact agrees_pure _

theorem call (target : Option Expr) (arguments : List Expr) :
    Agrees errors (Akin renames Eq) (call task method target arguments)
      (call task method target arguments) := by
  unfold Machine.call
  split
  · split
    · exact relays.invokeDelegate method _ arguments
    · exact agrees_pure _
  · exact agrees_pure _

theorem popReceiver : Blind errors renames marks (popReceiver stack method) := by
  unfold Machine.popReceiver
  split
  · exact agrees_pure _
  · exact (relays.pop stack "call instance").andThen fun _ => agrees_pure _

theorem methodValue (opcode : Opcode) (method : Method) :
    Agrees errors (Akin renames Eq) (methodValue task stack opcode method)
      (methodValue task stack opcode method) := by
  have called : Agrees errors (Akin renames Eq) (do
      let arguments ← Machine.popArguments stack method
      let target ← Machine.popReceiver stack method
      Machine.call task method target arguments) (do
      let arguments ← Machine.popArguments stack method
      let target ← Machine.popReceiver stack method
      Machine.call task method target arguments) :=
    (relays.popArguments stack method).andThen fun arguments =>
      (relays.popReceiver stack method).andThen fun target => relays.call method target arguments
  unfold Machine.methodValue
  split
  · exact agrees_pure _
  · exact (relays.pop stack "ldvirtftn").andThen fun _ => agrees_pure _
  · exact (relays.popArguments stack method).andThen fun arguments =>
      relays.construct method arguments
  · exact called
  · exact called
  · exact relays.unsupported _

theorem runMethod (opcode : Opcode) (method : Method) :
    Agrees errors (Akin renames Eq) (runMethod task stack opcode method)
      (runMethod task stack opcode method) := by
  refine (relays.methodValue stack opcode method).andThen fun value => ?_
  split
  · exact agrees_statement value
  · exact agrees_push stack value

/-! Jumps. -/

section Jumps

variable {label renamed : Label} (isRenamed : renames label renamed) (stack : StackId)

include isRenamed

theorem jumpOnComparison (op : BinaryOp) :
    Agrees errors (Akin renames marks) (jumpOnComparison label stack op)
      (jumpOnComparison renamed stack op) := by
  refine (relays.pop stack "branch").andThen fun right => ?_
  refine (relays.pop stack "branch").andThen fun left => ?_
  refine (relays.lenient.lift (compared_forms op left)).andThen fun left => ?_
  exact (relays.lenient.lift (coerce_faults _ _)).andThen fun right =>
    agrees_forkAt isRenamed stack _

theorem jumpIfTrue :
    Agrees errors (Akin renames marks) (jumpIfTrue task label stack) (jumpIfTrue task renamed stack) := by
  refine (relays.pop stack "brtrue").andThen fun value => ?_
  split
  · exact agrees_jumpTo isRenamed stack
  · exact agrees_pure _
  · exact (relays.lenient.lift (isFalse_forms value)).andThen fun test =>
      agrees_forkAt isRenamed stack test

theorem jumpIfFalse :
    Agrees errors (Akin renames marks) (jumpIfFalse label stack) (jumpIfFalse renamed stack) := by
  refine (relays.pop stack "brfalse").andThen fun value => ?_
  split
  · exact agrees_pure _
  · exact agrees_jumpTo isRenamed stack
  · exact (relays.lenient.lift (isTrue_forms value)).andThen fun test =>
      agrees_forkAt isRenamed stack test

theorem runJump (opcode : Opcode) :
    Agrees errors (Akin renames marks) (runJump task stack opcode label)
      (runJump task stack opcode renamed) := by
  unfold Machine.runJump
  split
  · exact agrees_jumpTo isRenamed stack
  · exact relays.jumpIfFalse isRenamed stack
  · exact relays.jumpIfTrue isRenamed stack
  all_goals first | exact relays.jumpOnComparison isRenamed stack _ | exact relays.unsupported _

end Jumps

end Task.Relays

end CilLift
