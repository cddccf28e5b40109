import CilLift.Proofs.Agreement.Execution
import CilLift.Proofs.Faults
import CilLift.Proofs.Steps

/-!
How deeply delegates nest. Nothing keeps the lifting of a body from entering that body again, so that
a function that refers to itself is followed without end. A lifting that does not do so needs no more
levels than there are bodies, and its outcome does not depend on the limit.
-/

namespace CilLift

open List CilLift.Expr Machine Workspace Trace

variable {depth : Nat} {error : Error}

section Approximation

variable {σ α β : Type} {bottom : Error}

/-- The step stops with the error `bottom`, or does what the other one does. -/
def Approximates (bottom : Error) (step other : EStateM Error σ α) : Prop :=
  ∀ state, (∃ stuck, step state = .error bottom stuck) ∨ step state = other state

theorem approximates_refl (step : EStateM Error σ α) : Approximates bottom step step :=
  fun _ => .inr rfl

theorem approximates_lift {value other : Except Error α}
    (either : value = .error bottom ∨ value = other) :
    Approximates bottom (liftM value : EStateM Error σ α) (liftM other) := by
  rcases either with rfl | rfl
  · exact fun state => .inl ⟨state, rfl⟩
  · exact approximates_refl _

namespace Approximates

theorem andThen {step other : EStateM Error σ β} {next next' : β → EStateM Error σ α}
    (first : Approximates bottom step other)
    (later : ∀ result, Approximates bottom (next result) (next' result)) :
    Approximates bottom (step >>= next) (other >>= next') := by
  intro state
  change (∃ stuck, EStateM.bind step next state = _) ∨
    EStateM.bind step next state = EStateM.bind other next' state
  unfold EStateM.bind
  rcases first state with ⟨stuck, stopped⟩ | same
  · rw [stopped]
    exact .inl ⟨_, rfl⟩
  · rw [← same]
    cases step state with
    | ok result middle => exact later result middle
    | error error middle => exact .inr rfl

theorem forM {items : List β} {body body' : β → EStateM Error σ PUnit}
    (each : ∀ item, Approximates bottom (body item) (body' item)) :
    Approximates bottom (items.forM body) (items.forM body') := by
  induction items with
  | nil => exact approximates_refl _
  | cons item rest ih => exact (each item).andThen fun _ => ih

end Approximates

end Approximation

/-! Only calls and constructions follow delegates. -/

namespace Machine

variable {bottom : Error} {task : Task}
  {liftNested : NestedLift}
  (nested : ∀ nextNode method body target, task.resolver.methodBody method = .ok (some body) →
    task.liftNested nextNode method body target = .error bottom ∨
      task.liftNested nextNode method body target = liftNested nextNode method body target)

include nested

theorem approximates_inlineBody {method : Method} {body : MethodBody} (target : Option Expr)
    (type : TypeSig) (known : task.resolver.methodBody method = .ok (some body)) :
    Approximates bottom (inlineBody task method body target type)
      (inlineBody { task with liftNested } method body target type) :=
  (approximates_refl _).andThen fun _ =>
    (approximates_lift (nested _ method body target known)).andThen fun _ => approximates_refl _

omit nested in
theorem approximates_withBody {α : Type} {method : Method} {next next' : Option MethodBody → Run α}
    (missing : next none = next' none)
    (found : ∀ body, task.resolver.methodBody method = .ok (some body) →
      Approximates bottom (next (some body)) (next' (some body))) :
    Approximates bottom (liftM (task.resolver.methodBody method) >>= next)
      (liftM (task.resolver.methodBody method) >>= next') := by
  cases known : task.resolver.methodBody method with
  | error error => exact fun _ => .inr rfl
  | ok body =>
    cases body with
    | none => exact fun state => .inr (congrFun missing state)
    | some body => exact found body known

theorem approximates_construct (constructor : Method) (arguments : List Expr) :
    Approximates bottom (construct task constructor arguments)
      (construct { task with liftNested } constructor arguments) := by
  unfold construct
  split
  · split
    · split
      · unfold delegateBody
        split
        · exact approximates_withBody rfl fun body known =>
            approximates_inlineBody nested _ _ known
        · exact approximates_refl _
      · exact approximates_refl _
    · exact approximates_refl _
  · exact approximates_refl _

theorem approximates_invokeDelegate (method : Method) (target : Expr) (arguments : List Expr) :
    Approximates bottom (invokeDelegate task method target arguments)
      (invokeDelegate { task with liftNested } method target arguments) := by
  unfold invokeDelegate
  split
  · exact approximates_refl _
  · refine (approximates_refl _).andThen fun captured => ?_
    split
    · refine (approximates_refl _).andThen fun _ => ?_
      refine approximates_withBody rfl fun body known => ?_
      refine (approximates_refl _).andThen fun receiver => ?_
      exact (approximates_inlineBody nested receiver _ known).andThen fun _ => approximates_refl _
    · exact approximates_refl _

theorem approximates_call (method : Method) (target : Option Expr) (arguments : List Expr) :
    Approximates bottom (call task method target arguments)
      (call { task with liftNested } method target arguments) := by
  unfold call
  split
  · split
    · exact approximates_invokeDelegate nested method _ arguments
    · exact approximates_refl _
  · exact approximates_refl _

theorem approximates_methodValue (stack : StackId) (opcode : Opcode) (method : Method) :
    Approximates bottom (methodValue task stack opcode method)
      (methodValue { task with liftNested } stack opcode method) := by
  have called := (approximates_refl (popArguments stack method)).andThen fun arguments =>
    (approximates_refl (popReceiver stack method)).andThen fun target =>
      approximates_call nested method target arguments
  unfold methodValue
  split
  · exact approximates_refl _
  · exact approximates_refl _
  · exact (approximates_refl _).andThen fun arguments => approximates_construct nested method arguments
  · exact called
  · exact called
  · exact approximates_refl _

theorem approximates_runTrace (trace : Trace) :
    Approximates bottom (runTrace task trace) (runTrace { task with liftNested } trace) := by
  refine (Approximates.forM fun event => ?_).andThen fun _ => approximates_refl _
  cases event with
  | method opcode mem =>
    refine (approximates_refl get).andThen fun machine => ?_
    cases machine.current with
    | none => exact approximates_refl _
    | some stack =>
      exact (approximates_methodValue nested stack opcode mem).andThen fun _ =>
        approximates_refl _
  | _ => exact approximates_refl _

end Machine

namespace Lifter

variable {lifter : Lifter}

/-- Lifts a body; the bodies of delegates in it are lifted by `liftNested`. -/
def liftWith (lifter : Lifter)
    (liftNested : NestedLift)
    (nextNode : Nat) (method : Method) (body : MethodBody) (target : Option Expr)
    (arguments : List Expr) : Except Error (MethodTree × Nat) := do
  let (task, nextNode) ← lifter.prepare nextNode method target arguments liftNested
  match lifter.runBody task nextNode body with
  | .error error _ => throw error
  | .ok _ machine => return (treeOf task machine, machine.workspace.emission.nextNode)

theorem liftFrom_succ (depth nextNode : Nat) (method : Method) (body : MethodBody)
    (target : Option Expr) (arguments : List Expr) :
    lifter.liftFrom (depth + 1) nextNode method body target arguments =
      lifter.liftWith (fun nextNode method body target =>
        lifter.liftFrom depth nextNode method body target []) nextNode method body target arguments :=
  rfl

section Nested

variable {bottom : Error} {nextNode : Nat} {method : Method} {body : MethodBody}
  {target : Option Expr} {arguments : List Expr}
  {liftNested other : NestedLift}

theorem prepare_map (liftNested other :
      NestedLift) :
    lifter.prepare nextNode method target arguments other =
      (lifter.prepare nextNode method target arguments liftNested).map fun (task, start) =>
        ({ task with liftNested := other }, start) := by
  unfold prepare
  cases lifter.parameterNodes method <;> rfl

/-- A lifting stops where a nested one does, or it is the lifting with the other way of nesting. -/
theorem liftWith_approximates
    (nested : ∀ nextNode method body target, lifter.resolver.methodBody method = .ok (some body) →
      liftNested nextNode method body target = .error bottom ∨
        liftNested nextNode method body target = other nextNode method body target) :
    lifter.liftWith liftNested nextNode method body target arguments = .error bottom ∨
      lifter.liftWith liftNested nextNode method body target arguments =
        lifter.liftWith other nextNode method body target arguments := by
  unfold liftWith
  rw [prepare_map liftNested other]
  cases prepared : lifter.prepare nextNode method target arguments liftNested with
  | error error => exact .inr rfl
  | ok found =>
    obtain ⟨task, start⟩ := found
    obtain ⟨-, isResolver, -, -, rfl, -⟩ := prepare_fields prepared
    rw [← isResolver] at nested
    have runs := approximates_runTrace nested (lifter.trace body)
      { workspace := { emission := { nextNode := start } } }
    dsimp only [bind, Except.bind]
    unfold runBody
    rcases runs with ⟨stuck, stopped⟩ | same
    · rw [stopped]
      exact .inl rfl
    · rw [same]
      exact .inr rfl

end Nested

theorem liftFrom_approximates (depth nextNode : Nat) (method : Method) (body : MethodBody)
    (target : Option Expr) (arguments : List Expr) :
    lifter.liftFrom depth nextNode method body target arguments = .error .nestingLimit ∨
      lifter.liftFrom depth nextNode method body target arguments =
        lifter.liftFrom (depth + 1) nextNode method body target arguments := by
  induction depth generalizing nextNode method body target arguments with
  | zero => exact .inl rfl
  | succ depth ih =>
    exact liftWith_approximates fun nextNode method body target _ =>
      ih nextNode method body target []

theorem liftFrom_of_deeper {deeper nextNode : Nat} {method : Method} {body : MethodBody}
    {target : Option Expr} {arguments : List Expr} (isDeeper : depth ≤ deeper)
    (halts : lifter.liftFrom depth nextNode method body target arguments ≠ .error .nestingLimit) :
    lifter.liftFrom deeper nextNode method body target arguments =
      lifter.liftFrom depth nextNode method body target arguments := by
  induction deeper, isDeeper using Nat.le_induction with
  | base => rfl
  | succ deeper isDeeper ih =>
    rw [← ih] at halts ⊢
    exact ((liftFrom_approximates ..).resolve_left halts).symm

theorem liftFrom_withNesting (nesting depth : Nat) :
    { lifter with nesting }.liftFrom depth = lifter.liftFrom depth := by
  induction depth with
  | zero => rfl
  | succ depth ih =>
    funext nextNode method body target arguments
    rw [liftFrom_succ, ih]
    rfl

/-! Liftings that enter no body again. -/

/-- Lifts a body as `liftFrom` does, but for a refusal where a body would be entered that is already
being lifted. -/
def liftRefusing (lifter : Lifter) (refusal : Error) :
    Nat → List Token → Nat → Method → MethodBody → Option Expr → List Expr →
      Except Error (MethodTree × Nat)
  | 0, _ => fun _ _ _ _ _ => .error .nestingLimit
  | depth + 1, underWay => lifter.liftWith fun nextNode method body target =>
    if method.token ∈ underWay then .error refusal
    else lifter.liftRefusing refusal depth (method.token :: underWay) nextNode method body target []

/-- A lifting is refused or does what it would have done anyway. -/
theorem liftRefusing_approximates (refusal : Error) (depth : Nat) (underWay : List Token)
    (nextNode : Nat) (method : Method) (body : MethodBody) (target : Option Expr)
    (arguments : List Expr) :
    lifter.liftRefusing refusal depth underWay nextNode method body target arguments =
        .error refusal ∨
      lifter.liftRefusing refusal depth underWay nextNode method body target arguments =
        lifter.liftFrom depth nextNode method body target arguments := by
  induction depth generalizing underWay nextNode method body target arguments with
  | zero => exact .inr rfl
  | succ depth ih =>
    refine liftWith_approximates fun nextNode method body target _ => ?_
    split
    · exact .inl rfl
    · exact ih _ nextNode method body target []

end Lifter

/-! Errors other than that of the limit. -/

namespace MetadataTables

variable (tables : MetadataTables)

theorem resolve_isOwn (token : Token) : Yields Error.IsOwn (tables.resolve token) fun _ => True := by
  unfold resolve
  split
  · trivial
  · exact nofun

theorem token_mem {method : Method} {body : MethodBody}
    (known : tables.resolver.methodBody method = .ok (some body)) :
    method.token ∈ tables.bodies.map Prod.fst := by
  have found : tables.bodies.lookup method.token = some body := Except.ok.inj known
  obtain ⟨before, after, isSplit, -⟩ := lookup_eq_some_iff.1 found
  simp [isSplit]

end MetadataTables

namespace Lifter

variable {lifter : Lifter}

theorem prepare_isOwn (nextNode : Nat) (method : Method) (target : Option Expr)
    (arguments : List Expr) (liftNested : NestedLift) :
    Yields Error.IsOwn (lifter.prepare nextNode method target arguments liftNested) fun _ => True := by
  refine Yields.andThen (?_ : Yields Error.IsOwn (lifter.parameterNodes method) fun _ => True)
    fun _ _ => trivial
  unfold parameterNodes
  generalize (if method.isStatic then 0 else 1) = firstSlot
  dsimp only
  split
  · exact nofun
  · trivial

section Tables

variable {tables : MetadataTables} (isResolver : lifter.resolver = tables.resolver)

include isResolver

/-- A run fails with the error of the limit only where a nested lifting does. -/
theorem runBody_isOwn {task : Task} (sameResolver : task.resolver = tables.resolver)
    (nested : ∀ nextNode method body target, tables.resolver.methodBody method = .ok (some body) →
      Yields Error.IsOwn (task.liftNested nextNode method body target) fun _ => True)
    {nextNode : Nat} {body : MethodBody} {machine : Machine}
    (failed : lifter.runBody task nextNode body = .error error machine) : error.IsOwn := by
  have relays : task.Relays fun error _ => error.IsOwn := by
    refine ⟨fun _ _ _ isOwn => isOwn, fun _ => ?_, fun _ => ?_, fun nextNode method body target => ?_⟩
    · rw [sameResolver]
      trivial
    · rw [sameResolver]
      trivial
    · rw [sameResolver]
      exact nested nextNode method body target
  have agree : Agree (fun error _ => error.IsOwn) (Machine.Alike Eq)
      (lifter.runBody task nextNode body) (lifter.runBody task nextNode body) := by
    refine (relays.run Label.renaming_eq (forall₂_same.2 fun event _ => event.alike_refl)).andThen
      (fun _ => ?_) _ _ ⟨rfl, rfl, .nil, rfl⟩
    cases failure : (lifter.trace body).failure with
    | none => exact agrees_pure _
    | some error =>
      refine agrees_throw (failure_tolerated ?_ (fun token => ?_) failure)
      · rintro _ isOfCode rfl
        exact isOfCode
      · rw [isResolver]
        exact tables.resolve_isOwn token
  rw [failed] at agree
  cases agree with
  | error isOwn => exact isOwn

theorem liftWith_isOwn {liftNested : NestedLift}
    (nested : ∀ nextNode method body target, tables.resolver.methodBody method = .ok (some body) →
      Yields Error.IsOwn (liftNested nextNode method body target) fun _ => True) (nextNode : Nat)
    (method : Method) (body : MethodBody) (target : Option Expr) (arguments : List Expr) :
    Yields Error.IsOwn (lifter.liftWith liftNested nextNode method body target arguments)
      fun _ => True := by
  have prepares := lifter.prepare_isOwn nextNode method target arguments liftNested
  unfold liftWith
  cases prepared : lifter.prepare nextNode method target arguments liftNested with
  | error error => rwa [prepared] at prepares
  | ok found =>
    obtain ⟨task, start⟩ := found
    obtain ⟨-, sameResolver, -, -, rfl, -⟩ := prepare_fields prepared
    dsimp only [bind, Except.bind]
    cases run : lifter.runBody task start body with
    | ok _ machine => trivial
    | error error machine => exact runBody_isOwn isResolver (sameResolver.trans isResolver) nested run

/-- Where no body is entered again, each level of nesting has a body of its own. -/
theorem liftRefusing_isOwn {refusal : Error} (isOwn : refusal.IsOwn) {underWay : List Token}
    (apart : underWay.Nodup) (known : underWay ⊆ tables.bodies.map Prod.fst)
    (deep : tables.bodies.length < underWay.length + depth) (nextNode : Nat) (method : Method)
    (body : MethodBody) (target : Option Expr) (arguments : List Expr) :
    Yields Error.IsOwn
      (lifter.liftRefusing refusal depth underWay nextNode method body target arguments)
      fun _ => True := by
  induction depth generalizing underWay nextNode method body target arguments with
  | zero =>
    have few := (apart.subperm known).length_le
    rw [length_map] at few
    omega
  | succ depth ih =>
    refine liftWith_isOwn isResolver (fun nextNode method body target isKnown => ?_) _ _ _ _ _
    split
    · exact isOwn
    · rename_i notUnderWay
      refine ih (nodup_cons.2 ⟨notUnderWay, apart⟩)
        (cons_subset.2 ⟨tables.token_mem isKnown, known⟩) ?_ _ _ _ _ _
      rw [length_cons]
      omega

end Tables

/-- Lifts a method as `liftBound` does, but for a refusal where a body would be entered that is
already being lifted. -/
def liftBoundRefusing (lifter : Lifter) (refusal : Error) (method : Method) (body : MethodBody)
    (target : Option Expr) (arguments : List Expr) : Except Error MethodTree := do
  let (target, arguments, nextNode) := placeGiven target arguments
  let (tree, _) ←
    lifter.liftRefusing refusal lifter.nesting [] nextNode method body target arguments
  return tree

/-- The lifting enters a body that is already being lifted: it is refused with whatever refusal. -/
def Reenters (lifter : Lifter) (method : Method) (body : MethodBody) (target : Option Expr)
    (arguments : List Expr) : Prop :=
  ∀ refusal, lifter.liftBoundRefusing refusal method body target arguments = .error refusal

/-- A lifting that is not refused is the lifting itself, and is not stopped by the limit. -/
theorem liftFrom_of_not_refused {tables : MetadataTables}
    (isResolver : lifter.resolver = tables.resolver) (deep : tables.bodies.length < depth)
    (refusal : Error) {nextNode : Nat} {method : Method} {body : MethodBody} {target : Option Expr}
    {arguments : List Expr}
    (notRefused : lifter.liftRefusing refusal depth [] nextNode method body target arguments ≠
      .error refusal) :
    lifter.liftFrom depth nextNode method body target arguments ≠ .error .nestingLimit := by
  rw [← (liftRefusing_approximates ..).resolve_left notRefused]
  by_cases isLimit : refusal = .nestingLimit
  · rwa [isLimit] at notRefused ⊢
  · intro stopped
    have answered := liftRefusing_isOwn isResolver isLimit nodup_nil (nil_subset _)
      (by simpa using deep) nextNode method body target arguments
    rw [stopped] at answered
    exact answered rfl

/-- Lifting comes to an end unless it enters a body that is already being lifted. Then a limit above
the number of bodies is never reached, and the outcome is the same under all such limits. -/
theorem liftBound_halts_or_reenters (tables : MetadataTables) (options : Options)
    (context : Instantiation) (method : Method) (body : MethodBody) (target : Option Expr)
    (arguments : List Expr) {nesting : Nat} (deep : tables.bodies.length < nesting) :
    let lifter : Lifter := { resolver := tables.resolver, options, context, nesting }
    lifter.Reenters method body target arguments ∨
      lifter.liftBound method body target arguments ≠ .error .nestingLimit ∧
        ∀ deeper ≥ nesting, { lifter with nesting := deeper }.liftBound method body target arguments =
          lifter.liftBound method body target arguments := by
  intro lifter
  by_cases reenters : lifter.Reenters method body target arguments
  · exact .inl reenters
  · obtain ⟨refusal, notRefused⟩ := not_forall.1 reenters
    right
    unfold liftBoundRefusing at notRefused
    unfold liftBound
    dsimp only at notRefused ⊢
    generalize placeGiven target arguments = given at notRefused ⊢
    have halts : lifter.liftFrom lifter.nesting given.2.2 method body given.1 given.2.1 ≠
        .error .nestingLimit := by
      refine liftFrom_of_not_refused rfl deep refusal fun refused => notRefused ?_
      rw [refused]
      rfl
    refine ⟨fun stopped => ?_, fun deeper isDeeper => ?_⟩
    · cases outcome : lifter.liftFrom lifter.nesting given.2.2 method body given.1 given.2.1 with
      | ok tree =>
        rw [outcome] at stopped
        cases stopped
      | error error =>
        rw [outcome] at stopped halts
        cases stopped
        exact halts rfl
    · rw [liftFrom_withNesting, liftFrom_of_deeper isDeeper halts]

/-! A function that makes a delegate of another function. -/

def delegateConstructor : Method where
  token := ⟨0x0A000001⟩
  name := ".ctor"
  returnType := .void
  parameters := [{ name := "o", type := .object }, { name := "f", type := .nativeInt }]
  declaringType := .delegate ⟨0x02000001⟩
  flags := { isConstructor := true }

/-- A function of the given number. -/
def numbered (number : UInt32) (returnType : TypeSig) : Method where
  token := ⟨0x06000000 + number⟩
  name := "F" ++ toString number.toNat
  returnType
  flags := { isStatic := true }

/-- Each of two functions gives the next one, the last gives a number. -/
def chainOfThree : MetadataTables where
  members := [(delegateConstructor.token, .method delegateConstructor),
    (⟨0x06000002⟩, .method (numbered 2 delegateConstructor.declaringType)),
    (⟨0x06000003⟩, .method (numbered 3 .int32))]
  bodies := [
    (⟨0x06000002⟩, { code := [0x14, 0xfe, 0x06, 0x03, 0x00, 0x00, 0x06, 0x73, 0x01, 0x00, 0x00, 0x0a,
      0x2a] }),
    (⟨0x06000003⟩, { code := [0x1b, 0x2a] })]

def firstOfThree : MethodBody :=
  { code := [0x14, 0xfe, 0x06, 0x02, 0x00, 0x00, 0x06, 0x73, 0x01, 0x00, 0x00, 0x0a, 0x2a] }

theorem chainOfThree_halts :
    chainOfThree.bodies.length < 3 ∧
    ¬Reenters { resolver := chainOfThree.resolver, nesting := 3 }
      (numbered 1 delegateConstructor.declaringType) firstOfThree none [] ∧
    (liftBound { resolver := chainOfThree.resolver, nesting := 3 }
      (numbered 1 delegateConstructor.declaringType) firstOfThree none []).map MethodTree.text =
        .ok "() => () => () => 5" ∧
    ∀ deeper ≥ 3, liftBound { resolver := chainOfThree.resolver, nesting := deeper }
        (numbered 1 delegateConstructor.declaringType) firstOfThree none [] =
      liftBound { resolver := chainOfThree.resolver, nesting := 3 }
        (numbered 1 delegateConstructor.declaringType) firstOfThree none [] := by
  have deep : chainOfThree.bodies.length < 3 := by decide
  have passes : (liftBoundRefusing { resolver := chainOfThree.resolver, nesting := 3 } .outOfBounds
      (numbered 1 delegateConstructor.declaringType) firstOfThree none []).map MethodTree.text =
        .ok "() => () => () => 5" := by decide +kernel
  have notAgain : ¬Reenters { resolver := chainOfThree.resolver, nesting := 3 }
      (numbered 1 delegateConstructor.declaringType) firstOfThree none [] := by
    intro reenters
    rw [reenters .outOfBounds] at passes
    cases passes
  refine ⟨deep, notAgain, by decide +kernel, ?_⟩
  exact ((liftBound_halts_or_reenters chainOfThree {} {} _ _ none [] deep).resolve_left notAgain).2

/-! A function that makes a delegate of itself. -/

/-- What a function does that makes a delegate of itself, which it does not use. -/
def ownReference : MethodBody :=
  { code := [0x14, 0xfe, 0x06, 0x02, 0x00, 0x00, 0x06, 0x73, 0x01, 0x00, 0x00, 0x0a, 0x26, 0x17,
      0x2a] }

def referringToItself : MetadataTables where
  members := [(delegateConstructor.token, .method delegateConstructor),
    (⟨0x06000002⟩, .method (numbered 2 .int32))]
  bodies := [(⟨0x06000002⟩, ownReference)]

/-- The events up to the construction of the delegate. -/
def beforeConstruction : List Event :=
  [.code, .locals 8 [], .offset 0, .literal .null .object, .offset 1, .method .ldftn (numbered 2 .int32),
    .offset 7]

theorem ofBody_ownReference :
    ofBody referringToItself.resolver {} ownReference =
      ⟨beforeConstruction ++ [.method .newobj delegateConstructor, .offset 12, .plain .pop, .offset 13,
        .literal (.integer .int32 1) .int32, .offset 14, .plain .ret, .finish], none⟩ := rfl

end Lifter

namespace Machine

variable {machine : Machine}

/-- The arguments of a delegate's constructor: an object and the handle of a method. -/
theorem popArguments_delegate {path : StackId} {handle receiver : Header} {method : Method}
    {rest : List Expr} (found : (machine.workspace.stack path).items =
      .constant handle (.method method) :: .constant receiver .null :: rest)
    (isHandle : handle.type = .methodHandle) (isObject : receiver.type = .object) :
    popArguments path Lifter.delegateConstructor machine =
      .ok [.constant receiver .null, .constant handle (.method method)]
        (machine.withItems path rest) := by
  have inside := inside_of_items found
  have popsHandle : popArgument path { name := "f", type := .nativeInt } machine =
      .ok (.constant handle (.method method))
        (machine.withItems path (.constant receiver .null :: rest)) := by
    refine andThen_eq_ok.2 ⟨_, _, pop_eq_ok.2 ⟨_, found, rfl, rfl⟩, ?_⟩
    rw [if_pos ⟨rfl, isHandle⟩]
    rfl
  have popsReceiver : popArgument path { name := "o", type := .object }
      (machine.withItems path (.constant receiver .null :: rest)) =
        .ok (.constant receiver .null) (machine.withItems path rest) := by
    have popped : pop path "call argument" (machine.withItems path (.constant receiver .null :: rest)) =
        .ok (.constant receiver .null) (machine.withItems path rest) := by
      refine pop_eq_ok.2 ⟨rest, items_withItems_self inside, rfl, ?_⟩
      simp [withItems, withItems_withItems]
    have same : (constant receiver .null).coerce .object = .ok (.constant receiver .null) := by
      unfold coerce
      rw [if_pos (by simp [TypeSig.accepts, type, header, isObject])]
    refine andThen_eq_ok.2 ⟨_, _, popped, ?_⟩
    exact liftM_eq_ok.2 ⟨same, rfl⟩
  refine andThen_eq_ok.2 ⟨[.constant handle (.method method), .constant receiver .null], _, ?_, rfl⟩
  change mapM (popArgument path)
    [{ name := "f", type := .nativeInt }, { name := "o", type := .object }] machine = _
  rw [mapM_cons]
  refine andThen_eq_ok.2 ⟨_, _, popsHandle, andThen_eq_ok.2 ⟨_, _, ?_, rfl⟩⟩
  exact andThen_eq_ok.2 ⟨_, _, popsReceiver, rfl⟩

theorem inlineBody_of_stopped {task : Task} {method : Method} {body : MethodBody}
    {target : Option Expr} (type : TypeSig) (machine : Machine)
    (stops : ∀ nextNode, task.liftNested nextNode method body target = .error error) :
    inlineBody task method body target type machine = .error error machine := by
  refine (andThen_of_ok (rfl : (get : Run Machine) machine = .ok machine machine)).trans ?_
  rw [stops]
  rfl

/-- The machine right before the construction of the delegate. -/
theorem run_beforeConstruction (task : Task) (nextNode : Nat) :
    ∃ machine, Lifter.beforeConstruction.forM (step task) (.initial nextNode) = .ok () machine ∧
      machine.current = some 0 ∧ (machine.workspace.stack 0).items =
        [.constant ⟨.methodHandle, some (nextNode + 1)⟩ (.method (Lifter.numbered 2 .int32)),
          .constant ⟨.object, some nextNode⟩ .null] := by
  let start := opening task [] nextNode
  let first := start.withTop 0 (.mkConstant .null .object) []
  let second := { first with offset := 1 }.withTop 0
    (.mkConstant (.method (Lifter.numbered 2 .int32)) .methodHandle) (first.workspace.stack 0).items
  have pushesNull : step task (.literal .null .object) start = .ok () first :=
    (onCurrent_eq _ rfl).trans (push_eq ..)
  have pushesHandle : step task (.method .ldftn (Lifter.numbered 2 .int32))
      { first with offset := 1 } = .ok () second := by
    refine (onCurrent_eq _ rfl).trans (andThen_eq_ok.2 ⟨_, _, rfl, ?_⟩)
    exact push_eq ..
  refine ⟨{ second with offset := 7 }, ?_, rfl, ?_⟩
  · refine andThen_eq_ok.2 ⟨_, _, rfl, ?_⟩
    refine andThen_eq_ok.2 ⟨(), start, rfl, ?_⟩
    refine andThen_eq_ok.2 ⟨(), start, rfl, ?_⟩
    refine andThen_eq_ok.2 ⟨_, _, pushesNull, ?_⟩
    refine andThen_eq_ok.2 ⟨(), { first with offset := 1 }, rfl, ?_⟩
    exact andThen_eq_ok.2 ⟨_, _, pushesHandle, rfl⟩
  · rfl

end Machine

namespace Lifter

/-- Lifting the function asks for the lifting of the function. -/
theorem liftWith_ownReference {lifter : Lifter}
    (isResolver : lifter.resolver = referringToItself.resolver) (noContext : lifter.context = {})
    (follows : lifter.options.inlineDelegates = true) {liftNested : NestedLift}
    (stops : ∀ nextNode, liftNested nextNode (numbered 2 .int32) ownReference none = .error error)
    (nextNode : Nat) :
    lifter.liftWith liftNested nextNode (numbered 2 .int32) ownReference none [] = .error error := by
  obtain ⟨task, prepared, sameResolver, sameFollows, rfl⟩ : ∃ task,
      lifter.prepare nextNode (numbered 2 .int32) none [] liftNested = .ok (task, nextNode) ∧
        task.resolver = referringToItself.resolver ∧ task.options.inlineDelegates = true ∧
          task.liftNested = liftNested :=
    ⟨_, rfl, isResolver, follows, rfl⟩
  obtain ⟨machine, reaches, isCurrent, found⟩ := run_beforeConstruction task nextNode
  have constructs : construct task delegateConstructor [.constant ⟨.object, some nextNode⟩ .null,
        .constant ⟨.methodHandle, some (nextNode + 1)⟩ (.method (numbered 2 .int32))] =
      inlineBody task (numbered 2 .int32) ownReference none delegateConstructor.declaringType := by
    unfold construct delegateBody
    rw [sameFollows, sameResolver]
    rfl
  have fails : step task (.method .newobj delegateConstructor) machine =
      .error error (machine.withItems 0 []) := by
    refine (onCurrent_eq _ isCurrent).trans (andThen_of_error ?_)
    refine (andThen_of_ok (popArguments_delegate found rfl rfl)).trans ?_
    rw [constructs]
    exact inlineBody_of_stopped _ _ stops
  have runs : lifter.runBody task nextNode ownReference = .error error (machine.withItems 0 []) := by
    unfold runBody trace
    rw [isResolver, noContext, ofBody_ownReference]
    refine andThen_of_error ?_
    rw [forM_append, andThen_of_ok reaches]
    exact andThen_of_error fails
  unfold liftWith
  rw [prepared]
  dsimp only [bind, Except.bind]
  rw [runs]
  rfl

/-- A function that makes a delegate of itself is followed without end: no limit is high enough. -/
theorem referringToItself_never_halts :
    ¬∃ nesting, lift { resolver := referringToItself.resolver, nesting } (numbered 2 .int32)
      ownReference ≠ .error .nestingLimit := by
  rintro ⟨nesting, halts⟩
  have stops : ∀ depth nextNode, liftFrom { resolver := referringToItself.resolver, nesting } depth
      nextNode (numbered 2 .int32) ownReference none [] = .error .nestingLimit := by
    intro depth
    induction depth with
    | zero => exact fun _ => rfl
    | succ depth inductionHypothesis =>
      intro nextNode
      rw [liftFrom_succ]
      exact liftWith_ownReference rfl rfl rfl inductionHypothesis nextNode
  refine halts ?_
  unfold lift liftBound
  simp only [placeGiven_nothing, stops]
  rfl

end Lifter

end CilLift
