import CilLift.Proofs.Reentrance
import CilLift.Proofs.Steadiness

/-!
What the mark on a tree says that keeps it out of a cache. A lifting asks its resolver what delegates
hold, and so do the liftings nested in it. The tree is marked if one of these questions was answered
with a method, and depends on no other answers.
-/

namespace CilLift

open List Machine Trace Prod

/-- Answers to the question what a delegate holds. -/
abbrev Captures := Expr → Except Error (Option DelegateTarget)

namespace Captures

/-- One of the delegates is known to hold a method. -/
def Finds (captures : Captures) (asked : List Expr) : Prop :=
  ∃ expr ∈ asked, ∃ delegate, captures expr = .ok (some delegate)

/-- The other answers are the same, but for a failure to answer for one delegate. -/
structure Refuses (captures : Captures) (expr : Expr) (refusal : Error) (other : Captures) : Prop where
  refuses : other expr = .error refusal
  elsewhere : ∀ asked, asked ≠ expr → other asked = captures asked

variable {captures : Captures} {asked later : List Expr}

theorem not_finds_nil : ¬captures.Finds [] := by
  rintro ⟨_, ⟨⟩, -⟩

theorem finds_append : captures.Finds (asked ++ later) ↔ captures.Finds asked ∨ captures.Finds later := by
  simp [Finds, mem_append, or_and_right, exists_or]

end Captures

/-- The questions asked on the way to a result. It rests on the answers to them, and the failure to
answer any of them is the failure of the whole. -/
structure Consults {β : Type} (captures : Captures) (asked : List Expr)
    (outcome : Captures → Except Error β) (result : β) : Prop where
  rests : ∀ other : Captures, (∀ expr ∈ asked, other expr = captures expr) → outcome other = .ok result
  stops : ∀ expr ∈ asked, ∀ refusal other, captures.Refuses expr refusal other →
    outcome other = .error refusal

namespace Consults

variable {β γ : Type} {captures : Captures} {asked later : List Expr}

theorem answered {outcome : Captures → Except Error β} {result : β}
    (consults : Consults captures asked outcome result) :
    ∀ expr ∈ asked, ∃ found, captures expr = .ok found := by
  intro expr mem
  cases answer : captures expr with
  | ok found => exact ⟨found, rfl⟩
  | error refusal =>
    have stopped := consults.stops expr mem refusal captures ⟨answer, fun _ _ => rfl⟩
    rw [consults.rests captures fun _ _ => rfl] at stopped
    cases stopped

theorem const (result : β) : Consults captures [] (fun _ => .ok result) result :=
  ⟨fun _ _ => rfl, nofun⟩

theorem andThen {first : Captures → Except Error β} {second : Captures → β → Except Error γ}
    {middle : β} {result : γ} (before : Consults captures asked first middle)
    (after : Consults captures later (fun captures => second captures middle) result) :
    Consults captures (asked ++ later) (fun captures => first captures >>= second captures) result := by
  constructor
  · intro other same
    rw [before.rests other fun expr mem => same expr (mem_append_left _ mem)]
    exact after.rests other fun expr mem => same expr (mem_append_right _ mem)
  · intro expr mem refusal other refuses
    -- The first time that the question is asked decides where the failure is.
    by_cases early : expr ∈ asked
    · rw [before.stops expr early refusal other refuses]
      rfl
    · rw [before.rests other fun earlier isEarlier =>
        refuses.elsewhere earlier (by rintro rfl; exact early isEarlier)]
      exact after.stops expr ((mem_append.1 mem).resolve_left early) refusal other refuses

end Consults

namespace Machine

variable {α β : Type}

/-- How a step ends; the state in which it fails does not matter. -/
def outcome (step : Run α) (machine : Machine) : Except Error (α × Machine) :=
  match step machine with
  | .ok result next => .ok (result, next)
  | .error error _ => .error error

theorem outcome_eq_ok {step : Run α} {machine next : Machine} {result : α} :
    outcome step machine = .ok (result, next) ↔ step machine = .ok result next := by
  unfold outcome
  cases step machine <;> simp

theorem outcome_bind (step : Run β) (second : β → Run α) (machine : Machine) :
    outcome (step >>= second) machine =
      outcome step machine >>= fun found => outcome (second found.1) found.2 := by
  change outcome (EStateM.bind step second) machine = _
  unfold outcome EStateM.bind
  cases step machine <;> rfl

end Machine

namespace Captures

open Machine

variable {α β : Type} {captures : Captures} {machine : Machine}

/-- If the step succeeds, it asks questions and satisfies the postcondition. -/
def Explains (captures : Captures) (step : Captures → Run α) (machine : Machine)
    (post : List Expr → α → Machine → Prop) : Prop :=
  ∀ result next, step captures machine = .ok result next → ∃ asked,
    Consults captures asked (fun captures => outcome (step captures) machine) (result, next) ∧
      post asked result next

theorem explains_const {step : Run α} {post : List Expr → α → Machine → Prop}
    (done : ∀ result next, step machine = .ok result next → post [] result next) :
    captures.Explains (fun _ => step) machine post := by
  intro result next success
  refine ⟨[], ?_, done result next success⟩
  simp only [outcome_eq_ok.2 success]
  exact .const _

theorem Explains.andThen {step : Captures → Run β} {second : Captures → β → Run α}
    {middle : List Expr → β → Machine → Prop} {post : List Expr → α → Machine → Prop}
    (first : captures.Explains step machine middle)
    (next : ∀ asked result after, middle asked result after →
      captures.Explains (fun captures => second captures result) after
        fun later => post (asked ++ later)) :
    captures.Explains (fun captures => step captures >>= second captures) machine post := by
  intro result final success
  obtain ⟨found, after, stepped, success⟩ := andThen_eq_ok.1 success
  obtain ⟨asked, before, reached⟩ := first found after stepped
  obtain ⟨later, continues, done⟩ := next asked found after reached result final success
  refine ⟨asked ++ later, ?_, done⟩
  simp only [outcome_bind]
  exact before.andThen continues

/-- The mark is set where it was before, or where an answer was found. -/
def Marks (captures : Captures) (machine : Machine) (asked : List Expr) (next : Machine) : Prop :=
  next.notCacheable = true ↔ machine.notCacheable = true ∨ captures.Finds asked

/-- The step sets the mark exactly if it finds what a delegate holds. -/
def Faithful (captures : Captures) (step : Captures → Run α) : Prop :=
  ∀ machine, captures.Explains step machine fun asked _ next => captures.Marks machine asked next

theorem marks_of_eq {next : Machine} (same : next.notCacheable = machine.notCacheable) :
    captures.Marks machine [] next := by
  rw [Marks, same]
  exact (or_iff_left not_finds_nil).symm

theorem Marks.trans {asked later : List Expr} {after final : Machine}
    (first : captures.Marks machine asked after) (second : captures.Marks after later final) :
    captures.Marks machine (asked ++ later) final := by
  unfold Marks at *
  rw [second, first, finds_append, or_assoc]

theorem faithful_const {step : Run α} (steady : Steady step) : captures.Faithful fun _ => step :=
  fun machine => explains_const fun result next success =>
    marks_of_eq (steady machine result next success)

theorem Faithful.andThen {step : Captures → Run β} {second : Captures → β → Run α}
    (first : captures.Faithful step)
    (next : ∀ result, captures.Faithful fun captures => second captures result) :
    captures.Faithful fun captures => step captures >>= second captures := by
  refine fun machine => (first machine).andThen fun asked result after marks => ?_
  intro value final success
  obtain ⟨later, consults, marks'⟩ := next result after value final success
  exact ⟨later, consults, marks.trans marks'⟩

theorem Faithful.marked {step : Captures → Run α} (faithful : captures.Faithful step)
    (isMarked : machine.notCacheable = true) :
    captures.Explains step machine fun _ _ next => next.notCacheable = true := by
  intro result next success
  obtain ⟨asked, consults, marks⟩ := faithful machine result next success
  exact ⟨asked, consults, marks.2 (.inl isMarked)⟩

theorem Faithful.forM {items : List β} {body : Captures → β → Run PUnit}
    (each : ∀ item, captures.Faithful fun captures => body captures item) :
    captures.Faithful fun captures => items.forM (body captures) := by
  induction items with
  | nil => exact faithful_const (by rintro _ _ _ ⟨⟩; rfl)
  | cons item rest ih => exact (each item).andThen fun _ => ih

end Captures

/-! Calls, constructions and delegates. -/

namespace Captures

open Machine

variable {α : Type} {captures : Captures} {machine : Machine}

theorem explains_get {step : Captures → Machine → Run α} {post : List Expr → α → Machine → Prop}
    (explains : captures.Explains (fun captures => step captures machine) machine post) :
    captures.Explains (fun captures => get >>= step captures) machine post :=
  explains

theorem explains_lift {value : Captures → Except Error α} {post : List Expr → α → Machine → Prop}
    (done : ∀ result, value captures = .ok result →
      ∃ asked, Consults captures asked value result ∧ post asked result machine) :
    captures.Explains (fun captures => liftM (value captures)) machine post := by
  intro result next success
  obtain ⟨isResult, rfl⟩ := liftM_eq_ok.1 success
  obtain ⟨asked, consults, reached⟩ := done result isResult
  refine ⟨asked, ?_, reached⟩
  have isOutcome : (fun captures => outcome (liftM (value captures)) machine) =
      fun captures => value captures >>= fun result => .ok (result, machine) := by
    funext captures
    cases value captures <;> rfl
  rw [isOutcome, ← append_nil asked]
  exact consults.andThen (.const _)

/-- The tree of a lifting is marked exactly if the lifting finds what a delegate holds. -/
def Honest (captures : Captures) (lift : Captures → Except Error (MethodTree × Nat)) : Prop :=
  ∀ result, lift captures = .ok result → ∃ asked, Consults captures asked lift result ∧
    (result.1.notCacheable = true ↔ captures.Finds asked)

end Captures

/-- The task with other answers to what delegates hold, also where delegates are nested. -/
def Task.capturing (task : Task)
    (nested : Captures → NestedLift)
    (captures : Captures) : Task :=
  { task with
    resolver := { task.resolver with capturedDelegate := captures }
    liftNested := nested captures }

namespace Machine

open Captures

variable {captures : Captures} {task : Task}
  {nested : Captures → NestedLift}
  (honest : ∀ nextNode method body target,
    captures.Honest fun captures => nested captures nextNode method body target) (method : Method)

include honest

theorem faithful_inlineBody (body : MethodBody) (target : Option Expr) (type : TypeSig) :
    captures.Faithful fun captures =>
      inlineBody (task.capturing nested captures) method body target type := by
  intro machine
  refine explains_get ((explains_lift fun result isResult => ?_ :
    captures.Explains _ machine fun asked result after =>
      (result.1.notCacheable = true ↔ captures.Finds asked) ∧ after = machine).andThen ?_)
  · obtain ⟨asked, consults, marks⟩ := honest _ method body target result isResult
    exact ⟨asked, consults, marks, rfl⟩
  · rintro asked ⟨tree, nextNode⟩ _ ⟨marks, rfl⟩
    refine explains_const fun result next success => ?_
    cases success
    rw [append_nil, Marks, ← marks]
    exact Bool.or_eq_true_iff

theorem faithful_construct (constructor : Method) (arguments : List Expr) :
    captures.Faithful fun captures =>
      construct (task.capturing nested captures) constructor arguments := by
  have failed : ∀ error, captures.Faithful fun _ => (throw error : Run Expr) := fun error =>
    faithful_const (steady_throw error)
  by_cases isDelegate : constructor.isDelegateConstructor = true
  · simp only [construct, if_pos isDelegate]
    rcases arguments with _ | ⟨target, _ | ⟨handle, _ | ⟨_, _⟩⟩⟩
    · exact failed _
    · exact failed _
    · cases handle with
      | constant _ value =>
        cases value with
        | method method =>
          refine (faithful_const (steady_lift (delegateBody task method))).andThen fun found => ?_
          cases found with
          | none => exact faithful_const (steady_pure _)
          | some body => exact faithful_inlineBody honest method body _ _
        | _ => exact failed _
      | _ => exact failed _
    · exact failed _
  · simp only [construct, if_neg isDelegate]
    exact faithful_const (steady_pure _)

/-- What a captured delegate holds is run after the mark has been set. -/
theorem explains_invokeCaptured (target : Expr) (arguments : List Expr)
    (delegate : DelegateTarget) (machine : Machine) :
    captures.Explains (fun captures =>
        invokeCaptured (task.capturing nested captures) method target arguments delegate)
      machine fun _ _ next => next.notCacheable = true := by
  refine Explains.andThen (explains_const ?_ : captures.Explains _ machine fun asked _ after =>
    after.notCacheable = true) ?_
  · rintro _ _ ⟨⟩
    rfl
  · intro _ _ after isMarked
    refine Faithful.marked ?_ isMarked
    refine (faithful_const (steady_lift (task.resolver.methodBody delegate.method))).andThen
      fun found => ?_
    cases found with
    | none => exact faithful_const (steady_throw _)
    | some body =>
      refine (faithful_const ?_).andThen fun receiver =>
        (faithful_inlineBody honest delegate.method body receiver _).andThen fun _ =>
          faithful_const (steady_pure _)
      unfold capturedReceiver
      split
      · exact (steady_work _).andThen fun _ => steady_pure _
      · exact steady_pure _

/-- A delegate that is asked about sets the mark exactly if it is known what it holds. -/
theorem faithful_invokeUnknown (target : Expr) (arguments : List Expr)
    {rest : Captures → Option DelegateTarget → Run Expr}
    (found : ∀ delegate captures, rest captures (some delegate) =
      invokeCaptured (task.capturing nested captures) method target arguments delegate)
    (unknown : ∀ captures, rest captures none = pure (.mkCall (some target) method arguments)) :
    captures.Faithful fun captures =>
      liftM (capturedDelegate (task.capturing nested captures) target) >>= rest captures := by
  by_cases follows : task.options.inlineDelegates = true
  · intro machine
    have asks : captures.Explains
        (fun captures => liftM (capturedDelegate (task.capturing nested captures) target)) machine
        fun asked answer after =>
          asked = [target] ∧ after = machine ∧ captures target = .ok answer := by
      have isAnswer : ∀ captures, capturedDelegate (task.capturing nested captures) target =
          captures target := fun _ => if_pos follows
      simp only [isAnswer]
      refine explains_lift fun answer isAnswer => ⟨[target], ⟨?_, ?_⟩, rfl, rfl, isAnswer⟩
      · intro other same
        rw [same target (by simp), isAnswer]
      · intro expr mem refusal other refuses
        rw [← mem_singleton.1 mem, refuses.refuses]
    refine asks.andThen ?_
    rintro _ answer _ ⟨rfl, rfl, isAnswer⟩
    cases answer with
    | some delegate =>
      simp only [found]
      intro result next success
      obtain ⟨asked, consults, isMarked⟩ :=
        explains_invokeCaptured honest method target arguments delegate _ result next success
      exact ⟨asked, consults, iff_of_true isMarked (.inr ⟨target, by simp, delegate, isAnswer⟩)⟩
    | none =>
      simp only [unknown]
      refine explains_const ?_
      rintro _ _ ⟨⟩
      refine (or_iff_left ?_).symm
      rintro ⟨expr, mem, delegate, isFound⟩
      rw [mem_singleton.1 mem, isAnswer] at isFound
      cases isFound
  · have isAnswer : ∀ captures, capturedDelegate (task.capturing nested captures) target =
        .ok none := fun _ => if_neg follows
    simp only [isAnswer]
    change captures.Faithful fun captures => rest captures none
    simp only [unknown]
    exact faithful_const (steady_pure _)

theorem faithful_call (target : Option Expr) (arguments : List Expr) :
    captures.Faithful fun captures =>
      call (task.capturing nested captures) method target arguments := by
  cases target with
  | none => exact faithful_const (steady_pure _)
  | some target =>
    by_cases invokes : method.isDelegateInvoke = true
    · simp only [call, if_pos invokes]
      cases target with
      | lambda => exact faithful_const (steady_pure _)
      | _ => exact faithful_invokeUnknown honest method _ arguments (fun _ _ => rfl) fun _ => rfl
    · simp only [call, if_neg invokes]
      exact faithful_const (steady_pure _)

theorem faithful_methodValue (stack : StackId) (opcode : Opcode) (method : Method) :
    captures.Faithful fun captures =>
      methodValue (task.capturing nested captures) stack opcode method := by
  have popped : captures.Faithful fun _ => popArguments stack method :=
    faithful_const (steady_popArguments task stack method)
  have called : captures.Faithful fun captures => (do
      let arguments ← popArguments stack method
      let target ← popReceiver stack method
      call (task.capturing nested captures) method target arguments) :=
    popped.andThen fun arguments =>
      (faithful_const (steady_popReceiver task stack method)).andThen fun target =>
        faithful_call honest method target arguments
  cases opcode with
  | ldftn => exact faithful_const (steady_pure _)
  | ldvirtftn => exact faithful_const ((steady_pop task stack _).andThen fun _ => steady_pure _)
  | newobj => exact popped.andThen fun arguments => faithful_construct honest method arguments
  | call => exact called
  | callvirt => exact called
  | _ => exact faithful_const (steady_unsupported task _)

omit honest in
theorem step_capturing {event : Event} (noMethod : ¬∃ opcode method, event = .method opcode method)
    (captures : Captures) : step (task.capturing nested captures) event = step task event := by
  cases event with
  | method opcode method => exact absurd ⟨opcode, method, rfl⟩ noMethod
  | _ => rfl

theorem faithful_step (event : Event) :
    captures.Faithful fun captures => step (task.capturing nested captures) event := by
  by_cases isMethod : ∃ opcode method, event = .method opcode method
  · obtain ⟨opcode, method, rfl⟩ := isMethod
    refine (faithful_const (by rintro _ _ _ ⟨⟩; rfl)).andThen fun machine => ?_
    cases machine.current with
    | none => exact faithful_const (steady_pure _)
    | some stack =>
      refine (faithful_methodValue honest stack opcode method).andThen fun value =>
        faithful_const ?_
      split
      · exact steady_work _
      · exact steady_push stack value
  · simp only [step_capturing isMethod]
    exact faithful_const (steady_step task isMethod)

theorem faithful_runTrace (trace : Trace) :
    captures.Faithful fun captures => runTrace (task.capturing nested captures) trace := by
  refine (Faithful.forM fun event => faithful_step honest event).andThen fun _ => faithful_const ?_
  split
  · exact steady_throw _
  · exact steady_pure _

end Machine

/-! Bodies and what is nested in them. -/

section Resolve

variable {resolver other : Resolver} (same : other.resolve = resolver.resolve)

include same

theorem Instruction.event_congr (context : Instantiation) (instruction : Instruction) :
    instruction.event other context = instruction.event resolver context := by
  simp [event, literal, member, same]

theorem Trace.ofBody_congr (context : Instantiation) (body : MethodBody) :
    ofBody other context body = ofBody resolver context body := by
  have readFrom : ∀ limit labels cursor, readFrom other context labels cursor limit =
      readFrom resolver context labels cursor limit := by
    intro limit
    induction limit with
    | zero => exact fun _ _ => rfl
    | succ limit ih =>
      simp [readFrom, Instruction.event_congr same, ih]
  rw [ofBody, readFrom]
  rfl

end Resolve

namespace Lifter

variable {lifter : Lifter} {captures : Captures}

/-- The lifter with other answers to what delegates hold. -/
def withCaptures (lifter : Lifter) (captures : Captures) : Lifter :=
  { lifter with resolver := { lifter.resolver with capturedDelegate := captures } }

section Nested

variable {nextNode : Nat} {method : Method} {target : Option Expr} {arguments : List Expr}
  {nested : Captures → NestedLift}

theorem prepare_withCaptures (captures other : Captures) :
    (lifter.withCaptures other).prepare nextNode method target arguments (nested other) =
      ((lifter.withCaptures captures).prepare nextNode method target arguments (nested captures)).map
        fun (task, start) => (task.capturing nested other, start) := by
  have same : ∀ captures, (lifter.withCaptures captures).parameterNodes method =
    lifter.parameterNodes method := fun _ => rfl
  unfold prepare
  rw [same, same]
  cases lifter.parameterNodes method <;> rfl

/-- A lifting is honest about its marks if the nested ones are. -/
theorem honest_liftWith (honest : ∀ nextNode method body target,
      captures.Honest fun captures => nested captures nextNode method body target)
    (body : MethodBody) :
    captures.Honest fun captures => (lifter.withCaptures captures).liftWith (nested captures)
      nextNode method body target arguments := by
  have isTrace : ∀ captures, (lifter.withCaptures captures).trace body = lifter.trace body := by
    intro captures
    have same : (lifter.withCaptures captures).resolver.resolve = lifter.resolver.resolve := rfl
    exact ofBody_congr same _ body
  cases prepared : (lifter.withCaptures captures).prepare nextNode method target arguments
      (nested captures) with
  | error error =>
    intro result lifts
    obtain ⟨found, isFound, -⟩ := bind_eq_ok.1 lifts
    rw [prepared] at isFound
    cases isFound
  | ok found =>
    obtain ⟨task, start⟩ := found
    have lifts : (fun captures => (lifter.withCaptures captures).liftWith (nested captures) nextNode
        method body target arguments) = fun captures =>
          outcome (runTrace (task.capturing nested captures) (lifter.trace body)) (.initial start) >>=
            fun found => .ok (treeOf task found.2, found.2.workspace.emission.nextNode) := by
      funext other
      unfold liftWith
      rw [prepare_withCaptures captures other, prepared]
      dsimp only [Except.map, bind, Except.bind]
      unfold runBody outcome
      rw [isTrace other]
      cases runTrace (task.capturing nested other) _ (.initial start) <;> rfl
    rw [lifts]
    intro result success
    obtain ⟨⟨_, machine⟩, runs, success⟩ := bind_eq_ok.1 success
    cases success
    obtain ⟨asked, consults, marks⟩ := faithful_runTrace honest _ (.initial start) () machine
      (outcome_eq_ok.1 runs)
    exact ⟨asked, append_nil asked ▸ consults.andThen (.const _), Iff.trans marks (or_iff_right nofun)⟩

end Nested

theorem honest_liftFrom (depth nextNode : Nat) (method : Method) (body : MethodBody)
    (target : Option Expr) (arguments : List Expr) :
    captures.Honest fun captures =>
      (lifter.withCaptures captures).liftFrom depth nextNode method body target arguments := by
  induction depth generalizing nextNode method body target arguments with
  | zero =>
    rintro _ ⟨⟩
  | succ depth ih =>
    exact honest_liftWith (fun nextNode method body target =>
      ih nextNode method body target []) body

/-- The lifting asks what the delegate holds: whatever error it gets for an answer, it fails with. -/
def Asks (lifter : Lifter) (method : Method) (body : MethodBody) (expr : Expr) : Prop :=
  ∀ refusal other, Captures.Refuses lifter.resolver.capturedDelegate expr refusal other →
    (lifter.withCaptures other).lift method body = .error refusal

/-- A lifting asks questions, and marks its tree exactly if one of them is answered with a method. -/
theorem exists_consults_lift {method : Method} {body : MethodBody} {tree : MethodTree}
    (lifts : lifter.lift method body = .ok tree) :
    ∃ asked, Consults lifter.resolver.capturedDelegate asked
        (fun captures => (lifter.withCaptures captures).lift method body) tree ∧
      (tree.notCacheable = true ↔ Captures.Finds lifter.resolver.capturedDelegate asked) := by
  obtain ⟨found, isFound, isTree⟩ := bind_eq_ok.1 lifts
  cases isTree
  have honest : Captures.Honest lifter.resolver.capturedDelegate fun captures =>
      (lifter.withCaptures captures).liftFrom lifter.nesting 0 method body none [] :=
    honest_liftFrom lifter.nesting 0 method body none []
  obtain ⟨asked, consults, marks⟩ := honest found isFound
  exact ⟨asked, append_nil asked ▸ consults.andThen (.const _), marks⟩

/-- The mark on a tree is faithful. A tree without it is the one that is lifted when nothing is known
of what delegates hold. A tree has it exactly if the lifting, or one nested in it, asked about a
delegate that is known to hold a method. -/
theorem lift_notCacheable_iff {lifter : Lifter} {method : Method} {body : MethodBody}
    {tree : MethodTree} (lifts : lifter.lift method body = .ok tree) :
    (tree.notCacheable = false → (lifter.withCaptures fun _ => .ok none).lift method body = .ok tree) ∧
    (tree.notCacheable = true ↔ ∃ expr delegate, lifter.Asks method body expr ∧
      lifter.resolver.capturedDelegate expr = .ok (some delegate)) := by
  obtain ⟨asked, consults, marks⟩ := exists_consults_lift lifts
  refine ⟨fun unmarked => consults.rests _ fun expr mem => ?_, fun marked => ?_, ?_⟩
  · obtain ⟨found, isFound⟩ := consults.answered expr mem
    cases found with
    | none => exact isFound.symm
    | some delegate =>
      have marked := marks.2 ⟨expr, mem, delegate, isFound⟩
      rw [unmarked] at marked
      cases marked
  · obtain ⟨expr, mem, delegate, isFound⟩ := marks.1 marked
    exact ⟨expr, delegate, consults.stops expr mem, isFound⟩
  · rintro ⟨expr, delegate, asks, isFound⟩
    -- A delegate that nobody asked about can be refused without a failure.
    refine marks.2 ⟨expr, ?_, delegate, isFound⟩
    by_contra unasked
    classical
    let other := Function.update lifter.resolver.capturedDelegate expr (.error .nestingLimit)
    have elsewhere : ∀ asked, asked ≠ expr →
        other asked = lifter.resolver.capturedDelegate asked := fun _ isOther =>
      Function.update_of_ne isOther ..
    have stopped := asks .nestingLimit other ⟨Function.update_self .., elsewhere⟩
    rw [consults.rests other fun asked mem =>
      elsewhere asked (by rintro rfl; exact unasked mem)] at stopped
    cases stopped

def delegateInvoke : Method where
  token := ⟨0x0A000003⟩
  name := "Invoke"
  returnType := .int32
  declaringType := delegateConstructor.declaringType

def selector : Field where
  token := ⟨0x04000003⟩
  name := "selector"
  type := delegateConstructor.declaringType
  flags := { isStatic := true }

/-- The second function runs the delegate in a field, which holds the third one. -/
def selection : MetadataTables where
  members := [(delegateConstructor.token, .method delegateConstructor),
    (delegateInvoke.token, .method delegateInvoke), (selector.token, .field selector),
    (⟨0x06000002⟩, .method (numbered 2 .int32)), (⟨0x06000003⟩, .method (numbered 3 .int32))]
  bodies := [
    (⟨0x06000002⟩, { code := [0x7e, 0x03, 0x00, 0x00, 0x04, 0x6f, 0x03, 0x00, 0x00, 0x0a, 0x2a] }),
    (⟨0x06000003⟩, { code := [0x1b, 0x2a] })]
  delegates := [(selector.token, { target := none, method := numbered 3 .int32 })]

/-- Makes a delegate of the function of the given number and runs it. -/
def running (number : UInt8) : MethodBody :=
  { code := [0x14, 0xfe, 0x06, number, 0x00, 0x00, 0x06, 0x73, 0x01, 0x00, 0x00, 0x0a, 0x6f, 0x03, 0x00,
      0x00, 0x0a, 0x2a] }

/-- The question is asked while the second function is lifted along; nobody asks it for the third. -/
theorem lift_notCacheable_iff_selection :
    let lifter : Lifter := { resolver := selection.resolver, nesting := 3 }
    (∃ tree, lifter.lift (numbered 1 .int32) (running 2) = .ok tree ∧
      tree.text = "() => (() => (() => 5)())()" ∧
      ∃ expr delegate, lifter.Asks (numbered 1 .int32) (running 2) expr ∧
        lifter.resolver.capturedDelegate expr = .ok (some delegate)) ∧
    ∃ tree, lifter.lift (numbered 1 .int32) (running 3) = .ok tree ∧
      tree.text = "() => (() => 5)()" ∧
      (lifter.withCaptures fun _ => .ok none).lift (numbered 1 .int32) (running 3) = .ok tree := by
  intro lifter
  have nested : (lifter.lift (numbered 1 .int32) (running 2)).map
      (fun tree => (tree.text, tree.notCacheable)) = .ok ("() => (() => (() => 5)())()", true) := by
    decide +kernel
  have direct : (lifter.lift (numbered 1 .int32) (running 3)).map
      (fun tree => (tree.text, tree.notCacheable)) = .ok ("() => (() => 5)()", false) := by
    decide +kernel
  obtain ⟨tree, lifts, shown⟩ := exists_of_map nested
  obtain ⟨other, otherLifts, otherShown⟩ := exists_of_map direct
  exact ⟨⟨tree, lifts, congrArg fst shown, (lift_notCacheable_iff lifts).2.1 (congrArg snd shown)⟩,
    other, otherLifts, congrArg fst otherShown,
      (lift_notCacheable_iff otherLifts).1 (congrArg snd otherShown)⟩

end Lifter

end CilLift
