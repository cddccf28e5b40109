import CilLift.Proofs.Agreement.Instructions
import CilLift.Proofs.Execution

/-! Bodies whose events correspond are lifted to the same tree, or fail for the same kind of reason. -/

namespace CilLift

open Machine

open Machine

variable {α : Type}

/-- Two computations give the same result, or errors of one kind. -/
inductive SameOutcome {α : Type} : Except Error α → Except Error α → Prop where
  | ok (result : α) : SameOutcome (.ok result) (.ok result)
  | error {error other : Error} (sameKind : error.SameKind other) :
    SameOutcome (.error error) (.error other)

theorem SameOutcome.refl (outcome : Except Error α) : SameOutcome outcome outcome := by
  cases outcome with
  | ok result => exact .ok result
  | error error => exact .error rfl

theorem SameOutcome.eq_ok {outcome : Except Error α} {result : α}
    (same : SameOutcome outcome (.ok result)) : outcome = .ok result := by
  cases same
  rfl

theorem SameOutcome.exists_error {outcome : Except Error α} {error : Error}
    (same : SameOutcome outcome (.error error)) :
    ∃ other, outcome = .error other ∧ other.SameKind error := by
  cases same with
  | error sameKind => exact ⟨_, rfl, sameKind⟩

/-- Two events correspond: they name corresponding labels and are otherwise the same, but for the
places of instructions and the size of the stack. -/
inductive Event.Alike (renames : Label → Label → Prop) : Event → Event → Prop where
  | locals (maxStack maxStack' : Nat) (types : List TypeSig) :
    Alike renames (.locals maxStack types) (.locals maxStack' types)
  | offset (position position' : Nat) : Alike renames (.offset position) (.offset position')
  | label {label renamed : Label} (isRenamed : renames label renamed) :
    Alike renames (.label label) (.label renamed)
  | jump (opcode : Opcode) {label renamed : Label} (isRenamed : renames label renamed) :
    Alike renames (.jump opcode label) (.jump opcode renamed)
  | code : Alike renames .code .code
  | plain (opcode : Opcode) : Alike renames (.plain opcode) (.plain opcode)
  | literal (value : Constant) (type : TypeSig) :
    Alike renames (.literal value type) (.literal value type)
  | access (opcode : Opcode) (index : Nat) : Alike renames (.access opcode index) (.access opcode index)
  | field (opcode : Opcode) (mem : Field) : Alike renames (.field opcode mem) (.field opcode mem)
  | method (opcode : Opcode) (mem : Method) : Alike renames (.method opcode mem) (.method opcode mem)
  | type (opcode : Opcode) (named : TypeSig) : Alike renames (.type opcode named) (.type opcode named)
  | finish : Alike renames .finish .finish

theorem Event.alike_refl (event : Event) : event.Alike Eq event := by
  cases event with
  | label => exact .label rfl
  | jump => exact .jump _ rfl
  | _ => constructor

theorem Label.renaming_eq : Renaming Eq where
  finish := rfl
  faithful same same' := by rw [same, same']

namespace Task.Relays

variable {errors : Error → Error → Prop} {renames : Label → Label → Prop} {task : Task}
  {marks : Bool → Bool → Prop} (relays : task.Relays errors)

include relays

/-- The end of a method is the same for akin machines. -/
theorem finish (isRenaming : Label.Renaming renames) : Blind errors renames marks (finish task) := by
  refine (agrees_arriveAt relays.lenient isRenaming isRenaming.finish).andThen fun _ => ?_
  refine agrees_get fun first second akin => ?_
  have lost : ∀ {waiters waiters' : List (Label × StackId)}, Label.Waiting renames waiters waiters' →
      ((waiters.find? fun waiter => !(second.workspace.stack waiter.2).isReduced).isSome =
        (waiters'.find? fun waiter => !(second.workspace.stack waiter.2).isReduced).isSome) := by
    intro waiters waiters' waiting
    induction waiting with
    | nil => rfl
    | cons corresponds _ ih =>
      rw [List.find?_cons, List.find?_cons, corresponds.2]
      split
      · rfl
      · exact ih
  have sameLost := lost akin.waiters
  rw [akin.workspace, akin.current]
  cases found : first.waiters.find? fun waiter => !(second.workspace.stack waiter.2).isReduced <;>
    cases found' : second.waiters.find? fun waiter =>
      !(second.workspace.stack waiter.2).isReduced <;> rw [found, found'] at sameLost
  · dsimp only
    split
    · exact relays.lenient.shape _ _
    · exact relays.lenient.shape _ _
    · exact (relays.lenient.lift (Emission.complete_faults _ _ _ _)).andThen fun emission =>
        agrees_work_of_total fun _ => ⟨_, _, rfl⟩
  · cases sameLost
  · cases sameLost
  · exact relays.lenient.shape _ _

/-- Machines that are akin do the same at corresponding events, if they do so where a method is
called or referred to. -/
theorem stepAkin (isRenaming : Label.Renaming renames) {event other : Event}
    (alike : event.Alike renames other)
    (methods : ∀ stack opcode method, event = .method opcode method →
      Blind errors renames marks (Machine.runMethod task stack opcode method)) :
    Agrees errors (Akin renames marks) (step task event) (step task other) := by
  cases alike with
  | code => exact agrees_pure _
  | locals maxStack maxStack' types =>
    refine (agrees_work_of_total fun _ => ⟨_, _, rfl⟩).andThen fun _ => ?_
    exact (agrees_work_of_total fun _ => ⟨_, _, rfl⟩).andThen fun root => agrees_follow (some root)
  | offset position position' =>
    exact agrees_modify fun _ _ akin =>
      ⟨akin.workspace, akin.current, akin.waiters, akin.notCacheable⟩
  | label isRenamed => exact agrees_arriveAt relays.lenient isRenaming isRenamed
  | plain opcode => exact agrees_onCurrent fun stack => relays.runPlain isRenaming stack opcode
  | literal value type => exact agrees_onCurrent fun stack => agrees_push stack _
  | access opcode index => exact agrees_onCurrent fun stack => relays.runAccess stack opcode index
  | jump opcode isRenamed =>
    exact agrees_onCurrent fun stack => relays.runJump isRenamed stack opcode
  | field opcode mem => exact agrees_onCurrent fun stack => relays.runField stack opcode mem
  | method opcode mem =>
    exact agrees_onCurrent fun stack => methods stack opcode mem rfl
  | type opcode named => exact agrees_onCurrent fun stack => relays.runType stack opcode named
  | finish => exact relays.finish isRenaming

theorem step (isRenaming : Label.Renaming renames) {event other : Event}
    (alike : event.Alike renames other) :
    Agrees errors (Alike renames) (step task event) (step task other) :=
  relays.stepAkin isRenaming alike fun stack opcode method _ => relays.runMethod stack opcode method

theorem run (isRenaming : Label.Renaming renames) {events others : List Event}
    (alike : List.Forall₂ (Event.Alike renames) events others) :
    Agrees errors (Alike renames) (events.forM (Machine.step task))
      (others.forM (Machine.step task)) := by
  induction alike with
  | nil => exact agrees_pure _
  | cons alike _ ih =>
    exact (relays.step isRenaming alike).andThen fun _ => ih

end Task.Relays

theorem Task.relays_sameKind (task : Task) : task.Relays Error.SameKind := by
  have always {α : Type} (value : Except Error α) :
      Yields (fun error => error.SameKind error) value fun _ => True := by
    cases value with
    | ok => trivial
    | error => exact rfl
  exact ⟨fun _ _ sameKind _ => sameKind, fun _ => always _, fun _ => always _, fun _ _ _ _ _ => always _⟩

/-- The events of two traces correspond, and both end or fail for one kind of reason. -/
structure Trace.Alike (renames : Label → Label → Prop) (trace other : Trace) : Prop where
  events : List.Forall₂ (Event.Alike renames) trace.events other.events
  failure : Option.Rel Error.SameKind trace.failure other.failure

theorem Machine.agrees_runTrace {renames : Label → Label → Prop} (task : Task)
    (isRenaming : Label.Renaming renames) {trace other : Trace} (alike : trace.Alike renames other) :
    Agrees Error.SameKind (Alike renames) (runTrace task trace) (runTrace task other) := by
  obtain ⟨events, failure⟩ := trace
  obtain ⟨events', failure'⟩ := other
  obtain ⟨sameEvents, sameFailure⟩ := alike
  refine (task.relays_sameKind.run isRenaming sameEvents).andThen fun _ => ?_
  cases sameFailure with
  | none => exact agrees_pure _
  | some sameKind => exact agrees_throw sameKind

namespace Lifter

variable {lifter : Lifter} {method : Method} {body other : MethodBody}

theorem treeOf_alike {renames : Label → Label → Prop} (task : Task) {machine machine' : Machine}
    (alike : Alike renames machine machine') : treeOf task machine = treeOf task machine' := by
  unfold treeOf
  rw [alike.workspace, alike.notCacheable]

/-- Two bodies are lifted alike if their runs agree on the task of the method. -/
theorem lift_sameOutcome (renames : Label → Label → Prop)
    (agree : ∀ task nextNode, lifter.rootTask method = .ok (task, nextNode) →
      Agree Error.SameKind (Alike renames) (lifter.runBody task nextNode body)
        (lifter.runBody task nextNode other)) :
    SameOutcome (lifter.lift method body) (lifter.lift method other) := by
  rw [lift_eq, lift_eq]
  split
  · exact .refl _
  · cases prepared : lifter.rootTask method with
    | error error => exact .error rfl
    | ok found =>
      obtain ⟨task, nextNode⟩ := found
      have outcomes := agree task nextNode prepared
      dsimp only [bind, Except.bind]
      cases run : lifter.runBody task nextNode body <;>
        cases run' : lifter.runBody task nextNode other <;>
        rw [run, run'] at outcomes <;> cases outcomes
      · rename_i alike
        dsimp only
        rw [treeOf_alike task alike]
        exact .ok _
      · exact .error ‹_›

end Lifter

end CilLift
