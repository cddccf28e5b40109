import CilLift.Proofs.Ranges.Access
import CilLift.Proofs.Ranges.Statements

/-!
Runs that check what they look up. Whatever the body, no check of its run fails: the checked run does
what the run does, and every machine on the way is in range.
-/

namespace CilLift

open Regime Machine

variable {stack : StackId}

namespace Checked

variable {α β : Type}

/-- A step of the workspace. -/
def work (step : Checked Workspace α) : Checked Machine α := fun machine =>
  match step machine.workspace with
  | .ok result space => .ok result { machine with workspace := space }
  | .error error space => .error error { machine with workspace := space }

/-- A step of the machine on a path. -/
def onStack (id : StackId) (step : Run α) : Checked Machine α := do
  work (inside id)
  trust step

/-! Jumps. -/

def forkAt (label : Label) (stack : StackId) (test : Expr) : Checked Machine Unit := do
  let branch ← onStack stack (Machine.work (Work.newFork stack test))
  let fork ← work (fork branch)
  onStack stack (push stack (.mkBranch branch))
  trust (park label fork.onFalse)
  trust (modify fun machine => { machine with current := some fork.onTrue })

def jumpOnComparison (label : Label) (stack : StackId) (op : BinaryOp) : Checked Machine Unit := do
  let right ← onStack stack (pop stack "branch")
  let left ← onStack stack (pop stack "branch")
  let left ← trust (liftM (compared op left))
  let right ← trust (liftM (right.coerce left.type))
  forkAt label stack (.mkBinary op left right .bool)

def jumpIfTrue (task : Task) (label : Label) (stack : StackId) : Checked Machine Unit := do
  let value ← onStack stack (pop stack "brtrue")
  match value.jumpLiteral? <|> foldedReferenceTest? task value with
  | some true => trust (jumpTo label stack)
  | some false => return ()
  | none => forkAt label stack (← trust (liftM value.isFalse))

def jumpIfFalse (label : Label) (stack : StackId) : Checked Machine Unit := do
  let value ← onStack stack (pop stack "brfalse")
  match value.jumpLiteral? with
  | some true => return ()
  | some false => trust (jumpTo label stack)
  | none => forkAt label stack (← trust (liftM value.isTrue))

def runJump (task : Task) (stack : StackId) (opcode : Opcode) (label : Label) : Checked Machine Unit :=
  match opcode with
  | .br => trust (jumpTo label stack)
  | .brfalse => jumpIfFalse label stack
  | .brtrue => jumpIfTrue task label stack
  | .beq => jumpOnComparison label stack .notEqual
  | .bge | .bgeUn => jumpOnComparison label stack .lessThan
  | .bgt | .bgtUn => jumpOnComparison label stack .lessThanOrEqual
  | .ble | .bleUn => jumpOnComparison label stack .greaterThan
  | .blt | .bltUn => jumpOnComparison label stack .greaterThanOrEqual
  | .bneUn => jumpOnComparison label stack .equal
  | other => trust (unsupported other)

/-! Events. -/

def arriveAt (label : Label) : Checked Machine Unit := do
  let machine ← get
  if machine.waiters.any fun waiter => waiter.1 == label then
    trust (set { machine with waiters := machine.waiters.filter fun waiter => waiter.1 != label })
    require (∀ waiter ∈ machine.waiters, waiter.1 = label → waiter.2 < machine.workspace.paths.length)
    match machine.meeting label with
    | [] => trust (modify fun machine => { machine with current := none })
    | waiting =>
      let joined ← work (join label waiting)
      trust (modify fun machine => { machine with current := some joined })
  else return ()

def finish (task : Task) : Checked Machine Unit := do
  arriveAt .finish
  let machine ← get
  require (∀ waiter ∈ machine.waiters, waiter.2 < machine.workspace.paths.length)
  let lost := machine.waiters.find? fun waiter =>
    !(machine.workspace.stack waiter.2).isReduced
  match lost, machine.current with
  | some waiter, _ => throw (some (.shape (.pathsNeverJoin waiter.1)))
  | none, none => throw (some (.shape (.endUnreachable task.method)))
  | none, some stack =>
    work (inside stack)
    let remaining := (machine.workspace.stack stack).items.reverse
    match complete remaining task.returnType task.options.inlineTrailing machine.workspace.emission with
    | .ok emission => trust (Machine.work (Work.emit fun _ => ((), emission)))
    | .error error => throw error

def atCurrent : Checked Machine Unit := do
  match (← get).current with
  | some stack => work (inside stack)
  | none => return ()

/-- Instructions other than jumps look at the current path alone. -/
def step (task : Task) : Event → Checked Machine Unit
  | .label label => arriveAt label
  | .finish => finish task
  | .jump opcode label => do
    match (← get).current with
    | some stack => runJump task stack opcode label
    | none => return ()
  | event => do
    atCurrent
    trust (Machine.step task event)

def runTrace (task : Task) (trace : Trace) : Checked Machine Unit := do
  trace.events.forM (step task)
  match trace.failure with
  | some error => throw (some error)
  | none => return ()

/-! No check of a machine in range fails. -/

variable {machine : Machine} {slotCount : Nat}

theorem matches_work {checked : Checked Workspace α} {step : Work α}
    (same : Matches checked step machine.workspace) :
    Matches (work checked) (Machine.work step) machine := by
  unfold Matches work at *
  rw [same]
  unfold trust Machine.work
  cases step machine.workspace <;> rfl

theorem work_eq {checked : Checked Workspace α} {result : α}
    (found : checked machine.workspace = .ok result machine.workspace) :
    work checked machine = .ok result machine := by
  rw [work, found]

theorem matches_onStack {id : StackId} (isPath : id < machine.workspace.paths.length)
    (step : Run α) : Matches (onStack id step) step machine :=
  .after (work_eq (inside_eq isPath)) (matches_trust step machine)

theorem Matches.runs {checked : Checked Machine β} {step : Run β}
    {checkedNext : β → Checked Machine α} {next : β → Run α} {middle : β → Machine → Prop}
    (first : Matches checked step machine) (runs : (ranges slotCount).Runs step machine middle)
    (later : ∀ result after, (ranges slotCount).Live after →
      (∀ id, id < machine.workspace.paths.length → id < after.workspace.paths.length) →
      Matches (checkedNext result) (next result) after) :
    Matches (checked >>= checkedNext) (step >>= next) machine :=
  first.andThen fun result after outcome =>
    have ⟨live, leads, _⟩ := Ensures.of_ok runs outcome
    later result after live leads.valid

section Jumps

variable {task : Task} (label : Label) (live : (ranges slotCount).Live machine)
  (isPath : stack < machine.workspace.paths.length)

include live isPath

theorem matches_forkAt (test : Expr) :
    Matches (forkAt label stack test) (Machine.forkAt label stack test) machine := by
  have runs := live.work (ranges_forks machine.workspace stack test live.holds isPath trivial)
  refine (matches_onStack isPath _).andThen fun branch forked outcome => ?_
  obtain ⟨live, leads, -⟩ := Ensures.of_ok runs outcome
  have isFork : branch < forked.workspace.forks.length := by
    cases outcome
    simp
  refine .get (.after (work_eq (fork_eq isFork)) ?_)
  refine (matches_onStack (leads.valid _ isPath) _).andThen fun _ pushed _ => ?_
  exact (matches_trust _ pushed).andThen fun _ parked _ => matches_trust _ parked

variable (serves : (ranges slotCount).Serves task)

include serves

theorem matches_jumpOnComparison (op : BinaryOp) :
    Matches (jumpOnComparison label stack op) (Machine.jumpOnComparison label stack op) machine := by
  refine (matches_onStack isPath _).runs (serves.pop "branch" live isPath) ?_
  intro right popped live stays
  refine (matches_onStack (stays _ isPath) _).runs (serves.pop "branch" live (stays _ isPath)) ?_
  intro left next live stays'
  refine matches_lift fun left => matches_lift fun right => ?_
  exact matches_forkAt label live (stays' _ (stays _ isPath)) _

theorem matches_jumpIfTrue :
    Matches (jumpIfTrue task label stack) (Machine.jumpIfTrue task label stack) machine := by
  refine (matches_onStack isPath _).runs (serves.pop "brtrue" live isPath) ?_
  intro value popped live stays
  cases value.jumpLiteral? <|> foldedReferenceTest? task value with
  | none => exact matches_lift (matches_forkAt label live (stays _ isPath))
  | some taken =>
    cases taken with
    | true => exact matches_trust _ popped
    | false => exact matches_pure () popped

theorem matches_jumpIfFalse :
    Matches (jumpIfFalse label stack) (Machine.jumpIfFalse label stack) machine := by
  refine (matches_onStack isPath _).runs (serves.pop "brfalse" live isPath) ?_
  intro value popped live stays
  cases value.jumpLiteral? with
  | none => exact matches_lift (matches_forkAt label live (stays _ isPath))
  | some taken =>
    cases taken with
    | true => exact matches_pure () popped
    | false => exact matches_trust _ popped

theorem matches_runJump (opcode : Opcode) :
    Matches (runJump task stack opcode label) (Machine.runJump task stack opcode label) machine := by
  have compares := matches_jumpOnComparison label live isPath serves
  cases opcode with
  | brfalse => exact matches_jumpIfFalse label live isPath serves
  | brtrue => exact matches_jumpIfTrue label live isPath serves
  | beq | bge | bgeUn | bgt | bgtUn | ble | bleUn | blt | bltUn | bneUn => exact compares _
  | _ => rfl

end Jumps

variable (task : Task)

theorem matches_arriveAt (label : Label) (live : (ranges slotCount).Live machine) :
    Matches (arriveAt label) (Machine.arriveAt label) machine := by
  refine .get (.look ?_)
  by_cases waits : (machine.waiters.any fun waiter => waiter.1 == label) = true
  · rw [if_pos waits, if_pos waits]
    have waiting : ∀ waiter ∈ machine.waiters, waiter.1 = label →
        waiter.2 < machine.workspace.paths.length := fun waiter mem _ => live.waiters waiter mem
    refine (matches_trust _ machine).andThen ?_
    rintro _ _ ⟨⟩
    refine .after (require_eq waiting _) ?_
    cases meets : machine.meeting label with
    | nil => exact matches_trust _ _
    | cons first rest =>
      have inside : ∀ id ∈ first :: rest, id < machine.workspace.paths.length := fun id mem =>
        live.meeting label id (meets ▸ mem)
      refine Matches.andThen (matches_work ?_) fun _ next _ => matches_trust _ next
      exact matches_join live.holds label inside
  · rw [if_neg waits, if_neg waits]
    exact matches_pure () machine

/-- The end of a method stays in range. -/
theorem matches_finish (live : (ranges slotCount).Live machine) :
    Matches (finish task) (Machine.finish task) machine := by
  have serves : (ranges slotCount).Serves task := ranges_serves task
  refine (matches_arriveAt .finish live).runs (serves.lawful.arriveAt .finish live
    fun _ _ first second _ _ _ _ => ranges_joins.merges .finish first second) ?_
  intro _ arrived live _
  have waiting : ∀ waiter ∈ arrived.waiters, waiter.2 < arrived.workspace.paths.length :=
    live.waiters
  refine .get (.look (.after (require_eq waiting arrived) ?_))
  cases arrived.waiters.find? fun waiter => !(arrived.workspace.stack waiter.2).isReduced with
  | some waiter => exact matches_throw _ arrived
  | none =>
    cases isCurrent : arrived.current with
    | none => exact matches_throw _ arrived
    | some stack =>
      refine .after (work_eq (inside_eq (live.current stack isCurrent))) ?_
      dsimp only
      rw [complete_eq]
      cases arrived.workspace.emission.complete (arrived.workspace.stack stack).items.reverse
          task.returnType task.options.inlineTrailing with
      | ok emission => exact matches_trust _ arrived
      | error error => exact matches_throw error arrived

theorem atCurrent_eq (live : (ranges slotCount).Live machine) : atCurrent machine = .ok () machine := by
  have isFound : (get : Checked Machine Machine) machine = .ok machine machine := rfl
  unfold atCurrent
  rw [andThen_of_ok isFound]
  cases isCurrent : machine.current with
  | none => rfl
  | some stack => exact work_eq (inside_eq (live.current stack isCurrent))

theorem matches_step (event : Event) (live : (ranges slotCount).Live machine) :
    Matches (step task event) (Machine.step task event) machine := by
  cases event with
  | label label => exact matches_arriveAt label live
  | finish => exact matches_finish task live
  | jump opcode label =>
    refine .get (.look ?_)
    cases isCurrent : machine.current with
    | none => exact matches_pure () machine
    | some stack =>
      exact matches_runJump label live (live.current stack isCurrent) (ranges_serves task) opcode
  | _ => exact .after (atCurrent_eq live) (matches_trust _ machine)

theorem matches_runTrace (trace : Trace)
    (same : Matches (trace.events.forM (step task)) (trace.events.forM (Machine.step task)) machine) :
    Matches (runTrace task trace) (Machine.runTrace task trace) machine := by
  refine same.andThen fun _ next _ => ?_
  cases trace.failure with
  | none => exact matches_pure () next
  | some error => exact matches_throw error next

/-- The checked run of a body. -/
def runBody (lifter : Lifter) (task : Task) (nextNode : Nat) (body : MethodBody) :
    EStateM.Result (Option Error) Machine Unit :=
  runTrace task (lifter.trace body) (.initial nextNode)

end Checked

namespace Machine

variable {task : Task} {machine final : Machine}

theorem reaches_of_steps {events : List Event}
    (steps : events.forM (step task) machine = .ok () final) :
    Reaches task events machine final := by
  induction events generalizing machine with
  | nil =>
    cases steps
    exact .now
  | cons event rest ih =>
    obtain ⟨⟨⟩, next, stepped, steps⟩ := andThen_eq_ok.1 steps
    exact .later stepped (ih steps)

theorem reaches_of_runTrace {trace : Trace} (completed : runTrace task trace machine = .ok () final) :
    Reaches task trace.events machine final := by
  obtain ⟨⟨⟩, ended, steps, completed⟩ := andThen_eq_ok.1 completed
  cases isFailure : trace.failure with
  | some error =>
    rw [isFailure] at completed
    cases completed
  | none =>
    rw [isFailure] at completed
    cases completed
    exact reaches_of_steps steps

end Machine

namespace Lifter

variable (lifter : Lifter) (task : Task) (nextNode : Nat) (body : MethodBody)

theorem live_opening : (ranges body.locals.length).Live (lifter.opening task nextNode body) := by
  have opening := ranges_opening task (body.locals.map (TypeSig.instantiate lifter.context)) nextNode
  rwa [List.length_map] at opening

theorem live_of_reaches {machine : Machine}
    (reaches : Machine.Reaches task (lifter.trace body).events (.initial nextNode) machine) :
    (ranges body.locals.length).Live machine := by
  rcases (ranges_serves task).body_reaches ranges_free (lifter.live_opening task nextNode body)
    (fun label first second _ _ => ranges_joins.merges label first second) reaches
    with rfl | live
  · exact ranges_initial nextNode
  · exact live

theorem inRange_of_tries {label : Label} {first second : StackId} {space : Workspace}
    (tries : lifter.Tries task nextNode body label first second space) :
    space.InRange body.locals.length ∧ first < space.paths.length ∧ second < space.paths.length :=
  (ranges_serves task).body_tries ranges_free (lifter.live_opening task nextNode body)
    (fun label first second _ _ => ranges_joins.merges label first second) tries

/-- No check of the run of a body fails. -/
theorem runBody_checked :
    Checked.runBody lifter task nextNode body = Checked.trusted (lifter.runBody task nextNode body) := by
  have blank : (ranges body.locals.length).Live (.initial nextNode) := ranges_initial nextNode
  obtain ⟨events, isBody, known⟩ := Trace.ofBody_events lifter.resolver lifter.context body
  refine Checked.matches_runTrace task _ ?_
  rw [isBody]
  refine (Checked.matches_step task .code blank).andThen ?_
  rintro _ _ ⟨⟩
  refine (Checked.matches_step task (.locals _ _) blank).andThen ?_
  rintro _ _ ⟨⟩
  refine Checked.matches_forM (ranges body.locals.length).Live ?_ (lifter.live_opening task nextNode body)
  intro event mem machine live
  refine ⟨Checked.matches_step task event live, fun _ next outcome => ?_⟩
  have allows : (ranges body.locals.length).Allows task [event] machine := {
    takes := fun _ only => List.mem_singleton.1 only ▸ (known event mem).imp_right (⟨·, ranges_free⟩)
    live
    pairs := fun label first second _ _ => ranges_joins.merges label first second }
  exact ((ranges_serves task).later allows outcome).live

/-- Whatever the body and the task, every machine and workspace on the way is in range, with as many
locals on each path as the body declares, and no lookup of the run misses. -/
theorem runBody_inRange :
    (∀ machine, Machine.Reaches task (Trace.ofBody lifter.resolver lifter.context body).events
        { workspace := { emission := { nextNode } } } machine →
      machine.InRange body.locals.length) ∧
    (∀ space, lifter.Visits task nextNode body space → space.InRange body.locals.length) ∧
    Checked.runBody lifter task nextNode body = Checked.trusted (lifter.runBody task nextNode body) ∧
    ∀ stuck, Checked.runBody lifter task nextNode body ≠ .error none stuck := by
  have checked := lifter.runBody_checked task nextNode body
  refine ⟨fun machine reaches => ?_, fun space visits => ?_, checked, fun stuck misses => ?_⟩
  · have live := lifter.live_of_reaches task nextNode body reaches
    exact ⟨live.holds, live.current, live.waiters⟩
  · cases visits with
    | between reaches => exact (lifter.live_of_reaches task nextNode body reaches).holds
    | before tries => exact (lifter.inRange_of_tries task nextNode body tries).1
    | @after label first second joined space next tries merge =>
      obtain ⟨inRange, firstInside, secondInside⟩ :=
        lifter.inRange_of_tries task nextNode body tries
      exact ((ranges_joins.merges label first second inRange firstInside secondInside).of_ok merge).1
  · rw [checked] at misses
    cases outcome : lifter.runBody task nextNode body <;> rw [outcome] at misses <;> cases misses

/-- The choice of a number by way of a local. -/
def assignedChoice : MethodBody where
  code := [0x02, 0x2c, 0x04, 0x17, 0x0a, 0x2b, 0x02, 0x18, 0x0a, 0x06, 0x2a]
  locals := [.int32]

def choiceTask : Task where
  resolver := conditionsOnly.resolver
  options := conditionsOnly.options
  method := .taking .bool ["a", "b", "c", "d"]
  returnType := .int32
  parameters := [((Expr.mkParameter 0 "a" .bool).place 0).1]
  target := none
  arguments := []
  liftNested _ _ _ _ := .error .nestingLimit

/-- The choice runs through three paths and merges the local of two of them. -/
theorem assignedChoice_inRange :
    ∃ machine, Checked.runBody conditionsOnly choiceTask 1 assignedChoice = .ok () machine ∧
      machine.workspace.paths.length = 3 ∧ machine.InRange 1 := by
  obtain ⟨inRange, -, checked, -⟩ := runBody_inRange conditionsOnly choiceTask 1 assignedChoice
  have viewed : EStateM.run' (do
      runTrace choiceTask (Trace.ofBody conditionsOnly.resolver conditionsOnly.context assignedChoice)
      return (← get).workspace.paths.length) { workspace := { emission := { nextNode := 1 } } } =
      some 3 := by
    decide +kernel
  unfold EStateM.run' at viewed
  split at viewed
  · rename_i count final outcome
    obtain ⟨⟨⟩, machine, completed, counted⟩ := andThen_eq_ok.1 outcome
    refine ⟨machine, ?_, ?_, inRange machine (reaches_of_runTrace completed)⟩
    · exact checked.trans (congrArg Checked.trusted completed)
    · exact (EStateM.Result.ok.inj counted).1.trans (Option.some.inj viewed)
  · cases viewed

end Lifter

end CilLift
