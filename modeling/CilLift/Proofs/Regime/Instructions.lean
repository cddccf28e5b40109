import CilLift.Proofs.Custody.Instructions
import CilLift.Proofs.Regime

/-! Every instruction keeps an invariant of the workspace whose laws hold. -/

namespace CilLift

open Machine Ensures

variable {stack : StackId}

namespace Regime

variable {α β : Type} {regime : Regime}

/-- The invariant holds, and the current path and those that wait may be worked on. -/
structure Live (regime : Regime) (machine : Machine) : Prop where
  holds : regime.Holds machine.workspace
  current : ∀ id, machine.current = some id → regime.Valid machine.workspace id
  waiters : ∀ waiter ∈ machine.waiters, regime.Valid machine.workspace waiter.2

/-- The step leaves the machine live and everything usable. -/
def Runs (regime : Regime) (step : Run α) (machine : Machine) (post : α → Machine → Prop) : Prop :=
  Ensures regime.Tolerates step machine fun result next =>
    regime.Live next ∧ regime.Leads machine.workspace next.workspace ∧ post result next

section Runs

variable {machine : Machine} {post : α → Machine → Prop}

theorem runs_pure {result : α} (live : regime.Live machine) (done : post result machine) :
    regime.Runs (pure result) machine post :=
  ensures_pure _ |>.2 ⟨live, .refl _, done⟩

theorem runs_get {second : Machine → Run α} (runs : regime.Runs (second machine) machine post) :
    regime.Runs (get >>= second) machine post :=
  ensures_bind.2 runs

theorem Runs.andThen {step : Run β} {second : β → Run α} {middle : β → Machine → Prop}
    (runs : regime.Runs step machine middle)
    (next : ∀ result after, regime.Live after → regime.Leads machine.workspace after.workspace →
      middle result after → regime.Runs (second result) after post) :
    regime.Runs (step >>= second) machine post :=
  Ensures.andThen runs fun result after ⟨live, leads, done⟩ =>
    (next result after live leads done).mono fun _ _ ⟨lives, led, reached⟩ =>
      ⟨lives, leads.trans led, reached⟩

theorem runs_modify {change : Machine → Machine} (live : regime.Live (change machine))
    (unchanged : (change machine).workspace = machine.workspace) :
    regime.Runs (modify change) machine fun _ _ => True :=
  ensures_modify _ |>.2 ⟨live, unchanged ▸ .refl _, trivial⟩

theorem Live.work {step : Work α} {post : α → Workspace → Prop} (live : regime.Live machine)
    (kept : regime.Keeps step machine.workspace post) :
    regime.Runs (work step) machine fun result next => post result next.workspace := by
  unfold Keeps Ensures at kept
  unfold Runs Ensures Machine.work
  cases outcome : step machine.workspace with
  | ok result space =>
    rw [outcome] at kept
    obtain ⟨holds, leads, done⟩ := kept
    exact ⟨⟨holds, fun id isCurrent => leads.valid id (live.current id isCurrent),
      fun waiter mem => leads.valid _ (live.waiters waiter mem)⟩, leads, done⟩
  | error error space =>
    rw [outcome] at kept
    exact kept

theorem Live.follow {next : Machine} {shared : List Expr} {hand : List Held}
    (live : regime.Live machine)
    (attends : regime.Attends machine.workspace next.workspace shared hand)
    (same : machine.SamePaths next) : regime.Live next where
  holds := attends.holds
  current id isCurrent := attends.leads.valid id (live.current id (same.current ▸ isCurrent))
  waiters waiter mem := attends.leads.valid _ (live.waiters waiter (same.waiters ▸ mem))

theorem Attends.runs {next : Machine} {shared : List Expr} {hand : List Held} {step : Run α}
    (attends : regime.Attends machine.workspace next.workspace shared hand)
    (runs : regime.Runs step next post) :
    Ensures regime.Tolerates step next fun result final =>
      regime.Live final ∧ regime.Leads machine.workspace final.workspace ∧ post result final :=
  mono runs fun _ _ ⟨live, leads, done⟩ => ⟨live, attends.leads.trans leads, done⟩

theorem Live.park {label : Label} (live : regime.Live machine)
    (isValid : regime.Valid machine.workspace stack) :
    regime.Runs (park label stack) machine fun _ _ => True := by
  refine runs_modify ⟨live.holds, live.current, ?_⟩ rfl
  simp only [List.mem_append, List.mem_singleton]
  rintro waiter (mem | rfl)
  · exact live.waiters waiter mem
  · exact isValid

theorem Live.jumpTo {label : Label} (live : regime.Live machine)
    (isValid : regime.Valid machine.workspace stack) :
    regime.Runs (jumpTo label stack) machine fun _ _ => True := by
  refine (live.park isValid).andThen fun _ next live _ _ => ?_
  exact runs_modify ⟨live.holds, by simp, live.waiters⟩ rfl

end Runs

/-- What the invariant asks of the task besides its laws. -/
structure Serves (regime : Regime) (task : Task) : Prop where
  lawful : regime.Lawful
  forks : regime.Forks
  parameter : ∀ space node, regime.Holds space → node ∈ task.parameters → regime.Sound space node
  target : ∀ space node, regime.Holds space → task.target = some node → regime.Sound space node
  known : ∀ space node, regime.Holds space → some node ∈ task.arguments → regime.Sound space node
  methodBody : task.options.inlineDelegates = true → ∀ method,
    Yields regime.Tolerates (task.resolver.methodBody method) fun _ => True
  capturedDelegate : task.options.inlineDelegates = true → ∀ expr,
    Yields regime.Tolerates (task.resolver.capturedDelegate expr) fun _ => True
  receiver : task.options.inlineDelegates = true → ∀ space expr, regime.Holds space →
    regime.Keeps (Work.place expr) space fun _ _ => True
  nested : task.options.inlineDelegates = true → ∀ space method body target type,
    regime.Holds space →
    Yields regime.Tolerates (task.liftNested space.emission.nextNode method body target)
      fun (tree, nextNode) =>
        regime.Keeps (Work.emit fun emission => ((), { emission with nextNode })) space
          fun _ next => regime.Sound next (tree.toLambda type)

namespace Serves

variable {task : Task} {machine : Machine} (serves : regime.Serves task)

include serves

theorem throw {error : Error} {post : α → Machine → Prop} (answers : error.IsAnswer) :
    regime.Runs (throw error) machine post :=
  serves.lawful.answer error answers

theorem lift {value : Except Error β} {good : β → Prop} {second : β → Run α}
    {post : α → Machine → Prop} (yields : Yields Error.IsFault value good)
    (runs : ∀ result, good result → regime.Runs (second result) machine post) :
    regime.Runs (liftM value >>= second) machine post := by
  refine ensures_bind.2 ((ensures_lift value).2 ?_)
  exact yields.mono runs fun error isFault => serves.lawful.answer error isFault.isAnswer

theorem pop (consumer : String) (live : regime.Live machine)
    (isValid : regime.Valid machine.workspace stack) :
    regime.Runs (pop stack consumer) machine fun _ _ => True := by
  refine (live.work (serves.lawful.pop machine.workspace stack live.holds isValid)).andThen
    fun _ _ live _ _ => ?_
  split
  · split
    · exact runs_get (serves.throw (by simp [Error.IsAnswer]))
    · exact runs_pure live trivial
  · exact runs_get (serves.throw (by simp [Error.IsAnswer]))

/-- The trees at hand while an instruction works on a path. -/
theorem custody {start : Workspace} {path : StackId} (isValid : regime.Valid start path) :
    (regime.custody start).Serves task path where
  lawful := (serves.lawful.custody start).restrict (fun _ isPath => isPath ▸ isValid)
    fun _ isPath => isPath ▸ isValid
  parameter node mem attends :=
    Attends.cons_iff.2 ⟨serves.parameter _ node attends.holds mem, attends⟩
  target node isTarget attends :=
    Attends.cons_iff.2 ⟨serves.target _ node attends.holds isTarget, attends⟩
  known node mem attends := Attends.cons_iff.2 ⟨serves.known _ node attends.holds mem, attends⟩
  receive attends := Attends.cons_iff.2 ⟨trivial, (Attends.cons_iff.1 attends).2⟩
  methodBody := serves.methodBody
  capturedDelegate inlines expr := by
    refine (serves.capturedDelegate inlines expr).mono ?_ fun _ => id
    intro _ _ _ node _ _ _ _ _ attends
    exact mono (serves.receiver inlines _ node.shape attends.holds)
      fun _ _ ⟨holds, leads, _⟩ => Attends.cons_iff.2 ⟨trivial, attends.next holds leads⟩
  nested inlines _ _ _ method body target type attends := by
    refine (serves.nested inlines _ method body target type attends.holds).mono ?_ fun _ => id
    rintro ⟨tree, nextNode⟩ kept
    exact mono kept fun _ _ ⟨holds, leads, isSound⟩ =>
      Attends.cons_iff.2 ⟨isSound, (Attends.append_iff.1 attends).2.next holds leads⟩

theorem forkAt (label : Label) {test : Expr} (live : regime.Live machine)
    (isValid : regime.Valid machine.workspace stack)
    (testSound : regime.Sound machine.workspace test) :
    regime.Runs (forkAt label stack test) machine fun _ _ => True := by
  refine (live.work (serves.forks machine.workspace stack test live.holds isValid
    testSound)).andThen fun branch forked live leads ⟨trueValid, falseValid⟩ => ?_
  refine runs_get ?_
  refine (live.work (serves.lawful.push _ stack _ live.holds (leads.valid _ isValid)
    (serves.lawful.sound_branch _ branch))).andThen fun _ pushed live leads _ => ?_
  have trueValid := leads.valid _ trueValid
  refine (live.park (leads.valid _ falseValid)).andThen fun _ next live leads _ => ?_
  refine runs_modify ⟨live.holds, ?_, live.waiters⟩ rfl
  rintro _ ⟨⟩
  exact leads.valid _ trueValid

/-- Every instruction keeps the machine live. -/
theorem step {event : Event} (isInstruction : event.isInstruction = true)
    (live : regime.Live machine) : regime.Runs (step task event) machine fun _ _ => True := by
  cases isCurrent : machine.current with
  | none =>
    have idle : ∀ instruction, regime.Runs (onCurrent instruction) machine fun _ _ => True := by
      intro instruction
      refine runs_get ?_
      rw [isCurrent]
      exact runs_pure live trivial
    cases event with
    | code | locals | label | finish => cases isInstruction
    | offset position => exact runs_modify ⟨live.holds, live.current, live.waiters⟩ rfl
    | _ => exact idle _
  | some path =>
    have isValid := live.current path isCurrent
    have attends := Attends.refl live.holds
    refine (serves.custody isValid).step isInstruction isCurrent attends
      (fun _ _ _ top rest found _ => ?_) fun label => ⟨?_, ?_, ?_⟩
    · exact Attends.cons_iff.2 ⟨(serves.lawful.item _ path top live.holds (by simp [found])).1, attends⟩
    · intro next attends same
      exact attends.runs ((live.follow attends same).jumpTo (attends.leads.valid _ isValid))
    · exact fun next attends same => ⟨live.follow attends same, attends.leads, trivial⟩
    · intro next test attends same
      have ⟨testSound, attends⟩ := Attends.cons_iff.1 attends
      exact attends.runs (serves.forkAt label (live.follow attends same)
        (attends.leads.valid _ isValid) testSound)

end Serves

end Regime

end CilLift
