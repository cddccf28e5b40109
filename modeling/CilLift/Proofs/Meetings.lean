import CilLift.Proofs.Placeholders
import CilLift.Proofs.Termination

/-!
What holds where two paths of a run meet. An invariant of the active paths that instructions and
merges keep holds of every pair that the run tries, beside the paths that are not joined yet.
-/

namespace CilLift

open List CilLift.Expr Machine Trace

variable {events : List Event} {machine : Machine} {method : Method}

section Keeps

variable {holds : Workspace → List StackId → Prop} {label : Label} {first second : StackId}
  {space next : Workspace}

/-- A run tries only pairs of paths that the invariant holds of. -/
theorem Machine.Tries.keeps {task : Task}
    (fewer : ∀ space ids other, Subperm other ids → holds space ids →
      holds space other) (instructions : ∀ event reached path, event.isInstruction = true →
      reached.current = some path → holds reached.workspace reached.active →
      Ensures (fun _ => True) (step task event) reached fun _ next =>
        holds next.workspace next.active) (merges : ∀ label first second space,
      Work.Merges (fun _ => True) holds label first second space)
    (isInner : ∀ event ∈ events.dropLast, event.isInner = true)
    (tries : Tries task events machine label first second space)
    (held : holds machine.workspace machine.active) :
    ∃ aside, holds space (second :: first :: aside) := by
  induction tries with
  | now _ _ meets tries =>
    exact meeting_keeps (fun _ _ => trivial) fewer meets tries
      (fun first second next _ => merges _ first second next) held
  | @later event rest machine next _ _ _ _ steps tries ih =>
    -- The last event is followed by no pair.
    have isRest : (event :: rest).dropLast = event :: rest.dropLast := by
      cases tries <;> rfl
    rw [isRest] at isInner
    have stepped : Ensures (fun _ => True) ([event].forM (step task)) machine fun _ next =>
        holds next.workspace next.active :=
      run_keeps (fun _ _ => trivial) fewer (by simpa using isInner event mem_cons_self)
        (fun event reached path _ => instructions event reached path)
        (fun label first second space _ => merges label first second space) held
    exact ih (fun event mem => isInner event (mem_cons_of_mem _ mem))
      (stepped.of_ok (andThen_eq_ok.2 ⟨(), next, steps, rfl⟩))

end Keeps

/-- A run tries two paths that meet where it arrives. -/
theorem Machine.Tries.of_run {task : Task} {reached : Machine} {label : Label}
    {first latest : StackId} {count : Nat}
    (steps : (events.take count).forM (step task) machine = .ok () reached)
    (arrives : events[count]?.bind Event.arrival? = some label)
    (waits : (reached.waiters.any fun waiter => waiter.1 == label) = true)
    (meets : reached.meeting label = [first, latest]) :
    Tries task events machine label first latest reached.workspace := by
  induction events generalizing machine count with
  | nil => cases arrives
  | cons event rest ih =>
    cases count with
    | zero =>
      cases steps
      exact .now arrives waits (congrArg reverse meets) .latest
    | succ count =>
      obtain ⟨⟨⟩, next, stepped, steps⟩ := andThen_eq_ok.1 steps
      exact .later stepped (ih steps arrives)

theorem Workspace.Guarded.run {task : Task} {start : Nat} {origin : Atlas} {visited : Machine}
    (accepts : clearance.Accepts task start origin)
    (isInner : ∀ event ∈ events, event.isInner = true)
    (guarded : machine.workspace.Guarded start origin machine.active)
    (passes : events.forM (Machine.step task) machine = .ok () visited) :
    visited.workspace.Guarded start origin visited.active :=
  (run_keeps (fun _ _ => trivial : ∀ error, Error.IsAnswer error → True)
    (fun _ _ _ included guarded => guarded.fewer included) isInner
    (fun _ _ _ _ isInstruction isCurrent => instruction accepts isInstruction isCurrent)
    (fun label first second _ _ => merges label first second) guarded).of_ok passes

/-- The delegates that a resolver knows run on objects without placeholders. -/
def Resolver.CapturesClear (resolver : Resolver) : Prop :=
  ∀ expr delegate node, resolver.capturedDelegate expr = .ok (some delegate) →
    delegate.target = some node → node.Clear

namespace Lifter

/-- The task is that of lifting some method, by itself or as a delegate, on a receiver and arguments
without placeholders. -/
def Undertakes (lifter : Lifter) (task : Task) (nextNode : Nat) : Prop :=
  ∃ depth start method target arguments, lifter.prepare start method target arguments
      (fun nextNode method body target => lifter.liftFrom depth nextNode method body target []) =
        .ok (task, nextNode) ∧
    ∀ node, target = some node ∨ node ∈ arguments → node.Clear

variable {lifter : Lifter} {task : Task} {nextNode : Nat} {body : MethodBody}

theorem undertakes_rootTask (prepared : lifter.rootTask method = .ok (task, nextNode)) :
    lifter.Undertakes task nextNode :=
  ⟨lifter.nesting - 1, 0, method, none, [], prepared, by simp⟩

/-- The symbols of the task are free of placeholders. -/
theorem Undertakes.accepts (undertakes : lifter.Undertakes task nextNode)
    (captures : lifter.resolver.CapturesClear) (origin : Atlas) :
    clearance.Accepts task nextNode origin := by
  obtain ⟨depth, start, method, target, arguments, prepared, given⟩ := undertakes
  obtain ⟨-, sameResolver, -, -, isNested, -⟩ := prepare_fields prepared
  obtain ⟨nodes, areNodes, placed, -⟩ := prepare_symbols prepared
  have shapes : clearance.Captures lifter.resolver :=
    fun expr delegate node captured isTarget _ _ =>
      (captures expr delegate node captured isTarget).shape
  have clear : ∀ node ∈ nodes, node.Clear := by
    intro node mem
    rcases areNodes node mem with ⟨slot, name, type, rfl⟩ | isTarget
    · exact clear_iff.2 ⟨rfl, by simp [mkParameter, parts, children]⟩
    · exact given node (.inl isTarget)
  have ofSymbol : ∀ node ∈ task.parameters ++ task.target.toList, node.Clear := by
    rw [placed]
    intro node mem
    obtain ⟨original, isOriginal, next, -, -, rfl⟩ :=
      exists_original (placedIn_placeAll start nodes) mem
    exact (clear original isOriginal).place next
  refine ⟨fun node isSymbol => ?_, fun _ => rfl, fun _ => sameResolver ▸ shapes, fun _ => ?_⟩
  · refine Scale.weight_unwatched rfl ?_
    rcases isSymbol with isParameter | isTarget | isArgument
    · exact ofSymbol node (mem_append_left _ isParameter)
    · exact ofSymbol node (mem_append_right _ (by simp [isTarget]))
    · obtain ⟨_, -, isTask⟩ := bind_eq_ok.1 prepared
      cases isTask
      obtain ⟨argument, isGiven, found⟩ := mem_map.1 isArgument
      split at found
      · cases found
      · cases found
        exact given node (.inr isGiven)
  · rw [isNested]
    exact Scale.liftFrom_admits fair_clearance rfl (settled_clearance lifter) shapes depth

theorem exists_events (lifter : Lifter) (body : MethodBody) :
    ∃ events, (lifter.trace body).events =
        .code :: .locals body.maxStack (body.locals.map (TypeSig.instantiate lifter.context)) :: events ∧
      ∀ event ∈ events.dropLast, event.isInner = true := by
  obtain ⟨inner, isInner, shape | ⟨error, shape⟩⟩ :=
    ofBody_shape lifter.resolver lifter.context body
  · refine ⟨inner ++ [.finish], by rw [trace, shape], ?_⟩
    rwa [dropLast_concat]
  · exact ⟨inner, by rw [trace, shape], fun event mem =>
      isInner event (mem_of_mem_dropLast mem)⟩

/-- Where a run tries two paths, they and the paths aside are guarded. -/
theorem guarded_of_tries (captures : lifter.resolver.CapturesClear)
    (undertakes : lifter.Undertakes task nextNode) {label : Label} {first second : StackId}
    {space : Workspace} (tries : lifter.Tries task nextNode body label first second space) :
    ∃ origin aside, space.Guarded nextNode origin (second :: first :: aside) := by
  obtain ⟨events, isBody, isInner⟩ := exists_events lifter body
  let origin : Atlas := fun _ => .boolean true
  exact ⟨origin, Tries.keeps (fun _ _ _ included guarded => guarded.fewer included)
    (fun event reached path => Workspace.Guarded.instruction (undertakes.accepts captures origin))
    (fun label first second _ => Workspace.Guarded.merges label first second) isInner
    ((tries_iff isBody).1 tries) Workspace.guarded_opening⟩

/-- The machine after the first events of a method that is lifted by itself. -/
def machineAfter (lifter : Lifter) (method : Method) (body : MethodBody) (count : Nat) :
    Except Error Machine := do
  let (task, nextNode) ← lifter.rootTask method
  let events := (lifter.trace body).events
  let start : Machine := (.initial nextNode)
  match (events.take count).forM (step task) start with
  | .ok _ machine => return machine
  | .error error _ => throw error

theorem machineAfter_eq_ok {count : Nat}
    (reached : lifter.machineAfter method body count = .ok machine) :
    ∃ task nextNode, lifter.rootTask method = .ok (task, nextNode) ∧
      ((lifter.trace body).events.take count).forM (step task) (.initial nextNode) = .ok () machine := by
  obtain ⟨⟨task, nextNode⟩, prepared, reached⟩ := bind_eq_ok.1 reached
  dsimp only at reached
  split at reached
  · rename_i steps
    cases reached
    exact ⟨task, nextNode, prepared, steps⟩
  · cases reached

/-- A machine at which just two paths meet at a label is seen to merge them. -/
def seesMerge (label : Label) (first second joined : StackId)
    (observed : Workspace → Workspace → Prop) [DecidableRel observed] (machine : Machine) : Bool :=
  machine.meeting label == [first, second] &&
    (machine.waiters.any fun waiter => waiter.1 == label) &&
    gives (Work.joinPair label first second) machine.workspace (some joined) (observed machine.workspace)

/-- A run that is seen to merge two paths tries them. -/
theorem exists_merge {label : Label} {first second joined : StackId}
    {observed : Workspace → Workspace → Prop} [DecidableRel observed] (count : Nat)
    (arrives : (lifter.trace body).events[count]?.bind
      Event.arrival? = some label) (seen : (lifter.machineAfter method body count).map
      (seesMerge label first second joined observed) = .ok true) :
    ∃ task nextNode space next, lifter.rootTask method = .ok (task, nextNode) ∧
      lifter.Tries task nextNode body label first second space ∧
      Work.joinPair label first second space = .ok (some joined) next ∧
      observed space next := by
  obtain ⟨machine, reached, seen⟩ := exists_of_map seen
  obtain ⟨task, nextNode, prepared, steps⟩ := machineAfter_eq_ok reached
  simp only [seesMerge, Bool.and_eq_true, beq_iff_eq] at seen
  obtain ⟨⟨meets, waits⟩, merges⟩ := seen
  have tries : lifter.Tries task nextNode body label first second machine.workspace :=
    .of_run steps arrives waits meets
  obtain ⟨next, merge, isObserved⟩ := exists_of_gives merges
  exact ⟨task, nextNode, machine.workspace, next, prepared, tries, merge, isObserved⟩

end Lifter

end CilLift
