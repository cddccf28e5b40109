import CilLift.Lift
import CilLift.Proofs.Custody.Instructions
import CilLift.Proofs.Links

/-!
Runs of a whole body: which machines they come through and which pairs of paths they try to merge.
-/

namespace CilLift

open TypeSig Ensures Instruction List Machine

namespace Event

/-- The label at which an event lets paths meet. -/
def arrival? : Event → Option Label
  | .label target => some target
  | .finish => some .finish
  | _ => none

/-- The events between the start and the end of a body. -/
def isInner (event : Event) : Bool :=
  match event with
  | .label _ => true
  | _ => event.isInstruction

theorem isInner_iff {event : Event} :
    event.isInner = true ↔ event.isInstruction = true ∨ ∃ label, event = .label label := by
  cases event <;> simp [isInner]

end Event

namespace Machine

/-- The run of the events comes to try a pair of paths at a label, in a certain workspace. -/
inductive Tries (task : Task) :
    List Event → Machine → Label → StackId → StackId → Workspace → Prop where
  | now {event : Event} {rest : List Event} {machine : Machine} {label : Label}
      {latest first second : StackId} {earlier : List StackId} {space : Workspace}
      (arrives : event.arrival? = some label)
      (waits : (machine.waiters.any fun waiter => waiter.1 == label) = true)
      (meets : (machine.meeting label).reverse = latest :: earlier)
      (tries : Work.Tries label latest earlier machine.workspace first second space) :
      Tries task (event :: rest) machine label first second space
  | later {event : Event} {rest : List Event} {machine next : Machine} {label : Label}
      {first second : StackId} {space : Workspace}
      (steps : step task event machine = .ok () next)
      (tries : Tries task rest next label first second space) :
      Tries task (event :: rest) machine label first second space

/-- The run of the events comes to perform an event on a certain machine. -/
inductive Performs (task : Task) : List Event → Machine → Event → Machine → Prop where
  | now {event : Event} {rest : List Event} {machine : Machine} :
      Performs task (event :: rest) machine event machine
  | later {event performed : Event} {rest : List Event} {machine next reached : Machine}
      (steps : step task event machine = .ok () next)
      (performs : Performs task rest next performed reached) :
      Performs task (event :: rest) machine performed reached

/-- The run of the events comes through a machine. -/
inductive Reaches (task : Task) : List Event → Machine → Machine → Prop where
  | now {events : List Event} {machine : Machine} : Reaches task events machine machine
  | later {event : Event} {rest : List Event} {machine next final : Machine}
      (steps : step task event machine = .ok () next) (reaches : Reaches task rest next final) :
      Reaches task (event :: rest) machine final

/-- The machine at the first instruction of a body: one path with unassigned locals. -/
def opening (task : Task) (types : List TypeSig) (nextNode : Nat) : Machine where
  workspace := {
    paths := [{ locals := types.mapIdx fun index type =>
      { type, name := task.options.variableStem ++ toString index } }]
    emission := {
      stem := task.options.variableStem
      nextTemporary := .ofNat types.length
      nextNode } }
  current := some 0

theorem opening_unassigned {task : Task} {types : List TypeSig} {nextNode : Nat} :
    ∀ slot ∈ (opening task types nextNode).workspace.slots, slot.content = .unassigned := by
  intro slot mem
  obtain ⟨stack, isStack, mem⟩ := mem_flatMap.1 mem
  obtain rfl := mem_singleton.1 isStack
  obtain ⟨index, inside, rfl⟩ := mem_mapIdx.1 mem
  rfl

theorem opening_items {task : Task} {types : List TypeSig} {nextNode : Nat} (id : StackId) :
    ((opening task types nextNode).workspace.stack id).items = [] := by
  match id with
  | 0 | _ + 1 => rfl

end Machine

namespace Outline

theorem linked_opening (task : Task) (types : List TypeSig) (nextNode : Nat) :
    (opening task types nextNode).workspace.outline.Linked where
  branch id branch isSide := by
    match id with
    | 0 => cases isSide
    | id + 1 => cases isSide
  fork fork mem := by cases mem
  side id branch isSide := by
    match id with
    | 0 => cases isSide
    | id + 1 => cases isSide

theorem acyclic_opening (task : Task) (types : List TypeSig) (nextNode : Nat) :
    (opening task types nextNode).workspace.outline.Acyclic := by
  intro id
  match id with
  | 0 => exact .root rfl
  | id + 1 => exact .root rfl

end Outline

theorem Instruction.event_isInstruction {resolver : Resolver} {context : Instantiation}
    {instruction : Instruction} {event : Event}
    (isEvent : instruction.event resolver context = .ok (some event)) :
    event.isInstruction = true := by
  unfold Instruction.event at isEvent
  dsimp only at isEvent
  split at isEvent
  case h_1 | h_2 => cases isEvent
  case h_3 | h_4 =>
    cases isEvent
    rfl
  case h_5 | h_6 | h_7 =>
    obtain ⟨_, -, isEvent⟩ := bind_eq_ok.1 isEvent
    cases isEvent
    rfl
  all_goals
    obtain ⟨_, -, isEvent⟩ := bind_eq_ok.1 isEvent
    obtain ⟨_, -, isEvent⟩ := bind_eq_ok.1 isEvent
    cases isEvent
    rfl

namespace Trace

theorem announce_isInner {labels : List Nat} {offset : Nat} {event : Event}
    (mem : event ∈ announce labels offset) : event.isInner = true := by
  unfold announce at mem
  split at mem
  · rw [mem_singleton] at mem
    rw [mem]
    rfl
  · cases mem

variable (resolver : Resolver)

/-- The instructions give inner events, and the end of the code comes last or never. -/
theorem readFrom_shape (context : Instantiation) (labels : List Nat)
    (cursor : Cursor) (limit : Nat) :
    ∃ inner : List Event, (∀ event ∈ inner, event.isInner = true) ∧
      (readFrom resolver context labels cursor limit = ⟨inner ++ [.finish], none⟩ ∨
        ∃ error, readFrom resolver context labels cursor limit = ⟨inner, some error⟩) := by
  induction limit generalizing labels cursor with
  | zero => exact ⟨_, fun _ => announce_isInner, .inl rfl⟩
  | succ limit ih =>
    rw [readFrom]
    split
    · split
      · rename_i error _ _
        exact ⟨[], by simp, .inr ⟨error, rfl⟩⟩
      · rename_i instruction next _
        have headInner : ∀ event ∈ announce labels instruction.offset ++
            [.offset instruction.offset], event.isInner = true := by
          simp only [mem_append, mem_singleton]
          rintro event (mem | rfl)
          · exact announce_isInner mem
          · rfl
        split
        · rename_i error _
          exact ⟨_, headInner, .inr ⟨error, rfl⟩⟩
        · rename_i event read
          obtain ⟨inner, innerInner, shape⟩ := ih
            (instruction.jumpOffset?.toList ++ labels.filter (· != instruction.offset)) next
          refine ⟨announce labels instruction.offset ++ [.offset instruction.offset] ++
            event.toList ++ inner, ?_, ?_⟩
          · intro found mem
            rcases mem_append.1 mem with mem | mem
            · rcases mem_append.1 mem with mem | mem
              · exact headInner found mem
              · have isEvent : event = some found := by simpa using mem
                rw [isEvent] at read
                exact Event.isInner_iff.2 (.inl (event_isInstruction read))
            · exact innerInner found mem
          · rcases shape with shape | ⟨error, shape⟩
            · exact .inl (by simp [shape, prepend])
            · exact .inr ⟨error, by simp [shape, prepend]⟩
    · exact ⟨_, fun _ => announce_isInner, .inl rfl⟩

/-- A body starts with its locals, and its end comes last or never. -/
theorem ofBody_shape (context : Instantiation) (body : MethodBody) :
    ∃ inner : List Event, (∀ event ∈ inner, event.isInner = true) ∧ (ofBody resolver context body =
          ⟨.code :: .locals body.maxStack (body.locals.map (instantiate context)) ::
            (inner ++ [.finish]), none⟩ ∨
        ∃ error, ofBody resolver context body =
          ⟨.code :: .locals body.maxStack (body.locals.map (instantiate context)) :: inner,
            some error⟩) := by
  obtain ⟨inner, innerInner, shape⟩ := readFrom_shape resolver context [] { data := body.code }
    body.code.length
  refine ⟨inner, innerInner, ?_⟩
  unfold ofBody
  rcases shape with shape | ⟨error, shape⟩
  · exact .inl (by simp [shape, prepend])
  · exact .inr ⟨error, by simp [shape, prepend]⟩

theorem ofBody_events (context : Instantiation) (body : MethodBody) :
    ∃ events, (ofBody resolver context body).events =
        .code :: .locals body.maxStack (body.locals.map (instantiate context)) :: events ∧
      ∀ event ∈ events, event.isInner = true ∨ event = .finish := by
  obtain ⟨inner, innerInner, shape | ⟨error, shape⟩⟩ := ofBody_shape resolver context body
  · refine ⟨inner ++ [.finish], by rw [shape], ?_⟩
    simp only [mem_append, mem_singleton]
    rintro event (mem | rfl)
    · exact .inl (innerInner event mem)
    · exact .inr rfl
  · exact ⟨inner, by rw [shape], fun event mem => .inl (innerInner event mem)⟩

end Trace

namespace Machine

variable {task : Task} {events : List Event} {types : List TypeSig} {maxStack nextNode : Nat}

theorem forM_append {items rest : List Event} {body : Event → Run Unit} :
    (items ++ rest).forM body = items.forM body >>= fun _ => rest.forM body := by
  induction items with
  | nil => rfl
  | cons item items ih =>
    change (body item >>= fun _ => (items ++ rest).forM body) =
      (body item >>= fun _ => items.forM body) >>= fun _ => rest.forM body
    rw [ih, bind_assoc]

theorem tries_iff_opening {label : Label} {first second : StackId} {space : Workspace} :
    Tries task (.code :: .locals maxStack types :: events)
        (.initial nextNode) label first second space ↔
      Tries task events (opening task types nextNode) label first second space := by
  constructor
  · intro tries
    cases tries with
    | now arrives => cases arrives
    | later steps tries =>
      cases steps
      cases tries with
      | now arrives => cases arrives
      | later steps tries =>
        cases steps
        exact tries
  · intro tries
    exact .later rfl (.later rfl tries)

theorem reaches_opening {final : Machine}
    (reaches : Reaches task (.code :: .locals maxStack types :: events) (.initial nextNode) final) :
    final = .initial nextNode ∨ Reaches task events (opening task types nextNode) final := by
  cases reaches with
  | now => exact .inl rfl
  | later steps reaches =>
    cases steps
    cases reaches with
    | now => exact .inl rfl
    | later steps reaches =>
      cases steps
      exact .inr reaches

/-- A completed run has joined what waited at the end, and the last path has completed the
statements. -/
theorem finish_eq_ok {machine final : Machine} (finished : finish task machine = .ok () final) :
    ∃ arrived stack emission, arriveAt .finish machine = .ok () arrived ∧
      arrived.current = some stack ∧
      (∀ waiter ∈ arrived.waiters, (arrived.workspace.stack waiter.2).isReduced = true) ∧
      arrived.workspace.emission.complete (arrived.workspace.stack stack).items.reverse
        task.returnType task.options.inlineTrailing = .ok emission ∧
      final = { arrived with workspace := { arrived.workspace with emission } } := by
  obtain ⟨⟨⟩, arrived, arrives, finished⟩ := andThen_eq_ok.1 finished
  obtain ⟨_, _, ⟨⟩, finished⟩ := andThen_eq_ok.1 finished
  cases noneLost : arrived.waiters.find? fun waiter =>
      !(arrived.workspace.stack waiter.2).isReduced with
  | some waiter =>
    simp only [noneLost] at finished
    cases finished
  | none =>
    cases isCurrent : arrived.current with
    | none =>
      simp only [noneLost, isCurrent] at finished
      cases finished
    | some stack =>
      simp only [noneLost, isCurrent] at finished
      obtain ⟨emission, _, completed, finished⟩ := andThen_eq_ok.1 finished
      obtain ⟨completes, rfl⟩ := liftM_eq_ok.1 completed
      cases finished
      refine ⟨arrived, stack, emission, arrives, isCurrent, fun waiter mem => ?_, completes, rfl⟩
      simpa using find?_eq_none.1 noneLost waiter mem

end Machine

namespace Lifter

/-- The machine that comes to the first instruction of a body. -/
abbrev opening (lifter : Lifter) (task : Task) (nextNode : Nat) (body : MethodBody) : Machine :=
  .opening task (body.locals.map (instantiate lifter.context)) nextNode

/-- The run of a body comes to try a pair of paths at a label, in a certain workspace. -/
def Tries (lifter : Lifter) (task : Task) (nextNode : Nat) (body : MethodBody) :
    Label → StackId → StackId → Workspace → Prop :=
  Machine.Tries task (lifter.trace body).events (.initial nextNode)

variable {lifter : Lifter} {body : MethodBody}

theorem tries_iff {task : Task} {nextNode : Nat}
    {events : List Event} {label : Label} {first second : StackId} {space : Workspace}
    (isBody : (lifter.trace body).events =
      .code :: .locals body.maxStack (body.locals.map (instantiate lifter.context)) :: events) :
    lifter.Tries task nextNode body label first second space ↔ Machine.Tries task events
      (lifter.opening task nextNode body) label first second space := by
  unfold Tries
  rw [isBody]
  exact tries_iff_opening

/-- A completed run of a body has passed its inner events and its end. -/
theorem runBody_eq_ok {machine : Machine}
    (completed : lifter.runBody task nextNode body = .ok () machine) :
    ∃ inner passed, (∀ event ∈ inner, event.isInner = true) ∧
      lifter.trace body =
        ⟨.code :: .locals body.maxStack (body.locals.map (instantiate lifter.context)) ::
          (inner ++ [.finish]), none⟩ ∧
      inner.forM (step task) (lifter.opening task nextNode body) = .ok () passed ∧
      finish task passed = .ok () machine := by
  obtain ⟨⟨⟩, ended, steps, completed⟩ := andThen_eq_ok.1 completed
  obtain ⟨inner, isInner, shape | ⟨error, shape⟩⟩ :=
    Trace.ofBody_shape lifter.resolver lifter.context body
  · rw [trace, shape] at steps completed
    cases completed
    change (inner ++ [Event.finish]).forM (step task) (lifter.opening task nextNode body) =
      .ok () machine at steps
    rw [forM_append] at steps
    obtain ⟨⟨⟩, passed, steps, finished⟩ := andThen_eq_ok.1 steps
    obtain ⟨⟨⟩, _, finished, ⟨⟩⟩ := andThen_eq_ok.1 finished
    exact ⟨inner, passed, isInner, shape, steps, finished⟩
  · rw [trace, shape] at completed
    cases completed

theorem prepare_fields {nextNode after : Nat} {method : Method}
    {target : Option Expr} {arguments : List Expr} {task : Task} {liftNested : NestedLift}
    (prepared : lifter.prepare nextNode method target arguments liftNested = .ok (task, after)) :
    nextNode ≤ after ∧ task.resolver = lifter.resolver ∧ task.options = lifter.options ∧
      task.returnType = method.returnType.instantiate lifter.context ∧
      task.liftNested = liftNested ∧ task.arguments.length = arguments.length := by
  obtain ⟨parameters, -, prepared⟩ := bind_eq_ok.1 prepared
  cases prepared
  exact ⟨le_trans (Expr.placeAll_le _ _) (Expr.placeReceiver_le _ _), rfl, rfl, rfl, rfl, length_map ..⟩

/-- The task of lifting a method by itself, and its first free identity. -/
def rootTask (lifter : Lifter) (method : Method) : Except Error (Task × Nat) :=
  lifter.prepare 0 method none [] fun nextNode method body target =>
    lifter.liftFrom (lifter.nesting - 1) nextNode method body target []

theorem placeGiven_nothing : placeGiven none [] = (none, [], 0) := rfl

/-- Lifting runs the body on the task of the method. -/
theorem lift_eq (lifter : Lifter) (method : Method) (body : MethodBody) :
    lifter.lift method body = if lifter.nesting = 0 then .error .nestingLimit else do
        let (task, nextNode) ← lifter.rootTask method
        match lifter.runBody task nextNode body with
        | .error error _ => .error error
        | .ok _ machine => return treeOf task machine := by
  unfold lift liftBound
  simp only [placeGiven_nothing]
  cases nesting : lifter.nesting with
  | zero => rfl
  | succ depth =>
    rw [liftFrom, rootTask, nesting, Nat.add_sub_cancel]
    cases lifter.prepare 0 method none [] _ with
    | error error => rfl
    | ok prepared =>
      dsimp only [bind, Except.bind]
      cases lifter.runBody prepared.1 prepared.2 body <;> rfl

theorem lift_eq_ok {method : Method} {tree : MethodTree}
    (lifted : lifter.lift method body = .ok tree) :
    ∃ task nextNode machine, lifter.rootTask method = .ok (task, nextNode) ∧
      lifter.runBody task nextNode body = .ok () machine ∧ tree = treeOf task machine := by
  rw [lift_eq] at lifted
  split at lifted
  · cases lifted
  · obtain ⟨⟨task, nextNode⟩, prepared, lifted⟩ := bind_eq_ok.1 lifted
    dsimp only at lifted
    split at lifted
    · cases lifted
    · rename_i machine run
      cases lifted
      exact ⟨task, nextNode, machine, prepared, run, rfl⟩

end Lifter

namespace Machine

/-- The path that is followed, and those that wait. -/
def active (machine : Machine) : List StackId :=
  machine.current.toList ++ machine.waiters.map Prod.snd

/-- The paths that meet at a label and those that go on waiting were active. -/
theorem meeting_subperm (machine : Machine) (label : Label) :
    (machine.meeting label ++
      (machine.waiters.filter fun waiter => waiter.1 != label).map Prod.snd).Subperm
      machine.active := by
  have chosen : (machine.waiters.filterMap fun waiter =>
      if waiter.1 == label && !(machine.workspace.stack waiter.2).isReduced then some waiter.2
      else none).Sublist
      ((machine.waiters.filter fun waiter => !(waiter.1 != label)).map Prod.snd) := by
    generalize machine.waiters = waiters
    induction waiters with
    | nil => exact .slnil
    | cons waiter rest ih =>
      by_cases atLabel : waiter.1 = label
      · by_cases isReduced : (machine.workspace.stack waiter.2).isReduced = true
        · simpa [atLabel, isReduced] using ih.cons waiter.2
        · simpa [atLabel, isReduced] using ih.cons_cons waiter.2
      · simpa [atLabel] using ih
  have split : (((machine.waiters.filter fun waiter => !(waiter.1 != label)).map Prod.snd) ++
      ((machine.waiters.filter fun waiter => waiter.1 != label).map Prod.snd)).Perm
      (machine.waiters.map Prod.snd) := by
    rw [← map_append]
    exact (perm_append_comm.trans (filter_append_perm _ _)).map _
  unfold meeting active
  rw [append_assoc]
  refine (perm_append_comm_assoc _ _ _).subperm.trans ((subperm_append_left _).2 ?_)
  refine List.Subperm.trans (List.Sublist.subperm (chosen.append (List.Sublist.refl _))) ?_
  exact split.subperm

theorem onCurrent_idle {machine : Machine} (instruction : StackId → Run Unit)
    (isCurrent : machine.current = none) : onCurrent instruction machine = .ok () machine :=
  andThen_eq_ok.2 ⟨machine, machine, rfl, by rw [isCurrent]; rfl⟩

theorem step_idle {machine : Machine} {event : Event} (task : Task)
    (isInstruction : event.isInstruction = true) (isCurrent : machine.current = none) :
    ∃ offset, step task event machine = .ok () { machine with offset } := by
  cases event with
  | code | locals | label | finish => cases isInstruction
  | offset position => exact ⟨position, rfl⟩
  | plain | literal | access | jump | field | method | type =>
    exact ⟨machine.offset, onCurrent_idle _ isCurrent⟩

theorem ensures_work_of_eq {α : Type} {tolerates : Error → Prop} {machine : Machine} {step : Work α}
    {result : α} {next : Workspace} {post : α → Machine → Prop}
    (outcome : step machine.workspace = .ok result next)
    (reached : post result { machine with workspace := next }) :
    Ensures tolerates (work step) machine post := by
  unfold Ensures work
  rw [outcome]
  exact reached

/-- A fork leaves the path with a placeholder; its true side is followed and its false side waits. -/
theorem ensures_forkAt {tolerates : Error → Prop} {machine : Machine} {label : Label}
    {path : StackId} {test : Expr} {post : Machine → Prop} (pushed : Ensures tolerates
      (Work.push path (.mkBranch machine.workspace.forks.length))
      (Workspace.forked (machine.workspace.placing test) path (machine.workspace.emission.place test).1)
      fun _ next => post { machine with
        workspace := next
        current := some machine.workspace.paths.length
        waiters := machine.waiters ++ [(label, machine.workspace.paths.length + 1)] }) :
    Ensures tolerates (forkAt label path test) machine fun _ final => post final := by
  refine ensures_bind.2 (ensures_work_of_eq (Workspace.newFork_eq ..) ?_)
  refine ensures_bind.2 (ensures_get.2 ?_)
  have isFork := Workspace.fork_forked (machine.workspace.placing test) path
    (machine.workspace.emission.place test).1
  rw [isFork]
  refine ensures_bind.2 ?_
  unfold Ensures at pushed
  unfold Ensures push work
  split at pushed
  · rename_i outcome
    rw [outcome]
    exact pushed
  · rename_i outcome
    rw [outcome]
    exact pushed

section Keeps

variable {tolerates : Error → Prop} {holds : Workspace → List StackId → Prop} {machine : Machine}
  (answer : ∀ error, Error.IsAnswer error → tolerates error)
  (fewer : ∀ space ids other, List.Subperm other ids → holds space ids → holds space other)

include answer fewer

/-- Where paths meet, only pairs are tried that an invariant of the active paths holds of. -/
theorem meeting_keeps {label : Label} {latest first second : StackId} {earlier : List StackId}
    {space : Workspace} (meets : (machine.meeting label).reverse = latest :: earlier)
    (tries : Work.Tries label latest earlier machine.workspace first second space)
    (pairs : ∀ first second next,
      Work.Tries label latest earlier machine.workspace first second next →
      Work.Merges tolerates holds label first second next)
    (held : holds machine.workspace machine.active) :
    ∃ aside, holds space (second :: first :: aside) := by
  have apart := fewer _ _ _ (machine.meeting_subperm label) held
  have reversed : (latest :: earlier).Perm (machine.meeting label) := meets ▸ reverse_perm _
  exact tries.keeps answer (fun space _ _ same => fewer space _ _ same.symm.subperm) pairs
    (fewer _ _ _ (reversed.append_right _).subperm apart)

/-- Where paths meet, an invariant of the active paths is kept if every pair that is tried keeps
it. -/
theorem arriveAt_keeps (label : Label) (pairs : ∀ latest earlier first second space,
      (machine.waiters.any fun waiter => waiter.1 == label) = true →
      (machine.meeting label).reverse = latest :: earlier →
      Work.Tries label latest earlier machine.workspace first second space →
      Work.Merges tolerates holds label first second space)
    (held : holds machine.workspace machine.active) :
    Ensures tolerates (arriveAt label) machine fun _ next =>
      holds next.workspace next.active := by
  refine ensures_bind.2 (ensures_get.2 ?_)
  split
  · rename_i waits
    have apart := fewer _ _ _ (machine.meeting_subperm label) held
    refine ensures_bind.2 ((ensures_set _).2 ?_)
    split
    · rename_i nobody
      rw [nobody] at apart
      exact apart
    · have joined := Work.join_keeps answer (fun space _ _ same => fewer space _ _
        same.symm.subperm) (fun latest rest first second next reversed tries =>
          pairs latest rest first second next waits reversed tries) apart
      refine andThen (Custody.ensures_work joined) ?_
      rintro joined next ⟨held, same⟩
      refine (ensures_modify _).2 ?_
      rw [same.waiters]
      exact held
  · exact held

/-- The inner events of a body keep an invariant of the active paths if its instructions do and every
pair that is tried keeps it. -/
theorem run_keeps (isInner : ∀ event ∈ events, event.isInner = true)
    (instructions : ∀ event reached path, Performs task events machine event reached →
      event.isInstruction = true → reached.current = some path →
      holds reached.workspace reached.active →
      Ensures tolerates (step task event) reached fun _ next => holds next.workspace next.active)
    (pairs : ∀ label first second space, Tries task events machine label first second space →
      Work.Merges tolerates holds label first second space)
    (held : holds machine.workspace machine.active) :
    Ensures tolerates (events.forM (step task)) machine fun _ next =>
      holds next.workspace next.active := by
  induction events generalizing machine with
  | nil => exact held
  | cons event rest ih =>
    have stepped : Ensures tolerates (step task event) machine fun _ next =>
        holds next.workspace next.active := by
      rcases Event.isInner_iff.1 (isInner event (by simp)) with isInstruction | ⟨label, rfl⟩
      · cases isCurrent : machine.current with
        | some path => exact instructions event machine path .now isInstruction isCurrent held
        | none =>
          obtain ⟨offset, idles⟩ := step_idle task isInstruction isCurrent
          unfold Ensures
          rw [idles]
          exact held
      · exact arriveAt_keeps answer fewer label (fun latest earlier first second space
          waits meets tries => pairs label first second space (.now rfl waits meets tries)) held
    refine ensures_bind.2 (mono (withOutcome stepped) ?_)
    rintro ⟨⟩ next ⟨outcome, held⟩
    exact ih (fun event mem => isInner event (by simp [mem]))
      (fun event reached path performs => instructions event reached path (.later outcome performs))
      (fun label first second space tries =>
        pairs label first second space (.later outcome tries)) held

end Keeps

namespace Performs

variable {event : Event} {machine reached : Machine}

theorem append (rest : List Event) (performs : Performs task events machine event reached) :
    Performs task (events ++ rest) machine event reached := by
  induction performs with
  | now => exact .now
  | later steps _ ih => exact .later steps ih

theorem mem (performs : Performs task events machine event reached) : event ∈ events := by
  induction performs with
  | now => exact mem_cons_self
  | later _ _ ih => exact mem_cons_of_mem _ ih

theorem of_append {rest : List Event}
    (performs : Performs task (events ++ rest) machine event reached) :
    Performs task events machine event reached ∨ event ∈ rest := by
  induction events generalizing machine with
  | nil => exact .inr performs.mem
  | cons first others ih =>
    cases performs with
    | now => exact .inl .now
    | later steps performs => exact (ih performs).imp_left (.later steps)

theorem reaches (performs : Performs task events machine event reached) :
    Reaches task events machine reached := by
  induction performs with
  | now => exact .now
  | later steps _ ih => exact .later steps ih

theorem exists_rest {passed : Machine} (performs : Performs task events machine event reached)
    (steps : events.forM (step task) machine = .ok () passed) :
    ∃ next rest, step task event reached = .ok () next ∧
      rest.forM (step task) next = .ok () passed ∧ rest ⊆ events := by
  induction performs with
  | now =>
    obtain ⟨⟨⟩, next, step, steps⟩ := andThen_eq_ok.1 steps
    exact ⟨next, _, step, steps, subset_cons_self ..⟩
  | later step _ ih =>
    obtain ⟨⟨⟩, next, step', steps⟩ := andThen_eq_ok.1 steps
    cases step.symm.trans step'
    obtain ⟨next, rest, step, steps, isLater⟩ := ih steps
    exact ⟨next, rest, step, steps, subset_cons_of_subset _ isLater⟩

end Performs

end Machine

namespace Lifter

/-- A run of a body that comes to its end: the machine that has passed the inner events, the one in
which the last paths have met, and what becomes of the statements on the path left. -/
structure Passage (lifter : Lifter) (task : Task) (nextNode : Nat) (body : MethodBody)
    (machine : Machine) where
  inner : List Event
  passed : Machine
  arrived : Machine
  stack : StackId
  emission : Emission
  isInner : ∀ event ∈ inner, event.isInner = true
  isBody : lifter.trace body =
    ⟨.code :: .locals body.maxStack (body.locals.map (instantiate lifter.context)) ::
      (inner ++ [.finish]), none⟩
  steps : inner.forM (step task) (lifter.opening task nextNode body) = .ok () passed
  arrives : arriveAt .finish passed = .ok () arrived
  isCurrent : arrived.current = some stack
  completes : arrived.workspace.emission.complete (arrived.workspace.stack stack).items.reverse
    task.returnType task.options.inlineTrailing = .ok emission
  isMachine : machine = { arrived with workspace := { arrived.workspace with emission } }

variable {lifter : Lifter} {body : MethodBody} {machine : Machine}

theorem exists_passage (completed : lifter.runBody task nextNode body = .ok () machine) :
    Nonempty (lifter.Passage task nextNode body machine) := by
  obtain ⟨inner, passed, isInner, isBody, steps, finished⟩ := runBody_eq_ok completed
  obtain ⟨arrived, stack, emission, arrives, isCurrent, -, completes, isMachine⟩ :=
    finish_eq_ok finished
  exact ⟨⟨inner, passed, arrived, stack, emission, isInner, isBody, steps, arrives, isCurrent,
    completes, isMachine⟩⟩

namespace Passage

variable (passage : lifter.Passage task nextNode body machine)

theorem isActive : passage.stack ∈ passage.arrived.active := by
  rw [active, passage.isCurrent]
  exact mem_cons_self

theorem performs {event : Event} {reached : Machine}
    (performs : Machine.Performs task passage.inner (lifter.opening task nextNode body) event reached) :
    Machine.Performs task (lifter.trace body).events (.initial nextNode) event reached := by
  rw [passage.isBody]
  exact .later rfl (.later rfl (performs.append [.finish]))

theorem performed {event : Event} {reached : Machine} (isInstruction : event.isInstruction = true)
    (performs : Machine.Performs task (lifter.trace body).events (.initial nextNode) event reached) :
    Machine.Performs task passage.inner (lifter.opening task nextNode body) event reached := by
  rw [passage.isBody] at performs
  cases performs with
  | now => cases isInstruction
  | later steps performs =>
    cases steps
    cases performs with
    | now => cases isInstruction
    | later steps performs =>
      cases steps
      refine performs.of_append.resolve_right fun isEnd => ?_
      obtain rfl := mem_singleton.1 isEnd
      cases isInstruction

/-- Where the last paths have met, every invariant of the active paths holds that instructions and
merges keep. -/
theorem keeps {tolerates : Error → Prop} {holds : Workspace → List StackId → Prop}
    (answer : ∀ error, Error.IsAnswer error → tolerates error)
    (fewer : ∀ space ids other, List.Subperm other ids → holds space ids →
      holds space other) (instructions : ∀ event reached path,
      Machine.Performs task (lifter.trace body).events (.initial nextNode) event reached →
      event.isInstruction = true → reached.current = some path →
      holds reached.workspace reached.active →
      Ensures tolerates (step task event) reached fun _ next =>
        holds next.workspace next.active)
    (merges : ∀ label first second space, Work.Merges tolerates holds label first second space)
    (held : holds (lifter.opening task nextNode body).workspace [0]) :
    holds passage.arrived.workspace passage.arrived.active := by
  have passedHolds := (run_keeps answer fewer passage.isInner
    (fun event reached path performs => instructions event reached path (passage.performs performs))
    (fun label first second space _ => merges label first second space) held).of_ok
    passage.steps
  exact (arriveAt_keeps answer fewer .finish
    (fun _ _ first second space _ _ _ => merges .finish first second space)
    passedHolds).of_ok passage.arrives

end Passage

end Lifter

/-! What the examples use. -/

/-- A lifter that knows no members. -/
def Lifter.withoutMembers : Lifter := { resolver := ({} : MetadataTables).resolver }

/-- A static method that takes arguments of one type and returns an integer. -/
def Method.taking (type : TypeSig) (names : List String) : Method where
  token := ⟨0x06000001⟩
  name := "T"
  parameters := names.map fun name => { name, type }
  returnType := .int32
  flags := { isStatic := true }

end CilLift
