import CilLift.Proofs.Execution
import CilLift.Proofs.Regime.Instructions

/-! What the run of a body keeps from the first event to the last. -/

namespace CilLift

open List Machine Trace Ensures

namespace Regime

variable {regime : Regime} {machine : Machine}

theorem sustains_active {start : Workspace} :
    regime.Sustains start machine.workspace machine.active ↔
      regime.Live machine ∧ regime.Leads start machine.workspace := by
  simp only [Sustains, active, mem_append, Option.mem_toList, mem_map]
  constructor
  · rintro ⟨holds, leads, valid⟩
    exact ⟨⟨holds, fun id isCurrent => valid id (.inl isCurrent),
      fun waiter mem => valid _ (.inr ⟨waiter, mem, rfl⟩)⟩, leads⟩
  · rintro ⟨live, leads⟩
    refine ⟨live.holds, leads, ?_⟩
    rintro id (isCurrent | ⟨waiter, mem, rfl⟩)
    · exact live.current id isCurrent
    · exact live.waiters waiter mem

theorem Live.meeting (label : Label) (live : regime.Live machine) :
    ∀ id ∈ machine.meeting label, regime.Valid machine.workspace id := fun id mem =>
  (sustains_active.2 ⟨live, .refl _⟩).2.2 id
    ((machine.meeting_subperm label).subset (mem_append_left _ mem))

/-- Where paths meet, the machine stays live if every pair that is tried keeps the invariant. -/
theorem Lawful.arriveAt (lawful : regime.Lawful) (label : Label) (live : regime.Live machine)
    (pairs : ∀ latest earlier first second space,
      (machine.waiters.any fun waiter => waiter.1 == label) = true →
      (machine.meeting label).reverse = latest :: earlier →
      Work.Tries label latest earlier machine.workspace first second space →
      regime.Merges label first second space) :
    regime.Runs (arriveAt label) machine fun _ _ => True := by
  have arrived := arriveAt_keeps lawful.answer (fun _ _ _ fewer sustains =>
    sustains.fewer fewer) label (fun latest earlier first second space waits meets tries =>
      (pairs latest earlier first second space waits meets tries).sustains)
    (sustains_active.2 ⟨live, .refl machine.workspace⟩)
  refine mono arrived fun _ next sustains => ?_
  obtain ⟨live, leads⟩ := sustains_active.1 sustains
  exact ⟨live, leads, trivial⟩

/-- The invariant says nothing about what has been produced, but for how many nodes. -/
def Free (regime : Regime) : Prop :=
  ∀ space emission, regime.Holds space → space.emission.nextNode ≤ emission.nextNode →
    regime.Keeps (Work.emit fun _ => ((), emission)) space fun _ _ => True

/-- The events that keep the machine live: the inner ones, and also the last one if its putting in
order of the statements does not matter. -/
def Takes (regime : Regime) (event : Event) : Prop :=
  event.isInner = true ∨ event = .finish ∧ regime.Free

/-- The machine is live and stays so through the events, as every pair that is tried keeps the
invariant. -/
structure Allows (regime : Regime) (task : Task) (events : List Event) (machine : Machine) :
    Prop where
  takes : ∀ event ∈ events, regime.Takes event
  live : regime.Live machine
  pairs : ∀ label first second space, Machine.Tries task events machine label first second space →
    regime.Merges label first second space

namespace Serves

variable {task : Task} {events : List Event} (serves : regime.Serves task)

include serves

/-- An allowed event keeps the regime. -/
theorem event {event : Event} (allows : regime.Allows task (event :: events) machine) :
    regime.Runs (Machine.step task event) machine fun _ _ => True := by
  have pairs (label : Label) (arrives : event.arrival? = some label)
      (latest : StackId) (earlier : List StackId) (first second : StackId) (space : Workspace)
      (waits : (machine.waiters.any fun waiter => waiter.1 == label) = true)
      (meets : (machine.meeting label).reverse = latest :: earlier)
      (tries : Work.Tries label latest earlier machine.workspace first second space) :=
    allows.pairs label first second space (.now arrives waits meets tries)
  rcases allows.takes event mem_cons_self with isInner | ⟨rfl, free⟩
  · rcases Event.isInner_iff.1 isInner with isInstruction | ⟨label, rfl⟩
    · exact serves.step isInstruction allows.live
    · exact serves.lawful.arriveAt label allows.live (pairs label rfl)
  · refine (serves.lawful.arriveAt .finish allows.live (pairs .finish rfl)).andThen
      fun _ arrived live _ _ => ?_
    refine runs_get ?_
    dsimp only
    split
    · exact serves.throw (by simp [Error.IsAnswer])
    · exact serves.throw (by simp [Error.IsAnswer])
    · refine serves.lift (Emission.complete_faults _ _ _ _) fun emission grown => ?_
      exact live.work (free arrived.workspace emission live.holds grown)

theorem later {event : Event} {next : Machine}
    (allows : regime.Allows task (event :: events) machine)
    (steps : Machine.step task event machine = .ok () next) : regime.Allows task events next where
  takes event mem := allows.takes event (mem_cons_of_mem _ mem)
  live := ((serves.event allows).of_ok steps).1
  pairs label first second space tries := allows.pairs label first second space (.later steps tries)

theorem run (allows : regime.Allows task events machine) :
    regime.Runs (events.forM (Machine.step task)) machine fun _ _ => True := by
  induction events generalizing machine with
  | nil => exact runs_pure allows.live trivial
  | cons event rest ih =>
    refine ensures_bind.2 (mono (withOutcome (serves.event allows)) ?_)
    rintro ⟨⟩ next ⟨outcome, -, leads, -⟩
    refine mono (ih (serves.later allows outcome)) ?_
    rintro _ _ ⟨live, led, -⟩
    exact ⟨live, leads.trans led, trivial⟩

/-- The invariant holds wherever a body comes to try a pair, and the pair may be worked on. -/
theorem tries {label : Label} {first second : StackId} {space : Workspace}
    (tries : Tries task events machine label first second space)
    (allows : regime.Allows task events machine) :
    regime.Holds space ∧ regime.Valid space first ∧ regime.Valid space second := by
  induction tries with
  | now arrives waits meets tries =>
    obtain ⟨_, holds, -, valid⟩ := meeting_keeps serves.lawful.answer
      (fun _ _ _ fewer sustains => sustains.fewer fewer) meets tries (fun first second next tries =>
        (allows.pairs _ first second next (.now arrives waits meets tries)).sustains)
      (sustains_active.2 ⟨allows.live, .refl _⟩)
    exact ⟨holds, valid _ (by simp), valid _ (by simp)⟩
  | later steps _ ih => exact ih (serves.later allows steps)

theorem reaches {final : Machine} (reaches : Reaches task events machine final)
    (allows : regime.Allows task events machine) : regime.Live final := by
  induction reaches with
  | now => exact allows.live
  | later steps _ ih => exact ih (serves.later allows steps)

end Serves

section Body

variable {task : Task} {lifter : Lifter} {nextNode : Nat} {body : MethodBody}

section Pairs

variable (free : regime.Free) (live : regime.Live (lifter.opening task nextNode body))
  (pairs : ∀ label first second space, lifter.Tries task nextNode body label first second space →
    regime.Merges label first second space)

include free live pairs

theorem allows_body :
    ∃ events, (lifter.trace body).events =
        .code :: .locals body.maxStack (body.locals.map (TypeSig.instantiate lifter.context)) :: events ∧
      regime.Allows task events (lifter.opening task nextNode body) := by
  obtain ⟨events, isBody, known⟩ := ofBody_events lifter.resolver lifter.context body
  exact ⟨events, isBody, fun event mem => (known event mem).imp_right (⟨·, free⟩), live,
    fun label first second space tries =>
      pairs label first second space ((Lifter.tries_iff isBody).2 tries)⟩

theorem Serves.body_tries {label : Label} {first second : StackId} {space : Workspace}
    (serves : regime.Serves task)
    (tries : lifter.Tries task nextNode body label first second space) :
    regime.Holds space ∧ regime.Valid space first ∧ regime.Valid space second := by
  obtain ⟨events, isBody, allows⟩ := allows_body free live pairs
  exact serves.tries ((Lifter.tries_iff isBody).1 tries) allows

theorem Serves.body_reaches (serves : regime.Serves task)
    (reaches : Reaches task (lifter.trace body).events (.initial nextNode) machine) :
    machine = .initial nextNode ∨ regime.Live machine := by
  obtain ⟨events, isBody, allows⟩ := allows_body free live pairs
  rw [isBody] at reaches
  exact (reaches_opening reaches).imp_right fun reaches => serves.reaches reaches allows

end Pairs

theorem Serves.passage (serves : regime.Serves task) (joins : regime.Joins)
    (live : regime.Live (lifter.opening task nextNode body))
    (passage : lifter.Passage task nextNode body machine) : regime.Live passage.arrived := by
  have passedLive := ((serves.run ⟨fun event mem => .inl (passage.isInner event mem), live,
    fun label first second _ _ => joins.merges label first second⟩).of_ok passage.steps).1
  exact ((serves.lawful.arriveAt .finish passedLive
    fun _ _ first second _ _ _ _ => joins.merges .finish first second).of_ok passage.arrives).1

/-- A completed body has completed its statements from a workspace in which the invariant holds. -/
theorem Serves.runBody (serves : regime.Serves task) (joins : regime.Joins)
    (live : regime.Live (lifter.opening task nextNode body))
    (completed : lifter.runBody task nextNode body = .ok () machine) :
    ∃ (arrived : Machine) (stack : StackId) (emission : Emission),
      regime.Holds arrived.workspace ∧ arrived.current = some stack ∧
      arrived.workspace.emission.complete (arrived.workspace.stack stack).items.reverse
        task.returnType task.options.inlineTrailing = .ok emission ∧
      machine = { arrived with workspace := { arrived.workspace with emission } } := by
  obtain ⟨passage⟩ := Lifter.exists_passage completed
  exact ⟨passage.arrived, passage.stack, passage.emission, (serves.passage joins live passage).holds,
    passage.isCurrent, passage.completes, passage.isMachine⟩

end Body

end Regime

end CilLift
