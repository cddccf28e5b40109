import CilLift.Proofs.Acyclicity
import CilLift.Proofs.Faults
import CilLift.Proofs.Regime.Execution

/-!
Which runs of a body never climb for ever. The links of all workspaces that a run comes through are
free of cycles exactly when no merge of the run moves a path under a fork that it is above of.
-/

namespace CilLift

open Machine Work Workspace Trace Outline

/-- The resolver names every token or fails with an answer. -/
def Resolver.Answers (resolver : Resolver) : Prop :=
  ∀ token context, Yields Error.IsAnswer (resolver.resolve token context) fun _ => True

theorem Trace.failure_isAnswer {resolver : Resolver} (answers : resolver.Answers)
    {context : Instantiation} {body : MethodBody} {error : Error}
    (failed : (ofBody resolver context body).failure = some error) : error.IsAnswer := by
  refine failure_tolerated (fun error isOfCode => ?_) (fun token => answers token context) failed
  rintro rfl
  exact isOfCode

namespace Outline

variable {task : Task} {tolerates : Error → Prop}

/-- The links are complete and free of cycles. -/
def Sane (outline : Outline) : Prop := outline.Linked ∧ outline.Acyclic

/-- The instructions of a task keep every property of the links that new forks keep. -/
theorem regime_serves {admits : Outline → Prop}
    (answers : ∀ error, Error.IsAnswer error → tolerates error)
    (follows : task.options.inlineDelegates = true → ∀ error, tolerates error)
    (linked : ∀ outline, admits outline → outline.Linked)
    (admitted : ∀ outline parent, admits outline → parent < outline.parents.length →
      admits (outline.addFork parent)) : (regime admits tolerates).Serves task := by
  have framed := regime_framed answers linked
  have patient : task.options.inlineDelegates = true → ∀ {α : Type} (value : Except Error α)
      (post : α → Prop), (∀ result, post result) → Yields tolerates value post := by
    intro inlines α value post done
    cases value with
    | ok result => exact done result
    | error error => exact follows inlines error
  exact {
    lawful := framed.lawful
    forks := regime_forks answers admitted
    parameter := fun _ _ _ _ => trivial
    target := fun _ _ _ _ => trivial
    known := fun _ _ _ _ => trivial
    methodBody := fun inlines method => patient inlines _ _ fun _ => trivial
    capturedDelegate := fun inlines expr => patient inlines _ _ fun _ => trivial
    receiver := fun _ space expr holds =>
      framed.keeps holds (framed.framing.place expr) fun _ _ => trivial
    nested := fun inlines space method body target type holds =>
      patient inlines _ _ fun _ => ⟨holds, framed.leads rfl, trivial⟩ }

/-- Every merge leaves the links complete. -/
theorem linked_joins : (regime Linked fun _ => True).Joins where
  toLawful := (regime_framed (fun _ _ => trivial) fun _ => id).lawful
  reforks := by
    intro space parent test onTrue onFalse linked parentValid trueValid falseValid _
    refine ((outline_refork parent test onTrue onFalse).forgive fun _ _ => trivial).mono ?_
    intro _ next grafted
    have sameLength : next.paths.length = space.paths.length := by
      rw [← length_outline, grafted, ← length_outline]
      simp [regraft]
    refine ⟨?_, ⟨fun _ => id, fun _ => id, fun id inside => ?_⟩, trivial⟩
    · change next.outline.Linked
      have inside : ∀ id, (regime Linked fun _ => True).Valid space id →
          id < space.outline.parents.length := fun id isValid => by
        rw [length_outline]
        exact isValid
      rw [grafted]
      exact Linked.regraft linked (inside _ parentValid) (inside _ trueValid) (inside _ falseValid)
    · change id < next.paths.length
      rwa [sameLength]
  climbs _ _ _ _ := trivial

/-- A merge that closes no loop leaves the links sane. -/
theorem merges_sane (answers : ∀ error, Error.IsAnswer error → tolerates error)
    {label : Label} {first second : StackId} {space : Workspace}
    (opens : ∀ joined next, joinPair label first second space = .ok joined next →
      ¬space.ClosesLoop first second) :
    (regime Sane tolerates).Merges label first second space := by
  rintro ⟨linked, acyclic⟩ firstInside secondInside
  have climbs : ∀ id, id = first ∨ id = second → space.depth? id = none → tolerates .cyclicForks := by
    intro id _ missing
    have found := (depth?_isSome_iff id).2 (acyclic id)
    rw [missing] at found
    cases found
  have merged := outline_joinPair linked label firstInside secondInside answers climbs
  refine Ensures.intro (fun joined next merge => ?_) fun error next => merged.of_error
  obtain ⟨linked', leads, valid⟩ :=
    (linked_joins.merges label first second linked firstInside secondInside).of_ok merge
  have acyclic' := (acyclic_joinPair linked acyclic firstInside secondInside merge).2
    (opens joined next merge)
  exact ⟨⟨linked', acyclic'⟩, ⟨fun _ => id, fun _ => id, leads.valid⟩, valid⟩

end Outline

namespace Lifter

/-- The workspaces that the run of a body comes through: between its events, and before and after
each merge of two paths. -/
inductive Visits (lifter : Lifter) (task : Task) (nextNode : Nat) (body : MethodBody) :
    Workspace → Prop where
  | between {machine : Machine}
      (reaches : Machine.Reaches task (lifter.trace body).events (.initial nextNode) machine) :
      Visits lifter task nextNode body machine.workspace
  | before {label : Label} {first second : StackId} {space : Workspace}
      (tries : lifter.Tries task nextNode body label first second space) :
      Visits lifter task nextNode body space
  | after {label : Label} {first second : StackId} {joined : Option StackId}
      {space next : Workspace}
      (tries : lifter.Tries task nextNode body label first second space)
      (merge : joinPair label first second space = .ok joined next) :
      Visits lifter task nextNode body next

/-- None of the merges of a run moves a path under a fork that it is above of. -/
def MergesOpen (lifter : Lifter) (task : Task) (nextNode : Nat) (body : MethodBody) : Prop :=
  ∀ label first second space joined next, lifter.Tries task nextNode body label first second space →
    joinPair label first second space = .ok joined next →
    ¬space.ClosesLoop first second

variable {lifter : Lifter} {task : Task} {nextNode : Nat} {body : MethodBody}

/-- A property of the links that holds at first and that the merges of a run keep holds in every
workspace that the run comes through. -/
theorem links_kept {admits : Outline → Prop} (linked : ∀ outline, admits outline → outline.Linked)
    (forked : ∀ outline parent, admits outline → parent < outline.parents.length →
      admits (outline.addFork parent))
    (starts : ∀ types, admits (Machine.opening task types nextNode).workspace.outline)
    (pairs : ∀ label first second space, lifter.Tries task nextNode body label first second space →
      (regime admits fun _ => True).Merges label first second space) :
    (∀ machine, Reaches task (lifter.trace body).events (.initial nextNode) machine →
      machine = .initial nextNode ∨ admits machine.workspace.outline) ∧
    ∀ label first second space, lifter.Tries task nextNode body label first second space →
      admits space.outline ∧ first < space.paths.length ∧ second < space.paths.length := by
  have serves : (regime admits fun _ => True).Serves task :=
    regime_serves (fun _ _ => trivial) (fun _ _ => trivial) linked forked
  have free : (regime admits fun _ => True).Free := fun space emission holds _ =>
    ⟨holds, (regime_framed (fun _ _ => trivial) linked).leads rfl, trivial⟩
  have live : (regime admits fun _ => True).Live (lifter.opening task nextNode body) :=
    ⟨starts _, by rintro _ ⟨⟩; exact zero_lt_one, by rintro _ ⟨⟩⟩
  exact ⟨fun machine reaches => (serves.body_reaches free live pairs reaches).imp_right (·.holds),
    fun label first second space => serves.body_tries free live pairs⟩

theorem links_linked (lifter : Lifter) (task : Task) (nextNode : Nat) (body : MethodBody)
    {label : Label} {first second : StackId} {space : Workspace}
    (tries : lifter.Tries task nextNode body label first second space) :
    space.outline.Linked ∧ first < space.paths.length ∧ second < space.paths.length :=
  (links_kept (fun _ => id) (fun _ _ linked inside => linked.addFork inside)
    (fun types => linked_opening task types nextNode)
    fun label first second _ _ => linked_joins.merges label first second).2
    label first second space tries

theorem acyclic_empty (emission : Emission) : (outline { emission }).Acyclic := fun _ => .root rfl

/-- If no merge closes a loop, the links are sane wherever a pair is tried. -/
theorem links_sane (opens : lifter.MergesOpen task nextNode body) :
    (∀ machine, Reaches task (lifter.trace body).events (.initial nextNode) machine →
      machine = .initial nextNode ∨ machine.workspace.outline.Sane) ∧
    ∀ label first second space, lifter.Tries task nextNode body label first second space →
      space.outline.Sane ∧ first < space.paths.length ∧ second < space.paths.length :=
  links_kept (fun _ sane => sane.1)
    (fun _ _ sane inside => ⟨sane.1.addFork inside, sane.2.addFork sane.1 inside⟩)
    (fun types => ⟨linked_opening task types nextNode, acyclic_opening task types nextNode⟩)
    fun label first second space tries => merges_sane (fun _ _ => trivial)
      fun joined next => opens label first second space joined next tries

/-- The links are free of cycles in every workspace that a run comes through exactly when none of its
merges moves a path under a fork that it is above of. -/
theorem links_acyclic_iff (lifter : Lifter) (task : Task) (nextNode : Nat) (body : MethodBody) :
    (∀ space, lifter.Visits task nextNode body space → space.outline.Acyclic) ↔
      lifter.MergesOpen task nextNode body := by
  constructor
  · intro acyclic label first second space joined next tries merge
    obtain ⟨linked, firstInside, secondInside⟩ := links_linked lifter task nextNode body tries
    exact (acyclic_joinPair linked (acyclic space (.before tries)) firstInside
      secondInside merge).1 (acyclic next (.after tries merge))
  · intro opens space visits
    obtain ⟨between, before⟩ := links_sane opens
    cases visits with
    | between reaches =>
      rcases between _ reaches with rfl | sane
      · exact acyclic_empty _
      · exact sane.2
    | before tries => exact (before _ _ _ _ tries).1.2
    | after tries merge =>
      obtain ⟨sane, firstInside, secondInside⟩ := before _ _ _ _ tries
      exact (acyclic_joinPair sane.1 sane.2 firstInside secondInside merge).2
        (opens _ _ _ _ _ _ tries merge)

/-- A run that visits no cycle of links ends with an answer. -/
theorem runBody_answers (answers : lifter.resolver.Answers)
    (alone : task.options.inlineDelegates = false) (opens : lifter.MergesOpen task nextNode body)
    {error : Error} {machine : Machine}
    (failed : lifter.runBody task nextNode body = .error error machine) : error.IsAnswer := by
  have serves : (regime Sane Error.IsAnswer).Serves task :=
    regime_serves (fun _ => id) (by simp [alone]) (fun _ sane => sane.1)
      fun _ _ sane inside => ⟨sane.1.addFork inside, sane.2.addFork sane.1 inside⟩
  have free : (regime Sane Error.IsAnswer).Free := fun space emission holds _ =>
    ⟨holds, (regime_framed (fun _ => id) fun _ sane => sane.1).leads rfl, trivial⟩
  have live : (regime Sane Error.IsAnswer).Live (lifter.opening task nextNode body) :=
    ⟨⟨linked_opening _ _ _, acyclic_opening _ _ _⟩, by rintro _ ⟨⟩; exact zero_lt_one, by rintro _ ⟨⟩⟩
  obtain ⟨events, isBody, allows⟩ := Regime.allows_body free live
    fun label first second space tries => merges_sane (fun _ => id)
      fun joined next => opens label first second space joined next tries
  have whole : Ensures Error.IsAnswer (runTrace task (lifter.trace body))
      (.initial nextNode) fun _ _ => True := by
    refine ensures_bind.2 ?_
    rw [isBody]
    change Ensures Error.IsAnswer (events.forM (step task)) (lifter.opening task nextNode body) _
    refine Ensures.mono (serves.run allows) fun _ next _ => ?_
    cases failed : (lifter.trace body).failure with
    | some error => exact failure_isAnswer answers failed
    | none => trivial
  exact whole.of_error failed

theorem rootTask_answers (lifter : Lifter) (method : Method) :
    Yields Error.IsAnswer (lifter.rootTask method) fun prepared =>
      prepared.1.options = lifter.options := by
  refine Yields.andThen (?_ : Yields Error.IsAnswer (lifter.parameterNodes method) fun _ => True)
    fun _ _ => rfl
  unfold parameterNodes
  generalize (if method.isStatic = true then 0 else 1) = firstSlot
  dsimp only
  split
  · simp [Error.IsAnswer]
  · trivial

/-- Lifting a method whose merges open no loop ends with a tree or an answer, where delegates are not
followed. -/
theorem lift_answers {method : Method} (answers : lifter.resolver.Answers)
    (alone : lifter.options.inlineDelegates = false)
    (opens : ∀ task nextNode, lifter.rootTask method = .ok (task, nextNode) →
      lifter.MergesOpen task nextNode body) :
    Yields Error.IsAnswer (lifter.lift method body) fun _ => True := by
  rw [lift_eq]
  split
  · simp [Error.IsAnswer]
  · have prepares := rootTask_answers lifter method
    cases prepared : lifter.rootTask method with
    | error error =>
      rw [prepared] at prepares
      exact prepares
    | ok root =>
      obtain ⟨task, nextNode⟩ := root
      rw [prepared] at prepares
      have sameOptions : task.options = lifter.options := prepares
      dsimp only [bind, Except.bind]
      split
      · rename_i failed
        exact runBody_answers answers (by rw [sameOptions, alone]) (opens task nextNode prepared) failed
      · trivial

theorem exists_cycle {method : Method} (answers : lifter.resolver.Answers)
    (alone : lifter.options.inlineDelegates = false)
    (stalled : lifter.lift method body = .error .cyclicForks) :
    ∃ task nextNode space, lifter.rootTask method = .ok (task, nextNode) ∧
      lifter.Visits task nextNode body space ∧ ¬space.outline.Acyclic := by
  by_contra none
  have ends := lift_answers answers alone fun task nextNode prepared =>
    (links_acyclic_iff lifter task nextNode body).1 fun space visits =>
      by_contra fun cyclic => none ⟨task, nextNode, space, prepared, visits, cyclic⟩
  rw [stalled] at ends
  exact ends rfl

/-- Climbing from a path over its forks ends in every workspace that a run comes through exactly when
no merge of the run moves a path under a fork that it is above of. Then every depth that a merge asks
for exists, and lifting a method ends with a tree or an answer where delegates are not followed. -/
theorem climbs_end_iff (lifter : Lifter) (task : Task) (nextNode : Nat) (body : MethodBody) :
    ((∀ space, lifter.Visits task nextNode body space → space.outline.Acyclic) ↔
      lifter.MergesOpen task nextNode body) ∧
    (lifter.MergesOpen task nextNode body → (∀ label first second space,
        lifter.Tries task nextNode body label first second space →
        (space.depth? first).isSome = true ∧ (space.depth? second).isSome = true) ∧
      ∀ method, lifter.rootTask method = .ok (task, nextNode) →
        lifter.options.inlineDelegates = false → lifter.resolver.Answers →
        lifter.lift method body ≠ .error .cyclicForks) := by
  refine ⟨links_acyclic_iff lifter task nextNode body, fun opens => ⟨?_, ?_⟩⟩
  · intro label first second space tries
    have acyclic := ((links_sane opens).2 label first second space tries).1.2
    exact ⟨(depth?_isSome_iff first).2 (acyclic first), (depth?_isSome_iff second).2 (acyclic second)⟩
  · intro method prepared alone answers stalled
    have ends : Yields Error.IsAnswer (lifter.lift method body) fun _ => True := by
      refine lift_answers answers alone fun task nextNode isRoot => ?_
      rw [prepared] at isRoot
      cases isRoot
      exact opens
    rw [stalled] at ends
    exact ends rfl

/-- A method of conditions, without delegates to follow. -/
def conditionsOnly : Lifter where
  resolver := ({} : MetadataTables).resolver
  options := { inlineDelegates := false }

/-- Jumps on `a`, `b`, `c` and `d` that cross each other at three labels. -/
def crossingJumps : MethodBody where
  code := [0x02, 0x2d, 0x10, 0x03, 0x2d, 0x05, 0x04, 0x2d, 0x08, 0x2b, 0x0d, 0x03, 0x2d, 0x0b, 0x04,
    0x2d, 0x02, 0x2b, 0x02, 0x2b, 0x04, 0x05, 0x2d, 0x01, 0x00, 0x18, 0x2a]

theorem answers_conditionsOnly : conditionsOnly.resolver.Answers := by
  intro token context
  simp [conditionsOnly, MetadataTables.resolver, MetadataTables.resolve, Error.IsAnswer]

theorem stalled_of_map {result : Except Error MethodTree}
    (stalled : (result.map fun _ => ()) = .error .cyclicForks) : result = .error .cyclicForks := by
  cases result with
  | ok tree => cases stalled
  | error error => simpa [Except.map] using stalled

/-- Crossing jumps close a loop: a path becomes its own parent, and the next merge climbs for ever. -/
theorem climb_without_end :
    conditionsOnly.lift (.taking .bool ["a", "b", "c", "d"]) crossingJumps = .error .cyclicForks ∧
      ∃ task nextNode space,
        conditionsOnly.rootTask (.taking .bool ["a", "b", "c", "d"]) = .ok (task, nextNode) ∧
        conditionsOnly.Visits task nextNode crossingJumps space ∧
        ¬space.outline.Acyclic := by
  have stalled : conditionsOnly.lift (.taking .bool ["a", "b", "c", "d"]) crossingJumps =
      .error .cyclicForks :=
    stalled_of_map (by decide +kernel)
  exact ⟨stalled, exists_cycle answers_conditionsOnly rfl stalled⟩

end Lifter

end CilLift
