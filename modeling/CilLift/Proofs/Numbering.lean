import CilLift.Proofs.Frames
import CilLift.Proofs.Regime.Execution

/-!
A lifting only adds to what it has emitted: it hands out identities from a first one on, also where it
follows delegates, and statements stay until the end.
-/

namespace CilLift

open List CilLift.Expr Regime

variable {task : Task}

/-- The delegates of a task go on from the identities that they are given. -/
def Task.Numbers (task : Task) : Prop :=
  ∀ nextNode method body target,
    Yields (fun _ => True) (task.liftNested nextNode method body target) fun (_, after) =>
      nextNode ≤ after

namespace Regime

/-- Everything emitted at the start is still there. -/
def growing (start : Emission) : Regime where
  Holds space := start.Grows space.emission
  Sound _ _ := True
  Produced _ _ := True
  Valid _ _ := True
  Tolerates _ := True

theorem framing_emission :
    Workspace.Framing fun before after => before.emission.Grows after.emission where
  refl _ := .refl _
  trans := .trans
  emission _ _ := id
  stack _ _ _ _ := .refl _

variable {start : Emission}

theorem growing_framed : (growing start).Framed fun before after =>
    before.emission.Grows after.emission where
  framing := framing_emission
  sound _ _ := trivial
  produced _ _ := trivial
  answer _ _ := trivial
  holds grown holds := holds.trans grown
  valid _ _ _ := trivial
  above _ _ _ _ _ := ⟨trivial, trivial, trivial⟩

theorem growing_joins : (growing start).Joins where
  toLawful := growing_framed.lawful
  reforks space _ test _ _ holds _ _ _ _ := by
    have placed := space.emission.grows_place test
    exact ⟨holds.trans placed, growing_framed.leads placed, trivial⟩
  climbs _ _ _ _ := trivial

theorem growing_serves (numbers : task.Numbers) : (growing start).Serves task where
  lawful := growing_framed.lawful
  forks space _ test holds _ _ := by
    have placed := space.emission.grows_place test
    exact ⟨holds.trans placed, growing_framed.leads placed, trivial, trivial⟩
  parameter _ _ _ _ := trivial
  target _ _ _ _ := trivial
  known _ _ _ _ := trivial
  methodBody _ method := by
    cases task.resolver.methodBody method <;> trivial
  capturedDelegate _ expr := by
    cases task.resolver.capturedDelegate expr <;> trivial
  receiver _ _ expr holds :=
    growing_framed.keeps holds (framing_emission.place expr) fun _ _ => trivial
  nested _ space method body target _ holds := by
    refine (numbers space.emission.nextNode method body target).mono (fun result grown => ?_) fun _ => id
    have grows : space.emission.Grows { space.emission with nextNode := result.2 } :=
      ⟨grown, prefix_refl _⟩
    exact ⟨holds.trans grows, growing_framed.leads grows, trivial⟩

end Regime

namespace Lifter

variable {lifter : Lifter}

theorem runBody_nextNode {nextNode : Nat} {body : MethodBody} {machine : Machine}
    (numbers : task.Numbers) (completed : lifter.runBody task nextNode body = .ok () machine) :
    nextNode ≤ machine.workspace.emission.nextNode := by
  have live : (growing { nextNode }).Live (lifter.opening task nextNode body) :=
    ⟨⟨le_refl nextNode, nil_prefix⟩, fun _ _ => trivial, fun _ _ => trivial⟩
  obtain ⟨arrived, stack, emission, holds, -, completes, rfl⟩ :=
    (growing_serves numbers).runBody growing_joins live completed
  exact le_trans holds.nextNode ((Emission.complete_faults _ _ _ _).of_ok completes)

/-- The symbols of a task are placed parameters, and the receiver that is given. -/
theorem prepare_symbols {nextNode after : Nat} {method : Method} {target : Option Expr}
    {arguments : List Expr} {liftNested : NestedLift}
    (prepared : lifter.prepare nextNode method target arguments liftNested = .ok (task, after)) :
    ∃ nodes : List Expr, (∀ node ∈ nodes, (∃ slot name type, node = .mkParameter slot name type) ∨
        target = some node) ∧
      task.parameters ++ task.target.toList = (placeAll nextNode nodes).1 ∧
      after = (placeAll nextNode nodes).2 := by
  obtain ⟨parameters, isParameters, prepared⟩ := bind_eq_ok.1 prepared
  cases prepared
  refine ⟨parameters ++ (lifter.receiverNode method target).toList, fun node mem => ?_, ?_⟩
  · rcases mem_append.1 mem with mem | mem
    · unfold parameterNodes at isParameters
      generalize (if method.isStatic then 0 else 1) = firstSlot at isParameters
      dsimp only at isParameters
      split at isParameters
      · cases isParameters
      · cases isParameters
        obtain ⟨index, inside, rfl⟩ := mem_mapIdx.1 mem
        exact .inl ⟨_, _, _, rfl⟩
    · unfold receiverNode at mem
      split at mem
      · cases mem
      · rw [Option.toList_some, mem_singleton] at mem
        cases target with
        | none => exact .inl ⟨_, _, _, mem⟩
        | some given => exact .inr (congrArg some mem.symm)
  · rw [placeAll_append]
    obtain ⟨sameReceiver, sameNext⟩ := placeReceiver_toList
      (placeAll nextNode parameters).2 (lifter.receiverNode method target)
    exact ⟨congrArg _ sameReceiver, sameNext⟩

/-- A lifting goes on from the identity that it is given, however deeply delegates are nested. -/
theorem liftFrom_nextNode (lifter : Lifter) (depth : Nat) (arguments : List Expr) :
    ∀ nextNode method body target,
      Yields (fun _ => True) (lifter.liftFrom depth nextNode method body target arguments)
        fun (_, after) => nextNode ≤ after := by
  induction depth generalizing arguments with
  | zero => exact fun _ _ _ _ => trivial
  | succ depth ih =>
    intro nextNode method body target
    unfold liftFrom
    cases prepared : lifter.prepare nextNode method target arguments
        fun nextNode method body target => lifter.liftFrom depth nextNode method body target [] with
    | error error => trivial
    | ok pair =>
      obtain ⟨task, start⟩ := pair
      obtain ⟨grown, -, -, -, isNested, -⟩ := prepare_fields prepared
      have numbers : task.Numbers := by
        unfold Task.Numbers
        rw [isNested]
        exact ih []
      dsimp only [bind, Except.bind]
      cases completed : lifter.runBody task start body with
      | error error machine => trivial
      | ok _ machine => exact le_trans grown (runBody_nextNode numbers completed)

end Lifter

end CilLift
