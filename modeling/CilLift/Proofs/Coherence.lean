import CilLift.Proofs.Balance.Copies
import CilLift.Proofs.Balance.Nesting

/-!
One identity, one tree: a node that has an identity looks the same wherever it stands, since what is
on record below a node is never built anew.
-/

namespace CilLift

open List CilLift.Expr Nat

variable {origin : Atlas}

namespace Expr

/-- Every placed node of the tree is the one on record, and everything below it is placed. -/
def Coherent (next : Nat) (atlas : Atlas) (expr : Expr) : Prop :=
  ∀ node ∈ expr.nodes, ∀ identity, node.id? = some identity →
    identity < next ∧ atlas identity = node ∧ ∀ inner ∈ node.nodes, inner.id?.isSome = true

variable {next later : Nat} {atlas wider : Atlas} {expr : Expr}

namespace Coherent

theorem mono (grown : next ≤ later) (agrees : Atlas.AgreesBelow next atlas wider)
    (coherent : expr.Coherent next atlas) : expr.Coherent later wider := by
  intro node mem identity isPlaced
  obtain ⟨below, onRecord, whole⟩ := coherent node mem identity isPlaced
  exact ⟨lt_of_lt_of_le below grown, (agrees identity below).trans onRecord, whole⟩

theorem part (coherent : expr.Coherent next atlas) : ∀ part ∈ expr.parts, part.Coherent next atlas :=
  fun part isPart node mem => coherent node (mem_nodes_iff.2 (.inr ⟨part, isPart, mem⟩))

theorem build (unplaced : expr.id? = none)
    (parts : ∀ part ∈ expr.parts, part.Coherent next atlas) : expr.Coherent next atlas := by
  intro node mem identity isPlaced
  rcases mem_nodes_iff.1 mem with rfl | ⟨part, isPart, mem⟩
  · cases unplaced.symm.trans isPlaced
  · exact parts part isPart node mem identity isPlaced

theorem whole (coherent : expr.Coherent next atlas) (isPlaced : expr.id?.isSome = true) :
    ∀ node ∈ expr.nodes, node.id?.isSome = true := by
  obtain ⟨identity, isPlaced⟩ := Option.isSome_iff_exists.1 isPlaced
  exact (coherent expr (mem_nodes_iff.2 (.inl rfl)) identity isPlaced).2.2

theorem unique {other : Expr} (coherent : expr.Coherent next atlas)
    (coherent' : other.Coherent next atlas) (same : isSame expr other = true) : expr = other := by
  unfold isSame at same
  rw [Bool.and_eq_true, beq_iff_eq] at same
  obtain ⟨identity, isPlaced⟩ := Option.isSome_iff_exists.1 same.1
  have onRecord := coherent expr (mem_nodes_iff.2 (.inl rfl)) identity isPlaced
  have onRecord' := coherent' other (mem_nodes_iff.2 (.inl rfl)) identity (same.2 ▸ isPlaced)
  exact onRecord.2.1.symm.trans onRecord'.2.1

/-- A new root over placed parts goes on record. -/
theorem root {identity : Nat} (isPlaced : expr.id? = some identity)
    (parts : ∀ part ∈ expr.parts, part.Coherent identity atlas ∧ part.id?.isSome = true) :
    expr.Coherent (identity + 1) (Function.update atlas identity expr) := by
  have agrees : Atlas.AgreesBelow identity atlas (Function.update atlas identity expr) :=
    fun other below => Function.update_of_ne (Nat.ne_of_lt below) ..
  intro node mem other isOther
  rcases mem_nodes_iff.1 mem with rfl | ⟨part, isPart, mem⟩
  · cases isPlaced.symm.trans isOther
    refine ⟨lt_succ_self identity, Function.update_self .., fun inner isInner => ?_⟩
    rcases mem_nodes_iff.1 isInner with rfl | ⟨part, isPart, isInner⟩
    · rw [isPlaced]
      rfl
    · exact (parts part isPart).1.whole (parts part isPart).2 inner isInner
  · exact ((parts part isPart).1.mono (le_succ identity) agrees) node mem other isOther

/-- Placing a tree puts its new nodes on record. -/
theorem place (coherent : expr.Coherent next atlas) :
    ∃ wider, Atlas.AgreesBelow next atlas wider ∧
      (expr.place next).1.Coherent (expr.place next).2 wider := by
  induction expr using partsInduction generalizing next atlas with
  | step expr ih =>
    cases placed : expr.id? with
    | some identity =>
      rw [place_of_id placed]
      exact ⟨atlas, .refl _ _, coherent⟩
    | none =>
      have all : ∀ (exprs : List Expr) (start : Nat) (known : Atlas),
          (∀ part ∈ exprs, part ∈ expr.parts) → (∀ part ∈ exprs, part.Coherent start known) →
          ∃ wider, Atlas.AgreesBelow start known wider ∧ ∀ part ∈ (placeAll start exprs).1,
            part.Coherent (placeAll start exprs).2 wider ∧ part.id?.isSome = true := by
        intro exprs
        induction exprs with
        | nil => exact fun _ known _ _ => ⟨known, .refl _ _, by simp [placeAll]⟩
        | cons part rest restHypothesis =>
          intro start known areParts areCoherent
          obtain ⟨wider, agrees, isCoherent⟩ :=
            ih part (areParts part (by simp)) (areCoherent part (by simp))
          obtain ⟨widest, agrees', restCoherent⟩ := restHypothesis (part.place start).2 wider
            (fun other mem => areParts other (by simp [mem]))
            fun other mem => (areCoherent other (by simp [mem])).mono (part.place_le start) agrees
          refine ⟨widest, agrees.trans (part.place_le start) agrees', fun other mem => ?_⟩
          rcases mem_cons.1 mem with rfl | mem
          · obtain ⟨identity, isPlaced, -⟩ := part.exists_id_place start
            exact ⟨isCoherent.mono (placeAll_le _ rest) agrees', by rw [isPlaced]; rfl⟩
          · exact restCoherent other mem
      obtain ⟨partsPlaced, isPlaced, upTo⟩ := place_parts placed next
      obtain ⟨wider, agrees, parts⟩ := all expr.parts next atlas (fun _ => id) coherent.part
      refine ⟨Function.update wider (placeAll next expr.parts).2 (expr.place next).1, ?_, ?_⟩
      · refine agrees.trans (placeAll_le next expr.parts) fun other below => ?_
        exact Function.update_of_ne (Nat.ne_of_lt below) ..
      · rw [upTo]
        exact root isPlaced (partsPlaced ▸ parts)

theorem shape (expr : Expr) (next : Nat) (atlas : Atlas) : expr.shape.Coherent next atlas := by
  induction expr using partsInduction with
  | step expr ih =>
    have unplaced : expr.shape.id? = none := by cases expr <;> rfl
    refine build unplaced fun part isPart => ?_
    rw [parts_shape] at isPart
    obtain ⟨original, isOriginal, rfl⟩ := mem_map.1 isPart
    exact ih original isOriginal

end Coherent

end Expr

/-- Admits the trees whose placed nodes are on record. -/
def lineage (watched : Option Nat) : Scale where
  Admits next atlas expr := expr.Coherent next atlas
  watched

variable {watched : Option Nat}

theorem fair_lineage : (lineage watched).Fair where
  mono := Coherent.mono
  build _ unplaced _ := Coherent.build unplaced
  part _ := Coherent.part
  place _ := Coherent.place

theorem hosts_lineage : (lineage watched).Hosts := by
  intro _ _ branch
  exact Coherent.build rfl (by simp [mkBranch, parts, children])

theorem settles_lineage : (lineage watched).Settles :=
  fun _ _ _ _ coherent isPlaced => coherent.whole isPlaced

theorem tells_lineage : (lineage watched).Tells := by
  intro _ _ first second coherent coherent' same
  rw [coherent.unique coherent' same]

theorem captures_lineage (resolver : Resolver) : (lineage watched).Captures resolver :=
  fun _ _ node _ _ next atlas => Coherent.shape node next atlas

theorem spares_none (forks : List Fork) : (lineage none).Spares forks := by
  intro fork _
  refine countP_eq_zero.2 fun node _ => ?_
  simp only [Scale.isWatched, lineage]
  grind

/-- An instruction leaves all trees on record. -/
theorem standsAll_step {task : Task} {first : Nat} {machine : Machine} {event : Event}
    {path : StackId} (accepts : (lineage none).Accepts task first origin)
    (isInstruction : event.isInstruction = true) (isCurrent : machine.current = some path)
    (stands : (lineage none).StandsAll first origin machine.workspace []) :
    Ensures (fun _ => True) (Machine.step task event) machine fun _ next =>
      machine.workspace.forks <+: next.workspace.forks ∧
        (lineage none).StandsAll first origin next.workspace [] := by
  have unwatched : ∀ tree : Expr, tree.nodes.countP (lineage none).isWatched = 0 := by
    intro tree
    exact spares_none [⟨tree, 0, 0, 0⟩] _ mem_cons_self
  exact Scale.StandsAll.step fair_lineage hosts_lineage accepts isInstruction isCurrent
    (le_refl 0) (fun _ _ _ top _ _ _ => (zero_add _).trans_le (unwatched top).le) stands

namespace Lifter

variable {lifter : Lifter} {task : Task} {nextNode : Nat} {body : MethodBody} {machine : Machine}

/-- All trees are on record where the last paths of a body have met. -/
theorem Passage.stands (accepts : (lineage none).Accepts task nextNode origin)
    (passage : lifter.Passage task nextNode body machine) :
    (lineage none).StandsAll nextNode origin passage.arrived.workspace [] := by
  refine passage.keeps (fun _ _ => trivial : ∀ error, Error.IsAnswer error → True)
    (fun space _ _ _ (stands : (lineage none).StandsAll nextNode origin space []) => stands)
    ?_ ?_ ⟨origin, [], Scale.standing_opening⟩
  · intro event reached path _ isInstruction isCurrent stands
    exact Ensures.mono (standsAll_step accepts isInstruction isCurrent stands) fun _ _ => And.right
  · intro label first second space others stands
    refine Ensures.mono (stands.joinPair fair_lineage hosts_lineage settles_lineage label first
      second (spares_none _)) ?_
    rintro joined next ⟨-, stands⟩
    cases joined <;> exact stands

theorem Passage.carries (accepts : (lineage none).Accepts task nextNode origin)
    (passage : lifter.Passage task nextNode body machine) :
    ∃ atlas, (lineage none).Carries atlas { passage.arrived.workspace.emission with
      statements := passage.arrived.workspace.emission.statements ++
        (passage.arrived.workspace.stack passage.stack).items.reverse } := by
  obtain ⟨atlas, pool, standing⟩ := passage.stands accepts
  exact ⟨atlas, standing.carries trivial⟩

theorem settled_lineage (lifter : Lifter) : (lineage none).Settled lifter := by
  intro task nextNode origin body machine accepts completed
  obtain ⟨passage⟩ := exists_passage completed
  obtain ⟨atlas, pool, standing⟩ := passage.stands accepts
  obtain ⟨-, wider, agrees, carries⟩ := standing.completes fair_lineage tells_lineage settles_lineage
    trivial (by rintro ⟨⟩) passage.completes
  rw [passage.isMachine]
  exact ⟨wider, agrees, carries.admits⟩

theorem exists_accepts_lineage {method : Method}
    (prepared : lifter.rootTask method = .ok (task, nextNode)) :
    ∃ origin, (lineage none).Accepts task nextNode origin :=
  Scale.exists_accepts fair_lineage prepared fun _ =>
    ⟨rfl, settled_lineage lifter, captures_lineage lifter.resolver⟩

end Lifter

end CilLift
