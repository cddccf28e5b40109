import CilLift.Proofs.Balance.Completion
import CilLift.Proofs.Numbering

/-!
Scales and the delegates that a lifting follows: what the run of a body leaves is admitted, and so are
the functions that the bodies of delegates become, however deeply they are nested.
-/

namespace CilLift

open List CilLift.Expr

variable {next : Nat}

namespace Scale

/-- What a completed run leaves is admitted. -/
def Settled (scale : Scale) (lifter : Lifter) : Prop :=
  ∀ {task : Task} {nextNode : Nat} {origin : Atlas} {body : MethodBody} {machine : Machine},
    scale.Accepts task nextNode origin → lifter.runBody task nextNode body = .ok () machine →
    ∃ wider, Atlas.AgreesBelow nextNode origin wider ∧
      ∀ tree ∈ machine.workspace.emission.statements ++ machine.workspace.emission.declarations,
        scale.Admits machine.workspace.emission.nextNode wider tree

variable {scale : Scale} {lifter : Lifter} {atlas : Atlas}

namespace Fair

variable (fair : scale.Fair)

include fair

theorem placeAll {exprs : List Expr} (admits : ∀ expr ∈ exprs, scale.Admits next atlas expr) :
    ∃ wider, Atlas.AgreesBelow next atlas wider ∧
      ∀ expr ∈ (placeAll next exprs).1, scale.Admits (placeAll next exprs).2 wider expr := by
  induction exprs generalizing next atlas with
  | nil => exact ⟨atlas, .refl _ _, by simp [placeAll]⟩
  | cons expr rest ih =>
    obtain ⟨wider, agrees, isPlaced⟩ := fair.place expr (admits expr (by simp))
    obtain ⟨widest, agrees', arePlaced⟩ := ih fun other mem =>
      fair.mono (expr.place_le next) agrees (admits other (by simp [mem]))
    refine ⟨widest, agrees.trans (expr.place_le next) agrees', fun other mem => ?_⟩
    rcases mem_cons.1 mem with rfl | mem
    · exact fair.mono (placeAll_le _ rest) agrees' isPlaced
    · exact arePlaced other mem

/-- A function of admitted parts is admitted. -/
theorem toLambda {tree : MethodTree} (type : TypeSig)
    (parameters : ∀ node ∈ tree.parameters, scale.Admits next atlas node)
    (parts : ∀ node ∈ tree.statements ++ tree.declarations, scale.Admits next atlas node) :
    scale.Admits next atlas (tree.toLambda type) := by
  have body : scale.Admits next atlas tree.body := by
    unfold MethodTree.body
    split
    · rename_i statement isStatement _
      exact parts statement (by simp [isStatement])
    · refine fair.build _ rfl rfl fun part mem => parts part ?_
      exact mem_append.2 (mem_append.1 mem).symm
  refine fair.build _ rfl rfl fun part mem => ?_
  rcases mem_append.1 mem with isParameter | isBody
  · exact parameters part isParameter
  · exact mem_singleton.1 isBody ▸ body

/-- The task of a method has weightless symbols, if its receiver is admitted and weightless. -/
theorem prepare {start : Nat} {method : Method} {target : Option Expr} {task : Task}
    {liftNested : NestedLift}
    (prepared : lifter.prepare next method target [] liftNested = .ok (task, start))
    (received : ∀ node, target = some node → scale.Admits next atlas node ∧ scale.watched = none) :
    ∃ wider, Atlas.AgreesBelow next atlas wider ∧
      (∀ node ∈ task.parameters, scale.Admits start wider node) ∧
      ∀ node, node ∈ task.parameters ∨ task.target = some node ∨ some node ∈ task.arguments →
        scale.weight start wider node = 0 := by
  obtain ⟨nodes, areNodes, placed, rfl⟩ := Lifter.prepare_symbols prepared
  have unknown : task.arguments = [] :=
    eq_nil_of_length_eq_zero (Lifter.prepare_fields prepared).2.2.2.2.2
  have admitted : ∀ node ∈ nodes, scale.Admits next atlas node := by
    intro node mem
    rcases areNodes node mem with ⟨slot, name, type, rfl⟩ | isTarget
    · exact fair.build _ rfl rfl (by simp [mkParameter, parts, children])
    · exact (received node isTarget).1
  obtain ⟨wider, agrees, arePlaced⟩ := fair.placeAll admitted
  refine ⟨wider, agrees, fun node mem => arePlaced node ?_, fun node isSymbol => ?_⟩
  · rw [← placed]
    exact mem_append_left _ mem
  · have mem : node ∈ (Expr.placeAll next nodes).1 := by
      rw [← placed]
      rcases isSymbol with isParameter | isTarget | isKnown
      · exact mem_append_left _ isParameter
      · exact mem_append_right _ (by simp [isTarget])
      · simp [unknown] at isKnown
    have admits := arePlaced node mem
    obtain ⟨original, isOriginal, start, -, -, rfl⟩ :=
      exists_original (placedIn_placeAll next nodes) mem
    rcases areNodes original isOriginal with ⟨slot, name, type, rfl⟩ | isTarget
    · exact weight_of_exposure (exposure_symbol rfl admits)
    · exact weight_unwatched (received original isTarget).2 admits

end Fair

/-- The delegates that a resolver knows run on admitted objects. -/
def Captures (scale : Scale) (resolver : Resolver) : Prop :=
  ∀ expr delegate node, resolver.capturedDelegate expr = .ok (some delegate) →
    delegate.target = some node → ∀ next atlas, scale.Admits next atlas node.shape

section

variable (fair : scale.Fair) (unwatched : scale.watched = none) (settled : scale.Settled lifter)
  (captures : scale.Captures lifter.resolver)

include fair unwatched settled captures

/-- What becomes of the body of a delegate is admitted. -/
theorem liftFrom_admits (depth : Nat) :
    ∀ next atlas method body target, (∀ node, target = some node → scale.Admits next atlas node) →
      Yields (fun _ => True) (lifter.liftFrom depth next method body target []) fun (tree, after) =>
        next ≤ after ∧ ∃ wider, Atlas.AgreesBelow next atlas wider ∧
          ∀ type, scale.Admits after wider (tree.toLambda type) := by
  induction depth with
  | zero => exact fun _ _ _ _ _ _ => trivial
  | succ depth ih =>
    intro next atlas method body target received
    unfold Lifter.liftFrom
    cases prepared : lifter.prepare next method target []
        fun nextNode method body target => lifter.liftFrom depth nextNode method body target [] with
    | error error => trivial
    | ok pair =>
      obtain ⟨task, start⟩ := pair
      obtain ⟨grown, sameResolver, sameOptions, -, isNested, -⟩ := Lifter.prepare_fields prepared
      obtain ⟨wider, agrees, parameters, symbols⟩ := fair.prepare prepared fun node isTarget =>
        ⟨received node isTarget, unwatched⟩
      have accepts : scale.Accepts task start wider := {
        symbol := symbols
        unwatched := fun _ => unwatched
        captured := fun _ => sameResolver ▸ captures
        nested := fun _ => isNested ▸ ih }
      have numbers : task.Numbers := by
        unfold Task.Numbers
        rw [isNested]
        exact lifter.liftFrom_nextNode depth []
      dsimp only [bind, Except.bind]
      cases completed : lifter.runBody task start body with
      | error error machine => trivial
      | ok _ machine =>
        have later := Lifter.runBody_nextNode numbers completed
        obtain ⟨widest, agrees', parts⟩ := settled accepts completed
        refine ⟨grown.trans later, widest, agrees.trans grown agrees', fun type => ?_⟩
        exact fair.toLambda type (fun node mem => fair.mono later agrees' (parameters node mem)) parts

end

/-- The task of a method by itself is accepted. -/
theorem exists_accepts (fair : scale.Fair) {method : Method} {task : Task} {nextNode : Nat}
    (prepared : lifter.rootTask method = .ok (task, nextNode))
    (follows : lifter.options.inlineDelegates = true →
      scale.watched = none ∧ scale.Settled lifter ∧ scale.Captures lifter.resolver) :
    ∃ origin, scale.Accepts task nextNode origin := by
  obtain ⟨-, sameResolver, sameOptions, -, isNested, -⟩ := Lifter.prepare_fields prepared
  have unreceived : ∀ node : Expr, none = some node →
      scale.Admits 0 (fun _ => .boolean true) node ∧ scale.watched = none := by
    rintro _ ⟨⟩
  obtain ⟨origin, -, -, symbols⟩ := fair.prepare prepared unreceived
  refine ⟨origin, symbols, ?_, ?_, ?_⟩
  · exact fun inlines => (follows (sameOptions ▸ inlines)).1
  · exact fun inlines => sameResolver ▸ (follows (sameOptions ▸ inlines)).2.2
  · intro inlines
    obtain ⟨unwatched, settled, captures⟩ := follows (sameOptions ▸ inlines)
    rw [isNested]
    exact liftFrom_admits fair unwatched settled captures (lifter.nesting - 1)

end Scale

end CilLift
