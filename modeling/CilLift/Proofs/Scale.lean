import CilLift.Proofs.Making
import CilLift.Proofs.Placement

/-!
Scales for trees: what is asked of every tree that a lifting has at hand, and how often a call may
occur in all of them together.
-/

namespace CilLift

open List CilLift.Expr Nat Bool

/-- Calls and constructions. -/
def Expr.isCall : Expr → Bool
  | .call .. | .new .. => true
  | _ => false

theorem Expr.isCall_of_isOperator {expr : Expr} (isOperator : expr.isOperator = true) :
    expr.isCall = false := by
  cases expr <;> first | rfl | cases isOperator

theorem Expr.isCall_place (expr : Expr) (next : Nat) : (expr.place next).1.isCall = expr.isCall := by
  cases expr with
  | _ header => cases placed : header.id <;> simp [place, placed, isCall]

/-- The nodes that carry the identities handed out so far. -/
abbrev Atlas := Nat → Expr

/-- Two records of nodes say the same about the identities below a number. -/
def Atlas.AgreesBelow (next : Nat) (first second : Atlas) : Prop :=
  ∀ identity < next, second identity = first identity

theorem Atlas.AgreesBelow.refl (next : Nat) (atlas : Atlas) : AgreesBelow next atlas atlas :=
  fun _ _ => rfl

theorem Atlas.AgreesBelow.trans {next later : Nat} {first second third : Atlas}
    (agrees : AgreesBelow next first second) (grown : next ≤ later)
    (agrees' : AgreesBelow later second third) : AgreesBelow next first third :=
  fun identity below =>
    (agrees' identity (lt_of_lt_of_le below grown)).trans (agrees identity below)

/-- What is asked of trees, given the identities handed out so far, and the identity of a call or a
construction that may occur once, and as many times more as is allowed. -/
structure Scale where
  Admits : Nat → Atlas → Expr → Prop
  watched : Option Nat
  allowance : Nat := 0

namespace Scale

/-- What was admitted stays so, a new node is admitted with its parts, and so is what placing makes of
a tree, once its new nodes are on record. -/
structure Fair (scale : Scale) : Prop where
  mono : ∀ {next later atlas wider expr}, next ≤ later → Atlas.AgreesBelow next atlas wider →
    scale.Admits next atlas expr → scale.Admits later wider expr
  build : ∀ {next atlas} expr, expr.id? = none → expr.branch? = none →
    (∀ part ∈ expr.parts, scale.Admits next atlas part) → scale.Admits next atlas expr
  part : ∀ {next atlas} expr, scale.Admits next atlas expr →
    ∀ part ∈ expr.parts, scale.Admits next atlas part
  place : ∀ {next atlas} expr, scale.Admits next atlas expr →
    ∃ wider, Atlas.AgreesBelow next atlas wider ∧
      scale.Admits (expr.place next).2 wider (expr.place next).1

variable (scale : Scale)

/-- The calls and constructions with the watched identity. -/
def isWatched (expr : Expr) : Bool :=
  expr.isCall && expr.id?.isSome && expr.id? == scale.watched

/-- The calls and constructions that have or may still get the watched identity. -/
def isExposed (expr : Expr) : Bool :=
  expr.isCall && scale.watched.isSome && (expr.id?.isNone || expr.id? == scale.watched)

/-- How often the watched call may occur when identities have been handed out up to a number. -/
def limit (next : Nat) : Nat :=
  scale.allowance +
    match scale.watched with
    | none => 0
    | some identity => if identity < next then 1 else 0

open Classical in
/-- The number of picked nodes of an admitted tree. -/
noncomputable def tally (picks : Expr → Bool) (next : Nat) (atlas : Atlas) (expr : Expr) : ℕ∞ :=
  if scale.Admits next atlas expr then (expr.nodes.countP picks : ℕ) else ⊤

/-- How often the watched call occurs in a tree. -/
noncomputable def weight : Nat → Atlas → Expr → ℕ∞ := scale.tally scale.isWatched

/-- How often the watched call occurs in a tree or may come to do. -/
noncomputable def exposure : Nat → Atlas → Expr → ℕ∞ := scale.tally scale.isExposed

variable {scale} {next later : Nat} {atlas wider : Atlas} {picks : Expr → Bool} {expr : Expr}

theorem limit_mono (grown : next ≤ later) : scale.limit next ≤ scale.limit later := by
  unfold limit
  split
  · exact le_refl _
  · split <;> split <;> omega

theorem limit_le (next : Nat) : scale.limit next ≤ scale.allowance + 1 := by
  unfold limit
  split
  · omega
  · split <;> omega

theorem isWatched_le (expr : Expr) (isWatched : scale.isWatched expr = true) :
    scale.isExposed expr = true := by
  simp only [Scale.isWatched, isExposed, and_eq_true, or_eq_true, beq_iff_eq] at *
  obtain ⟨⟨isCall, isPlaced⟩, same⟩ := isWatched
  exact ⟨⟨isCall, same ▸ isPlaced⟩, .inr same⟩

theorem isWatched_of_isExposed (isExposed : scale.isExposed expr = true)
    (isPlaced : expr.id?.isSome = true) : scale.isWatched expr = true := by
  simp only [Scale.isExposed, isWatched, and_eq_true, or_eq_true] at *
  obtain ⟨⟨isCall, -⟩, unplaced | same⟩ := isExposed
  · simp_all
  · exact ⟨⟨isCall, isPlaced⟩, same⟩

theorem isExposed_of_unwatched (unwatched : scale.watched = none) : scale.isExposed expr = false := by
  simp [isExposed, unwatched]

theorem isWatched_of_id (unplaced : expr.id? = none) : scale.isWatched expr = false := by
  simp [isWatched, unplaced]

theorem isExposed_of_isOperator (isOperator : expr.isOperator = true) : scale.isExposed expr = false := by
  simp [isExposed, isCall_of_isOperator isOperator]

theorem admits_of_tally (light : scale.tally picks next atlas expr ≠ ⊤) :
    scale.Admits next atlas expr := by
  by_contra unadmitted
  exact light (if_neg unadmitted)

theorem tally_eq (admits : scale.Admits next atlas expr) :
    scale.tally picks next atlas expr = (expr.nodes.countP picks : ℕ) :=
  if_pos admits

theorem sum_tally {exprs : List Expr} (admits : ∀ expr ∈ exprs, scale.Admits next atlas expr) :
    (exprs.map (scale.tally picks next atlas)).sum =
      ((exprs.map fun expr => expr.nodes.countP picks).sum : ℕ) := by
  induction exprs with
  | nil => rfl
  | cons expr rest ih =>
    rw [map_cons, sum_cons, tally_eq (admits expr (by simp)),
      ih fun other mem => admits other (by simp [mem])]
    simp

namespace Fair

variable (fair : scale.Fair)

include fair

theorem tally_le_parts (unplaced : expr.id? = none) (isValue : expr.branch? = none)
    (unpicked : picks expr = false) :
    scale.tally picks next atlas expr ≤ (expr.parts.map (scale.tally picks next atlas)).sum := by
  by_cases admits : ∀ part ∈ expr.parts, scale.Admits next atlas part
  · rw [sum_tally admits, tally_eq (fair.build expr unplaced isValue admits), countP_nodes, unpicked]
    simp
  · push Not at admits
    obtain ⟨part, mem, unadmitted⟩ := admits
    have heavy := single_le_sum (by simp) _ (mem_map_of_mem (f := scale.tally picks next atlas) mem)
    rw [tally, if_neg unadmitted, top_le_iff] at heavy
    rw [heavy]
    exact le_top

theorem parts_le_tally (expr : Expr) :
    (expr.parts.map (scale.tally picks next atlas)).sum ≤ scale.tally picks next atlas expr := by
  by_cases admits : scale.Admits next atlas expr
  · rw [sum_tally (fair.part expr admits), tally_eq admits, countP_nodes]
    exact cast_le.2 (Nat.le_add_left ..)
  · rw [tally, if_neg admits]
    exact le_top

theorem weighed (unpicked : ∀ expr : Expr, expr.isOperator = true → picks expr = false) :
    Weighed (scale.tally picks next atlas) where
  build expr unplaced isOperator := by
    have isValue : expr.branch? = none := by
      cases expr <;> first | rfl | cases isOperator
    have below : scale.tally picks next atlas expr ≤ _ :=
      fair.tally_le_parts unplaced isValue (unpicked expr isOperator)
    have same : expr.parts = expr.children := by
      cases expr <;> first | rfl | cases isOperator
    rwa [same] at below
  part expr isOperator := by
    have same : expr.parts = expr.children := by
      cases expr <;> first | rfl | cases isOperator
    rw [← same]
    exact fair.parts_le_tally expr

theorem weighed_weight : Weighed (scale.weight next atlas) :=
  fair.weighed fun expr isOperator => by
    by_contra picked
    have exposed := isWatched_le expr (by simpa using picked)
    rw [isExposed_of_isOperator isOperator] at exposed
    cases exposed

theorem weighed_exposure : Weighed (scale.exposure next atlas) :=
  fair.weighed fun _ => isExposed_of_isOperator

theorem weight_le_parts (unplaced : expr.id? = none) (isValue : expr.branch? = none) :
    scale.weight next atlas expr ≤ (expr.parts.map (scale.weight next atlas)).sum :=
  fair.tally_le_parts unplaced isValue (isWatched_of_id unplaced)

theorem tally_mono (grown : next ≤ later) (agrees : Atlas.AgreesBelow next atlas wider) :
    scale.tally picks later wider expr ≤ scale.tally picks next atlas expr := by
  by_cases admits : scale.Admits next atlas expr
  · rw [tally_eq admits, tally_eq (fair.mono grown agrees admits)]
  · rw [tally, tally, if_neg admits]
    exact le_top

end Fair

theorem weight_le_exposure : scale.weight next atlas expr ≤ scale.exposure next atlas expr := by
  by_cases admits : scale.Admits next atlas expr
  · rw [weight, exposure, tally_eq admits, tally_eq admits]
    exact cast_le.2 (countP_mono_left fun node _ => isWatched_le node)
  · rw [exposure, tally, if_neg admits]
    exact le_top

/-! Placing a tree. -/

/-- Placing a tree adds no more nodes of a kind than a limit gives way, if that holds of every root
that is given its identity. -/
theorem countP_place {picks : Expr → Bool} {limit : Nat → Nat}
    (root : ∀ (expr : Expr) (next : Nat), expr.id? = none →
      (if picks (expr.place next).1 then 1 else 0) + limit (placeAll next expr.parts).2 ≤
        (if picks expr then 1 else 0) + limit (expr.place next).2) (expr : Expr) (next : Nat) :
    (expr.place next).1.nodes.countP picks + limit next ≤
      expr.nodes.countP picks + limit (expr.place next).2 := by
  induction expr using partsInduction generalizing next with
  | step expr ih =>
    cases placed : expr.id? with
    | some identity => rw [place_of_id placed]
    | none =>
      obtain ⟨partsPlaced, -, -⟩ := place_parts placed next
      have below : ∀ (exprs : List Expr) (start : Nat), (∀ part ∈ exprs, part ∈ expr.parts) →
          ((placeAll start exprs).1.map fun part => part.nodes.countP picks).sum + limit start ≤
          (exprs.map fun part => part.nodes.countP picks).sum + limit (placeAll start exprs).2 := by
        intro exprs
        induction exprs with
        | nil => exact fun _ _ => le_refl _
        | cons part rest restHypothesis =>
          intro start areParts
          have here := ih part (areParts part (by simp)) start
          have later := restHypothesis (part.place start).2 fun other mem =>
            areParts other (by simp [mem])
          simp only [placeAll, map_cons, sum_cons]
          omega
      have here := root expr next placed
      have parts := below expr.parts next fun _ => id
      rw [countP_nodes, countP_nodes, partsPlaced]
      omega

theorem countP_isWatched_place (scale : Scale) (expr : Expr) (next : Nat) :
    (expr.place next).1.nodes.countP scale.isWatched + scale.limit next ≤
      expr.nodes.countP scale.isWatched + scale.limit (expr.place next).2 := by
  refine countP_place (fun expr next placed => ?_) expr next
  obtain ⟨-, isPlaced, upTo⟩ := place_parts placed next
  rw [upTo, isWatched_of_id placed]
  split
  · rename_i isWatched
    have watches : scale.watched = some (placeAll next expr.parts).2 := by
      rw [← isPlaced]
      simp only [Scale.isWatched, and_eq_true, beq_iff_eq] at isWatched
      exact isWatched.2.symm
    simp [limit, watches, add_comm]
  · simpa using limit_mono (le_succ _)

theorem countP_isExposed_place (scale : Scale) (expr : Expr) (next : Nat) :
    (expr.place next).1.nodes.countP scale.isExposed ≤ expr.nodes.countP scale.isExposed := by
  refine @countP_place scale.isExposed (fun _ => 0) (fun expr next placed => ?_) expr next
  have root : scale.isExposed (expr.place next).1 = true → scale.isExposed expr = true := by
    simp +contextual [isExposed, isCall_place, placed]
  split
  · rw [if_pos (root ‹_›)]
  · exact zero_le _

/-- What occurs where identities have been handed out up to a number may grow as more of them are. -/
def Moves (scale : Scale) (next later : Nat) (before after : ℕ∞) : Prop :=
  after + scale.limit next ≤ before + scale.limit later

namespace Moves

variable {before after more less : ℕ∞}

theorem add (rest : ℕ∞) (moves : scale.Moves next later before after) :
    scale.Moves next later (rest + before) (rest + after) := by
  unfold Moves at *
  rw [add_assoc, add_assoc]
  exact add_le_add_right moves rest

theorem mono (moves : scale.Moves next later before after) (grown : before ≤ more)
    (shrunk : less ≤ after) : scale.Moves next later more less :=
  le_trans (add_le_add_left shrunk _) (le_trans moves (add_le_add_left grown _))

theorem limited (moves : scale.Moves next later before after) (within : before ≤ scale.limit next) :
    after ≤ scale.limit later := by
  have both : after + scale.limit next ≤ scale.limit later + scale.limit next :=
    le_trans moves ((add_le_add_left within _).trans_eq (add_comm ..))
  exact (ENat.add_le_add_iff_right (ENat.natCast_ne_top _)).1 both

end Moves

namespace Fair

variable (fair : scale.Fair)

include fair

/-- Placing an admitted tree records its new nodes, and may make the watched call. -/
theorem place_weight (admits : scale.Admits next atlas expr) :
    ∃ wider, Atlas.AgreesBelow next atlas wider ∧
      scale.Admits (expr.place next).2 wider (expr.place next).1 ∧
      scale.Moves next (expr.place next).2 (scale.weight next atlas expr)
        (scale.weight (expr.place next).2 wider (expr.place next).1) ∧
      scale.exposure (expr.place next).2 wider (expr.place next).1 ≤ scale.exposure next atlas expr := by
  obtain ⟨wider, agrees, admits'⟩ := fair.place expr admits
  refine ⟨wider, agrees, admits', ?_, ?_⟩
  · unfold Moves weight
    rw [tally_eq admits, tally_eq admits']
    exact_mod_cast scale.countP_isWatched_place expr next
  · unfold exposure
    rw [tally_eq admits, tally_eq admits']
    exact_mod_cast scale.countP_isExposed_place expr next

end Fair

end Scale

end CilLift
