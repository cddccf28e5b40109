import Mathlib.Data.List.Forall2
import CilLift.Expr.Placement
import CilLift.Proofs.Nodes

/-! What handing out identities changes in a tree, and what it leaves as it is. -/

namespace CilLift.Expr

open List Nat

variable {expr : Expr} (next : Nat)

theorem place_of_id {identity : Nat} (isPlaced : expr.id? = some identity) (next : Nat) :
    expr.place next = (expr, next) := by
  cases expr <;> simp only [id?, header] at isPlaced <;> simp [place, isPlaced]

theorem place_le (next : Nat) (expr : Expr) : next ≤ (expr.place next).2 := by
  induction expr using partsInduction generalizing next with
  | step expr ih =>
    have all (exprs : List Expr) (inside : exprs ⊆ expr.parts) (next : Nat) :
        next ≤ (placeAll next exprs).2 := by
      induction exprs generalizing next with
      | nil => exact le_refl next
      | cons first rest restIh =>
        rw [cons_subset] at inside
        exact le_trans (ih first inside.1 next) (restIh inside.2 _)
    have received (receiver : Option Expr) (inside : receiver.toList ⊆ expr.parts) (next : Nat) :
        next ≤ (placeReceiver next receiver).2 := by
      cases receiver with
      | none => exact le_refl next
      | some receiver => exact ih receiver (by simpa using inside) next
    cases expr with
    | _ header => cases placed : header.id <;> grind [place, parts, children]

theorem placeReceiver_le (next : Nat) : ∀ receiver, next ≤ (placeReceiver next receiver).2
  | none => le_refl next
  | some receiver => place_le next receiver

theorem placeAll_le (next : Nat) : ∀ exprs, next ≤ (placeAll next exprs).2
  | [] => le_refl next
  | expr :: rest => le_trans (place_le next expr) (placeAll_le (expr.place next).2 rest)

/-- The tree is another one with identities handed out between two numbers. -/
def PlacedIn (first last : Nat) (expr placed : Expr) : Prop :=
  ∃ start, first ≤ start ∧ (expr.place start).2 ≤ last ∧ placed = (expr.place start).1

theorem PlacedIn.mono {first last first' last' : Nat} {placed : Expr}
    (between : PlacedIn first last expr placed) (from' : first' ≤ first) (upTo : last ≤ last') :
    PlacedIn first' last' expr placed := by
  obtain ⟨start, above, below, isPlaced⟩ := between
  exact ⟨start, le_trans from' above, le_trans below upTo, isPlaced⟩

theorem placedIn_placeAll (exprs : List Expr) :
    Forall₂ (PlacedIn next (placeAll next exprs).2) exprs (placeAll next exprs).1 := by
  induction exprs generalizing next with
  | nil => exact .nil
  | cons expr rest ih =>
    refine .cons ⟨next, le_refl next, placeAll_le _ rest, rfl⟩ ?_
    exact (ih (expr.place next).2).imp fun _ _ between =>
      between.mono (place_le next expr) (le_refl _)

theorem getElem?_placeAll (exprs : List Expr) (index : Nat) :
    ∃ start, (placeAll next exprs).1[index]? = exprs[index]?.map fun expr =>
      (expr.place start).1 := by
  induction exprs generalizing next index with
  | nil => exact ⟨0, rfl⟩
  | cons expr rest ih =>
    cases index with
    | zero => exact ⟨next, rfl⟩
    | succ index => exact ih (expr.place next).2 index

theorem exists_original {first last : Nat} {exprs results : List Expr} {placed : Expr}
    (between : Forall₂ (PlacedIn first last) exprs results) (mem : placed ∈ results) :
    ∃ expr ∈ exprs, PlacedIn first last expr placed := by
  induction between with
  | nil => cases mem
  | cons isPlaced _ ih =>
    rcases mem_cons.1 mem with rfl | mem
    · exact ⟨_, by simp, isPlaced⟩
    · obtain ⟨expr, isExpr, isPlaced⟩ := ih mem
      exact ⟨expr, by simp [isExpr], isPlaced⟩

theorem isVar_place (expr : Expr) : (expr.place next).1.isVar = expr.isVar := by
  cases expr with
  | _ header => cases placed : header.id <;> simp [place, placed, isVar]

theorem branch?_place (expr : Expr) : (expr.place next).1.branch? = expr.branch? := by
  cases expr with
  | _ header => cases placed : header.id <;> simp [place, placed, branch?]

theorem type_place (expr : Expr) : (expr.place next).1.type = expr.type := by
  cases expr with
  | _ header => cases placed : header.id <;> simp [place, placed, type, Expr.header]

theorem isSome_target?_place (expr : Expr) :
    (expr.place next).1.target?.isSome = expr.target?.isSome := by
  cases expr with
  | assign header target value =>
    cases placed : header.id
    · simp only [place, placed, target?, asVar?, isVar_place]
      split <;> rfl
    · simp [place, placed]
  | _ header => cases placed : header.id <;> simp [place, placed, target?]

theorem placeAll_append (first second : List Expr) :
    placeAll next (first ++ second) =
      ((placeAll next first).1 ++ (placeAll (placeAll next first).2 second).1,
        (placeAll (placeAll next first).2 second).2) := by
  induction first generalizing next with
  | nil => rfl
  | cons expr rest ih => simp [placeAll, ih]

theorem placeReceiver_toList (receiver : Option Expr) :
    (placeReceiver next receiver).1.toList = (placeAll next receiver.toList).1 ∧
      (placeReceiver next receiver).2 = (placeAll next receiver.toList).2 := by
  cases receiver <;> simp [placeReceiver, placeAll]

theorem place_parts (unplaced : expr.id? = none) (next : Nat) :
    (expr.place next).1.parts = (placeAll next expr.parts).1 ∧
      (expr.place next).1.id? = some (placeAll next expr.parts).2 ∧
      (expr.place next).2 = (placeAll next expr.parts).2 + 1 := by
  cases expr with
  | call header receiver method arguments | field header receiver mem =>
    obtain ⟨type, _⟩ := header
    cases unplaced
    obtain ⟨sameReceiver, sameNext⟩ := placeReceiver_toList next receiver
    simp [place, parts, children, placeAll_append, sameReceiver, sameNext, id?, header]
  | _ header =>
    obtain ⟨type, _⟩ := header
    cases unplaced
    simp [place, parts, children, placeAll, placeAll_append, id?, header]

/-- A node without identity gets the last one that is handed out in its tree, and its operands get
theirs before. -/
theorem place_operands (unplaced : expr.id? = none) (next : Nat) :
    ∃ identity, (expr.place next).1.id? = some identity ∧ next ≤ identity ∧
      (expr.place next).2 = identity + 1 ∧
      Forall₂ (PlacedIn next identity) expr.operands (expr.place next).1.operands := by
  obtain ⟨partsPlaced, isPlaced, upTo⟩ := place_parts unplaced next
  refine ⟨_, isPlaced, placeAll_le next expr.parts, upTo, ?_⟩
  have between := partsPlaced ▸ placedIn_placeAll next expr.parts
  cases expr with
  | assign header target value =>
    obtain ⟨type, _⟩ := header
    cases unplaced
    obtain _ | ⟨targetPlaced, _ | ⟨valuePlaced, _⟩⟩ := between
    simp only [place, operands, isVar_place]
    split
    · exact .cons valuePlaced .nil
    · exact .cons targetPlaced (.cons valuePlaced .nil)
  | block header declarations statements =>
    obtain ⟨type, _⟩ := header
    cases unplaced
    have last : (placeAll next (declarations ++ statements)).2 =
        (placeAll (placeAll next declarations).2 statements).2 := by
      rw [placeAll_append]
    exact (placedIn_placeAll _ statements).imp fun _ _ between =>
      between.mono (placeAll_le next declarations) (le_of_eq last.symm)
  | lambda header parameters body =>
    obtain ⟨type, _⟩ := header
    cases unplaced
    exact .nil
  | _ header =>
    obtain ⟨type, _⟩ := header
    cases unplaced
    exact between

theorem exists_id_place (expr : Expr) (next : Nat) :
    ∃ identity, (expr.place next).1.id? = some identity ∧
      (expr.id? = some identity ∨ next ≤ identity ∧ identity < (expr.place next).2) := by
  cases placed : expr.id? with
  | some identity =>
    rw [place_of_id placed]
    exact ⟨identity, placed, .inl rfl⟩
  | none =>
    obtain ⟨identity, isPlaced, above, upTo, -⟩ := place_operands placed next
    exact ⟨identity, isPlaced, .inr ⟨above, by omega⟩⟩

/-- A property of all nodes becomes a property of all placed nodes, if it does for those that keep
their identity and for those that get one. -/
theorem Every.place {holds good : Expr → Prop} (every : expr.Every holds) (next : Nat)
    (kept : ∀ node, holds node → good node)
    (fresh : ∀ (node : Expr) start, node.Every holds → node.id? = none → next ≤ start →
      (node.place start).2 ≤ (expr.place next).2 → good (node.place start).1) :
    (expr.place next).1.Every good := by
  induction expr using operandsInduction generalizing next with
  | step expr ih =>
    cases placed : expr.id? with
    | some identity =>
      rw [place_of_id placed]
      exact every.mono kept
    | none =>
      obtain ⟨identity, isPlaced, above, upTo, operandsPlaced⟩ := place_operands placed next
      refine every_iff.2 ⟨fresh expr next every placed (le_refl next) (le_refl _), ?_⟩
      intro operand mem
      obtain ⟨original, isOperand, start, after, before, rfl⟩ := exists_original operandsPlaced mem
      refine ih original isOperand ((every_iff.1 every).2 original isOperand) start
        fun node nodeStart nodeEvery unplaced startsAfter endsBefore => ?_
      exact fresh node nodeStart nodeEvery unplaced (le_trans after startsAfter) (by omega)

/-- What is picked from the placed nodes is what is picked from the nodes, if nothing is picked that
has no identity yet. -/
theorem filterMap_place {α : Type} {pick : Expr → Option α}
    (settled : expr.Every fun node => node.id? = none → pick node = none) (next : Nat)
    (stays : ∀ (node : Expr) start, node.id? = none → pick node = none →
      pick (node.place start).1 = none) :
    (expr.place next).1.evaluated.filterMap pick = expr.evaluated.filterMap pick := by
  induction expr using operandsInduction generalizing next with
  | step expr ih =>
    cases placed : expr.id? with
    | some identity => rw [place_of_id placed]
    | none =>
      obtain ⟨identity, -, -, -, operandsPlaced⟩ := place_operands placed next
      have unpicked := settled.root placed
      rw [filterMap_evaluated, filterMap_evaluated pick expr, unpicked, stays expr next placed unpicked]
      have below := (every_iff.1 settled).2
      generalize (expr.place next).1.operands = results at operandsPlaced
      generalize expr.operands = originals at operandsPlaced below ih
      congr 1
      induction operandsPlaced with
      | nil => rfl
      | @cons original _ originals _ isPlaced _ restHypothesis =>
        obtain ⟨start, -, -, rfl⟩ := isPlaced
        rw [flatMap_cons, flatMap_cons, ih original (by simp) (below original (by simp)) start,
          restHypothesis (fun operand mem => below operand (by simp [mem]))
            fun operand mem => ih operand (by simp [mem])]

/-- The node is no variable and assigns none, or it has an identity. -/
def Settled (node : Expr) : Prop :=
  node.id? = none → node.isVar = false ∧ node.target? = none

theorem reads_place (settled : expr.Every Settled) (next : Nat) :
    (expr.place next).1.reads = expr.reads := by
  refine filterMap_place (settled.mono fun node isSettled unplaced => ?_) next ?_
  · simp [asVar?, (isSettled unplaced).1]
  · intro node start _ unread
    simpa [asVar?, isVar_place] using unread

theorem assigned_place (settled : expr.Every Settled) (next : Nat) :
    (expr.place next).1.assigned = expr.assigned := by
  refine filterMap_place (settled.mono fun node isSettled unplaced => (isSettled unplaced).2) next ?_
  intro node start _ unassigned
  have same := isSome_target?_place start node
  rw [unassigned] at same
  exact Option.not_isSome_iff_eq_none.1 (by simp [same])

/-! Shapes. -/

theorem shapes_eq (exprs : List Expr) : shapes exprs = exprs.map shape := by
  induction exprs with
  | nil => rfl
  | cons expr rest ih => rw [shapes, ih, map_cons]

theorem receiverShape_toList (receiver : Option Expr) :
    (receiverShape receiver).toList = receiver.toList.map shape := by
  cases receiver <;> rfl

theorem parts_shape (expr : Expr) : expr.shape.parts = expr.parts.map shape := by
  cases expr <;> simp [shape, parts, children, shapes_eq, receiverShape_toList]

theorem branch?_shape (expr : Expr) : expr.shape.branch? = expr.branch? := by
  cases expr <;> rfl

theorem type_shape (expr : Expr) : expr.shape.type = expr.type := by
  cases expr <;> rfl

theorem boolLiteral?_shape (expr : Expr) : expr.shape.boolLiteral? = expr.boolLiteral? := by
  cases expr with
  | constant header value =>
    cases value with
    | integer width value => cases width <;> rfl
    | _ => rfl
  | _ => rfl

/-- Handing out identities keeps the shape of a tree. -/
theorem shape_place (next : Nat) (expr : Expr) : (expr.place next).1.shape = expr.shape := by
  induction expr using partsInduction generalizing next with
  | step expr ih =>
    have all (exprs : List Expr) (inside : exprs ⊆ expr.parts) (next : Nat) :
        shapes (placeAll next exprs).1 = shapes exprs := by
      induction exprs generalizing next with
      | nil => rfl
      | cons first rest restIh =>
        rw [cons_subset] at inside
        rw [placeAll, shapes, ih first inside.1, restIh inside.2, shapes]
    have received (receiver : Option Expr) (inside : receiver.toList ⊆ expr.parts) (next : Nat) :
        receiverShape (placeReceiver next receiver).1 = receiverShape receiver := by
      cases receiver with
      | none => rfl
      | some receiver => exact congrArg some (ih receiver (by simpa using inside) next)
    cases expr with
    | _ header => cases placed : header.id <;> grind [place, shape, parts, children]

end CilLift.Expr
