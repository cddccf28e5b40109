import CilLift.Proofs.Acyclicity
import CilLift.Proofs.Balance.Nesting

/-!
Placeholders of forks do not escape: they stand on top of the paths that have forked, and on no path
that is followed or waits, so what a completed lifting leaves is free of them.
-/

namespace CilLift

open List Machine Work Nat Ensures Prod Outline

variable {expr : Expr} {id : StackId}

namespace Expr

/-- No node of the tree is the placeholder of a fork. -/
def Clear (expr : Expr) : Prop := ∀ node ∈ expr.nodes, node.branch? = none

theorem clear_iff : expr.Clear ↔ expr.branch? = none ∧ ∀ part ∈ expr.parts, part.Clear := by
  constructor
  · intro clear
    exact ⟨clear expr (mem_nodes_iff.2 (.inl rfl)), fun part isPart node mem =>
      clear node (mem_nodes_iff.2 (.inr ⟨part, isPart, mem⟩))⟩
  · rintro ⟨root, parts⟩ node mem
    rcases mem_nodes_iff.1 mem with rfl | ⟨part, isPart, mem⟩
    · exact root
    · exact parts part isPart node mem

theorem Clear.place (clear : expr.Clear) (next : Nat) : (expr.place next).1.Clear := by
  induction expr using partsInduction generalizing next with
  | step expr ih =>
    cases placed : expr.id? with
    | some identity => rwa [place_of_id placed]
    | none =>
      obtain ⟨partsPlaced, -, -⟩ := place_parts placed next
      obtain ⟨root, parts⟩ := clear_iff.1 clear
      refine clear_iff.2 ⟨(branch?_place next expr).trans root, fun part isPart => ?_⟩
      rw [partsPlaced] at isPart
      obtain ⟨original, isOriginal, start, -, -, rfl⟩ :=
        exists_original (placedIn_placeAll next expr.parts) isPart
      exact ih original isOriginal (parts original isOriginal) start

theorem Clear.shape (clear : expr.Clear) : expr.shape.Clear := by
  induction expr using partsInduction with
  | step expr ih =>
    obtain ⟨root, parts⟩ := clear_iff.1 clear
    refine clear_iff.2 ⟨(branch?_shape expr).trans root, fun part isPart => ?_⟩
    rw [parts_shape] at isPart
    obtain ⟨original, isOriginal, rfl⟩ := mem_map.1 isPart
    exact ih original isOriginal (parts original isOriginal)

end Expr

/-- Admits the trees without placeholders. -/
def clearance : Scale where
  Admits _ _ expr := expr.Clear
  watched := none

theorem fair_clearance : clearance.Fair where
  mono _ _ clear := clear
  build _ _ isValue parts := Expr.clear_iff.2 ⟨isValue, parts⟩
  part _ clear := (Expr.clear_iff.1 clear).2
  place {_ atlas} _ clear := ⟨atlas, .refl _ _, clear.place _⟩

theorem unwatched_clearance (node : Expr) : clearance.isWatched node = false := by
  cases placed : node.id? <;> simp [Scale.isWatched, clearance]

theorem tells_clearance : clearance.Tells := by
  intro _ _ first second _ _ _
  rw [countP_eq_zero.2 fun node _ => by simp [unwatched_clearance node],
    countP_eq_zero.2 fun node _ => by simp [unwatched_clearance node]]

theorem clearance_joins {start : Nat} {origin : Atlas} {space : Workspace}
    {ids : List StackId} {atlas : Atlas} {pool : List (Expr × Expr)}
    (standing : clearance.Standing start origin (· ∈ ids) atlas pool space []) :
    (clearance.custody space (· ∈ ids) atlas).Joins (· ∈ ids) fun _ => True :=
  fair_clearance.joins fun fork mem => Scale.exposure_unwatched rfl (standing.test fork mem).1

namespace Workspace

/-- The given paths are free of placeholders, and on every other path there is none but on top. -/
structure Guarded (start : Nat) (origin : Atlas) (space : Workspace) (ids : List StackId) :
    Prop where
  linked : space.outline.Linked
  distinct : ids.Nodup
  inside : ∀ id ∈ ids, id < space.paths.length
  below : ∀ id ∉ ids, ∀ item ∈ (space.stack id).items.tail, item.Clear
  stands : clearance.Stands start origin (· ∈ ids) space []

variable {start : Nat} {origin : Atlas} {space next : Workspace} {ids others : List StackId}

theorem sides_distinct {others : List Nat} {count : Nat} (distinct : others.Nodup)
    (inside : ∀ id ∈ others, id < count) :
    (count :: (others ++ [count + 1])).Nodup ∧
      ∀ id ∈ count :: (others ++ [count + 1]), id < count + 2 := by
  simp only [nodup_cons, nodup_append, mem_append, mem_cons, not_mem_nil, or_false]
  refine ⟨⟨?_, distinct, by simp, ?_⟩, ?_⟩
  · rintro (mem | same)
    · exact lt_irrefl count (inside count mem)
    · omega
  · rintro id mem _ rfl rfl
    have := inside _ mem
    omega
  · rintro id (rfl | mem | rfl)
    · omega
    · have := inside id mem
      omega
    · omega

namespace Guarded

section

variable (guarded : space.Guarded start origin ids)

include guarded

theorem items (isActive : id ∈ ids) : ∀ item ∈ (space.stack id).items, item.Clear := by
  obtain ⟨_, _, standing⟩ := guarded.stands
  exact fun item => standing.balance.admits_item isActive

theorem fewer (included : others.Subperm ids) : space.Guarded start origin others where
  linked := guarded.linked
  distinct := by
    obtain ⟨same, isPerm, isSublist⟩ := included
    exact isPerm.nodup_iff.1 (guarded.distinct.sublist isSublist)
  inside id mem := guarded.inside id (included.subset mem)
  below id isIdle item mem := by
    by_cases isActive : id ∈ ids
    · exact guarded.items isActive item (mem_of_mem_tail mem)
    · exact guarded.below id isActive item mem
  stands := by
    obtain ⟨_, _, standing⟩ := guarded.stands
    exact standing.reach fair_clearance standing.holds fun _ mem => included.subset mem

theorem step {shared : List Expr} {atlas : Atlas} {pool : List (Expr × Expr)}
    (standing : clearance.Standing start origin (· ∈ ids) atlas pool space [])
    (holds : (clearance.custody space (· ∈ ids) atlas).Holds next shared []) :
    next.Guarded start origin ids := by
  have stands := standing.reach fair_clearance holds fun _ => id
  obtain ⟨_, _, balance⟩ := holds
  exact {
    linked := balance.outline ▸ guarded.linked
    distinct := guarded.distinct
    inside := fun id mem => by
      rw [← length_outline, balance.outline, length_outline]
      exact guarded.inside id mem
    below := fun id isIdle => by
      rw [balance.idle id isIdle]
      exact guarded.below id isIdle
    stands := stands }

/-- The items of a path that is not active may change, with a placeholder on top at most. -/
theorem onIdle {emission : Emission} {items : List Expr} (isIdle : id ∉ ids)
    (clear : ∀ item ∈ items.tail, item.Clear)
    (statements : emission.statements = space.emission.statements)
    (declarations : emission.declarations = space.emission.declarations)
    (grown : space.emission.nextNode ≤ emission.nextNode) :
    (withItems { space with emission } id items).Guarded start origin ids where
  linked := by
    rw [outline_withItems]
    exact guarded.linked
  distinct := guarded.distinct
  inside other mem := by
    rw [withItems, length_modifyStack]
    exact guarded.inside other mem
  below other mem := by
    rw [items_withItems]
    split
    · exact clear
    · exact guarded.below other mem
  stands := by
    obtain ⟨atlas, pool, standing⟩ := guarded.stands
    exact ⟨atlas, pool, standing.onIdle fair_clearance isIdle statements declarations grown⟩

end

/-- A path that forks gets a placeholder on top, and its sides take its place. -/
theorem fork {path : StackId} {test : Expr} (guarded : space.Guarded start origin (path :: others))
    (stands : clearance.Stands start origin (· ∈ path :: others) space [.made test]) :
    Ensures (fun _ => True) (Work.push path (.mkBranch space.forks.length))
      (forked (space.placing test) path (space.emission.place test).1) fun _ final =>
        final.Guarded start origin (space.paths.length :: (others ++ [space.paths.length + 1])) := by
  have pathInside := guarded.inside path (by simp)
  obtain ⟨isOther, distinct⟩ := nodup_cons.1 guarded.distinct
  obtain ⟨newDistinct, newInside⟩ := sides_distinct distinct fun id mem =>
    guarded.inside id (by simp [mem])
  have still : ∀ id ∈ space.paths.length :: (others ++ [space.paths.length + 1]),
      id < space.paths.length → id ∈ path :: others := by
    intro id mem inside
    simp only [mem_cons, mem_append, not_mem_nil, or_false] at mem ⊢
    rcases mem with rfl | isOther | rfl
    · exact absurd inside (lt_irrefl _)
    · exact .inr isOther
    · exact absurd inside not_succ_lt_self
  have isIdle : path ∉ space.paths.length :: (others ++ [space.paths.length + 1]) := by
    simp only [mem_cons, mem_append, not_mem_nil, or_false, not_or]
    exact ⟨Nat.ne_of_lt pathInside, isOther, Nat.ne_of_lt (lt_succ_of_lt pathInside)⟩
  obtain ⟨_, _, standing⟩ := stands
  have stands := standing.fork fair_clearance path still
  have links := outline_forked (space.placing test) path (space.emission.place test).1
  have items := fun id => items_forked (space.placing test) path id (space.emission.place test).1
  generalize forked _ path _ = next at stands links items ⊢
  have forked : next.Guarded start origin
      (space.paths.length :: (others ++ [space.paths.length + 1])) := {
    linked := by
      rw [links]
      exact guarded.linked.addFork (by rwa [length_outline])
    distinct := newDistinct
    inside := fun id mem => by
      rw [← length_outline, links, addFork, length_append, length_outline]
      exact newInside id mem
    below := fun id mem item => by
      rw [items]
      by_cases isPath : id = path
      · rw [isPath]
        exact fun mem => guarded.items mem_cons_self item (mem_of_mem_tail mem)
      · refine guarded.below id (fun isActive => ?_) item
        simp only [mem_cons, mem_append, not_or] at mem isActive
        exact isActive.elim isPath mem.2.1
    stands := stands }
  unfold Ensures
  rw [push_eq]
  refine forked.onIdle isIdle ?_ rfl rfl (next.emission.nextNode_place (.mkBranch space.forks.length))
  rw [items]
  exact guarded.items mem_cons_self

/-- An instruction keeps the guard of the active paths. -/
theorem instruction {task : Task} {machine : Machine} {event : Event} {path : StackId}
    (accepts : clearance.Accepts task start origin) (isInstruction : event.isInstruction = true)
    (isCurrent : machine.current = some path)
    (guarded : machine.workspace.Guarded start origin machine.active) :
    Ensures (fun _ => True) (Machine.step task event) machine fun _ next =>
      next.workspace.Guarded start origin next.active := by
  have isActive : machine.active = path :: machine.waiters.map snd := by
    rw [active, isCurrent]
    rfl
  rw [isActive] at guarded
  obtain ⟨atlas, pool, standing⟩ := guarded.stands
  have serves : (clearance.custody machine.workspace (· ∈ path :: machine.waiters.map snd)
      atlas).Serves task path :=
    fair_clearance.serves accepts mem_cons_self standing.begun standing.agrees
  refine serves.step isInstruction isCurrent standing.holds ?_ fun label => ⟨?_, ?_, ?_⟩
  · intro opcode _ _ top rest items _
    have clear : top.Clear := guarded.items mem_cons_self top (by rw [items]; exact mem_cons_self)
    exact ⟨atlas, pool, standing.balance.grasp (.made top) (Scale.weight_unwatched rfl clear)⟩
  · intro next holds same
    have guarded := guarded.step standing holds
    change next.workspace.Guarded start origin ((next.waiters ++ [(label, path)]).map snd)
    rw [same.waiters, map_append]
    exact guarded.fewer (perm_append_singleton path _).subperm
  · intro next holds same
    have guarded := guarded.step standing holds
    rwa [active, same.current, same.waiters, isCurrent]
  · intro next test holds same
    have stands := standing.reach fair_clearance holds fun _ => id
    have guarded : next.workspace.Guarded start origin (path :: machine.waiters.map snd) := by
      obtain ⟨wider, more, balance⟩ := holds
      exact guarded.step standing ⟨wider, more, balance.drop⟩
    refine ensures_forkAt (mono (guarded.fork stands) fun _ final guarded => ?_)
    change final.Guarded start origin (next.workspace.paths.length ::
      (next.waiters ++ [(label, next.workspace.paths.length + 1)]).map snd)
    rwa [same.waiters, map_append]

variable (label : Label)

/-- A placeholder is taken off a path that is not active. -/
theorem popPlaceholder {post : Unit → Workspace → Prop} (branch : BranchId)
    (guarded : space.Guarded start origin ids)
    (popped : id ∉ ids → (∀ item ∈ (space.stack id).items.tail, item.Clear) →
      post () (space.withItems id (space.stack id).items.tail)) :
    Ensures (fun _ => True) (popPlaceholder label id branch) space post := by
  refine ensures_bind.2 ((ensures_modifyGet _).2 ?_)
  cases items : (space.stack id).items with
  | nil => trivial
  | cons top rest =>
    dsimp only
    split
    · rename_i isPlaceholder
      have isIdle : id ∉ ids := by
        intro isActive
        have clear := guarded.items isActive top (by rw [items]; exact mem_cons_self)
        rw [Option.bind_some, (Expr.clear_iff.1 clear).1] at isPlaceholder
        cases isPlaceholder
      have isPopped := popped isIdle (guarded.below id isIdle)
      rw [items] at isPopped
      exact isPopped
    · trivial

/-- The items of a path below its placeholder are free of placeholders, so it may be active again. -/
theorem activate (guarded : space.Guarded start origin ids) (isIdle : id ∉ ids)
    (inside : id < space.paths.length) :
    (space.withItems id (space.stack id).items.tail).Guarded start origin (id :: ids) where
  linked := by
    rw [outline_withItems]
    exact guarded.linked
  distinct := nodup_cons.2 ⟨isIdle, guarded.distinct⟩
  inside other mem := by
    rw [withItems, length_modifyStack]
    rcases mem_cons.1 mem with rfl | mem
    · exact inside
    · exact guarded.inside other mem
  below other mem := by
    rw [mem_cons, not_or] at mem
    rw [items_withItems, if_neg fun found => mem.1 found.1.symm]
    exact guarded.below other mem.2
  stands := by
    obtain ⟨atlas, pool, standing⟩ := guarded.stands
    exact ⟨atlas, pool, standing.activate rfl (guarded.below id isIdle) fun other mem => mem_cons.1 mem⟩

/-- The sides of a fork are joined into the path that forked. -/
theorem joinSides {first second : StackId} {branch : BranchId}
    (guarded : space.Guarded start origin (second :: first :: others))
    (firstSide : space.parent first = some branch)
    (secondSide : space.parent second = some branch) :
    Ensures (fun _ => True) (joinSides label branch) space fun joined final =>
      final.Guarded start origin (joined :: others) := by
  by_cases isIdle : (space.fork branch).parent ∈ second :: first :: others
  · refine ensures_bind.2 (ensures_get.2 (ensures_bind.2 ?_))
    exact guarded.popPlaceholder label branch fun isOther => absurd isIdle isOther
  · have inside : (space.fork branch).parent < space.paths.length := by
      rw [parent_outline] at firstSide
      have inside := (guarded.linked.fork_lt firstSide).2.2
      rwa [fork_outline, length_outline] at inside
    have opened := guarded.activate isIdle inside
    obtain ⟨atlas, pool, standing⟩ := opened.stands
    have joins := clearance_joins standing
    have withTest := joins.test branch standing.holds
    have areSides : (space.fork branch).onTrue ∈ second :: first :: others ∧
        (space.fork branch).onFalse ∈ second :: first :: others := by
      have isApart : first ≠ second := by
        rintro rfl
        exact (nodup_cons.1 guarded.distinct).1 mem_cons_self
      rw [parent_outline] at firstSide secondSide
      have isFirst := guarded.linked.side first branch firstSide
      have isSecond := guarded.linked.side second branch secondSide
      rw [fork_outline] at isFirst isSecond
      dsimp only at isFirst isSecond
      rcases isFirst with isFirst | isFirst <;> rcases isSecond with isSecond | isSecond
      · exact absurd (isFirst.symm.trans isSecond) isApart
      · simp [isFirst, isSecond]
      · simp [isFirst, isSecond]
      · exact absurd (isFirst.symm.trans isSecond) isApart
    refine mono (joins.joinSides label branch rfl (mem_cons_of_mem _ areSides.1)
      (mem_cons_of_mem _ areSides.2) mem_cons_self trivial trivial trivial
      mem_cons_self (guarded.popPlaceholder label branch fun _ _ => withTest)) ?_
    rintro _ final ⟨rfl, holds⟩
    refine (opened.step standing holds).fewer (Sublist.subperm ?_)
    exact (((sublist_cons_self first others).trans (sublist_cons_self second _))).cons_cons _

/-- A new fork takes the place of an old one. -/
theorem regraft {parent kept moved : StackId} {test : Expr} (old : BranchId)
    (guarded : space.Guarded start origin ids)
    (stands : clearance.Stands start origin (· ∈ ids) space [.made test])
    (parentInside : parent < space.paths.length) (keptInside : kept < space.paths.length)
    (movedInside : moved < space.paths.length) :
    Ensures (fun _ => True) (regraft label old parent test kept moved) space
      fun _ final => final.Guarded start origin ids := by
  obtain ⟨_, _, standing⟩ := stands
  have links := outline_reforked (space.placing test) parent kept moved (space.emission.place test).1
  have items := fun id => items_reforked (space.placing test) parent id
    (space.emission.place test).1 kept moved
  have sameLength : (reforked (space.placing test) parent
      (space.emission.place test).1 kept moved).paths.length = space.paths.length := by
    rw [← length_outline, links, Outline.regraft, length_modify, length_modify, length_outline]
  have reforked : (reforked (space.placing test) parent
      (space.emission.place test).1 kept moved).Guarded start origin ids := {
    linked := by
      rw [links]
      exact guarded.linked.regraft (by rwa [length_outline]) (by rwa [length_outline])
        (by rwa [length_outline])
    distinct := guarded.distinct
    inside := fun id mem => by
      rw [sameLength]
      exact guarded.inside id mem
    below := fun id isIdle => by
      rw [items]
      exact guarded.below id isIdle
    stands := standing.refork fair_clearance fun _ => id }
  refine ensures_bind.2 ?_
  unfold Ensures
  refine ensures_bind.2 (reforked.popPlaceholder label old fun isIdle clear => ?_)
  have opened := reforked.onIdle isIdle (fun item mem => clear item (mem_of_mem_tail mem))
    rfl rfl (le_refl _)
  unfold Ensures
  rw [pushUntracked_eq]
  refine opened.onIdle isIdle ?_ rfl rfl (Emission.nextNode_place _ _)
  rw [items_withItems, if_pos ⟨rfl, by rwa [sameLength]⟩]
  exact clear

/-- Every merge keeps the placeholders guarded. -/
theorem merges (first second : StackId) :
    Merges (fun _ => True) (Guarded start origin) label first second space := by
  intro others guarded
  obtain ⟨atlas, pool, standing⟩ := guarded.stands
  refine (clearance_joins standing).joinPair trivial trivial (fun _ _ _ _ => trivial) standing.holds
    (fun _ _ _ => trivial) (fun _ => guarded) (fun branch => guarded.joinSides label) ?_
  intro old kept moved test next grafts holds
  have firstInside := guarded.inside first (by simp)
  have secondInside := guarded.inside second (by simp)
  obtain ⟨parentInside, keptInside, movedInside⟩ :=
    grafts.inside guarded.linked firstInside secondInside
  have stands := standing.reach fair_clearance holds fun _ => id
  obtain ⟨wider, more, balance⟩ := holds
  have sameLength : next.paths.length = space.paths.length := by
    rw [← length_outline, balance.outline, length_outline]
  have isKept : (kept :: others).Subperm (second :: first :: others) := by
    rcases grafts.kept_eq with rfl | rfl
    · exact (sublist_cons_self second _).subperm
    · exact ((sublist_cons_self first others).cons_cons _).subperm
  refine mono ((guarded.step standing ⟨wider, more, balance.drop⟩).regraft label old stands
    (by rwa [sameLength]) (by rwa [sameLength]) (by rwa [sameLength])) fun _ final guarded => ?_
  exact guarded.fewer isKept

end Guarded

theorem guarded_opening {task : Task} {types : List TypeSig} {nextNode : Nat} {origin : Atlas} :
    (opening task types nextNode).workspace.Guarded nextNode origin [0] where
  linked := linked_opening task types nextNode
  distinct := nodup_singleton 0
  inside id mem := by
    rw [mem_singleton.1 mem]
    exact one_pos
  below id _ item mem := by
    rw [opening_items] at mem
    cases mem
  stands := ⟨origin, [], Scale.standing_opening⟩

end Workspace

namespace Lifter

variable {lifter : Lifter}

/-- A completed run leaves no placeholder. -/
theorem settled_clearance (lifter : Lifter) : clearance.Settled lifter := by
  intro task nextNode origin body machine accepts completed
  obtain ⟨passage⟩ := exists_passage completed
  have guarded := passage.keeps (fun _ _ => trivial : ∀ error, Error.IsAnswer error → True)
    (fun _ _ _ included guarded => guarded.fewer included)
    (fun event reached path _ isInstruction isCurrent =>
      Workspace.Guarded.instruction accepts isInstruction isCurrent)
    (fun label first second space => Workspace.Guarded.merges label first second)
    (Workspace.guarded_opening : Workspace.Guarded nextNode origin _ [0])
  obtain ⟨atlas, pool, standing⟩ := guarded.stands
  have settles : clearance.Settles := by
    rintro _ _ _ ⟨⟩
  obtain ⟨-, wider, agrees, carries⟩ := standing.completes fair_clearance tells_clearance settles
    passage.isActive (by rintro ⟨⟩) passage.completes
  rw [passage.isMachine]
  exact ⟨wider, agrees, carries.admits⟩

/-- A lifted method holds no placeholder, also not in the functions that delegates have become, if no
delegate runs on an object that does. -/
theorem lift_without_placeholders {method : Method} {body : MethodBody} {tree : MethodTree}
    (targets : ∀ expr delegate node, lifter.resolver.capturedDelegate expr = .ok (some delegate) →
      delegate.target = some node → ∀ inner ∈ node.nodes, inner.branch? = none)
    (lifted : lifter.lift method body = .ok tree) :
    ∀ root ∈ tree.statements ++ tree.declarations, ∀ node ∈ root.nodes, node.branch? = none := by
  obtain ⟨task, nextNode, machine, prepared, completed, rfl⟩ := lift_eq_ok lifted
  have captures : clearance.Captures lifter.resolver := fun expr delegate node captured isTarget _ _ =>
    Expr.Clear.shape (targets expr delegate node captured isTarget)
  obtain ⟨origin, accepts⟩ := Scale.exists_accepts fair_clearance prepared fun _ =>
    ⟨rfl, settled_clearance lifter, captures⟩
  obtain ⟨_, -, clear⟩ := settled_clearance lifter accepts completed
  exact clear

/-- A delegate that chooses one of two numbers. -/
def chooser : Method where
  token := ⟨0x06000002⟩
  name := "Choose"
  parameters := [{ name := "b", type := .bool }]
  returnType := .int32

def chooserInvoke : Method :=
  { chooser with token := ⟨0x06000003⟩, name := "Invoke", declaringType := .delegate ⟨0x02000002⟩ }

def chooserField : Field where
  token := ⟨0x04000001⟩
  name := "Held"
  type := .delegate ⟨0x02000002⟩
  flags := { isStatic := true }

def chooserTables : MetadataTables where
  members := [(chooserField.token, .field chooserField), (chooserInvoke.token, .method chooserInvoke)]
  bodies := [(chooser.token, { code := [0x03, 0x2c, 0x03, 0x17, 0x2b, 0x01, 0x18, 0x2a] })]
  delegates := [(chooserField.token,
    { target := some (.mkConstant .null .object), method := chooser })]

/-- Invokes the delegate on one side of a fork. -/
def guardedChoice : MethodBody where
  code := [0x02, 0x2c, 0x0d, 0x7e, 0x01, 0x00, 0x00, 0x04, 0x02, 0x6f, 0x03, 0x00, 0x00, 0x06, 0x2b,
    0x01, 0x1b, 0x2a]

/-- A fork around the call of a delegate that forks itself. -/
theorem guardedChoice_without_placeholders :
    ∃ tree, lift { resolver := chooserTables.resolver } (.taking .bool ["a"]) guardedChoice = .ok tree ∧
      tree.text = "(a) => (a ? ((b) => (b ? 1 : 2))(a) : 5)" ∧
      ∀ root ∈ tree.statements ++ tree.declarations, ∀ node ∈ root.nodes, node.branch? = none := by
  have viewed : (lift { resolver := chooserTables.resolver } (.taking .bool ["a"]) guardedChoice).map
      MethodTree.text = .ok "(a) => (a ? ((b) => (b ? 1 : 2))(a) : 5)" := by
    decide +kernel
  obtain ⟨tree, lifted, view⟩ := exists_of_map viewed
  refine ⟨tree, lifted, view, lift_without_placeholders ?_ lifted⟩
  intro expr delegate node captured isTarget
  have isHeld : delegate.target = some (.mkConstant .null .object) := by
    replace captured : chooserTables.capturedDelegate expr = some delegate := Except.ok.inj captured
    cases expr with
    | field header receiver mem =>
      change lookup mem.token [(chooserField.token, _)] = some delegate at captured
      rw [lookup_cons] at captured
      split at captured
      · cases captured
        rfl
      · cases captured
    | _ => cases captured
  cases isTarget.symm.trans isHeld
  decide

end Lifter

end CilLift
