import CilLift.Proofs.Balance
import CilLift.Proofs.Execution

/-!
The balance through a whole run: what a task has to bring with it, and what forks and merges do to the
balance.
-/

namespace CilLift

open List Machine Work Workspace Nat Ensures

variable {count : Nat} {tree test : Expr} {path : StackId} {fewer : StackId → Prop}

namespace Scale

/-- What the scale asks of a task: its symbols hold no watched call, and it follows delegates only if
none is watched, whose trees are admitted on admitted receivers. -/
structure Accepts (scale : Scale) (task : Task) (first : Nat) (origin : Atlas) : Prop where
  symbol : ∀ node, node ∈ task.parameters ∨ task.target = some node ∨ some node ∈ task.arguments →
    scale.weight first origin node = 0
  unwatched : task.options.inlineDelegates = true → scale.watched = none
  captured : task.options.inlineDelegates = true → ∀ expr delegate node,
    task.resolver.capturedDelegate expr = .ok (some delegate) → delegate.target = some node →
    ∀ next atlas, scale.Admits next atlas node.shape
  nested : task.options.inlineDelegates = true → ∀ next atlas method body target,
    (∀ node, target = some node → scale.Admits next atlas node) →
    Yields (fun _ => True) (task.liftNested next method body target) fun (tree, after) =>
      next ≤ after ∧ ∃ wider, Atlas.AgreesBelow next atlas wider ∧
        ∀ type, scale.Admits after wider (tree.toLambda type)

variable {scale : Scale} {start space next : Workspace} {active : StackId → Prop}
  {base atlas : Atlas} {pool : List (Expr × Expr)} {shared : List Expr} {hand : List Held}

theorem exposure_unwatched (unwatched : scale.watched = none)
    (admits : scale.Admits count atlas tree) : scale.exposure count atlas tree = 0 := by
  rw [exposure, tally_eq admits,
    countP_eq_zero.2 fun node _ => by simp [isExposed_of_unwatched unwatched]]
  rfl

theorem weight_unwatched (unwatched : scale.watched = none)
    (admits : scale.Admits count atlas tree) : scale.weight count atlas tree = 0 :=
  weight_of_exposure (exposure_unwatched unwatched admits)

/-- More identities have been handed out. -/
theorem Balance.grow (fair : scale.Fair) {nextNode : Nat} {wider : Atlas}
    (balance : scale.Balance start active base atlas pool space shared hand)
    (grown : space.emission.nextNode ≤ nextNode)
    (agrees : Atlas.AgreesBelow space.emission.nextNode atlas wider) :
    scale.Balance start active base wider pool
      { space with emission := { space.emission with nextNode } } shared hand where
  forks := balance.forks
  outline := balance.outline
  idle := balance.idle
  grown := balance.grown.trans grown
  agrees := balance.agrees.trans balance.grown agrees
  declared node mem := (balance.declared node mem).imp_right (fair.mono grown agrees)
  backed slot mem := (balance.backed slot mem).mono
    (fun _ => fair.mono grown agrees) (fun _ => .inl) fun _ => id
  unexposed other mem :=
    le_antisymm ((fair.tally_mono grown agrees).trans_eq (balance.unexposed other mem)) zero_le
  within := by
    refine le_trans ?_ (balance.within.trans (cast_le.2 (limit_mono grown)))
    exact load_mono pool hand fun _ => fair.tally_mono grown agrees

/-- The instructions of an accepted task keep the balance. -/
theorem Fair.serves (fair : scale.Fair) {task : Task} {first : Nat} {origin : Atlas}
    (accepts : scale.Accepts task first origin) (isActive : active path)
    (begun : first ≤ start.emission.nextNode) (agrees : Atlas.AgreesBelow first origin base) :
    (scale.custody start active base).Serves task path := by
  have symbol : ∀ {space shared hand} node,
      node ∈ task.parameters ∨ task.target = some node ∨ some node ∈ task.arguments →
      (scale.custody start active base).Holds space shared hand →
      (scale.custody start active base).Holds space shared (.made node :: hand) := by
    rintro space shared hand node isSymbol ⟨atlas, pool, balance⟩
    refine ⟨atlas, pool, balance.grasp _ (le_antisymm ?_ zero_le)⟩
    exact (fair.tally_mono (begun.trans balance.grown)
      (agrees.trans begun balance.agrees)).trans_eq (accepts.symbol node isSymbol)
  exact {
    lawful := fair.lawful.restrict (by rintro _ rfl; exact isActive) fun _ _ => trivial
    parameter := fun node mem => symbol node (.inl mem)
    target := fun node isTarget => symbol node (.inr (.inl isTarget))
    known := fun node mem => symbol node (.inr (.inr mem))
    receive := by
      rintro space shared tree hand ⟨atlas, pool, balance⟩
      exact ⟨atlas, pool, balance.regrip le_rfl⟩
    methodBody := by
      intro _ method
      cases task.resolver.methodBody method <;> trivial
    capturedDelegate := by
      intro inlines expr
      cases found : task.resolver.capturedDelegate expr with
      | error error => trivial
      | ok result =>
        rintro delegate node rfl isTarget space shared hand ⟨atlas, pool, balance⟩
        have admits := accepts.captured inlines expr delegate node found isTarget
        obtain ⟨wider, placed, -⟩ := (balance.grasp (.made node.shape)
          (weight_unwatched (accepts.unwatched inlines) (admits _ atlas))).place fair
        exact ⟨wider, pool, placed.regrip le_rfl⟩
    nested := by
      rintro inlines space shared hand method body target type ⟨atlas, pool, balance⟩
      have received : ∀ node, target = some node → scale.Admits space.emission.nextNode atlas node := by
        rintro node rfl
        exact balance.admits_hand (mem_cons_self : Held.receiver node ∈ _ :: hand)
      refine (accepts.nested inlines _ atlas method body target received).mono ?_ fun _ => id
      rintro ⟨tree, after⟩ ⟨grown, wider, agrees, admits⟩
      refine ⟨wider, pool, ((balance.grow fair grown agrees).regrip ?_).grasp _
        (weight_unwatched (accepts.unwatched inlines) (admits type))⟩
      rw [load_append]
      exact le_self_add }

/-- Forks and links may change where the trees stay. -/
theorem Balance.refound (balance : scale.Balance start active base atlas pool space shared hand)
    (emission : next.emission = space.emission)
    (slots : ∀ slot ∈ next.slots, slot ∈ space.slots)
    (items : ∀ id, fewer id → (next.stack id).items = [] ∨
      active id ∧ (next.stack id).items = (space.stack id).items) :
    scale.Balance next fewer atlas atlas pool next shared hand where
  forks := rfl
  outline := rfl
  idle _ _ := rfl
  grown := le_refl _
  agrees := .refl _ _
  declared := emission ▸ balance.declared
  backed slot mem := emission ▸ balance.backed slot (slots slot mem)
  unexposed := emission ▸ balance.unexposed
  within := by
    rw [emission]
    refine le_trans ?_ balance.within
    unfold load
    rw [emission]
    exact add_le_add_left (itemLoad_mono items fun _ => le_rfl) _

/-- The tests of the forks are admitted and placed, and what the active paths hold is in balance with
the trees at hand. -/
structure Standing (scale : Scale) (first : Nat) (origin : Atlas) (active : StackId → Prop)
    (atlas : Atlas) (pool : List (Expr × Expr)) (space : Workspace) (hand : List Held) :
    Prop where
  begun : first ≤ space.emission.nextNode
  agrees : Atlas.AgreesBelow first origin atlas
  test : ∀ fork ∈ space.forks,
    scale.Admits space.emission.nextNode atlas fork.test ∧ fork.test.id?.isSome = true
  balance : scale.Balance space active atlas atlas pool space [] hand

/-- The workspace is in balance with some record of its nodes. -/
def Stands (scale : Scale) (first : Nat) (origin : Atlas) (active : StackId → Prop)
    (space : Workspace) (hand : List Held) : Prop :=
  ∃ atlas pool, scale.Standing first origin active atlas pool space hand

/-- A body begins in balance. -/
theorem standing_opening {task : Task} {types : List TypeSig} {nextNode : Nat} :
    scale.Standing nextNode atlas active atlas [] (opening task types nextNode).workspace []
    where
  begun := le_refl _
  agrees := .refl _ _
  test _ mem := by cases mem
  balance := {
    forks := rfl
    outline := rfl
    idle := fun _ _ => rfl
    grown := le_refl _
    agrees := .refl _ _
    declared := fun _ mem => by cases mem
    backed := fun slot mem => by
      simp [LocalSlot.Backed, opening_unassigned slot mem]
    unexposed := fun _ mem => by cases mem
    within := by
      refine le_of_eq_of_le (load_eq_zero (fun id _ item mem => ?_) fun tree mem => ?_) zero_le
      · rw [opening_items] at mem
        cases mem
      · cases mem }

section Standing

variable {first : Nat} {origin : Atlas} (fair : scale.Fair)

theorem Standing.holds (standing : scale.Standing first origin active atlas pool space hand) :
    (scale.custody space active atlas).Holds space [] hand :=
  ⟨atlas, pool, standing.balance⟩

include fair

/-- What such steps lead to stands, also for fewer paths. -/
theorem Standing.reach {held : List Held}
    (standing : scale.Standing first origin active atlas pool space held)
    (holds : (scale.custody space active atlas).Holds next shared hand)
    (active' : ∀ id, fewer id → active id) : scale.Stands first origin fewer next hand := by
  obtain ⟨wider, others, balance⟩ := holds
  refine ⟨wider, others, standing.begun.trans balance.grown,
    standing.agrees.trans standing.begun balance.agrees, ?_, ?_⟩
  · rw [balance.forks]
    intro fork mem
    exact (standing.test fork mem).imp_left (fair.mono balance.grown balance.agrees)
  · have founded : scale.Balance next fewer wider wider others next shared hand :=
      balance.refound rfl (fun _ => id) fun id isFewer => .inr ⟨active' id isFewer, rfl⟩
    exact { founded with unexposed := by simp }

/-- A fork is added, where its test is at hand and the trees stay. -/
theorem Standing.addFork {fork : Fork}
    (standing : scale.Standing first origin active atlas pool space (.made test :: hand))
    (emission : next.emission = (space.emission.place test).2)
    (forks : next.forks = space.forks ++ [fork])
    (isTest : fork.test = (space.emission.place test).1) (slots : ∀ slot ∈ next.slots,
      slot ∈ slots (space.placing test))
    (items : ∀ id, fewer id → (next.stack id).items = [] ∨
      active id ∧ (next.stack id).items = (space.stack id).items) :
    scale.Stands first origin fewer next hand := by
  obtain ⟨wider, placed, -⟩ := standing.balance.place fair
  refine ⟨wider, pool, ?_, standing.agrees.trans standing.begun placed.agrees, ?_,
    placed.drop.refound emission slots items⟩
  · rw [emission]
    exact standing.begun.trans placed.grown
  · intro found mem
    rw [emission]
    rw [forks] at mem
    rcases mem_append.1 mem with before | isNew
    · exact (standing.test found before).imp_left (fair.mono placed.grown placed.agrees)
    · rw [mem_singleton.1 isNew, isTest]
      obtain ⟨identity, isPlaced, -⟩ := test.exists_id_place space.emission.nextNode
      exact ⟨placed.admits_hand mem_cons_self, Option.isSome_iff_exists.2 ⟨identity, isPlaced⟩⟩

theorem Standing.fork (parent : StackId)
    (standing : scale.Standing first origin active atlas pool space (.made test :: hand))
    (still : ∀ id, fewer id → id < space.paths.length → active id) :
    scale.Stands first origin fewer
      (forked (space.placing test) parent (space.emission.place test).1) hand := by
  refine standing.addFork fair rfl rfl rfl (fun _ => mem_slots_forked) ?_
  intro id isFewer
  rw [items_forked]
  by_cases inside : id < space.paths.length
  · exact .inr ⟨still id isFewer inside, rfl⟩
  · exact .inl (congrArg EvalStack.items (stack_eq_default inside))

theorem Standing.refork {parent onTrue onFalse : StackId}
    (standing : scale.Standing first origin active atlas pool space (.made test :: hand))
    (still : ∀ id, fewer id → active id) :
    scale.Stands first origin fewer
      (reforked (space.placing test) parent (space.emission.place test).1 onTrue onFalse) hand := by
  refine standing.addFork fair rfl rfl rfl (fun _ => mem_slots_reforked) ?_
  intro id isFewer
  rw [items_reforked]
  exact .inr ⟨still id isFewer, rfl⟩

/-- The items of an idle path may change. -/
theorem Standing.onIdle {id : StackId} {emission : Emission} {items : List Expr}
    (standing : scale.Standing first origin active atlas pool space hand)
    (isIdle : ¬active id) (statements : emission.statements = space.emission.statements)
    (declarations : emission.declarations = space.emission.declarations)
    (grown : space.emission.nextNode ≤ emission.nextNode) :
    scale.Standing first origin active atlas pool (withItems { space with emission } id items) hand where
  begun := standing.begun.trans grown
  agrees := standing.agrees
  test fork mem := (standing.test fork mem).imp_left (fair.mono grown (.refl _ _))
  balance := by
    have more : scale.Balance space active atlas atlas pool { space with emission } [] hand :=
      (standing.balance.grow fair grown (.refl _ _)).emit statements declarations rfl
    refine more.refound rfl (fun _ mem => mem_slots_modifyStack mem fun _ => rfl) ?_
    intro other isActive
    refine .inr ⟨isActive, ?_⟩
    rw [items_withItems, if_neg]
    rintro ⟨rfl, -⟩
    exact isIdle isActive

omit fair in
/-- A path gets admitted items and becomes active, if no call is watched. -/
theorem Standing.activate {id : StackId} {items : List Expr} {more : StackId → Prop}
    (unwatched : scale.watched = none)
    (standing : scale.Standing first origin active atlas pool space hand)
    (admitted : ∀ item ∈ items, scale.Admits space.emission.nextNode atlas item)
    (included : ∀ other, more other → other = id ∨ active other) :
    scale.Standing first origin more atlas pool (space.withItems id items) hand where
  begun := standing.begun
  agrees := standing.agrees
  test := standing.test
  balance := {
    forks := rfl
    outline := rfl
    idle := fun _ _ => rfl
    grown := le_refl _
    agrees := .refl _ _
    declared := standing.balance.declared
    backed := fun slot mem => standing.balance.backed slot (mem_slots_modifyStack mem fun _ => rfl)
    unexposed := standing.balance.unexposed
    within := by
      refine le_of_eq_of_le (load_eq_zero (fun other isMore item => ?_) fun tree mem => ?_) zero_le
      · rw [items_withItems]
        split
        · exact fun mem => weight_unwatched unwatched (admitted item mem)
        · rename_i isOther
          intro mem
          refine weight_unwatched unwatched (standing.balance.admits_item ?_ mem)
          refine (included other isMore).resolve_left ?_
          rintro rfl
          rw [stack_eq_default fun inside => isOther ⟨rfl, inside⟩] at mem
          cases mem
      · exact weight_unwatched unwatched (standing.balance.admits_other mem) }

end Standing

/-! All paths are active. -/

/-- Placeholders are admitted. -/
def Hosts (scale : Scale) : Prop :=
  ∀ next atlas branch, scale.Admits next atlas (.mkBranch branch)

/-- Placed trees have no unplaced nodes, if a call is watched. -/
def Settles (scale : Scale) : Prop :=
  ∀ next atlas expr, scale.watched.isSome = true → scale.Admits next atlas expr →
    expr.id?.isSome = true → ∀ node ∈ expr.nodes, node.id?.isSome = true

/-- The watched call is in no test. -/
def Spares (scale : Scale) (forks : List Fork) : Prop :=
  ∀ fork ∈ forks, fork.test.nodes.countP scale.isWatched = 0

theorem countP_isExposed_eq (settles : scale.Settles) (admits : scale.Admits count atlas tree)
    (firm : scale.watched.isSome = true → tree.id?.isSome = true) :
    tree.nodes.countP scale.isExposed = tree.nodes.countP scale.isWatched := by
  refine countP_congr fun node mem => ⟨fun isExposed => ?_, isWatched_le node⟩
  cases watched : scale.watched with
  | none =>
    rw [isExposed_of_unwatched watched] at isExposed
    cases isExposed
  | some identity =>
    have watches : scale.watched.isSome = true := by simp [watched]
    refine isWatched_of_isExposed isExposed ?_
    exact settles count atlas tree watches admits (firm watches) node mem

theorem exposure_eq_zero (settles : scale.Settles) (admits : scale.Admits count atlas tree)
    (isPlaced : tree.id?.isSome = true) (unwatched : tree.nodes.countP scale.isWatched = 0) :
    scale.exposure count atlas tree = 0 := by
  rw [exposure, tally_eq admits, countP_isExposed_eq settles admits fun _ => isPlaced, unwatched]
  rfl

/-- Everything stands, on all paths. -/
abbrev StandsAll (scale : Scale) (first : Nat) (origin : Atlas) (space : Workspace)
    (hand : List Held) : Prop :=
  scale.Stands first origin (fun _ => True) space hand

section All

variable {first : Nat} {origin : Atlas}

theorem Standing.placeholder (hosts : scale.Hosts) (branch : BranchId)
    (standing : scale.Standing first origin active atlas pool space hand) :
    scale.Balance space active atlas atlas pool space [] (.made (.mkBranch branch) :: hand) := by
  refine standing.balance.grasp (.made _) ?_
  change scale.tally scale.isWatched _ _ (.mkBranch branch) = 0
  rw [tally_eq (hosts _ _ _)]
  rfl

variable (fair : scale.Fair) (hosts : scale.Hosts)

include fair hosts

theorem Standing.push (branch : BranchId) (isActive : active path)
    (standing : scale.Standing first origin active atlas pool space hand) :
    Ensures (fun _ => True) (Work.push path (.mkBranch branch)) space fun _ next =>
      next.forks = space.forks ∧ scale.Stands first origin active next hand := by
  have holds : (scale.custody space active atlas).Holds space []
      (.made (.mkBranch branch) :: hand) := ⟨atlas, pool, standing.placeholder hosts branch⟩
  refine mono (fair.lawful.push isActive holds) fun _ next holds => ⟨?_, ?_⟩
  · obtain ⟨_, _, balance⟩ := holds
    exact balance.forks
  · exact standing.reach fair holds fun _ => id

theorem Standing.pushUntracked (branch : BranchId) (isActive : active path)
    (standing : scale.Standing first origin active atlas pool space hand) :
    Ensures (fun _ => True) (pushUntracked path (.mkBranch branch)) space fun _ next =>
      next.forks = space.forks ∧ scale.Stands first origin active next hand := by
  obtain ⟨wider, placed, -⟩ := (standing.placeholder hosts branch).place fair
  exact ⟨rfl, standing.reach fair ⟨wider, pool, placed.put rfl isActive⟩ fun _ => id⟩

/-- A fork of a path leaves everything standing. -/
theorem StandsAll.forkAt {machine : Machine} (label : Label) (path : StackId)
    (stands : scale.StandsAll first origin machine.workspace [.made test]) :
    Ensures (fun _ => True) (forkAt label path test) machine fun _ final =>
      machine.workspace.forks <+: final.workspace.forks ∧
        scale.StandsAll first origin final.workspace [] := by
  obtain ⟨atlas, pool, standing⟩ := stands
  have forked : scale.StandsAll first origin (forked (machine.workspace.placing test) path
      (machine.workspace.emission.place test).1) [] := standing.fork fair path fun _ _ _ => trivial
  obtain ⟨wider, others, forked⟩ := forked
  refine ensures_forkAt (mono (forked.push fair hosts _ trivial) ?_)
  rintro ⟨⟩ next ⟨sameForks, stands⟩
  refine ⟨?_, stands⟩
  rw [sameForks]
  exact prefix_append ..

/-- A new fork in the place of an old one leaves everything standing. -/
theorem StandsAll.regraft (label : Label) (old : BranchId) (parent onTrue onFalse : StackId)
    (stands : scale.StandsAll first origin space [.made test]) :
    Ensures (fun _ => True) (regraft label old parent test onTrue onFalse) space
      fun _ next => space.forks <+: next.forks ∧ scale.StandsAll first origin next [] := by
  obtain ⟨_, _, standing⟩ := stands
  have reforked : scale.StandsAll first origin (reforked (space.placing test) parent
      (space.emission.place test).1 onTrue onFalse) [] := standing.refork fair fun _ => id
  obtain ⟨atlas, pool, standing⟩ := reforked
  refine ensures_bind.2 ?_
  unfold Ensures
  have opened := (fair.lawful.popPlaceholder label old trivial standing.holds :
    (scale.custody _ (fun _ => True) atlas).Keeps (popPlaceholder label parent old) _ [] _)
  refine andThen opened ?_
  rintro ⟨⟩ popped ⟨wider, others, balance⟩
  obtain ⟨_, _, reached⟩ := standing.reach fair ⟨wider, others, balance⟩ fun _ => id
  refine mono (reached.pushUntracked fair hosts _ trivial) ?_
  rintro ⟨⟩ final ⟨sameForks, stands⟩
  refine ⟨?_, stands⟩
  rw [sameForks, balance.forks]
  exact prefix_append ..

/-- A merge of two paths leaves everything standing, if the watched call is in no test. -/
theorem StandsAll.joinPair (settles : scale.Settles) (label : Label) (one other : StackId)
    (spares : scale.Spares space.forks) (stands : scale.StandsAll first origin space []) :
    Ensures (fun _ => True) (joinPair label one other) space fun _ next =>
      space.forks <+: next.forks ∧ scale.StandsAll first origin next [] := by
  obtain ⟨atlas, pool, standing⟩ := stands
  have joins : (scale.custody space (fun _ => True) atlas).Joins (fun _ => True)
      fun _ => True := fair.joins fun fork mem =>
    exposure_eq_zero settles (standing.test fork mem).1 (standing.test fork mem).2 (spares fork mem)
  have kept : ∀ {next shared hand},
      (scale.custody space (fun _ => True) atlas).Holds next shared hand →
      space.forks <+: next.forks ∧ scale.StandsAll first origin next hand := by
    intro next shared hand holds
    refine ⟨?_, standing.reach fair holds fun _ => id⟩
    obtain ⟨_, _, balance⟩ := holds
    rw [balance.forks]
  refine joins.joinPair trivial trivial (fun _ _ _ _ => trivial) standing.holds
    (fun _ _ _ => trivial) (fun _ => kept standing.holds) ?_ ?_
  · intro branch _ _
    have withTest := joins.test branch standing.holds
    have joined := joins.joinSides label branch rfl trivial trivial trivial trivial trivial trivial
      mem_cons_self (joins.popPlaceholder label branch trivial withTest)
    exact mono joined fun _ next ⟨_, holds⟩ => kept holds
  · intro old onTrue onFalse test next _ holds
    obtain ⟨grown, reached⟩ := kept holds
    refine mono (reached.regraft fair hosts label old _ onTrue onFalse) ?_
    rintro ⟨⟩ final ⟨grown', stands⟩
    exact ⟨grown.trans grown', stands⟩

end All

end Scale

end CilLift
