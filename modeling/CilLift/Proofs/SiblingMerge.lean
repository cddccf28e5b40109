import CilLift.Proofs.MergedLocals
import CilLift.Proofs.OpenForks

/-!
The sides of a fork that meet again. In whatever order they come, they leave the path that forked
with one value for their two and with locals that both have assigned, each standing for what the
side taken has left. A test that orders floats is turned around where the sides leave zero and one,
and then selects the wrong one if a float is not a number.
-/

namespace CilLift

open CilLift.Expr Work Option Nat

variable {depth : Nat}

namespace Workspace

variable {space valued next : Workspace} {fork : Fork} {branch : BranchId} {label : Label}
  {first second id other : StackId}

theorem stack_of_ne (differs : id ≠ other) (change : EvalStack → EvalStack) :
    (space.modifyStack id change).stack other = space.stack other := by
  rw [stack_modifyStack, if_neg fun same => differs same.1]

theorem locals_withItems (space : Workspace) (id other : StackId) (items : List Expr) :
    ((space.withItems id items).stack other).locals = (space.stack other).locals :=
  keep_modifyStack EvalStack.locals id other fun _ => rfl

theorem locals_withTop (space : Workspace) (id other : StackId) (value : Expr)
    (rest : List Expr) :
    ((space.withTop id value rest).stack other).locals = (space.stack other).locals :=
  keep_modifyStack EvalStack.locals id other fun _ => rfl

theorem depth?_above (isSide : space.parent id = some branch)
    (isDepth : space.depth? id = some depth) :
    ∃ above, space.depth? (space.fork branch).parent = some above ∧ depth = above + 1 := by
  rw [depth?, depthWithin?, isSide] at isDepth
  obtain ⟨above, isAbove, rfl⟩ := map_eq_some_iff.1 isDepth
  exact ⟨above, depthWithin?_mono isAbove (le_succ _), rfl⟩

theorem depth?_sibling (firstSide : space.parent first = some branch)
    (secondSide : space.parent second = some branch) :
    space.depth? second = space.depth? first := by
  rw [depth?, depth?, depthWithin?, depthWithin?, firstSide, secondSide]

theorem depthOf_eq (isDepth : space.depth? id = some depth) : depthOf id space = .ok depth space := by
  refine (andThen_of_ok rfl).trans ?_
  rw [isDepth]
  rfl

theorem depthOf_eq_ok (found : depthOf id space = .ok depth next) :
    space.depth? id = some depth ∧ space = next := by
  obtain ⟨_, _, ⟨⟩, found⟩ := andThen_eq_ok.1 found
  cases isDepth : space.depth? id with
  | none =>
    rw [isDepth] at found
    cases found
  | some depth =>
    rw [isDepth] at found
    cases found
    exact ⟨rfl, rfl⟩

theorem joinPair_of_sides (isDepth : space.depth? first = some depth)
    (firstSide : space.parent first = some branch)
    (secondSide : space.parent second = some branch) :
    joinPair label first second space = (do return some (← joinSides label branch) : Work _) space := by
  have sameDepth := (depth?_sibling firstSide secondSide).trans isDepth
  refine (andThen_of_ok (depthOf_eq isDepth)).trans ?_
  refine (andThen_of_ok (depthOf_eq sameDepth)).trans ?_
  refine (andThen_of_ok rfl).trans ?_
  rw [firstSide, secondSide]
  dsimp only
  rw [if_pos rfl, if_pos rfl]

theorem join_of_joinPair {step : Work StackId} (pairs : joinPair label first second space =
      (do return some (← step) : Work _) space) :
    join label [first, second] space = step space := by
  cases outcome : step space with
  | ok joined next => exact andThen_of_ok (pairs.trans (andThen_of_ok outcome))
  | error error next => exact andThen_of_error (pairs.trans (andThen_of_error outcome))

/-! The values of the sides. -/

theorem joinValues_none (isTrue : (space.stack fork.onTrue).items = [])
    (isFalse : (space.stack fork.onFalse).items = []) :
    joinValues label branch fork space = .ok () space :=
  (andThen_of_ok (pop?_nil isTrue)).trans (andThen_of_ok (pop?_nil isFalse))

theorem joinValues_both {onTrue onFalse : Expr} {restTrue restFalse : List Expr}
    (apart : fork.onTrue ≠ fork.onFalse)
    (isTrue : (space.stack fork.onTrue).items = onTrue :: restTrue)
    (isFalse : (space.stack fork.onFalse).items = onFalse :: restFalse) :
    joinValues label branch fork space =
      (do push fork.parent (← condition fork.test onTrue onFalse) : Work Unit)
        ((space.withItems fork.onTrue restTrue).withItems fork.onFalse restFalse) := by
  have stillFalse : ((space.withItems fork.onTrue restTrue).stack fork.onFalse).items =
      onFalse :: restFalse := by
    rw [withItems, stack_of_ne apart, isFalse]
  exact (andThen_of_ok (pop?_eq isTrue)).trans (andThen_of_ok (pop?_eq stillFalse))

/-- A value on one side only is refused. -/
theorem joinValues_oneSided (apart : fork.onTrue ≠ fork.onFalse)
    (oneSided : (space.stack fork.onTrue).items = [] ↔ (space.stack fork.onFalse).items ≠ []) :
    ∃ stuck, joinValues label branch fork space =
      .error (.shape (.oneSidedValue branch label)) stuck := by
  cases isTrue : (space.stack fork.onTrue).items with
  | nil =>
    obtain ⟨onFalse, restFalse, isFalse⟩ := List.exists_cons_of_ne_nil (oneSided.1 isTrue)
    exact ⟨_, (andThen_of_ok (pop?_nil isTrue)).trans (andThen_of_ok (pop?_eq isFalse))⟩
  | cons onTrue restTrue =>
    have isFalse : (space.stack fork.onFalse).items = [] := by
      by_contra nonEmpty
      rw [oneSided.2 nonEmpty] at isTrue
      cases isTrue
    have stillFalse : ((space.withItems fork.onTrue restTrue).stack fork.onFalse).items = [] := by
      rw [withItems, stack_of_ne apart, isFalse]
    exact ⟨_, (andThen_of_ok (pop?_eq isTrue)).trans (andThen_of_ok (pop?_nil stillFalse))⟩

/-- The path that forked shows the placeholder of the fork on top of `below` and is no side of
it. -/
structure ShowsFork (space : Workspace) (branch : BranchId) (fork : Fork) (below : List Expr) :
    Prop where
  isFork : space.fork branch = fork
  apart : fork.onTrue ≠ fork.onFalse
  parentTrue : fork.parent ≠ fork.onTrue
  parentFalse : fork.parent ≠ fork.onFalse
  placeholder : ∃ placeholder, placeholder.branch? = some branch ∧
    (space.stack fork.parent).items = placeholder :: below

/-- The values of the sides have been merged: the path that forked holds `items`, the items of the
sides have changed, and nothing else. -/
structure SidesValued (space : Workspace) (fork : Fork) (items : List Expr)
    (valued : Workspace) : Prop where
  items : (valued.stack fork.parent).items = items
  locals : ∀ id, (valued.stack id).locals = (space.stack id).locals
  others : ∀ id, id ≠ fork.parent → id ≠ fork.onTrue → id ≠ fork.onFalse →
    valued.stack id = space.stack id
  forks : valued.forks = space.forks
  length : valued.paths.length = space.paths.length

namespace ShowsFork

variable {below : List Expr} (isShown : space.ShowsFork branch fork below) (label : Label)

include isShown

theorem inside : fork.parent < space.paths.length := by
  obtain ⟨_, -, isItems⟩ := isShown.placeholder
  exact inside_of_items isItems

theorem joinSides_eq :
    joinSides label branch space = (do
      joinValues label branch fork
      joinLocals fork.test fork.onTrue fork.onFalse fork.parent
      markReduced fork.onTrue
      markReduced fork.onFalse
      return fork.parent : Work StackId) (space.withItems fork.parent below) := by
  obtain ⟨_, isPlaceholder, isItems⟩ := isShown.placeholder
  refine (andThen_of_ok rfl).trans ?_
  rw [isShown.isFork]
  exact andThen_of_ok (Shows.popPlaceholder label isItems isPlaceholder)

theorem items_opened :
    ((space.withItems fork.parent below).stack fork.onTrue).items =
        (space.stack fork.onTrue).items ∧
      ((space.withItems fork.parent below).stack fork.onFalse).items =
        (space.stack fork.onFalse).items := by
  rw [withItems, stack_of_ne isShown.parentTrue, stack_of_ne isShown.parentFalse]
  exact ⟨rfl, rfl⟩

theorem valued_none (isTrue : (space.stack fork.onTrue).items = [])
    (isFalse : (space.stack fork.onFalse).items = []) :
    ∃ valued, joinValues label branch fork (space.withItems fork.parent below) = .ok () valued ∧
      space.SidesValued fork below valued := by
  obtain ⟨openedTrue, openedFalse⟩ := isShown.items_opened
  refine ⟨_, joinValues_none (openedTrue.trans isTrue) (openedFalse.trans isFalse),
    items_withItems_self isShown.inside, ?_, ?_, rfl, length_modifyStack ..⟩
  · exact fun id => locals_withItems ..
  · exact fun id notParent _ _ => stack_of_ne (symm notParent) _

/-- Sides with values leave the conditional between their top values. -/
theorem valued_both {onTrue onFalse merged : Expr} {restTrue restFalse : List Expr}
    (isTrue : (space.stack fork.onTrue).items = onTrue :: restTrue)
    (isFalse : (space.stack fork.onFalse).items = onFalse :: restFalse)
    (builds : condition fork.test onTrue onFalse = .ok merged) :
    ∃ valued item, joinValues label branch fork (space.withItems fork.parent below) =
        .ok () valued ∧
      item.shape = merged.shape ∧ space.SidesValued fork (item :: below) valued := by
  obtain ⟨openedTrue, openedFalse⟩ := isShown.items_opened
  let opened := space.withItems fork.parent below
  let emptied := (opened.withItems fork.onTrue restTrue).withItems fork.onFalse restFalse
  have inside : fork.parent < emptied.paths.length := by
    simp only [emptied, opened, withItems, length_modifyStack]
    exact isShown.inside
  have isBelow : (emptied.stack fork.parent).items = below := by
    simp only [emptied, withItems, stack_of_ne isShown.parentTrue.symm,
      stack_of_ne isShown.parentFalse.symm]
    exact items_withItems_self isShown.inside
  have pushed : push fork.parent merged emptied = .ok () (emptied.withTop fork.parent merged below) := by
    rw [push_eq, isBelow]
    rfl
  refine ⟨emptied.withTop fork.parent merged below, (emptied.emission.place merged).1, ?_,
    shape_place _ merged, ?_, ?_, ?_, rfl, ?_⟩
  · refine (joinValues_both isShown.apart (openedTrue.trans isTrue) (openedFalse.trans isFalse)).trans ?_
    rw [builds]
    exact pushed
  · rw [stack_withTop, if_pos ⟨rfl, inside⟩]
  · exact fun id => (locals_withTop ..).trans ((locals_withItems ..).trans
      ((locals_withItems ..).trans (locals_withItems ..)))
  · intro id notParent notTrue notFalse
    rw [stack_withTop, if_neg fun same => notParent same.1.symm]
    simp only [emptied, opened, withItems]
    rw [stack_of_ne (symm notFalse), stack_of_ne (symm notTrue), stack_of_ne (symm notParent)]
  · rw [length_withTop]
    simp [emptied, opened, withItems, length_modifyStack]

theorem joinSides_oneSided (oneSided : (space.stack fork.onTrue).items = [] ↔
      (space.stack fork.onFalse).items ≠ []) (label : Label) :
    ∃ stuck, joinSides label branch space = .error (.shape (.oneSidedValue branch label)) stuck := by
  obtain ⟨openedTrue, openedFalse⟩ := isShown.items_opened
  rw [← openedTrue, ← openedFalse] at oneSided
  obtain ⟨stuck, refused⟩ := joinValues_oneSided isShown.apart oneSided
  exact ⟨stuck, (isShown.joinSides_eq label).trans (andThen_of_error refused)⟩

end ShowsFork

/-- Both sides of a fork have come to a label. The path that forked shows its placeholder on top of
`below`, and the locals of the sides are of one type each. -/
structure SidesWait (space : Workspace) (branch : BranchId) (fork : Fork) (below : List Expr) :
    Prop where
  isFork : space.fork branch = fork
  onTrue : space.parent fork.onTrue = some branch
  onFalse : space.parent fork.onFalse = some branch
  apart : fork.onTrue ≠ fork.onFalse
  climbs : (space.depth? fork.onTrue).isSome = true
  placeholder : ∃ placeholder, placeholder.branch? = some branch ∧
    (space.stack fork.parent).items = placeholder :: below
  test : fork.test.IsCondition
  locals : ∀ index < (space.stack fork.parent).locals.length,
    LocalSlot.Mergeable (space.slot fork.onTrue index) (space.slot fork.onFalse index)
      (space.slot fork.parent index)

/-- The sides of a fork have become one with the path that forked, which holds `items` now. -/
structure SidesMerged (space : Workspace) (fork : Fork) (items : List Expr)
    (next : Workspace) : Prop where
  items : (next.stack fork.parent).items = items
  locals : ∀ index < (space.stack fork.parent).locals.length,
    LocalSlot.Merges fork.test (space.slot fork.onTrue index)
      (space.slot fork.onFalse index) (next.slot fork.parent index)
  onTrue : (next.stack fork.onTrue).isReduced = true
  onFalse : (next.stack fork.onFalse).isReduced = true
  others : ∀ id, id ≠ fork.parent → id ≠ fork.onTrue → id ≠ fork.onFalse → next.stack id = space.stack id
  forks : next.forks = space.forks

theorem inside_of_parent (isSide : space.parent id = some branch) : id < space.paths.length := by
  rw [parent_outline] at isSide
  have inside := Outline.lt_of_parent isSide
  rwa [length_outline] at inside

namespace SidesWait

variable {below items : List Expr} (wait : space.SidesWait branch fork below)

include wait

theorem isShown : space.ShowsFork branch fork below := by
  obtain ⟨depth, isDepth⟩ := isSome_iff_exists.1 wait.climbs
  obtain ⟨above, isAbove, rfl⟩ := depth?_above wait.onTrue isDepth
  have sameDepth := (depth?_sibling wait.onTrue wait.onFalse).trans isDepth
  rw [wait.isFork] at isAbove
  -- The path that forked is less deep than its sides.
  have differs : ∀ id, space.depth? id = some (above + 1) → fork.parent ≠ id := by
    rintro id atDepth rfl
    rw [atDepth] at isAbove
    simp at isAbove
  exact ⟨wait.isFork, wait.apart, differs _ isDepth, differs _ sameDepth, wait.placeholder⟩

theorem join_eq (label : Label) :
    join label [fork.onTrue, fork.onFalse] space = joinSides label branch space ∧
      join label [fork.onFalse, fork.onTrue] space = joinSides label branch space := by
  obtain ⟨depth, isDepth⟩ := isSome_iff_exists.1 wait.climbs
  have sameDepth := (depth?_sibling wait.onTrue wait.onFalse).trans isDepth
  exact ⟨join_of_joinPair (joinPair_of_sides isDepth wait.onTrue wait.onFalse),
    join_of_joinPair (joinPair_of_sides sameDepth wait.onFalse wait.onTrue)⟩

/-- Once the values are merged, the locals follow and the sides are done with. -/
theorem settles (valuing : joinValues label branch fork (space.withItems fork.parent below) =
      .ok () valued) (isValued : space.SidesValued fork items valued) :
    ∃ next, joinSides label branch space = .ok fork.parent next ∧ space.SidesMerged fork items next := by
  have isShown := wait.isShown
  have sameSlot : ∀ id index, valued.slot id index = space.slot id index := by
    intro id index
    rw [slot, slot, slot?, slot?, isValued.locals]
  have inside := lt_of_lt_of_eq isShown.inside isValued.length.symm
  have mergeable : ∀ index < (valued.stack fork.parent).locals.length,
      LocalSlot.Mergeable (valued.slot fork.onTrue index) (valued.slot fork.onFalse index)
        (valued.slot fork.parent index) := by
    intro index bounded
    rw [isValued.locals] at bounded
    rw [sameSlot, sameSlot, sameSlot]
    exact wait.locals index bounded
  obtain ⟨locals, emission, joined, isLength, merges⟩ :=
    joinLocals_merges wait.test inside mergeable
  let mark (stack : EvalStack) : EvalStack := { stack with isReduced := true }
  let settled : Workspace := { valued.withLocals fork.parent locals with emission }
  let final := (settled.modifyStack fork.onTrue mark).modifyStack fork.onFalse mark
  have isParent : final.stack fork.parent = { valued.stack fork.parent with locals } := by
    rw [stack_of_ne isShown.parentFalse.symm, stack_of_ne isShown.parentTrue.symm]
    exact (stack_withLocals ..).trans (if_pos ⟨rfl, inside⟩)
  have isSide : ∀ {id}, space.parent id = some branch → id < settled.paths.length := by
    intro id isSide
    exact lt_of_lt_of_eq (inside_of_parent isSide)
      (isValued.length.symm.trans (length_modifyStack ..).symm)
  refine ⟨final, ?_, ?_, ?_, ?_, ?_, ?_, isValued.forks⟩
  · exact (isShown.joinSides_eq label).trans ((andThen_of_ok valuing).trans (andThen_of_ok joined))
  · rw [isParent]
    exact isValued.items
  · intro index bounded
    rw [isValued.locals] at isLength
    have isSlot : final.slot fork.parent index = locals[index] := by
      rw [slot, slot?, isParent]
      simp [isLength ▸ bounded]
    rw [isSlot, ← sameSlot, ← sameSlot]
    exact merges index _ (List.getElem?_eq_getElem (isLength ▸ bounded))
  · rw [stack_of_ne wait.apart.symm, stack_modifyStack, if_pos ⟨rfl, isSide wait.onTrue⟩]
  · have inside := lt_of_lt_of_eq (isSide wait.onFalse) (length_modifyStack fork.onTrue mark).symm
    rw [stack_modifyStack, if_pos ⟨rfl, inside⟩]
  · intro id notParent notTrue notFalse
    rw [stack_of_ne (symm notFalse), stack_of_ne (symm notTrue)]
    refine ((stack_withLocals ..).trans (if_neg fun same => notParent same.1.symm)).trans ?_
    exact isValued.others id notParent notTrue notFalse

end SidesWait

/-- The sides of a fork are merged in either order, with the same outcome. Sides without values
leave none, and sides with a number each leave one node that has the value of the side taken,
provided that floats which the test orders do compare if the numbers are zero and one. Their locals
become those of the path that forked; other paths stay as they are. A value on one side only is
refused. -/
theorem join_sides {below : List Expr} (wait : space.SidesWait branch fork below)
    (label : Label) :
    join label [fork.onTrue, fork.onFalse] space = join label [fork.onFalse, fork.onTrue] space ∧
      ((space.stack fork.onTrue).items = [] → (space.stack fork.onFalse).items = [] →
        ∃ next, join label [fork.onTrue, fork.onFalse] space = .ok fork.parent next ∧
          space.SidesMerged fork below next) ∧
      (∀ onTrue onFalse, (space.stack fork.onTrue).items = [onTrue] →
        (space.stack fork.onFalse).items = [onFalse] →
        onTrue.type = .int32 → onFalse.type = .int32 →
        ∃ next merged, join label [fork.onTrue, fork.onFalse] space = .ok fork.parent next ∧
          space.SidesMerged fork (merged :: below) next ∧
          Selects fork.test onTrue onFalse merged) ∧
      (((space.stack fork.onTrue).items = [] ↔ (space.stack fork.onFalse).items ≠ []) →
        ∃ stuck, join label [fork.onTrue, fork.onFalse] space =
          .error (.shape (.oneSidedValue branch label)) stuck) := by
  obtain ⟨inOrder, inReverse⟩ := wait.join_eq label
  rw [inOrder, inReverse]
  refine ⟨rfl, fun isTrue isFalse => ?_, fun onTrue onFalse isTrue isFalse trueType falseType => ?_,
    fun oneSided => wait.isShown.joinSides_oneSided oneSided label⟩
  · obtain ⟨valued, valuing, isValued⟩ := wait.isShown.valued_none label isTrue isFalse
    exact wait.settles valuing isValued
  · obtain ⟨merged, builds, -, selects⟩ := wait.test.condition_of_int32 trueType falseType
    obtain ⟨valued, item, valuing, isShape, isValued⟩ :=
      wait.isShown.valued_both label isTrue isFalse builds
    obtain ⟨next, joined, isMerged⟩ := wait.settles valuing isValued
    refine ⟨next, item, joined, isMerged, fun valuation compares => ?_⟩
    rw [← word_shape, isShape, word_shape, selects valuation compares]

/-- A fork on `a < b` whose sides hold zero and one. The local is `a` on one side and a variable
that has been assigned `a + b` on the other. -/
def comparedNumbers : Workspace :=
  let placed (type : TypeSig) (identity : Nat) : Header := { type, id := some identity }
  let first : Expr := .parameter (placed .int32 0) 0 "a"
  let second : Expr := .parameter (placed .int32 1) 1 "b"
  let sum : Expr := .binary (placed .int32 6) .add first second
  let summed : Expr := .var (placed .int32 7) 0 "V_0"
  let slot (content : SlotContent) : LocalSlot := { type := .int32, name := "V_0", content }
  let onFalse : SlotContent := .bound sum summed (.assign (placed .int32 8) summed sum)
  { paths := [ { items := [.branch (placed .void 3) 0], locals := [slot .unassigned] },
      { items := [.constant (placed .int32 4) (.integer .int32 0)], parent := some 0,
        locals := [slot (.direct first)] },
      { items := [.constant (placed .int32 5) (.integer .int32 1)], parent := some 0,
        locals := [slot onFalse] }]
    forks := [⟨.binary (placed .bool 2) .lessThan first second, 1, 2, 0⟩]
    emission := { nextVariable := 1, nextNode := 9 } }

theorem sidesWait_comparedNumbers :
    comparedNumbers.SidesWait 0 (comparedNumbers.fork 0) [] where
  isFork := rfl
  onTrue := rfl
  onFalse := rfl
  apart := by decide
  climbs := by decide
  placeholder := ⟨_, rfl, rfl⟩
  test := ⟨rfl, nofun⟩
  locals := by
    intro index bounded
    obtain rfl : index = 0 := lt_one_iff.1 bounded
    refine ⟨?_, ?_, rfl, rfl, fun isSame => absurd isSame (by decide)⟩
    · rintro node ⟨⟩
      exact ⟨rfl, nofun⟩
    · rintro node ⟨⟩
      exact ⟨rfl, nofun⟩

/-- Integers always compare, so the test is turned around. -/
theorem join_comparedNumbers :
    comparedNumbers.SidesWait 0 (comparedNumbers.fork 0) [] ∧
      ∃ next merged, join .finish [1, 2] comparedNumbers = .ok 0 next ∧
        comparedNumbers.SidesMerged (comparedNumbers.fork 0) [merged] next ∧
        ∀ valuation, merged.word valuation =
          if (comparedNumbers.fork 0).test.holds valuation then 0 else 1 := by
  obtain ⟨next, merged, joined, isMerged, selects⟩ :=
    (join_sides sidesWait_comparedNumbers .finish).2.2.1 _ _ rfl rfl rfl rfl
  exact ⟨sidesWait_comparedNumbers, next, merged, joined, isMerged, fun valuation =>
    selects valuation fun _ => ⟨nofun, fun _ => rfl⟩⟩

/-- A fork on `x < y` between floats whose sides hold zero and one. -/
def comparedFloats : Workspace :=
  let placed (type : TypeSig) (identity : Nat) : Header := { type, id := some identity }
  let first : Expr := .parameter (placed .float64 0) 0 "x"
  let second : Expr := .parameter (placed .float64 1) 1 "y"
  { paths := [ { items := [.branch (placed .void 3) 0] },
      { items := [.constant (placed .int32 4) (.integer .int32 0)], parent := some 0 },
      { items := [.constant (placed .int32 5) (.integer .int32 1)], parent := some 0 }]
    forks := [⟨.binary (placed .bool 2) .lessThan first second, 1, 2, 0⟩]
    emission := { nextNode := 6 } }

/-- No float is a number. -/
def notNumbers : Valuation where
  argument _ := 0
  content _ := 0
  other _ := 0
  compared _ _ := none

/-- Where `x` and `y` do not compare, the false side is taken, and the merged value is that of the
true side. -/
theorem comparedFloats_select_wrong_side :
    comparedFloats.SidesWait 0 (comparedFloats.fork 0) [] ∧
      (comparedFloats.fork 0).test.holds notNumbers = false ∧
      (comparedFloats.stack 1).items.map (word notNumbers) = [0] ∧
      (comparedFloats.stack 2).items.map (word notNumbers) = [1] ∧
      ∃ next, join .finish [1, 2] comparedFloats = .ok 0 next ∧
        (next.stack 0).items.map text = ["(x >= y)"] ∧
        (next.stack 0).items.map (word notNumbers) = [0] := by
  refine ⟨⟨rfl, rfl, rfl, by decide, by decide, ⟨_, rfl, rfl⟩, ⟨rfl, nofun⟩, nofun⟩,
    by decide +kernel, by decide +kernel, by decide +kernel, ?_⟩
  exact exists_of_gives (by decide +kernel)

end Workspace

end CilLift
