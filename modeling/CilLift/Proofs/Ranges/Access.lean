import CilLift.Proofs.Ranges

/-!
Steps that check what they look up before they do. In a workspace whose links and locals are in range
no check of a merge fails, so that merges never look up what is not there.
-/

namespace CilLift

open Work Workspace Regime

variable {id onTrue onFalse : StackId} {branch : BranchId}

/-- Steps that check what they look up. A failure without error is a look at something that is not
there. -/
abbrev Checked (σ : Type) := EStateM (Option Error) σ

namespace Checked

variable {σ α β : Type} {step : EStateM Error σ α} {checkedNext : β → Checked σ α}

/-- An outcome for which every lookup has found something. -/
def trusted : EStateM.Result Error σ α → EStateM.Result (Option Error) σ α
  | .ok result next => .ok result next
  | .error error stuck => .error (some error) stuck

/-- A step that looks at nothing but what has been checked. -/
def trust (step : EStateM Error σ α) : Checked σ α := fun state => trusted (step state)

def require (inside : Prop) [Decidable inside] : Checked σ Unit :=
  if inside then return () else throw none

def inside (id : StackId) : Checked Workspace Unit := do
  require (id < (← get).paths.length)

/-- A step on a path. -/
def onPath (id : StackId) (step : Work α) : Checked Workspace α := do
  inside id
  trust step

/-- A step on a local of a path. -/
def onSlot (id : StackId) (index : Nat) (step : Work α) : Checked Workspace α := do
  let space ← get
  require (id < space.paths.length ∧ index < (space.stack id).locals.length)
  trust step

def fork (branch : BranchId) : Checked Workspace Fork := do
  let space ← get
  require (branch < space.forks.length)
  return space.fork branch

def parent (id : StackId) : Checked Workspace (Option BranchId) :=
  onPath id do return (← get).parent id

def isEmpty (id : StackId) : Checked Workspace Bool :=
  onPath id do return ((← get).stack id).isEmpty

/-! The merges, with a check at every path, fork and local. -/

def joinSlot (test : Expr) (onTrue onFalse target : StackId) (index : Nat) :
    Checked Workspace Unit := do
  let trueSlot ← onSlot onTrue index (slotOf onTrue index)
  let falseSlot ← onSlot onFalse index (slotOf onFalse index)
  if trueSlot.holdsSame falseSlot then
    onSlot target index (modify fun space => space.setSlot target index trueSlot)
  else
    let trueValue ← onSlot onTrue index (readLocal onTrue index)
    let falseValue ← onSlot onFalse index (readLocal onFalse index)
    match trueValue, falseValue with
    | some trueValue, some falseValue =>
      let value ← trust (liftM (Expr.condition test trueValue falseValue))
      onSlot target index (assignLocal target index value)
    | _, _ => onSlot target index (clearLocal target index)

def joinLocals (test : Expr) (onTrue onFalse target : StackId) : Checked Workspace Unit := do
  let count ← onPath target do return ((← get).stack target).locals.length
  (List.range count).forM (joinSlot test onTrue onFalse target)

def joinValues (label : Label) (branch : BranchId) (fork : Fork) : Checked Workspace Unit := do
  let trueValue ← onPath fork.onTrue (pop? fork.onTrue)
  let falseValue ← onPath fork.onFalse (pop? fork.onFalse)
  match trueValue, falseValue with
  | some trueValue, some falseValue =>
    let value ← trust (liftM (Expr.condition fork.test trueValue falseValue))
    onPath fork.parent (push fork.parent value)
  | none, none => return ()
  | _, _ => throw (some (.shape (.oneSidedValue branch label)))

def joinSides (label : Label) (branch : BranchId) : Checked Workspace StackId := do
  let fork ← Checked.fork branch
  onPath fork.parent (popPlaceholder label fork.parent branch)
  joinValues label branch fork
  joinLocals fork.test fork.onTrue fork.onFalse fork.parent
  onPath fork.onTrue (markReduced fork.onTrue)
  onPath fork.onFalse (markReduced fork.onFalse)
  return fork.parent

def regraft (label : Label) (old : BranchId) (parent : StackId) (test : Expr)
    (onTrue onFalse : StackId) : Checked Workspace Unit := do
  inside onTrue
  inside onFalse
  let new ← trust (refork parent test onTrue onFalse)
  onPath parent (popPlaceholder label parent old)
  onPath parent (pushUntracked parent (.mkBranch new))

def joinDiamond (label : Label) (first second : StackId) (firstBranch secondBranch : BranchId) :
    Checked Workspace (Option StackId) := do
  let firstFork ← fork firstBranch
  let secondFork ← fork secondBranch
  match ← parent firstFork.parent, ← parent secondFork.parent with
  | some root, some otherRoot =>
    if root = otherRoot then
      let rootFork ← fork root
      let firstOnTrue := firstFork.onTrue == first
      let secondOnTrue := secondFork.onTrue == second
      let firstTest ← trust (liftM (testOrNegation firstFork firstOnTrue))
      let firstSibling := firstFork.side !firstOnTrue
      let secondSibling := secondFork.side !secondOnTrue
      onPath secondSibling (markReduced secondSibling)
      let secondTest ← trust (liftM (testOrNegation secondFork secondOnTrue))
      let rootTest ←
        trust (liftM (testOrNegation rootFork (rootFork.onTrue == firstFork.parent)))
      let rootTest ← trust (place rootTest)
      joinLocals rootTest first second first
      joinLocals rootTest firstSibling secondSibling firstSibling
      let test ← trust (liftM (Expr.condition rootTest firstTest secondTest))
      regraft label root rootFork.parent test first firstSibling
      return some first
    else return none
  | _, _ => return none

def joinNested (label : Label) (older younger : StackId) (olderBranch youngerBranch : BranchId) :
    Checked Workspace StackId := do
  let olderFork ← fork olderBranch
  let youngerFork ← fork youngerBranch
  let onTrue := olderFork.onTrue == older
  let isAligned := youngerFork.side onTrue == younger
  let other := youngerFork.side (if isAligned then !onTrue else onTrue)
  let test ← trust (liftM (nestedTest olderFork youngerFork onTrue isAligned))
  joinLocals olderFork.test (if onTrue then older else younger) (if onTrue then younger else older) older
  regraft label olderBranch olderFork.parent test older other
  return older

def depthWithin : Nat → StackId → Checked Workspace Nat
  | 0, _ => throw (some .cyclicForks)
  | limit + 1, id => do
    match ← parent id with
    | none => return 0
    | some branch => return (← depthWithin limit (← fork branch).parent) + 1

def joinPair (label : Label) (first second : StackId) : Checked Workspace (Option StackId) := do
  let limit := (← get).paths.length + 1
  let firstDepth ← depthWithin limit first
  let secondDepth ← depthWithin limit second
  let bothEmpty := (← isEmpty first) && (← isEmpty second)
  match ← parent first, ← parent second with
  | some firstBranch, some secondBranch =>
    if firstDepth = secondDepth then
      if firstBranch = secondBranch then return some (← joinSides label firstBranch)
      else if bothEmpty then joinDiamond label first second firstBranch secondBranch
      else return none
    else if bothEmpty then
      if secondDepth < firstDepth then
        return some (← joinNested label second first secondBranch firstBranch)
      else return some (← joinNested label first second firstBranch secondBranch)
    else return none
  | _, _ => return none

def joinAll (label : Label) (latest : StackId) : List StackId → Checked Workspace StackId
  | [] => return latest
  | first :: rest => do
    match ← joinPair label first latest with
    | some merged => joinAll label merged rest
    | none =>
      let first ← joinAll label first rest
      match ← joinPair label first latest with
      | some merged => return merged
      | none => throw (some (.unmergedPaths label))

def join (label : Label) (waiting : List StackId) : Checked Workspace StackId :=
  match waiting.reverse with
  | [] => throw (some (.shape (.noWaiter label)))
  | latest :: earlier => joinAll label latest earlier

/-! A checked step that does what a step does. -/

/-- No check fails: the checked step does what the step does. -/
def Matches (checked : Checked σ α) (step : EStateM Error σ α) (state : σ) : Prop :=
  checked state = trust step state

theorem matches_trust (step : EStateM Error σ α) (state : σ) : Matches (trust step) step state := rfl

theorem matches_pure (result : α) (state : σ) :
    Matches (pure result) (pure result : EStateM Error σ α) state := rfl

theorem matches_throw (error : Error) (state : σ) :
    Matches (throw (some error) : Checked σ α) (throw error) state := rfl

theorem trust_of_ok {state next : σ} {result : α}
    (success : step state = .ok result next) : trust step state = .ok result next := by
  rw [trust, success]
  rfl

theorem trust_of_error {state stuck : σ} {error : Error}
    (failed : step state = .error error stuck) : trust step state = .error (some error) stuck := by
  rw [trust, failed]
  rfl

theorem Matches.andThen {checked : Checked σ β} {step : EStateM Error σ β} {next : β → EStateM Error σ α}
    {state : σ} (first : Matches checked step state) (later : ∀ result after, step state = .ok result after →
      Matches (checkedNext result) (next result) after) :
    Matches (checked >>= checkedNext) (step >>= next) state := by
  unfold Matches at first ⊢
  cases outcome : step state with
  | ok result after =>
    rw [andThen_of_ok (first.trans (trust_of_ok outcome)), later result after outcome]
    unfold trust
    rw [andThen_of_ok outcome]
  | error error stuck =>
    rw [andThen_of_error (first.trans (trust_of_error outcome)),
      trust_of_error (andThen_of_error outcome)]

theorem Matches.after {checked : Checked σ β} {state : σ} {result : β}
    (found : checked state = .ok result state) (later : Matches (checkedNext result) step state) :
    Matches (checked >>= checkedNext) step state := by
  unfold Matches
  rw [andThen_of_ok found, later]

theorem Matches.get {checked : Checked σ α} {step : σ → EStateM Error σ α} {state : σ}
    (later : Matches checked (step state) state) : Matches checked (get >>= step) state :=
  later

theorem Matches.look {checked : σ → Checked σ α} {state : σ}
    (later : Matches (checked state) step state) :
    Matches (MonadState.get >>= checked) step state :=
  later

theorem matches_lift {value : Except Error β} {next : β → EStateM Error σ α} {state : σ}
    (later : ∀ result, Matches (checkedNext result) (next result) state) :
    Matches (trust (liftM value) >>= checkedNext) (liftM value >>= next) state := by
  refine (matches_trust _ state).andThen fun result after lifts => ?_
  obtain ⟨-, rfl⟩ := liftM_eq_ok.1 lifts
  exact later result

/-- A loop whose body no check fails in, while an invariant holds. -/
theorem matches_forM {items : List β} {checkedBody : β → Checked σ Unit}
    {body : β → EStateM Error σ Unit} (invariant : σ → Prop)
    (each : ∀ item ∈ items, ∀ state, invariant state →
      Matches (checkedBody item) (body item) state ∧
        ∀ result next, body item state = .ok result next → invariant next) {state : σ}
    (start : invariant state) : Matches (items.forM checkedBody) (items.forM body) state := by
  induction items generalizing state with
  | nil => exact matches_pure () state
  | cons item rest ih =>
    obtain ⟨first, held⟩ := each item (by simp) state start
    refine first.andThen fun result next outcome => ?_
    exact ih (fun later mem => each later (by simp [mem])) (held result next outcome)

theorem require_eq {inside : Prop} [Decidable inside] (holds : inside) (state : σ) :
    require inside state = .ok () state := by
  rw [require, if_pos holds]
  rfl

variable {space : Workspace} {slotCount : Nat}

theorem inside_eq (isPath : id < space.paths.length) : inside id space = .ok () space :=
  require_eq isPath space

theorem matches_onPath (isPath : id < space.paths.length) (step : Work α) :
    Matches (onPath id step) step space :=
  .after (inside_eq isPath) (matches_trust step space)

theorem matches_onSlot (inRange : space.InRange slotCount) {index : Nat}
    (isPath : id < space.paths.length) (isSlot : index < slotCount) (step : Work α) :
    Matches (onSlot id index step) step space := by
  have isLocal : index < (space.stack id).locals.length := by
    rwa [inRange.length_locals isPath]
  exact .look (.after (require_eq ⟨isPath, isLocal⟩ space) (matches_trust step space))

theorem fork_eq (inside : branch < space.forks.length) :
    fork branch space = .ok (space.fork branch) space := by
  have isFork : require (branch < space.forks.length) space = .ok () space :=
    require_eq inside space
  exact andThen_of_ok isFork

theorem parent_eq (inside : id < space.paths.length) : parent id space = .ok (space.parent id) space :=
  matches_onPath inside _

theorem isEmpty_eq (inside : id < space.paths.length) :
    isEmpty id space = .ok (space.stack id).isEmpty space :=
  matches_onPath inside _

theorem Matches.kept {checked : Checked Workspace β} {step : Work β}
    {checkedNext : β → Checked Workspace α} {next : β → Work α} {middle : β → Workspace → Prop}
    (first : Matches checked step space) (kept : (ranges slotCount).Keeps step space middle)
    (later : ∀ result after, after.InRange slotCount →
      (∀ id, id < space.paths.length → id < after.paths.length) → middle result after →
      Matches (checkedNext result) (next result) after) :
    Matches (checked >>= checkedNext) (step >>= next) space :=
  first.andThen fun result after outcome =>
    have ⟨inRange, leads, reached⟩ := Ensures.of_ok kept outcome
    later result after inRange leads.valid reached

theorem Matches.ite {inside : Prop} [Decidable inside] {checked other : Checked σ α}
    {step second : EStateM Error σ α} {state : σ} (isTrue : Matches checked step state)
    (isFalse : Matches other second state) :
    Matches (if inside then checked else other) (if inside then step else second) state := by
  split
  · exact isTrue
  · exact isFalse

/-! Merges of workspaces in range. -/

section

variable (inRange : space.InRange slotCount) (label : Label)

include inRange

/-- A merge of one local stays in range. -/
theorem matches_joinSlot (test : Expr) {target : StackId} {index : Nat} (isSlot : index < slotCount)
    (trueInside : onTrue < space.paths.length) (falseInside : onFalse < space.paths.length)
    (targetInside : target < space.paths.length) :
    Matches (joinSlot test onTrue onFalse target index)
      (Work.joinSlot test onTrue onFalse target index) space := by
  have lawful : (ranges slotCount).Lawful := ranges_framed.lawful
  refine (matches_onSlot inRange trueInside isSlot _).andThen ?_
  rintro trueSlot _ ⟨⟩
  refine (matches_onSlot inRange falseInside isSlot _).andThen ?_
  rintro falseSlot _ ⟨⟩
  refine .ite (matches_onSlot inRange targetInside isSlot _) ?_
  refine (matches_onSlot inRange trueInside isSlot _).kept
    (lawful.readLocal space onTrue index inRange trueInside) ?_
  intro trueValue middle inRange stays _
  refine (matches_onSlot inRange (stays _ falseInside) isSlot _).kept
    (lawful.readLocal middle onFalse index inRange (stays _ falseInside)) ?_
  intro falseValue next inRange stays' _
  have targetInside := stays' _ (stays _ targetInside)
  cases trueValue with
  | none => exact matches_onSlot inRange targetInside isSlot _
  | some trueValue =>
    cases falseValue with
    | none => exact matches_onSlot inRange targetInside isSlot _
    | some falseValue => exact matches_lift fun _ => matches_onSlot inRange targetInside isSlot _

theorem matches_joinLocals (test : Expr) {target : StackId}
    (trueInside : onTrue < space.paths.length) (falseInside : onFalse < space.paths.length)
    (targetInside : target < space.paths.length) :
    Matches (joinLocals test onTrue onFalse target) (Work.joinLocals test onTrue onFalse target)
      space := by
  have lawful : (ranges slotCount).Lawful := ranges_framed.lawful
  refine Matches.after (matches_onPath targetInside _) ?_
  refine matches_forM (fun next => next.InRange slotCount ∧
    ∀ id, id < space.paths.length → id < next.paths.length) ?_ ⟨inRange, fun _ => id⟩
  intro index mem next ⟨nextInRange, stays⟩
  have isSlot : index < slotCount := by
    rw [← inRange.length_locals targetInside]
    exact List.mem_range.1 mem
  refine ⟨matches_joinSlot nextInRange test isSlot (stays _ trueInside) (stays _ falseInside)
    (stays _ targetInside), fun result after outcome => ?_⟩
  obtain ⟨held, leads, -⟩ := (lawful.joinSlot index nextInRange trivial (stays _ trueInside)
    (stays _ falseInside) (stays _ targetInside)).of_ok outcome
  exact ⟨held, fun id inside => leads.valid id (stays id inside)⟩

theorem matches_joinValues (branch : BranchId) {fork : Fork}
    (parentInside : fork.parent < space.paths.length)
    (trueInside : fork.onTrue < space.paths.length)
    (falseInside : fork.onFalse < space.paths.length) :
    Matches (joinValues label branch fork) (Work.joinValues label branch fork) space := by
  have lawful : (ranges slotCount).Lawful := ranges_framed.lawful
  refine (matches_onPath trueInside _).kept (lawful.pop space _ inRange trueInside) ?_
  intro trueValue middle inRange stays _
  refine (matches_onPath (stays _ falseInside) _).kept
    (lawful.pop middle _ inRange (stays _ falseInside)) ?_
  intro falseValue next inRange stays' _
  cases trueValue with
  | none =>
    cases falseValue with
    | none => exact matches_pure () next
    | some falseValue => exact matches_throw _ next
  | some trueValue =>
    cases falseValue with
    | none => exact matches_throw _ next
    | some falseValue =>
      exact matches_lift fun _ => matches_onPath (stays' _ (stays _ parentInside)) _

theorem fork_inside (isSide : space.parent id = some branch) :
    branch < space.forks.length ∧ (space.fork branch).parent < space.paths.length ∧
      (space.fork branch).onTrue < space.paths.length ∧
      (space.fork branch).onFalse < space.paths.length := by
  have isFork := inRange.linked.branch id branch (by rwa [← parent_outline])
  refine ⟨by simpa [outline] using isFork, ?_⟩
  exact ranges_framed.above space id branch inRange isSide

/-- A merge of two sides stays in range. -/
theorem matches_joinSides (isSide : space.parent id = some branch) :
    Matches (joinSides label branch) (Work.joinSides label branch) space := by
  have lawful : (ranges slotCount).Lawful := ranges_framed.lawful
  obtain ⟨isFork, parentInside, trueInside, falseInside⟩ := fork_inside inRange isSide
  refine Matches.after (fork_eq isFork) ?_
  refine (matches_onPath parentInside _).kept (lawful.popPlaceholder label branch inRange parentInside) ?_
  intro _ popped inRange stays _
  replace parentInside := stays _ parentInside
  replace trueInside := stays _ trueInside
  replace falseInside := stays _ falseInside
  refine (matches_joinValues inRange label branch parentInside trueInside falseInside).kept
    (lawful.joinValues label branch inRange trivial parentInside trueInside falseInside) ?_
  intro _ valued inRange stays _
  replace parentInside := stays _ parentInside
  replace trueInside := stays _ trueInside
  replace falseInside := stays _ falseInside
  refine (matches_joinLocals inRange _ trueInside falseInside parentInside).kept
    (lawful.joinLocals inRange trivial trueInside falseInside parentInside) ?_
  intro _ joined inRange stays _
  refine (matches_onPath (stays _ trueInside) _).kept (lawful.markReduced joined _ inRange) ?_
  intro _ marked inRange stays' _
  exact (matches_onPath (stays' _ (stays _ falseInside)) _).andThen fun _ final _ =>
    matches_pure _ final

theorem matches_regraft (old : BranchId) (test : Expr) {parent : StackId}
    (parentInside : parent < space.paths.length) (trueInside : onTrue < space.paths.length)
    (falseInside : onFalse < space.paths.length) :
    Matches (regraft label old parent test onTrue onFalse)
      (Work.regraft label old parent test onTrue onFalse) space := by
  have lawful : (ranges slotCount).Lawful := ranges_framed.lawful
  refine .after (inside_eq trueInside) (.after (inside_eq falseInside) ?_)
  refine (matches_trust _ space).kept (ranges_joins.reforks space parent test onTrue
    onFalse inRange parentInside trueInside falseInside trivial) ?_
  intro new reforked inRange stays _
  refine (matches_onPath (stays _ parentInside) _).kept
    (lawful.popPlaceholder label old inRange (stays _ parentInside)) ?_
  intro _ popped _ stays' _
  exact matches_onPath (stays' _ (stays _ parentInside)) _

/-- A merge of four sides asks for paths and locals in range only. -/
theorem matches_joinDiamond {first second : StackId}
    {firstBranch secondBranch : BranchId} (firstSide : space.parent first = some firstBranch)
    (secondSide : space.parent second = some secondBranch)
    (firstInside : first < space.paths.length) (secondInside : second < space.paths.length) :
    Matches (joinDiamond label first second firstBranch secondBranch)
      (Work.joinDiamond label first second firstBranch secondBranch) space := by
  have lawful : (ranges slotCount).Lawful := ranges_framed.lawful
  obtain ⟨isFirst, firstParent, firstTrue, firstFalse⟩ := fork_inside inRange firstSide
  obtain ⟨isSecond, secondParent, secondTrue, secondFalse⟩ := fork_inside inRange secondSide
  have firstSides : ∀ onTrue, (space.fork firstBranch).side onTrue < space.paths.length := by
    intro onTrue
    cases onTrue <;> assumption
  have secondSides : ∀ onTrue, (space.fork secondBranch).side onTrue < space.paths.length := by
    intro onTrue
    cases onTrue <;> assumption
  refine .get (.after (fork_eq isFirst) (.after (fork_eq isSecond)
    (.after (parent_eq firstParent) (.after (parent_eq secondParent) ?_))))
  dsimp only
  cases isRoot : space.parent (space.fork firstBranch).parent with
  | none => exact matches_pure none space
  | some root =>
    cases isOtherRoot : space.parent (space.fork secondBranch).parent with
    | none => exact matches_pure none space
    | some otherRoot =>
      refine .ite ?_ (matches_pure none space)
      obtain ⟨isFork, rootParent, -, -⟩ := fork_inside inRange isRoot
      refine .after (fork_eq isFork) (matches_lift fun firstTest => ?_)
      refine (matches_onPath (secondSides _) _).kept (lawful.markReduced space _ inRange) ?_
      intro _ marked inRange stays _
      refine matches_lift fun secondTest => matches_lift fun rootTest => ?_
      refine (matches_trust _ marked).kept (lawful.place marked rootTest inRange trivial) ?_
      intro placed next inRange stays' _
      replace stays := fun id inside => stays' id (stays id inside)
      refine (matches_joinLocals inRange placed (stays _ firstInside) (stays _ secondInside)
        (stays _ firstInside)).kept (lawful.joinLocals inRange trivial (stays _ firstInside)
          (stays _ secondInside) (stays _ firstInside)) ?_
      intro _ joined inRange stays' _
      replace stays := fun id inside => stays' id (stays id inside)
      refine (matches_joinLocals inRange placed (stays _ (firstSides _)) (stays _ (secondSides _))
        (stays _ (firstSides _))).kept (lawful.joinLocals inRange trivial
          (stays _ (firstSides _)) (stays _ (secondSides _)) (stays _ (firstSides _))) ?_
      intro _ final inRange stays' _
      replace stays := fun id inside => stays' id (stays id inside)
      refine matches_lift fun test => ?_
      exact (matches_regraft inRange label root test (stays _ rootParent) (stays _ firstInside)
        (stays _ (firstSides _))).andThen fun _ done _ => matches_pure _ done

/-- A merge of nested forks stays in range. -/
theorem matches_joinNested {older younger : StackId}
    {olderBranch youngerBranch : BranchId} (olderSide : space.parent older = some olderBranch)
    (youngerSide : space.parent younger = some youngerBranch)
    (olderInside : older < space.paths.length) (youngerInside : younger < space.paths.length) :
    Matches (joinNested label older younger olderBranch youngerBranch)
      (Work.joinNested label older younger olderBranch youngerBranch) space := by
  have lawful : (ranges slotCount).Lawful := ranges_framed.lawful
  obtain ⟨isOlder, olderParent, -, -⟩ := fork_inside inRange olderSide
  obtain ⟨isYounger, -, youngerTrue, youngerFalse⟩ := fork_inside inRange youngerSide
  have sides : ∀ onTrue, (space.fork youngerBranch).side onTrue < space.paths.length := by
    intro onTrue
    cases onTrue <;> assumption
  have pick : ∀ onTrue : Bool, (if onTrue then older else younger) < space.paths.length ∧
      (if onTrue then younger else older) < space.paths.length := by
    intro onTrue
    cases onTrue <;> exact ⟨‹_›, ‹_›⟩
  refine .get (.after (fork_eq isOlder) (.after (fork_eq isYounger) (matches_lift fun test => ?_)))
  obtain ⟨trueInside, falseInside⟩ := pick ((space.fork olderBranch).onTrue == older)
  refine (matches_joinLocals inRange _ trueInside falseInside olderInside).kept
    (lawful.joinLocals inRange trivial trueInside falseInside olderInside) ?_
  intro _ joined inRange stays _
  exact (matches_regraft inRange label olderBranch test (stays _ olderParent) (stays _ olderInside)
    (stays _ (sides _))).andThen fun _ final _ => matches_pure _ final

/-- The climb to the root finds every path and fork on its way. -/
theorem depthWithin_eq (limit : Nat) (inside : id < space.paths.length) :
    depthWithin limit id space =
      match space.depthWithin? limit id with
      | some depth => .ok depth space
      | none => .error (some .cyclicForks) space := by
  induction limit generalizing id with
  | zero => rfl
  | succ limit ih =>
    rw [depthWithin, andThen_of_ok (parent_eq inside), depthWithin?]
    cases isSide : space.parent id with
    | none => rfl
    | some branch =>
      obtain ⟨isFork, parentInside, -, -⟩ := fork_inside inRange isSide
      dsimp only
      rw [andThen_of_ok (fork_eq isFork)]
      have climbed := ih parentInside
      cases found : space.depthWithin? limit (space.fork branch).parent with
      | none =>
        rw [found] at climbed
        exact andThen_of_error climbed
      | some depth =>
        rw [found] at climbed
        exact andThen_of_ok climbed

theorem matches_depthWithin (inside : id < space.paths.length) :
    Matches (depthWithin (space.paths.length + 1) id) (depthOf id) space := by
  refine .get ?_
  unfold Matches
  rw [depthWithin_eq inRange _ inside, depth?]
  cases space.depthWithin? (space.paths.length + 1) id <;> rfl

end

theorem eq_of_depthOf {next : Workspace} {depth : Nat}
    (found : depthOf id space = .ok depth next) : next = space := by
  have unchanged : Ensures (fun _ => True) (depthOf id) space fun _ next => next = space := by
    refine ensures_bind.2 (ensures_get.2 ?_)
    split
    · rfl
    · trivial
  exact unchanged.of_ok found

/-- A merge of two paths stays in range. -/
theorem matches_joinPair (inRange : space.InRange slotCount) (label : Label)
    {first second : StackId} (firstInside : first < space.paths.length)
    (secondInside : second < space.paths.length) :
    Matches (joinPair label first second) (Work.joinPair label first second) space := by
  refine .look ((matches_depthWithin inRange firstInside).andThen ?_)
  intro firstDepth _ found
  cases eq_of_depthOf found
  refine (matches_depthWithin inRange secondInside).andThen ?_
  intro secondDepth _ found
  cases eq_of_depthOf found
  refine .get (.after (isEmpty_eq firstInside) (.after (isEmpty_eq secondInside)
    (.after (parent_eq firstInside) (.after (parent_eq secondInside) ?_))))
  cases firstSide : space.parent first with
  | none => exact matches_pure none space
  | some firstBranch =>
    cases secondSide : space.parent second with
    | none => exact matches_pure none space
    | some secondBranch =>
      refine .ite (.ite ?_ (.ite ?_ (matches_pure none space)))
        (.ite (.ite ?_ ?_) (matches_pure none space))
      · exact (matches_joinSides inRange label firstSide).andThen fun _ next _ => matches_pure _ next
      · exact matches_joinDiamond inRange label firstSide secondSide firstInside secondInside
      · exact (matches_joinNested inRange label secondSide firstSide secondInside
          firstInside).andThen fun _ next _ => matches_pure _ next
      · exact (matches_joinNested inRange label firstSide secondSide firstInside
          secondInside).andThen fun _ next _ => matches_pure _ next

/-- The merges at one label stay in range. -/
theorem matches_joinAll (inRange : space.InRange slotCount) (label : Label) {latest : StackId}
    {rest : List StackId} (latestInside : latest < space.paths.length)
    (restInside : ∀ id ∈ rest, id < space.paths.length) :
    Matches (joinAll label latest rest) (Work.joinAll label latest rest) space := by
  have lawful : (ranges slotCount).Lawful := ranges_framed.lawful
  have merges : ∀ {space : Workspace} (first second : StackId),
      (ranges slotCount).Merges label first second space := fun first second =>
    ranges_joins.merges label first second
  induction rest generalizing latest space with
  | nil => exact matches_pure latest space
  | cons first rest ih =>
    have firstInside := restInside first (by simp)
    refine (matches_joinPair inRange label firstInside latestInside).kept
      (merges first latest inRange firstInside latestInside) ?_
    intro joined next inRange stays joinedInside
    have restInside : ∀ id ∈ rest, id < next.paths.length := fun id mem =>
      stays id (restInside id (by simp [mem]))
    cases joined with
    | some joined => exact ih inRange (joinedInside joined rfl) restInside
    | none =>
      have firstInside := stays _ firstInside
      refine (ih inRange firstInside restInside).kept
        (lawful.joinAll inRange firstInside restInside fun left right _ _ => merges left right) ?_
      intro joined final inRange stays' joinedInside
      have latestInside := stays' _ (stays _ latestInside)
      refine (matches_joinPair inRange label joinedInside latestInside).andThen ?_
      intro merged last _
      cases merged with
      | some merged => exact matches_pure merged last
      | none => exact matches_throw _ last

theorem matches_join (inRange : space.InRange slotCount) (label : Label)
    {waiting : List StackId} (inside : ∀ id ∈ waiting, id < space.paths.length) :
    Matches (join label waiting) (Work.join label waiting) space := by
  have inReverse : ∀ id ∈ waiting.reverse, id < space.paths.length := fun id mem =>
    inside id (List.mem_reverse.1 mem)
  unfold join Work.join
  cases reversed : waiting.reverse with
  | nil => exact matches_throw _ space
  | cons latest earlier =>
    rw [reversed] at inReverse
    exact matches_joinAll inRange label (inReverse latest (by simp))
      fun id mem => inReverse id (by simp [mem])

end Checked

end CilLift
