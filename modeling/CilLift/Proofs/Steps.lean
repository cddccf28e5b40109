import CilLift.Machine.Run
import CilLift.Proofs.Outcome
import CilLift.Proofs.Stacks

/-! What single steps of a machine do to the path that they work on, and when they succeed. -/

namespace CilLift

open Work Workspace

variable {label : Label}

namespace Workspace

variable {space : Workspace} {id : StackId} {top : Expr} {items rest : List Expr}

theorem inside_of_items (found : (space.stack id).items = top :: rest) : id < space.paths.length := by
  by_contra outside
  rw [stack_eq_default outside] at found
  cases found

theorem items_withItems_self (inside : id < space.paths.length) :
    ((space.withItems id items).stack id).items = items := by
  rw [items_withItems, if_pos ⟨rfl, inside⟩]

/-- The workspace in which a path holds a value on top of `rest`; the value is placed and goes on
record. -/
def withTop (space : Workspace) (id : StackId) (value : Expr) (rest : List Expr) : Workspace :=
  let placed := space.emission.place value
  withItems { space with emission := placed.2.track placed.1 } id (placed.1 :: rest)

theorem withTop_withItems (space : Workspace) (id : StackId) (value : Expr)
    (items rest : List Expr) :
    (space.withItems id items).withTop id value rest = space.withTop id value rest := by
  let placed := space.emission.place value
  exact withItems_withItems { space with emission := placed.2.track placed.1 } id items (placed.1 :: rest)

theorem length_withTop (space : Workspace) (id : StackId) (value : Expr) (rest : List Expr) :
    (space.withTop id value rest).paths.length = space.paths.length :=
  length_modifyStack ..

theorem stack_withTop (space : Workspace) (id other : StackId) (value : Expr)
    (rest : List Expr) :
    (space.withTop id value rest).stack other = if id = other ∧ id < space.paths.length then
        { space.stack id with items := (space.emission.place value).1 :: rest }
      else space.stack other :=
  stack_modifyStack ..

theorem pop?_eq (found : (space.stack id).items = top :: rest) :
    pop? id space = .ok (some top) (space.withItems id rest) := by
  change EStateM.Result.ok _ _ = _
  rw [found]
  rfl

theorem pop?_nil (found : (space.stack id).items = []) : pop? id space = .ok none space := by
  change EStateM.Result.ok _ _ = _
  rw [found]

end Workspace

namespace Machine

variable {machine next : Machine} {path : StackId} {consumer : String}

/-- What the path that is followed holds, top first. -/
def items (machine : Machine) : List Expr :=
  match machine.current with
  | some path => (machine.workspace.stack path).items
  | none => []

theorem items_of_current (isCurrent : machine.current = some path) :
    machine.items = (machine.workspace.stack path).items := by
  rw [items, isCurrent]

/-- Gives a path of the machine other items. -/
def withItems (machine : Machine) (path : StackId) (items : List Expr) : Machine :=
  { machine with workspace := machine.workspace.withItems path items }

theorem work_of_ok {α : Type} {step : Work α} {result : α} {space : Workspace}
    (success : step machine.workspace = .ok result space) :
    work step machine = .ok result { machine with workspace := space } := by
  unfold work
  rw [success]

theorem onCurrent_eq (instruction : StackId → Run Unit) (isCurrent : machine.current = some path) :
    onCurrent instruction machine = instruction path machine := by
  refine (andThen_of_ok rfl).trans ?_
  rw [isCurrent]

theorem step_plain {task : Task} {opcode : Opcode} {operation : StackOperation}
    (isCurrent : machine.current = some path) (isOperation : stackOperation? opcode = some operation) :
    step task (.plain opcode) machine = operate task path operation machine := by
  refine (onCurrent_eq _ isCurrent).trans ?_
  rw [runPlain, isOperation]

theorem pop_cons {top : Expr} {rest : List Expr}
    (found : (machine.workspace.stack path).items = top :: rest) :
    pop path consumer machine =
      if top.branch?.isSome then malformed (.branchConsumed consumer) (machine.withItems path rest)
      else .ok top (machine.withItems path rest) := by
  unfold pop
  rw [andThen_of_ok (work_of_ok (pop?_eq found))]
  dsimp only
  cases top.branch? <;> rfl

theorem pop_nil (found : (machine.workspace.stack path).items = []) :
    pop path consumer machine = malformed (.stackUnderflow consumer) machine := by
  unfold pop
  rw [andThen_of_ok (work_of_ok (pop?_nil found))]

theorem pop_eq_ok {value : Expr} :
    pop path consumer machine = .ok value next ↔ ∃ rest,
      (machine.workspace.stack path).items = value :: rest ∧ value.branch? = none ∧
        next = machine.withItems path rest := by
  cases found : (machine.workspace.stack path).items with
  | nil =>
    rw [pop_nil found]
    constructor
    · rintro ⟨⟩
    · rintro ⟨rest, ⟨⟩, -⟩
  | cons top rest =>
    rw [pop_cons found]
    constructor
    · split
      · rintro ⟨⟩
      · rename_i isValue
        rintro ⟨⟩
        exact ⟨rest, rfl, by simpa using isValue, rfl⟩
    · rintro ⟨_, ⟨⟩, isValue, rfl⟩
      rw [if_neg (by simp [isValue])]

theorem pop_again {items : List Expr} {value : Expr} (inside : path < machine.workspace.paths.length)
    (popped : pop path consumer (machine.withItems path items) = .ok value next) :
    ∃ rest, items = value :: rest ∧ value.branch? = none ∧ next = machine.withItems path rest := by
  obtain ⟨rest, found, isValue, rfl⟩ := pop_eq_ok.1 popped
  rw [withItems, items_withItems_self inside] at found
  refine ⟨rest, found, isValue, ?_⟩
  simp [withItems, withItems_withItems]

/-- The machine with a new value on top of a path. -/
def withTop (machine : Machine) (path : StackId) (value : Expr) (rest : List Expr) : Machine :=
  { machine with workspace := machine.workspace.withTop path value rest }

theorem push_eq (machine : Machine) (path : StackId) (value : Expr) :
    push path value machine = .ok () (machine.withTop path value (machine.workspace.stack path).items) :=
  work_of_ok (Workspace.push_eq ..)

theorem push_withItems {items : List Expr} (inside : path < machine.workspace.paths.length)
    (value : Expr) :
    push path value (machine.withItems path items) = .ok () (machine.withTop path value items) := by
  rw [push_eq, withItems, items_withItems_self inside]
  exact congrArg (fun space => EStateM.Result.ok () { machine with workspace := space })
    (withTop_withItems ..)

/-- An operation on two operands puts its outcome in their place. -/
theorem binary_eq_ok {build : Expr → Expr → Except Error Expr} :
    binary path consumer build machine = .ok () next ↔ ∃ right left rest value,
      (machine.workspace.stack path).items = right :: left :: rest ∧ right.branch? = none ∧
        left.branch? = none ∧ build left right = .ok value ∧
        next = machine.withTop path value rest := by
  constructor
  · intro performed
    obtain ⟨right, _, popped, performed⟩ := andThen_eq_ok.1 performed
    obtain ⟨items, found, rightValue, rfl⟩ := pop_eq_ok.1 popped
    have inside := inside_of_items found
    obtain ⟨left, _, popped, performed⟩ := andThen_eq_ok.1 performed
    obtain ⟨rest, rfl, leftValue, rfl⟩ := pop_again inside popped
    obtain ⟨value, _, builds, performed⟩ := andThen_eq_ok.1 performed
    obtain ⟨built, rfl⟩ := liftM_eq_ok.1 builds
    rw [push_withItems inside] at performed
    cases performed
    exact ⟨right, left, rest, value, found, rightValue, leftValue, built, rfl⟩
  · rintro ⟨right, left, rest, value, found, rightValue, leftValue, built, rfl⟩
    have inside := inside_of_items found
    have popsRight : pop path consumer machine = .ok right (machine.withItems path (left :: rest)) :=
      pop_eq_ok.2 ⟨_, found, rightValue, rfl⟩
    have popsLeft : pop path consumer (machine.withItems path (left :: rest)) =
        .ok left (machine.withItems path rest) := by
      refine pop_eq_ok.2 ⟨rest, items_withItems_self inside, leftValue, ?_⟩
      simp [withItems, withItems_withItems]
    unfold binary
    rw [andThen_of_ok popsRight, andThen_of_ok popsLeft, andThen_of_ok (liftM_eq_ok.2 ⟨built, rfl⟩),
      push_withItems inside]

theorem arriveAt_idle (idle : (machine.waiters.any fun waiter => waiter.1 == label) = false) :
    arriveAt label machine = .ok () machine := by
  change (if (machine.waiters.any fun waiter => waiter.1 == label) = true then _ else _ : Run Unit)
    machine = _
  rw [idle]
  rfl

/-- The paths that meet at a label are joined, and the merged one goes on. -/
theorem arriveAt_of_join {joined : StackId} {space : Workspace}
    (waits : (machine.waiters.any fun waiter => waiter.1 == label) = true)
    (joins : join label (machine.meeting label) machine.workspace = .ok joined space) :
    arriveAt label machine = .ok () { machine with
      workspace := space
      waiters := machine.waiters.filter fun waiter => waiter.1 != label
      current := some joined } := by
  change (if (machine.waiters.any fun waiter => waiter.1 == label) = true then _ else _ : Run Unit)
    machine = _
  rw [waits]
  cases meets : machine.meeting label with
  | nil =>
    rw [meets] at joins
    cases joins
  | cons first rest =>
    rw [meets] at joins
    let waiters := machine.waiters.filter fun waiter => waiter.1 != label
    have works : work (join label (first :: rest)) { machine with waiters } =
        .ok joined { machine with workspace := space, waiters } := work_of_ok joins
    exact (andThen_of_ok rfl).trans (andThen_of_ok works)

theorem arriveAt_single (isWaiting : machine.waiters = [(label, path)])
    (isAlone : machine.current = none)
    (isActive : (machine.workspace.stack path).isReduced = false) :
    arriveAt label machine = .ok () { machine with waiters := [], current := some path } := by
  have meets : machine.meeting label = [path] := by
    simp [meeting, isWaiting, isAlone, isActive]
  have waits : (machine.waiters.any fun waiter => waiter.1 == label) = true := by
    simp [isWaiting]
  have remaining : (machine.waiters.filter fun waiter => waiter.1 != label) = [] := by
    simp [isWaiting]
  rw [arriveAt_of_join waits (by rw [meets]; rfl), remaining]

/-- An element is stored where two copies of an array are below it and its position, and a new array
takes their place. -/
theorem storeElement_eq_ok (stored : storeElement path machine = .ok () next) :
    ∃ value position header elements duplicated rest, ∃ (index : Nat) (coerced : Expr),
      (machine.workspace.stack path).items =
        value :: position :: .array header elements :: duplicated :: rest ∧
      duplicated.isSame (.array header elements) = true ∧
      value.coerce header.type.elementOrObject = .ok coerced ∧
      push path (.mkArray header.type.elementOrObject (elements.set index coerced))
        (machine.withItems path rest) = .ok () next := by
  obtain ⟨value, _, popped, stored⟩ := andThen_eq_ok.1 stored
  obtain ⟨items, found, -, rfl⟩ := pop_eq_ok.1 popped
  have inside := inside_of_items found
  obtain ⟨position, _, popped, stored⟩ := andThen_eq_ok.1 stored
  obtain ⟨items, rfl, -, rfl⟩ := pop_again inside popped
  obtain ⟨array, _, popped, stored⟩ := andThen_eq_ok.1 stored
  obtain ⟨items, rfl, -, rfl⟩ := pop_again inside popped
  cases isIndex : int32Literal? position with
  | none =>
    rw [isIndex] at stored
    cases stored
  | some index =>
    rw [isIndex] at stored
    cases array with
    | array header elements =>
      obtain ⟨duplicated, _, popped, stored⟩ := andThen_eq_ok.1 stored
      obtain ⟨rest, rfl, -, rfl⟩ := pop_again inside popped
      by_cases isSame : duplicated.isSame (.array header elements) = true
      · rw [if_pos isSame] at stored
        by_cases inRange : 0 ≤ index ∧ index < elements.length
        · rw [if_pos inRange] at stored
          obtain ⟨coerced, _, converts, stored⟩ := andThen_eq_ok.1 stored
          obtain ⟨isCoerced, rfl⟩ := liftM_eq_ok.1 converts
          exact ⟨value, position, header, elements, duplicated, rest, index.toNat, coerced, found,
            isSame, isCoerced, stored⟩
        · rw [if_neg inRange] at stored
          cases stored
      · rw [if_neg isSame] at stored
        cases stored
    | _ => cases stored

end Machine

end CilLift
