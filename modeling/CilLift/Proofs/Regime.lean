import CilLift.Proofs.Building
import CilLift.Proofs.Custody

/-!
Invariants of a workspace, given by what they ask of the steps that everything else is made of. What
such steps keep, forks, joins and instructions keep as well.
-/

namespace CilLift

open List Work Ensures

variable {id first second onTrue onFalse : StackId} {label : Label} {test : Expr}

/-- An invariant of workspaces, with what it says about the trees and paths at hand. -/
structure Regime where
  Holds : Workspace → Prop
  /-- The tree may be used in new ones. -/
  Sound : Workspace → Expr → Prop
  /-- The tree has become the value of some path. -/
  Produced : Workspace → Expr → Prop
  /-- The path may be worked on. -/
  Valid : Workspace → StackId → Prop
  /-- The error may end a step. -/
  Tolerates : Error → Prop

namespace Regime

variable {α β : Type} {regime : Regime} {space : Workspace}

/-- What could be used before can be used after. -/
structure Leads (regime : Regime) (before after : Workspace) : Prop where
  sound : ∀ expr, regime.Sound before expr → regime.Sound after expr
  produced : ∀ expr, regime.Produced before expr → regime.Produced after expr
  valid : ∀ id, regime.Valid before id → regime.Valid after id

/-- The tree may stand on a stack: a placeholder, or a value that has been produced. -/
def Item (regime : Regime) (space : Workspace) (expr : Expr) : Prop :=
  regime.Sound space expr ∧ (expr.branch? = none → regime.Produced space expr)

theorem Leads.refl (space : Workspace) : regime.Leads space space :=
  ⟨fun _ => id, fun _ => id, fun _ => id⟩

theorem Leads.trans {first second third : Workspace} (before : regime.Leads first second)
    (after : regime.Leads second third) : regime.Leads first third where
  sound expr isSound := after.sound expr (before.sound expr isSound)
  produced expr isProduced := after.produced expr (before.produced expr isProduced)
  valid id isValid := after.valid id (before.valid id isValid)

theorem Leads.item {before after : Workspace} (leads : regime.Leads before after) {expr : Expr}
    (isItem : regime.Item before expr) : regime.Item after expr :=
  ⟨leads.sound expr isItem.1, fun isValue => leads.produced expr (isItem.2 isValue)⟩

/-- The step leaves the invariant true and everything usable. -/
def Keeps (regime : Regime) (step : Work α) (space : Workspace) (post : α → Workspace → Prop) : Prop :=
  Ensures regime.Tolerates step space fun result next =>
    regime.Holds next ∧ regime.Leads space next ∧ post result next

section Keeps

variable {space : Workspace} {post : α → Workspace → Prop}

theorem Keeps.andThen {step : Work β} {second : β → Work α} {middle : β → Workspace → Prop}
    (kept : regime.Keeps step space middle)
    (next : ∀ result after, regime.Holds after → regime.Leads space after →
      middle result after → regime.Keeps (second result) after post) :
    regime.Keeps (step >>= second) space post :=
  Ensures.andThen kept fun result after ⟨holds, leads, done⟩ =>
    (next result after holds leads done).mono fun _ _ ⟨held, led, reached⟩ =>
      ⟨held, leads.trans led, reached⟩

theorem Keeps.mono {step : Work α} {weaker : α → Workspace → Prop}
    (kept : regime.Keeps step space post)
    (implies : ∀ result next, post result next → weaker result next) :
    regime.Keeps step space weaker :=
  Ensures.mono kept fun result next ⟨holds, leads, done⟩ =>
    ⟨holds, leads, implies result next done⟩

theorem keeps_slotOf {second : LocalSlot → Work α} {index : Nat}
    (kept : regime.Keeps (second (space.slot id index)) space post) :
    regime.Keeps (slotOf id index >>= second) space post :=
  ensures_bind.2 kept

end Keeps

/-- What the invariant asks of every step that makes no fork. -/
structure Lawful (regime : Regime) : Prop where
  closed : ∀ space, Expr.Closed (regime.Sound space)
  answer : ∀ error, Error.IsAnswer error → regime.Tolerates error
  sound_of_produced : ∀ space expr, regime.Produced space expr → regime.Sound space expr
  sound_store : ∀ space target value, target.isVar = false →
    regime.Sound space target → regime.Sound space value →
    regime.Sound space (.mkAssign target value)
  sound_branch : ∀ space branch, regime.Sound space (.mkBranch branch)
  test : ∀ space branch, regime.Holds space → regime.Sound space (space.fork branch).test
  item : ∀ space id item, regime.Holds space → item ∈ (space.stack id).items → regime.Item space item
  above : ∀ space id branch, regime.Holds space → space.parent id = some branch →
    regime.Valid space (space.fork branch).parent ∧ regime.Valid space (space.fork branch).onTrue ∧
      regime.Valid space (space.fork branch).onFalse
  place : ∀ space expr, regime.Holds space → regime.Sound space expr →
    regime.Keeps (place expr) space fun placed next => regime.Sound next placed
  push : ∀ space id expr, regime.Holds space → regime.Valid space id →
    regime.Sound space expr → regime.Keeps (push id expr) space fun _ _ => True
  placeholder : ∀ space id branch, regime.Holds space → regime.Valid space id →
    regime.Keeps (pushUntracked id (.mkBranch branch)) space fun _ _ => True
  pop : ∀ space id, regime.Holds space → regime.Valid space id →
    regime.Keeps (pop? id) space fun found next =>
      ∀ value, found = some value → regime.Item next value
  setItems : ∀ space id items, regime.Holds space → regime.Valid space id →
    (∀ item ∈ items, regime.Item space item) →
    regime.Keeps (modify fun space => space.modifyStack id fun stack =>
      { stack with items }) space fun _ _ => True
  markReduced : ∀ space id, regime.Holds space → regime.Keeps (markReduced id) space fun _ _ => True
  readLocal : ∀ space id index, regime.Holds space → regime.Valid space id →
    regime.Keeps (readLocal id index) space fun found next =>
      ∀ value, found = some value → regime.Sound next value
  assignLocal : ∀ space id index value, regime.Holds space → regime.Valid space id →
    regime.Sound space value →
    regime.Keeps (assignLocal id index value) space fun _ _ => True
  clearLocal : ∀ space id index, regime.Holds space → regime.Valid space id →
    regime.Keeps (clearLocal id index) space fun _ _ => True
  copyLocal : ∀ space source target index, regime.Holds space →
    regime.Valid space source → regime.Valid space target →
    regime.Keeps (modify fun next => next.setSlot target index (space.slot source index))
      space fun _ _ => True
  addStatement : ∀ space value, regime.Holds space → regime.Produced space value →
    regime.Keeps (emit fun emission => ((), emission.addStatement value)) space fun _ _ => True
  statement : ∀ space effect, regime.Holds space → regime.Sound space effect → regime.Keeps (do
      let effect ← Work.place effect
      emit fun emission => ((), (emission.track effect).addStatement effect)) space
      fun _ _ => True
  materialize : ∀ space value, regime.Holds space → regime.Produced space value →
    regime.Keeps (emit fun emission =>
      let (name, emission) := emission.freshName
      emission.materialize value name) space fun bound next => regime.Produced next bound

/-- What the invariant asks of a fork. -/
def Forks (regime : Regime) : Prop :=
  ∀ space parent test, regime.Holds space → regime.Valid space parent → regime.Sound space test →
    regime.Keeps (newFork parent test) space fun branch next =>
      regime.Valid next (next.fork branch).onTrue ∧ regime.Valid next (next.fork branch).onFalse

/-- Merging the two paths keeps the invariant, if it holds and they may be worked on. -/
def Merges (regime : Regime) (label : Label) (first second : StackId) (space : Workspace) : Prop :=
  regime.Holds space → regime.Valid space first → regime.Valid space second →
    regime.Keeps (joinPair label first second) space fun joined next =>
      ∀ id, joined = some id → regime.Valid next id

/-- What the invariant asks of a new fork over existing paths. -/
def Reforks (regime : Regime) : Prop :=
  ∀ space parent test onTrue onFalse, regime.Holds space →
    regime.Valid space parent → regime.Valid space onTrue →
    regime.Valid space onFalse → regime.Sound space test →
    regime.Keeps (refork parent test onTrue onFalse) space fun _ _ => True

/-! The laws are laws for the trees at hand as well. -/

/-- What the invariant says about a tree at hand. -/
def Admits (regime : Regime) (space : Workspace) : Held → Prop
  | .item tree => regime.Item space tree
  | .made tree => regime.Sound space tree
  | .receiver _ => True

/-- The invariant holds, everything is usable that was so at the start, and so are the trees at
hand. -/
structure Attends (regime : Regime) (start space : Workspace) (shared : List Expr)
    (hand : List Held) : Prop where
  holds : regime.Holds space
  leads : regime.Leads start space
  shared : ∀ tree ∈ shared, regime.Sound space tree
  hand : ∀ held ∈ hand, regime.Admits space held

/-- The invariant together with the trees at hand, from a certain workspace on. -/
def custody (regime : Regime) (start : Workspace) : Custody where
  Holds := regime.Attends start
  Tolerates := regime.Tolerates

namespace Attends

variable {start space : Workspace} {shared : List Expr} {hand front : List Held} {held : Held}

theorem refl (holds : regime.Holds space) : regime.Attends space space [] [] :=
  ⟨holds, .refl space, nofun, nofun⟩

theorem cons_iff : regime.Attends start space shared (held :: hand) ↔
    regime.Admits space held ∧ regime.Attends start space shared hand := by
  constructor
  · intro attends
    have ⟨admits, others⟩ := forall_mem_cons.1 attends.hand
    exact ⟨admits, { attends with hand := others }⟩
  · rintro ⟨admits, attends⟩
    exact { attends with hand := forall_mem_cons.2 ⟨admits, attends.hand⟩ }

theorem append_iff : regime.Attends start space shared (front ++ hand) ↔
    (∀ held ∈ front, regime.Admits space held) ∧ regime.Attends start space shared hand := by
  constructor
  · intro attends
    have ⟨admits, others⟩ := forall_mem_append.1 attends.hand
    exact ⟨admits, { attends with hand := others }⟩
  · rintro ⟨admits, attends⟩
    exact { attends with hand := forall_mem_append.2 ⟨admits, attends.hand⟩ }

theorem made_iff {parts : List Expr} :
    regime.Attends start space shared (parts.map .made ++ hand) ↔
      (∀ part ∈ parts, regime.Sound space part) ∧ regime.Attends start space shared hand :=
  append_iff.trans (and_congr_left' forall_mem_map)

section

variable (attends : regime.Attends start space shared hand)

include attends

theorem share {tree : Expr} (isSound : regime.Sound space tree) :
    regime.Attends start space (tree :: shared) hand :=
  { attends with shared := forall_mem_cons.2 ⟨isSound, attends.shared⟩ }

theorem next {after : Workspace} (holds : regime.Holds after) (leads : regime.Leads space after) :
    regime.Attends start after shared hand where
  holds := holds
  leads := attends.leads.trans leads
  shared tree mem := leads.sound tree (attends.shared tree mem)
  hand held mem := by
    have admits := attends.hand held mem
    cases held with
    | item => exact leads.item admits
    | made => exact leads.sound _ admits
    | receiver => trivial

theorem gains {step : Work α} {post : α → Workspace → Prop} {gain : α → List Held}
    (kept : regime.Keeps step space post)
    (admits : ∀ result next, post result next → ∀ held ∈ gain result, regime.Admits next held) :
    (regime.custody start).Keeps step space shared fun result => gain result ++ hand :=
  mono kept fun result next ⟨holds, leads, done⟩ =>
    append_iff.2 ⟨admits result next done, attends.next holds leads⟩

theorem keeps {step : Work α} {post : α → Workspace → Prop} (kept : regime.Keeps step space post) :
    (regime.custody start).Keeps step space shared fun _ => hand :=
  mono kept fun _ _ ⟨holds, leads, _⟩ => attends.next holds leads

end

end Attends

/-- A lawful regime is kept by all merges of paths. -/
theorem Lawful.custody (lawful : regime.Lawful) (start : Workspace) :
    (regime.custody start).Joins (regime.Valid start) (regime.Valid start) where
  answer := lawful.answer
  perm same attends :=
    { attends with hand := fun held mem => attends.hand held (same.mem_iff.2 mem) }
  drop attends := (Attends.cons_iff.1 attends).2
  use attends := Attends.cons_iff.2 ((Attends.cons_iff.1 attends).imp_left And.left)
  share _ attends := (Attends.cons_iff.1 attends).2.share (Attends.cons_iff.1 attends).1
  forget attends := { attends with shared := (forall_mem_cons.1 attends.shared).2 }
  lend mem attends := Attends.cons_iff.2 ⟨attends.shared _ mem, attends⟩
  build parts made attends := by
    have ⟨areSound, attends⟩ := Attends.made_iff.1 attends
    exact Attends.cons_iff.2 ⟨(lawful.closed _).made made areSound, attends⟩
  store notVar attends := by
    have ⟨targetSound, attends⟩ := Attends.cons_iff.1 attends
    have ⟨valueSound, attends⟩ := Attends.cons_iff.1 attends
    exact Attends.cons_iff.2 ⟨lawful.sound_store _ _ _ notVar targetSound valueSound, attends⟩
  call target method arguments attends := by
    have ⟨areSound, attends⟩ := Attends.made_iff.1 attends
    have ⟨targetSound, areSound⟩ := forall_mem_append.1 areSound
    refine Attends.cons_iff.2 ⟨(lawful.closed _).mkCall method ?_ areSound, attends⟩
    exact fun node isTarget => targetSound node (Option.mem_toList.2 isTarget)
  new constructor arguments attends := by
    have ⟨areSound, attends⟩ := Attends.made_iff.1 attends
    exact Attends.cons_iff.2 ⟨(lawful.closed _).mkNew constructor areSound, attends⟩
  invoke target arguments type attends := by
    have ⟨areSound, attends⟩ := Attends.made_iff.1 attends
    have ⟨targetSound, areSound⟩ := forall_mem_cons.1 areSound
    exact Attends.cons_iff.2 ⟨(lawful.closed _).mkInvoke type targetSound areSound, attends⟩
  place attends := by
    have ⟨isSound, attends⟩ := Attends.cons_iff.1 attends
    exact mono (lawful.place _ _ attends.holds isSound) fun _ _ ⟨holds, leads, isSound⟩ =>
      Attends.cons_iff.2 ⟨isSound, attends.next holds leads⟩
  push isValid attends := by
    have ⟨isSound, attends⟩ := Attends.cons_iff.1 attends
    exact attends.keeps (lawful.push _ _ _ attends.holds (attends.leads.valid _ isValid) isSound)
  pop isValid attends :=
    attends.gains (lawful.pop _ _ attends.holds (attends.leads.valid _ isValid))
      fun found _ isItem => by simpa [Admits] using isItem
  gather isValid attends := by
    have emptied : regime.Keeps (modify (Workspace.withItems · _ [])) _ _ :=
      lawful.setItems _ _ [] attends.holds (attends.leads.valid _ isValid) nofun
    obtain ⟨holds, leads, -⟩ := emptied
    refine Attends.append_iff.2 ⟨?_, attends.next holds leads⟩
    refine forall_mem_map.2 fun item mem => leads.item ?_
    exact lawful.item _ _ item attends.holds (mem_reverse.1 mem)
  scatter isValid _ attends := by
    have ⟨areItems, attends⟩ := Attends.append_iff.1 attends
    have filled : regime.Keeps (modify (Workspace.withItems · _ _)) _ _ :=
      lawful.setItems _ _ _ attends.holds (attends.leads.valid _ isValid) fun item mem =>
        forall_mem_map.1 areItems item (mem_reverse.2 mem)
    obtain ⟨holds, leads, -⟩ := filled
    exact attends.next holds leads
  readLocal index isValid attends :=
    attends.gains (lawful.readLocal _ _ index attends.holds (attends.leads.valid _ isValid))
      fun found _ isSound => by simpa [Admits] using isSound
  assignLocal index isValid attends := by
    have ⟨isSound, attends⟩ := Attends.cons_iff.1 attends
    exact attends.keeps
      (lawful.assignLocal _ _ index _ attends.holds (attends.leads.valid _ isValid) isSound)
  statement attends := by
    have ⟨isSound, attends⟩ := Attends.cons_iff.1 attends
    exact attends.keeps (lawful.statement _ _ attends.holds isSound)
  addStatement isValue attends := by
    have ⟨isItem, attends⟩ := Attends.cons_iff.1 attends
    exact attends.keeps (lawful.addStatement _ _ attends.holds (isItem.2 isValue))
  materialize isValue attends := by
    have ⟨isItem, attends⟩ := Attends.cons_iff.1 attends
    refine mono (lawful.materialize _ _ attends.holds (isItem.2 isValue)) ?_
    rintro bound next ⟨holds, leads, isProduced⟩
    exact Attends.cons_iff.2 ⟨⟨lawful.sound_of_produced _ _ isProduced, fun _ => isProduced⟩,
      attends.next holds leads⟩
  clearLocal index isValid attends :=
    attends.keeps (lawful.clearLocal _ _ index attends.holds (attends.leads.valid _ isValid))
  copyLocal index sourceValid targetValid attends :=
    attends.keeps (lawful.copyLocal _ _ _ index attends.holds (attends.leads.valid _ sourceValid)
      (attends.leads.valid _ targetValid))
  markReduced id attends := attends.keeps (lawful.markReduced _ id attends.holds)
  test branch attends := attends.share (lawful.test _ branch attends.holds)
  reshare part isShared made attends := attends.share ((lawful.closed _).made made (by
    simpa using attends.shared part isShared))
  placeShared attends := by
    have ⟨isSound, others⟩ := forall_mem_cons.1 attends.shared
    refine mono (lawful.place _ _ attends.holds isSound) fun placed next ⟨holds, leads, done⟩ => ?_
    exact (Attends.next { attends with shared := others } holds leads).share done

theorem keeps_of_custody {step : Work α} {shared : List Expr}
    {after : α → List Held} (kept : (regime.custody space).Keeps step space shared after) :
    regime.Keeps step space fun _ _ => True :=
  mono kept fun _ _ attends => ⟨attends.holds, attends.leads, trivial⟩

/-- The invariant holds, everything is usable that was so at the start, and the paths may be worked
on. -/
def Sustains (regime : Regime) (start space : Workspace) (ids : List StackId) : Prop :=
  regime.Holds space ∧ regime.Leads start space ∧ ∀ id ∈ ids, regime.Valid space id

theorem Merges.sustains {start space : Workspace}
    (merges : regime.Merges label first second space) :
    Work.Merges regime.Tolerates (regime.Sustains start) label first second space := by
  rintro others ⟨holds, leads, areValid⟩
  refine mono (merges holds (areValid first (by simp)) (areValid second (by simp))) ?_
  rintro (_ | joined) final ⟨holds, led, isValid⟩
  · exact ⟨holds, leads.trans led, fun id mem => led.valid id (areValid id mem)⟩
  · refine ⟨holds, leads.trans led, forall_mem_cons.2 ⟨isValid joined rfl, fun id mem => ?_⟩⟩
    exact led.valid id (areValid id (by simp [mem]))

theorem Sustains.fewer {start space : Workspace} {ids other : List StackId}
    (sustains : regime.Sustains start space ids) (fewer : other.Subperm ids) :
    regime.Sustains start space other :=
  ⟨sustains.1, sustains.2.1, fun id mem => sustains.2.2 id (fewer.subset mem)⟩

namespace Lawful

variable {space : Workspace} (lawful : regime.Lawful)

include lawful

theorem popPlaceholder (label : Label) (branch : BranchId) (holds : regime.Holds space)
    (isValid : regime.Valid space id) :
    regime.Keeps (popPlaceholder label id branch) space fun _ _ => True :=
  keeps_of_custody ((lawful.custody space).popPlaceholder label branch isValid (.refl holds))

theorem replacePlaceholder (label : Label) (old new : BranchId) (holds : regime.Holds space)
    (isValid : regime.Valid space id) :
    regime.Keeps (replacePlaceholder label id old new) space fun _ _ => True :=
  (lawful.popPlaceholder label old holds isValid).andThen fun _ next holds leads _ =>
    lawful.placeholder next id new holds (leads.valid id isValid)

theorem joinSlot {target : StackId} (index : Nat) (holds : regime.Holds space)
    (testSound : regime.Sound space test) (trueValid : regime.Valid space onTrue)
    (falseValid : regime.Valid space onFalse) (targetValid : regime.Valid space target) :
    regime.Keeps (joinSlot test onTrue onFalse target index) space fun _ _ => True :=
  keeps_of_custody ((lawful.custody space).joinSlot index mem_cons_self trueValid falseValid
    targetValid ((Attends.refl holds).share testSound))

theorem joinLocals {target : StackId} (holds : regime.Holds space)
    (testSound : regime.Sound space test) (trueValid : regime.Valid space onTrue)
    (falseValid : regime.Valid space onFalse) (targetValid : regime.Valid space target) :
    regime.Keeps (joinLocals test onTrue onFalse target) space fun _ _ => True :=
  keeps_of_custody ((lawful.custody space).joinLocals mem_cons_self trueValid falseValid
    targetValid ((Attends.refl holds).share testSound))

theorem joinValues (label : Label) (branch : BranchId) {fork : Fork}
    (holds : regime.Holds space) (testSound : regime.Sound space fork.test)
    (parentValid : regime.Valid space fork.parent)
    (trueValid : regime.Valid space fork.onTrue)
    (falseValid : regime.Valid space fork.onFalse) :
    regime.Keeps (joinValues label branch fork) space fun _ _ => True :=
  keeps_of_custody ((lawful.custody space).joinValues label branch mem_cons_self trueValid
    falseValid parentValid ((Attends.refl holds).share testSound))

/-- The two sides of a fork are joined into the path that forked. -/
theorem joinSides (label : Label) {branch : BranchId} (holds : regime.Holds space)
    (isSide : space.parent id = some branch) :
    regime.Keeps (joinSides label branch) space fun joined next =>
      joined = (space.fork branch).parent ∧ regime.Valid next joined := by
  have ⟨parentValid, trueValid, falseValid⟩ := lawful.above space id branch holds isSide
  have joins := lawful.custody space
  have attends := joins.test branch (Attends.refl holds)
  refine mono (joins.joinSides label branch rfl trueValid falseValid parentValid trueValid
    falseValid parentValid mem_cons_self (joins.popPlaceholder label branch parentValid attends)) ?_
  rintro _ next ⟨rfl, attends⟩
  exact ⟨attends.holds, attends.leads, rfl, attends.leads.valid _ parentValid⟩

theorem regraft (reforks : regime.Reforks) (label : Label) (old : BranchId) {parent : StackId}
    (holds : regime.Holds space) (parentValid : regime.Valid space parent)
    (trueValid : regime.Valid space onTrue) (falseValid : regime.Valid space onFalse)
    (testSound : regime.Sound space test) :
    regime.Keeps (regraft label old parent test onTrue onFalse) space fun _ _ => True :=
  (reforks space parent test onTrue onFalse holds parentValid trueValid falseValid
    testSound).andThen fun new _ holds leads _ =>
      lawful.replacePlaceholder label old new holds (leads.valid _ parentValid)

/-- Two paths are merged as the sides of their fork or by a new fork, or are left alone. -/
theorem joinPair {post : Option StackId → Workspace → Prop} (holds : regime.Holds space)
    (firstValid : regime.Valid space first) (secondValid : regime.Valid space second)
    (climbs : ∀ id, id = first ∨ id = second → space.depth? id = none → regime.Tolerates .cyclicForks)
    (apart : (∀ old kept moved, ¬space.Grafts first second old kept moved) →
      post none space) (sides : ∀ branch, space.parent first = some branch →
      space.parent second = some branch →
      Ensures regime.Tolerates (Work.joinSides label branch) space
        fun joined final => post (some joined) final)
    (grafted : ∀ old kept moved test next, space.Grafts first second old kept moved →
      regime.Holds next → regime.Leads space next → regime.Sound next test →
      Ensures regime.Tolerates (Work.regraft label old (space.fork old).parent test kept moved) next
        fun _ final => post (some kept) final) :
    Ensures regime.Tolerates (joinPair label first second) space post := by
  refine (lawful.custody space).joinPair firstValid secondValid (fun id branch onTrue isSide => ?_)
    (Attends.refl holds) climbs apart sides fun old kept moved test next grafts attends => ?_
  · have ⟨_, trueValid, falseValid⟩ := lawful.above space id branch holds isSide
    cases onTrue <;> assumption
  · have ⟨testSound, attends⟩ := Attends.cons_iff.1 attends
    exact grafted old kept moved test next grafts attends.holds attends.leads testSound

/-- A join keeps the invariant if every pair that it comes to try does. -/
theorem joinAll {latest : StackId} {rest : List StackId} (holds : regime.Holds space)
    (latestValid : regime.Valid space latest)
    (restValid : ∀ id ∈ rest, regime.Valid space id)
    (pairs : ∀ first second next, Tries label latest rest space first second next →
      regime.Merges label first second next) :
    regime.Keeps (joinAll label latest rest) space fun joined next =>
      regime.Valid next joined := by
  have sustains : regime.Sustains space space (latest :: rest ++ []) :=
    ⟨holds, .refl space, by simpa using ⟨latestValid, restValid⟩⟩
  refine mono (joinAll_keeps lawful.answer
    (fun _ _ _ same sustains => sustains.fewer same.symm.subperm)
    (fun first second next tries => (pairs first second next tries).sustains) sustains) ?_
  exact fun joined next ⟨holds, leads, areValid⟩ => ⟨holds, leads, areValid joined (by simp)⟩

end Lawful

/-- What an invariant asks that survives every new fork over existing paths. -/
structure Joins (regime : Regime) : Prop extends regime.Lawful where
  reforks : regime.Reforks
  climbs : ∀ space id, regime.Holds space → space.depth? id = none → regime.Tolerates .cyclicForks

/-- A merge by a new fork concerns paths that may be worked on. -/
theorem Lawful.grafts_valid (lawful : regime.Lawful) {kept moved : StackId}
    {old : BranchId} (holds : regime.Holds space) (firstValid : regime.Valid space first)
    (secondValid : regime.Valid space second) (grafts : space.Grafts first second old kept moved) :
    regime.Valid space (space.fork old).parent ∧ regime.Valid space kept ∧ regime.Valid space moved := by
  have side : ∀ id branch onTrue, space.parent id = some branch →
      regime.Valid space ((space.fork branch).side onTrue) := by
    intro id branch onTrue isSide
    obtain ⟨-, trueValid, falseValid⟩ := lawful.above space id branch holds isSide
    cases onTrue <;> assumption
  cases grafts with
  | below pair _ _ _ _ olderSide youngerSide =>
    refine ⟨(lawful.above space _ _ holds olderSide).1, ?_, side _ _ _ youngerSide⟩
    rcases pair with ⟨rfl, -⟩ | ⟨rfl, -⟩ <;> assumption
  | across _ _ _ firstSide _ _ firstRoot =>
    exact ⟨(lawful.above space _ _ holds firstRoot).1, firstValid, side _ _ _ firstSide⟩

theorem Joins.merges (joins : regime.Joins) (label : Label)
    (first second : StackId) : regime.Merges label first second space := by
  intro holds firstValid secondValid
  have lawful := joins.toLawful
  refine lawful.joinPair holds firstValid secondValid
    (fun id _ missing => joins.climbs space id holds missing)
    (fun _ => ⟨holds, .refl space, by simp⟩) ?_ ?_
  · intro branch firstSide _
    exact mono (lawful.joinSides label holds firstSide)
      fun joined next ⟨holds, leads, _, joinedValid⟩ =>
        ⟨holds, leads, by rintro _ ⟨⟩; exact joinedValid⟩
  · intro old kept moved test next grafts held leads testSound
    obtain ⟨parentValid, keptValid, movedValid⟩ :=
      lawful.grafts_valid holds firstValid secondValid grafts
    refine mono (lawful.regraft joins.reforks label old held (leads.valid _ parentValid)
      (leads.valid _ keptValid) (leads.valid _ movedValid) testSound)
      fun _ final ⟨held, leads', _⟩ => ⟨held, leads.trans leads', ?_⟩
    rintro _ ⟨⟩
    exact leads'.valid _ (leads.valid _ keptValid)

end Regime

end CilLift
