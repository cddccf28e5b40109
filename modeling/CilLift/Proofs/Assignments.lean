import CilLift.Proofs.Ledger
import CilLift.Proofs.Numbering
import CilLift.Proofs.Stacks

/-!
The variables of a lifting. Each has one assignment, which is produced before everything that reads
the variable, wherever the assignment is kept until it is emitted.
-/

namespace CilLift

open List CilLift.Expr Option Emission Nat

variable {expr : Expr} {identity : Nat}

/-- The assignment that a local waits to emit. -/
def LocalSlot.assignment? (slot : LocalSlot) : Option Expr :=
  match slot.content with
  | .bound _ _ assignment => some assignment
  | _ => none

namespace Workspace

variable {space : Workspace} {assignment : Expr}

/-- The assignment of a variable has been made, as a statement or for a local. -/
def Assigns (space : Workspace) (assignment : Expr) : Prop :=
  (assignment ∈ space.emission.statements ∧ assignment.target?.isSome = true) ∨
    ∃ slot ∈ space.slots, slot.assignment? = some assignment

/-- Everything that is recorded under an identity comes after the assignments of some variables. -/
def After (space : Workspace) (reads : List Expr) (identity : Nat) : Prop :=
  ∀ node ∈ reads, ∀ assignment ∈ space.emission.statements, assignment.target? = some node →
    ∀ earlier, assignment.id? = some earlier → Precedes space.emission.ledger earlier identity

/-- The identity is none of an assignment. -/
def Unassigned (space : Workspace) (identity : Nat) : Prop :=
  ∀ assignment, space.Assigns assignment → assignment.id? ≠ some identity

/-- The node reads only what has been declared, and is recorded after that. -/
structure Known (space : Workspace) (node : Expr) : Prop where
  declared : node.isVar = true → node ∈ space.emission.declarations
  assigns : node.target? = none
  isSilent : node.branch?.isSome = true → node.isVoid = true
  below : ∀ identity, node.id? = some identity → identity < space.emission.nextNode
  unassigned : ∀ identity, node.id? = some identity → space.Unassigned identity
  after : ∀ identity, node.id? = some identity → space.After node.reads identity

/-- The tree reads only what has been declared. -/
def Sound (space : Workspace) (expr : Expr) : Prop := expr.Every space.Known

/-- The tree has been recorded. -/
def Produced (space : Workspace) (expr : Expr) : Prop :=
  space.Sound expr ∧ ∃ identity, expr.id? = some identity ∧ identity ∈ space.emission.ledger

theorem Sound.declared {node : Expr} (sound : space.Sound expr) (isRead : node ∈ expr.reads) :
    node ∈ space.emission.declarations := by
  obtain ⟨mem, isVar⟩ := mem_reads.1 isRead
  exact (sound node mem).declared isVar

/-- The assignment writes a variable of its own, which its value fits, is recorded once, and after what
its value reads. -/
inductive Lasting (space : Workspace) : Expr → Prop where
  | intro {header variableHeader : Header} {number identity variableIdentity : Nat} {name : String}
      {value : Expr} (isPlaced : header.id = some identity)
      (variablePlaced : variableHeader.id = some variableIdentity)
      (numbered : number < space.emission.nextVariable)
      (below : identity < space.emission.nextNode)
      (variableBelow : variableIdentity < space.emission.nextNode)
      (once : space.emission.ledger.count identity = 1)
      (unassigned : space.Unassigned variableIdentity)
      (precedes : Precedes space.emission.ledger identity variableIdentity)
      (sound : space.Sound value) (after : space.After value.reads identity)
      (unread : ∀ node ∈ value.reads, node.number? ≠ some number)
      (fits : Expr.Fits variableHeader.type value) :
      Lasting space (.assign header (.var variableHeader number name) value)

/-- The two assignments share an identity, a variable or its identity. -/
def Shares (first second : Expr) : Prop :=
  first.id? = second.id? ∨ first.target?.bind number? = second.target?.bind number? ∨
    first.target?.bind id? = second.target?.bind id?

/-- Statements and declarations agree, and all assignments are lasting ones. -/
structure Orderly (space : Workspace) : Prop where
  declares : space.emission.statements.filterMap target? = space.emission.declarations
  distinct : (space.emission.declarations.map number?).Nodup
  bounded : ∀ identity ∈ space.emission.ledger, identity < space.emission.nextNode
  spoken : ∀ statement ∈ space.emission.statements, statement.target? = none → space.Produced statement
  lasting : ∀ assignment, space.Assigns assignment → space.Lasting assignment
  unique : ∀ first second, space.Assigns first → space.Assigns second →
    Shares first second → first = second

theorem nodup_append_number {declarations : List Expr} {node : Expr}
    (distinct : (declarations.map number?).Nodup)
    (isOther : ∀ found ∈ declarations, found.number? ≠ node.number?) :
    ((declarations ++ [node]).map number?).Nodup := by
  rw [map_append, nodup_append]
  refine ⟨distinct, by simp, ?_⟩
  simpa using isOther

/-- What was said about nodes stays true. -/
structure Extends (before after : Workspace) : Prop where
  nextNode : before.emission.nextNode ≤ after.emission.nextNode
  declarations : ∀ node ∈ before.emission.declarations, node ∈ after.emission.declarations
  fresh : ∀ assignment, after.Assigns assignment → before.Assigns assignment ∨
    ∃ identity, assignment.id? = some identity ∧ before.emission.nextNode ≤ identity
  settled : ∀ assignment ∈ after.emission.statements, ∀ node, assignment.target? = some node →
    node ∈ before.emission.declarations → assignment ∈ before.emission.statements
  ledger : ∀ identity ∈ before.emission.ledger, identity ∈ after.emission.ledger
  order : ∀ first second, second < before.emission.nextNode →
    Precedes before.emission.ledger first second → Precedes after.emission.ledger first second

namespace Extends

variable {old new : Workspace}

theorem refl (space : Workspace) : Extends space space where
  nextNode := le_refl _
  declarations _ := id
  fresh _ := .inl
  settled _ mem _ _ _ := mem
  ledger _ := id
  order _ _ _ := id

theorem trans {first second third : Workspace} (earlier : Extends first second)
    (later : Extends second third) : Extends first third where
  nextNode := le_trans earlier.nextNode later.nextNode
  declarations node mem := later.declarations node (earlier.declarations node mem)
  fresh assignment assigns := by
    rcases later.fresh assignment assigns with assigns | ⟨identity, isPlaced, isNew⟩
    · exact earlier.fresh assignment assigns
    · exact .inr ⟨identity, isPlaced, le_trans earlier.nextNode isNew⟩
  settled assignment mem node isTarget declared := earlier.settled assignment
      (later.settled assignment mem node isTarget (earlier.declarations node declared)) node
      isTarget declared
  ledger identity mem := later.ledger identity (earlier.ledger identity mem)
  order first second below precedes :=
    later.order first second (lt_of_lt_of_le below earlier.nextNode)
      (earlier.order first second below precedes)

variable (extension : Extends old new)

include extension

theorem unassigned (below : identity < old.emission.nextNode)
    (unassigned : old.Unassigned identity) : new.Unassigned identity := by
  intro assignment assigns isPlaced
  rcases extension.fresh assignment assigns with assigns | ⟨other, isOther, isNew⟩
  · exact unassigned assignment assigns isPlaced
  · rw [isPlaced] at isOther
    cases isOther
    omega

theorem isAfter {reads : List Expr} (below : identity < old.emission.nextNode)
    (declared : ∀ node ∈ reads, node ∈ old.emission.declarations)
    (after : old.After reads identity) : new.After reads identity := by
  intro node isRead assignment mem isTarget earlier isPlaced
  exact extension.order earlier identity below (after node isRead assignment
    (extension.settled assignment mem node isTarget (declared node isRead)) isTarget earlier
    isPlaced)

theorem sound (sound : old.Sound expr) : new.Sound expr := by
  intro node mem
  have known := sound node mem
  exact {
    declared := fun isVar => extension.declarations node (known.declared isVar)
    assigns := known.assigns
    isSilent := known.isSilent
    below := fun identity isPlaced =>
      lt_of_lt_of_le (known.below identity isPlaced) extension.nextNode
    unassigned := fun identity isPlaced =>
      extension.unassigned (known.below identity isPlaced) (known.unassigned identity isPlaced)
    after := fun identity isPlaced =>
      extension.isAfter (known.below identity isPlaced)
        (fun read isRead => Sound.declared (Every.of_mem sound mem) isRead)
        (known.after identity isPlaced) }

theorem produced (produced : old.Produced expr) : new.Produced expr := by
  obtain ⟨sound, identity, isPlaced, recorded⟩ := produced
  exact ⟨extension.sound sound, identity, isPlaced, extension.ledger identity recorded⟩

/-- An assignment stays lasting if it is not recorded again. -/
theorem lasting {assignment : Expr} (lasting : old.Lasting assignment)
    (numbers : old.emission.nextVariable ≤ new.emission.nextVariable)
    (once : ∀ identity, assignment.id? = some identity →
      new.emission.ledger.count identity = old.emission.ledger.count identity) :
    new.Lasting assignment := by
  cases lasting with
  | intro isPlaced variablePlaced numbered below variableBelow isOnce unassigned precedes sound
      isAfter unread fits =>
    exact .intro isPlaced variablePlaced (lt_of_lt_of_le numbered numbers)
      (lt_of_lt_of_le below extension.nextNode)
      (lt_of_lt_of_le variableBelow extension.nextNode) ((once _ isPlaced).trans isOnce)
      (extension.unassigned variableBelow unassigned)
      (extension.order _ _ variableBelow precedes) (extension.sound sound)
      (extension.isAfter below (fun _ => sound.declared) isAfter) unread fits

end Extends

theorem Lasting.bounds (lasting : space.Lasting assignment) :
    ∃ identity node number variableIdentity, assignment.id? = some identity ∧
      identity < space.emission.nextNode ∧ assignment.target? = some node ∧
      node.number? = some number ∧ number < space.emission.nextVariable ∧
      node.id? = some variableIdentity ∧ variableIdentity < space.emission.nextNode := by
  cases lasting with
  | intro isPlaced variablePlaced numbered below variableBelow =>
    exact ⟨_, _, _, _, isPlaced, below, rfl, rfl, numbered, variablePlaced, variableBelow⟩

theorem Lasting.once (lasting : space.Lasting assignment)
    (isPlaced : assignment.id? = some identity) : space.emission.ledger.count identity = 1 := by
  cases lasting with
  | intro isPlaced' _ _ _ _ once =>
    cases isPlaced.symm.trans isPlaced'
    exact once

theorem Lasting.recorded (lasting : space.Lasting assignment)
    (isPlaced : assignment.id? = some identity) : identity ∈ space.emission.ledger :=
  count_pos_iff.1 (by rw [lasting.once isPlaced]; exact one_pos)

namespace Orderly

variable {old new : Workspace} (orderly : Orderly old) {node : Expr}

include orderly

theorem exists_assignment (declared : node ∈ old.emission.declarations) :
    ∃ assignment ∈ old.emission.statements, assignment.target? = some node := by
  rw [← orderly.declares] at declared
  simpa using declared

theorem declared_placed (declared : node ∈ old.emission.declarations) :
    ∃ identity, node.id? = some identity ∧ identity < old.emission.nextNode := by
  obtain ⟨assignment, mem, isTarget⟩ := orderly.exists_assignment declared
  obtain ⟨_, _, _, identity, -, -, isTarget', -, -, isPlaced, below⟩ :=
    (orderly.lasting assignment (.inl ⟨mem, by simp [isTarget]⟩)).bounds
  cases isTarget.symm.trans isTarget'
  exact ⟨identity, isPlaced, below⟩

theorem declared_numbered (declared : node ∈ old.emission.declarations) :
    ∃ number, node.number? = some number ∧ number < old.emission.nextVariable := by
  obtain ⟨assignment, mem, isTarget⟩ := orderly.exists_assignment declared
  obtain ⟨_, _, number, _, -, -, isTarget', isNumber, numbered, -⟩ :=
    (orderly.lasting assignment (.inl ⟨mem, by simp [isTarget]⟩)).bounds
  cases isTarget.symm.trans isTarget'
  exact ⟨number, isNumber, numbered⟩

theorem settled (sound : old.Sound expr) : expr.Every Settled := by
  refine Every.mono sound fun node known unplaced => ⟨?_, known.assigns⟩
  by_contra isVar
  obtain ⟨identity, isPlaced, -⟩ := orderly.declared_placed (known.declared (by simpa using isVar))
  rw [unplaced] at isPlaced
  cases isPlaced

/-- A step that writes no statement and makes no assignment. -/
theorem keep (extension : Extends old new)
    (sameStatements : new.emission.statements = old.emission.statements)
    (sameDeclarations : new.emission.declarations = old.emission.declarations)
    (numbers : old.emission.nextVariable ≤ new.emission.nextVariable)
    (assigns : ∀ assignment, new.Assigns assignment → old.Assigns assignment)
    (bounded : ∀ identity ∈ new.emission.ledger, identity < new.emission.nextNode)
    (once : ∀ assignment identity, old.Assigns assignment → assignment.id? = some identity →
      new.emission.ledger.count identity = old.emission.ledger.count identity) : Orderly new where
  declares := by rw [sameStatements, sameDeclarations, orderly.declares]
  distinct := by rw [sameDeclarations]; exact orderly.distinct
  bounded := bounded
  spoken statement mem isEffect := by
    rw [sameStatements] at mem
    exact extension.produced (orderly.spoken statement mem isEffect)
  lasting assignment isAssigned :=
    extension.lasting (orderly.lasting assignment (assigns assignment isAssigned)) numbers
      fun identity => once assignment identity (assigns assignment isAssigned)
  unique first second firstAssigned secondAssigned :=
    orderly.unique first second (assigns first firstAssigned) (assigns second secondAssigned)

theorem grow {nextNode : Nat} (grown : old.emission.nextNode ≤ nextNode) :
    Extends old { old with emission := { old.emission with nextNode } } ∧
      Orderly { old with emission := { old.emission with nextNode } } := by
  have extension : Extends old { old with emission := { old.emission with nextNode } } :=
    { Extends.refl old with nextNode := grown }
  exact ⟨extension, orderly.keep extension rfl rfl (le_refl _) (fun _ => id)
    (fun identity mem => lt_of_lt_of_le (orderly.bounded identity mem) grown)
    fun _ _ _ _ => rfl⟩

/-- A tree that reads only what has been declared still does so when it is placed. -/
theorem sound_place (sound : old.Sound expr) : Sound (old.placing expr) (old.emission.place expr).1 := by
  obtain ⟨extension, grown⟩ := orderly.grow (expr.place_le old.emission.nextNode)
  refine Every.place (extension.sound sound) old.emission.nextNode (fun _ => id)
    fun node start every unplaced above below => ?_
  have settled := grown.settled every
  have unread := (settled.root unplaced).1
  obtain ⟨identity, isPlaced, isNew | ⟨startsBefore, endsAfter⟩⟩ := node.exists_id_place start
  · rw [unplaced] at isNew
    cases isNew
  exact {
    declared := fun isVar => by
      rw [isVar_place, unread] at isVar
      cases isVar
    assigns := by
      have same := isSome_target?_place start node
      rw [every.root.assigns] at same
      simpa using same
    isSilent := by
      rw [branch?_place, isVoid, type_place]
      exact every.root.isSilent
    below := fun other isOther => by
      cases isPlaced.symm.trans isOther
      exact lt_of_lt_of_le endsAfter below
    unassigned := fun other isOther assignment assigns isShared => by
      cases isPlaced.symm.trans isOther
      obtain ⟨_, _, _, _, isPlaced', inside, -⟩ := (orderly.lasting assignment assigns).bounds
      cases isShared.symm.trans isPlaced'
      omega
    after := fun other isOther read isRead assignment mem isTarget earlier isEarlier => by
      cases isPlaced.symm.trans isOther
      have lasting := orderly.lasting assignment (.inl ⟨mem, by simp [isTarget]⟩)
      refine Precedes.of_not_mem (lasting.recorded isEarlier) fun recorded => ?_
      have := orderly.bounded identity recorded
      omega }

/-- A node that is no assignment is recorded. -/
theorem record (below : identity < old.emission.nextNode) (unassigned : old.Unassigned identity) :
    Extends old { old with emission :=
        { old.emission with ledger := old.emission.ledger ++ [identity] } } ∧
      Orderly { old with emission :=
        { old.emission with ledger := old.emission.ledger ++ [identity] } } := by
  have extension : Extends old { old with emission :=
      { old.emission with ledger := old.emission.ledger ++ [identity] } } :=
    { Extends.refl old with
      ledger := fun _ mem => mem_append_left _ mem
      order := fun _ _ _ precedes => precedes.append [identity] }
  refine ⟨extension, orderly.keep extension rfl rfl (le_refl _) (fun _ => id) ?_ ?_⟩
  · simp only [mem_append, mem_singleton]
    rintro _ (mem | rfl)
    · exact orderly.bounded _ mem
    · exact below
  · intro assignment other assigns isPlaced
    have isOther : identity ≠ other := by
      rintro rfl
      exact unassigned assignment assigns isPlaced
    simp [isOther]

/-- A recorded tree becomes a statement. -/
theorem speak {statement : Expr} (produced : old.Produced statement) :
    Extends old { old with emission := old.emission.addStatement statement } ∧
      Orderly { old with emission := old.emission.addStatement statement } := by
  have isEffect : statement.target? = none := (Every.root produced.1).assigns
  have assigns : ∀ assignment, Assigns { old with
      emission := old.emission.addStatement statement } assignment → old.Assigns assignment := by
    rintro assignment (⟨mem, isTarget⟩ | slot)
    · rcases mem_append.1 mem with mem | isLast
      · exact .inl ⟨mem, isTarget⟩
      · rw [mem_singleton.1 isLast, isEffect] at isTarget
        cases isTarget
    · exact .inr slot
  have extension : Extends old { old with emission := old.emission.addStatement statement } :=
    { Extends.refl old with
      fresh := fun assignment isAssigned => .inl (assigns assignment isAssigned)
      settled := fun assignment mem node isTarget _ => by
        rcases mem_append.1 mem with mem | isLast
        · exact mem
        · rw [mem_singleton.1 isLast, isEffect] at isTarget
          cases isTarget }
  exact ⟨extension, {
    declares := by simp [addStatement, isEffect, orderly.declares]
    distinct := orderly.distinct
    bounded := orderly.bounded
    spoken := fun spoken mem isEffect => by
      rcases mem_append.1 mem with mem | isLast
      · exact extension.produced (orderly.spoken spoken mem isEffect)
      · rw [mem_singleton.1 isLast]
        exact extension.produced produced
    lasting := fun assignment isAssigned =>
      extension.lasting (orderly.lasting assignment (assigns assignment isAssigned))
        (le_refl _) fun _ _ => rfl
    unique := fun first second firstAssigned secondAssigned =>
      orderly.unique first second (assigns first firstAssigned) (assigns second secondAssigned) }⟩

/-- Paths and forks change, but no assignment is made. -/
theorem relocate (paths : List EvalStack) (forks : List Fork)
    (known : ∀ slot ∈ paths.flatMap EvalStack.locals, ∀ assignment,
      slot.assignment? = some assignment → old.Assigns assignment) :
    Extends old { old with paths, forks } ∧ Orderly { old with paths, forks } := by
  have assigns : ∀ assignment, Assigns { old with paths, forks } assignment → old.Assigns assignment := by
    rintro assignment (statement | ⟨slot, mem, isAssignment⟩)
    · exact .inl statement
    · exact known slot mem assignment isAssignment
  have extension : Extends old { old with paths, forks } :=
    { Extends.refl old with fresh := fun assignment isAssigned => .inl (assigns assignment isAssigned) }
  exact ⟨extension, orderly.keep extension rfl rfl (le_refl _) assigns orderly.bounded fun _ _ _ _ => rfl⟩

/-- A declared variable may be read. -/
theorem sound_variable {assignment node : Expr} (assigns : old.Assigns assignment)
    (isTarget : assignment.target? = some node) (declared : node ∈ old.emission.declarations) :
    old.Sound node := by
  have lasting := orderly.lasting assignment assigns
  cases lasting with
  | @intro header variableHeader number identity variableIdentity name value isPlaced variablePlaced
      numbered below variableBelow once unassigned precedes sound after unread =>
    cases isTarget
    refine every_iff.2 ⟨⟨fun _ => declared, rfl, by rintro ⟨⟩, ?_, ?_, ?_⟩, by simp [operands, children]⟩
    · intro other isOther
      cases variablePlaced.symm.trans isOther
      exact variableBelow
    · intro other isOther
      cases variablePlaced.symm.trans isOther
      exact unassigned
    · intro other isOther read isRead earlier mem isTarget' earlierIdentity earlierPlaced
      cases variablePlaced.symm.trans isOther
      obtain rfl : read = .var variableHeader number name := by
        simpa [reads_eq, asVar?, isVar, operands, children] using isRead
      have same := orderly.unique earlier _ (.inl ⟨mem, by simp [isTarget']⟩) assigns
        (.inr (.inl (by rw [isTarget']; rfl)))
      subst same
      cases isPlaced.symm.trans earlierPlaced
      exact precedes

/-- Reading a local declares its variable. -/
theorem declare {slot : LocalSlot} {assignment node : Expr} (mem : slot ∈ old.slots)
    (isAssignment : slot.assignment? = some assignment) (isTarget : assignment.target? = some node) :
    Extends old { old with emission := old.emission.declare node assignment } ∧
      Orderly { old with emission := old.emission.declare node assignment } ∧
      Sound { old with emission := old.emission.declare node assignment } node := by
  have isAssigned : old.Assigns assignment := .inr ⟨slot, mem, isAssignment⟩
  have known := (orderly.lasting assignment isAssigned).bounds
  obtain ⟨_, _, _, nodeIdentity, -, -, isTarget', -, -, nodePlaced, -⟩ := known
  cases isTarget.symm.trans isTarget'
  unfold Emission.declare
  split
  · rename_i isDeclared
    obtain ⟨found, declared, isSame⟩ := any_eq_true.1 isDeclared
    obtain ⟨earlier, earlierMember, earlierTarget⟩ := orderly.exists_assignment declared
    have same := orderly.unique earlier assignment
      (.inl ⟨earlierMember, by simp [earlierTarget]⟩) isAssigned (.inr (.inr (by
        simp only [Expr.isSame, Bool.and_eq_true, beq_iff_eq] at isSame
        rw [earlierTarget, isTarget, bind_some, bind_some, isSame.2])))
    rw [same, isTarget] at earlierTarget
    cases earlierTarget
    exact ⟨.refl old, orderly, orderly.sound_variable isAssigned isTarget declared⟩
  · rename_i notDeclared
    have undeclared : node ∉ old.emission.declarations := fun declared =>
      notDeclared (any_eq_true.2 ⟨node, declared, by simp [isSame, nodePlaced]⟩)
    have oldStatement : ∀ statement ∈ old.emission.statements ++ [assignment],
        statement ∈ old.emission.statements ∨ statement = assignment := by simp
    have assigns : ∀ other, Assigns { old with
        emission := (old.emission.addVariable node).addStatement assignment } other →
        old.Assigns other := by
      rintro other (⟨isStatement, isOther⟩ | isSlot)
      · rcases oldStatement other isStatement with before | rfl
        · exact .inl ⟨before, isOther⟩
        · exact isAssigned
      · exact .inr isSlot
    have extension : Extends old { old with
        emission := (old.emission.addVariable node).addStatement assignment } :=
      { Extends.refl old with
        declarations := fun found before => mem_append_left _ before
        fresh := fun other isOther => .inl (assigns other isOther)
        settled := fun other isStatement found isFound declared => by
          rcases oldStatement other isStatement with before | rfl
          · exact before
          · cases isTarget.symm.trans isFound
            exact absurd declared undeclared }
    have after : Orderly { old with
        emission := (old.emission.addVariable node).addStatement assignment } := {
      declares := by
        simp [addStatement, addVariable, isTarget, orderly.declares]
      distinct := by
        refine nodup_append_number orderly.distinct fun found declared shared => undeclared ?_
        obtain ⟨earlier, earlierMember, earlierTarget⟩ := orderly.exists_assignment declared
        have same := orderly.unique earlier assignment
          (.inl ⟨earlierMember, by simp [earlierTarget]⟩) isAssigned (.inr (.inl (by
            rw [earlierTarget, isTarget, bind_some, bind_some, shared])))
        rw [same, isTarget] at earlierTarget
        cases earlierTarget
        exact declared
      bounded := orderly.bounded
      spoken := fun spoken isStatement isEffect => by
        rcases oldStatement spoken isStatement with before | rfl
        · exact extension.produced (orderly.spoken spoken before isEffect)
        · cases isEffect.symm.trans isTarget
      lasting := fun other isOther =>
        extension.lasting (orderly.lasting other (assigns other isOther)) (le_refl _) fun _ _ => rfl
      unique := fun first second isFirst isSecond =>
        orderly.unique first second (assigns first isFirst) (assigns second isSecond) }
    exact ⟨extension, after, after.sound_variable (.inr ⟨slot, mem, isAssignment⟩) isTarget
      (by simp [addStatement, addVariable])⟩

end Orderly

/-- A new variable gets its assignment, which is recorded somewhere after what the value reads. -/
structure Gains (old new : Workspace) (value node assignment : Expr) : Prop where
  sound : old.Sound value
  shape : ∃ type name,
    node = .var { type, id := some old.emission.nextNode } old.emission.nextVariable name ∧
      assignment = .assign { type, id := some (old.emission.nextNode + 1) } node value
  fits : Expr.Fits node.type value
  nextNode : new.emission.nextNode = old.emission.nextNode + 2
  nextVariable : new.emission.nextVariable = old.emission.nextVariable + 1
  recorded : ∃ position, new.emission.ledger = old.emission.ledger.take position ++
    (old.emission.nextNode + 1) :: old.emission.ledger.drop position
  after : ∀ read ∈ value.reads, ∀ earlier ∈ old.emission.statements,
    earlier.target? = some read → ∀ identity, earlier.id? = some identity →
      Precedes new.emission.ledger identity (old.emission.nextNode + 1)
  assigns : ∀ other, new.Assigns other → old.Assigns other ∨ other = assignment
  written : new.emission.statements = old.emission.statements ∧
      new.emission.declarations = old.emission.declarations ∨
    new.emission.statements = old.emission.statements ++ [assignment] ∧
      new.emission.declarations = old.emission.declarations ++ [node]

namespace Gains

variable {old new : Workspace} {value node assignment : Expr}

section

variable (gains : Gains old new value node assignment)

include gains

theorem target : assignment.target? = some node := by
  obtain ⟨type, name, rfl, rfl⟩ := gains.shape
  rfl

theorem placed : assignment.id? = some (old.emission.nextNode + 1) := by
  obtain ⟨type, name, rfl, rfl⟩ := gains.shape
  rfl

theorem undeclared (orderly : old.Orderly) : node ∉ old.emission.declarations := by
  intro declared
  obtain ⟨identity, isPlaced, below⟩ := orderly.declared_placed declared
  obtain ⟨type, name, rfl, -⟩ := gains.shape
  cases isPlaced
  omega

theorem statement {statement : Expr} (mem : statement ∈ new.emission.statements) :
    statement ∈ old.emission.statements ∨ statement = assignment := by
  rcases gains.written with ⟨same, -⟩ | ⟨added, -⟩
  · rw [same] at mem
    exact .inl mem
  · rw [added] at mem
    simpa using mem

theorem extension (orderly : old.Orderly) : Extends old new where
  nextNode := by
    have := gains.nextNode
    omega
  declarations := by
    rcases gains.written with ⟨-, same⟩ | ⟨-, added⟩
    · simp [same]
    · intro found mem
      simp [added, mem]
  fresh other isAssigned := by
    rcases gains.assigns other isAssigned with before | rfl
    · exact .inl before
    · exact .inr ⟨_, gains.placed, le_succ _⟩
  settled other mem found isTarget declared := by
    rcases gains.statement mem with before | rfl
    · exact before
    · cases gains.target.symm.trans isTarget
      exact absurd declared (gains.undeclared orderly)
  ledger identity recorded := by
    obtain ⟨position, ledger⟩ := gains.recorded
    rw [← take_append_drop position old.emission.ledger] at recorded
    rw [ledger]
    simp only [mem_append, mem_cons] at recorded ⊢
    exact recorded.imp_right .inr
  order first second below precedes := by
    obtain ⟨position, ledger⟩ := gains.recorded
    rw [ledger]
    exact precedes.insert position (by omega)

theorem count (isOther : identity ≠ old.emission.nextNode + 1) :
    new.emission.ledger.count identity = old.emission.ledger.count identity := by
  obtain ⟨position, ledger⟩ := gains.recorded
  rw [ledger, count_append, count_cons_of_ne isOther.symm, ← count_append, take_append_drop]

/-- The new assignment is a lasting one. -/
theorem lasting (orderly : old.Orderly) : new.Lasting assignment := by
  have extension := gains.extension orderly
  have unassigned : new.Unassigned old.emission.nextNode := by
    intro other isAssigned isPlaced
    rcases gains.assigns other isAssigned with before | rfl
    · obtain ⟨_, _, _, _, isPlaced', below, -⟩ := (orderly.lasting other before).bounds
      cases isPlaced.symm.trans isPlaced'
      omega
    · have := isPlaced.symm.trans gains.placed
      simp at this
  have unrecorded : ∀ identity, old.emission.nextNode ≤ identity →
      identity ∉ old.emission.ledger := fun identity above recorded => by
    have := orderly.bounded identity recorded
    omega
  obtain ⟨position, ledger⟩ := gains.recorded
  have once : new.emission.ledger.count (old.emission.nextNode + 1) = 1 := by
    rw [ledger, count_append, count_cons_self, ← add_assoc, ← count_append,
      take_append_drop, count_eq_zero.2 (unrecorded _ (le_succ _))]
  have precedes : Precedes new.emission.ledger (old.emission.nextNode + 1) old.emission.nextNode :=
    ⟨_, _, ledger, fun mem =>
      unrecorded _ (le_refl _) (mem_of_mem_take mem)⟩
  have after : new.After value.reads (old.emission.nextNode + 1) := by
    intro read isRead earlier mem isTarget identity isPlaced
    exact gains.after read isRead earlier
      (extension.settled earlier mem read isTarget (gains.sound.declared isRead)) isTarget
      identity isPlaced
  have unread : ∀ read ∈ value.reads, read.number? ≠ some old.emission.nextVariable := by
    intro read isRead isNumber
    obtain ⟨number, isNumber', numbered⟩ := orderly.declared_numbered (gains.sound.declared isRead)
    cases isNumber.symm.trans isNumber'
    omega
  have nextNode := gains.nextNode
  have nextVariable := gains.nextVariable
  have sound := extension.sound gains.sound
  have fits := gains.fits
  obtain ⟨type, name, rfl, rfl⟩ := gains.shape
  exact .intro rfl rfl (by omega) (by omega) (by omega) once unassigned precedes sound after unread fits

/-- The workspace stays orderly. -/
theorem orderly (orderly : old.Orderly) : new.Orderly := by
  have extension := gains.extension orderly
  have isOther : ∀ other, old.Assigns other → ¬Shares other assignment := by
    intro other before
    obtain ⟨identity, target, number, variableIdentity, isPlaced, below, isTarget, isNumber,
      numbered, targetPlaced, targetBelow⟩ := (orderly.lasting other before).bounds
    obtain ⟨type, name, rfl, rfl⟩ := gains.shape
    simp only [Shares, isPlaced, isTarget, bind_some, isNumber, targetPlaced]
    simp only [id?, header, target?, asVar?, isVar, if_true, bind_some, number?, some.injEq]
    omega
  exact {
    declares := by
      rcases gains.written with ⟨same, same'⟩ | ⟨added, added'⟩
      · rw [same, same', orderly.declares]
      · rw [added, added', filterMap_append, orderly.declares]
        simp [gains.target]
    distinct := by
      rcases gains.written with ⟨-, same⟩ | ⟨-, added⟩
      · rw [same]
        exact orderly.distinct
      · rw [added]
        refine nodup_append_number orderly.distinct fun found declared shared => ?_
        obtain ⟨earlier, earlierMember, earlierTarget⟩ := orderly.exists_assignment declared
        refine isOther earlier (.inl ⟨earlierMember, by simp [earlierTarget]⟩) (.inr (.inl ?_))
        rw [earlierTarget, gains.target, bind_some, bind_some, shared]
    bounded := by
      intro identity recorded
      have nextNode := gains.nextNode
      obtain ⟨position, ledger⟩ := gains.recorded
      rw [ledger] at recorded
      rcases mem_append.1 recorded with mem | mem
      · have := orderly.bounded identity (mem_of_mem_take mem)
        omega
      · rcases mem_cons.1 mem with rfl | mem
        · omega
        · have := orderly.bounded identity (mem_of_mem_drop mem)
          omega
    spoken := by
      intro statement mem isEffect
      rcases gains.statement mem with before | rfl
      · exact extension.produced (orderly.spoken statement before isEffect)
      · cases isEffect.symm.trans gains.target
    lasting := by
      intro other isAssigned
      rcases gains.assigns other isAssigned with before | rfl
      · refine extension.lasting (orderly.lasting other before)
          (by rw [gains.nextVariable]; exact le_succ _) fun identity isPlaced => ?_
        refine gains.count ?_
        obtain ⟨_, _, _, _, isPlaced', below, -⟩ := (orderly.lasting other before).bounds
        cases isPlaced.symm.trans isPlaced'
        omega
      · exact gains.lasting orderly
    unique := by
      intro first second firstAssigned secondAssigned shares
      rcases gains.assigns first firstAssigned with before | rfl <;>
        rcases gains.assigns second secondAssigned with before' | rfl
      · exact orderly.unique first second before before' shares
      · exact absurd shares (isOther first before)
      · refine absurd ?_ (isOther second before')
        exact shares.imp symm (Or.imp symm symm)
      · rfl }

end

end Gains

end Workspace

end CilLift
