import CilLift.Proofs.Placement
import CilLift.Proofs.Reconstruction

/-!
Array initialisers. An array of a known length is created and then filled; every store takes both
copies of the array off the stack and leaves a new one in their place. In the end there is one array,
each element of which is what was last stored there, or the zero of its type.
-/

namespace CilLift

open List CilLift.Expr Int Prod

variable {value : Expr} {elements : List Expr} {own : Nat} {filled : Machine}

/-- Since then nodes have been numbered and put on record, and nothing else has changed. -/
structure Emission.Records (before after : Emission) : Prop where
  ledger : before.ledger <+: after.ledger
  nextNode : before.nextNode ≤ after.nextNode
  same : { after with ledger := before.ledger, nextNode := before.nextNode } = before

namespace Emission.Records

variable {before after : Emission} (records : before.Records after)

theorem refl (emission : Emission) : emission.Records emission :=
  ⟨prefix_rfl, le_refl _, rfl⟩

include records

theorem trans {last : Emission} (later : after.Records last) : before.Records last :=
  ⟨records.ledger.trans later.ledger, le_trans records.nextNode later.nextNode,
    (congrArg ({ · with ledger := before.ledger, nextNode := before.nextNode }) later.same).trans
      records.same⟩

theorem place (expr : Expr) : before.Records (after.place expr).2 :=
  ⟨records.ledger, le_trans records.nextNode (expr.place_le after.nextNode), records.same⟩

theorem track (expr : Expr) : before.Records (after.track expr) :=
  ⟨records.ledger.trans (prefix_append ..), records.nextNode, records.same⟩

end Emission.Records

namespace Machine

variable {task : Task} {machine : Machine} {path : StackId} {items : List Expr}
  {emission : Emission} {offset : Nat}

/-- The machine further on: at an offset, with other items on one path, and with what it has emitted
meanwhile. -/
def holding (machine : Machine) (path : StackId) (items : List Expr) (emission : Emission)
    (offset : Nat) : Machine :=
  { machine with
    workspace := { machine.workspace with emission }.withItems path items
    offset }

section

variable (inside : path < machine.workspace.paths.length)

include inside

theorem items_holding :
    ((machine.holding path items emission offset).workspace.stack path).items = items :=
  Workspace.items_withItems_self inside

theorem push_holding (value : Expr) :
    push path value (machine.holding path items emission offset) =
      .ok () (machine.holding path ((emission.place value).1 :: items)
        ((emission.place value).2.track (emission.place value).1) offset) :=
  @push_withItems
    { machine with workspace := { machine.workspace with emission }, offset } path items inside value

theorem push_placed {identity : Nat} (isPlaced : value.id? = some identity) :
    push path value (machine.holding path items emission offset) =
      .ok () (machine.holding path (value :: items) (emission.track value) offset) := by
  have keeps : emission.place value = (value, emission) := by
    unfold Emission.place
    rw [place_of_id isPlaced]
  rw [push_holding inside, keeps]

theorem pop_holding {top : Expr} {consumer : String} (isValue : top.branch? = none) :
    pop path consumer (machine.holding path (top :: items) emission offset) =
      .ok top (machine.holding path items emission offset) := by
  refine pop_eq_ok.2 ⟨items, items_holding inside, isValue, ?_⟩
  simp [holding, withItems, Workspace.withItems_withItems]

end

/-- A store of an argument into the array on top: `dup`, the index, the argument, and the store itself,
each at its offset. -/
structure ElementStore where
  index : Int
  slot : Nat
  opcode : Opcode
  offset : Fin 4 → Nat
  isStore : stackOperation? opcode = some .storeElement

namespace ElementStore

/-- What brings the operands of the store onto the stack. -/
def operands (store : ElementStore) : List Event :=
  [.offset (store.offset 0), .plain .dup] ++
    ([.offset (store.offset 1), .literal (.integer .int32 store.index) .int32] ++
      [.offset (store.offset 2), .access .ldarg store.slot])

def events (store : ElementStore) : List Event :=
  store.operands ++ [.offset (store.offset 3), .plain store.opcode]

def InRange (length : Int) (store : ElementStore) : Prop := 0 ≤ store.index ∧ store.index < length

instance (length : Int) (store : ElementStore) : Decidable (store.InRange length) :=
  inferInstanceAs (Decidable (_ ∧ _))

/-- What the store takes from the argument: a node of the task, no placeholder, that is converted to
the type of the elements. -/
def Takes (task : Task) (element : TypeSig) (store : ElementStore) (coerced : Expr) : Prop :=
  ∃ value identity, (∀ machine, argument task store.slot machine = .ok value machine) ∧
    value.id? = some identity ∧ value.branch? = none ∧ value.coerce element = .ok coerced

end ElementStore

/-- Creates an array and stores elements into it. -/
def initializer (first second : Nat) (element : TypeSig) (length : Int) (stores : List ElementStore) :
    List Event :=
  [.offset first, .literal (.integer .int32 length) .int32] ++
    [.offset second, .type .newarr element] ++ stores.flatMap ElementStore.events

/-- The value last stored at a position, the zero of the type where there is none. -/
def lastStored (element : TypeSig) (stored : List (ElementStore × Expr)) (position : Nat) : Expr :=
  match stored.reverse.find? fun entry => entry.1.index == (position : Int) with
  | some entry => entry.2
  | none => .zeroOf element

theorem lastStored_concat (element : TypeSig) (stored : List (ElementStore × Expr))
    (entry : ElementStore × Expr) (position : Nat) :
    lastStored element (stored ++ [entry]) position =
      if entry.1.index = position then entry.2 else lastStored element stored position := by
  unfold lastStored
  rw [reverse_append, reverse_singleton, singleton_append, find?_cons]
  by_cases isHere : entry.1.index = position
  · rw [if_pos isHere, beq_iff_eq.2 isHere]
  · rw [if_neg isHere, beq_eq_false_iff_ne.2 isHere]

/-- The elements are nodes of the values last stored. -/
def Stores (element : TypeSig) (length : Nat) (stored : List (ElementStore × Expr))
    (elements : List Expr) : Prop :=
  elements.length = length ∧ ∀ position < length,
    ∃ start, elements[position]? = some ((lastStored element stored position).place start).1

/-- A store in range, and then all elements are placed once more. -/
theorem Stores.set {element : TypeSig} {length : Nat} {stored : List (ElementStore × Expr)}
    (stores : Stores element length stored elements) {entry : ElementStore × Expr}
    (inRange : entry.1.InRange length) (next : Nat) :
    Stores element length (stored ++ [entry])
      (placeAll next (elements.set entry.1.index.toNat entry.2)).1 := by
  refine ⟨?_, fun position below => ?_⟩
  · rw [(placedIn_placeAll ..).length_eq.symm, length_set, stores.1]
  obtain ⟨start, isPlaced⟩ :=
    getElem?_placeAll next (elements.set entry.1.index.toNat entry.2) position
  rw [isPlaced, lastStored_concat]
  by_cases isHere : entry.1.index = position
  · rw [if_pos isHere, isHere, toNat_natCast, getElem?_set_self (by rw [stores.1]; exact below)]
    exact ⟨start, rfl⟩
  · obtain ⟨from', isStored⟩ := stores.2 position below
    obtain ⟨identity, isId, -⟩ := exists_id_place (lastStored element stored position) from'
    have isOther : entry.1.index.toNat ≠ position := by
      have := inRange.1
      omega
    rw [if_neg isHere, getElem?_set_ne isOther, isStored, Option.map_some, place_of_id isId]
    exact ⟨from', rfl⟩

/-- The machine holds a new array on top of what it held before, and has only put nodes on record. -/
def Filled (machine : Machine) (path : StackId) (element : TypeSig) (length : Nat)
    (stored : List (ElementStore × Expr)) (next : Machine) : Prop :=
  ∃ identity elements emission offset, Stores element length stored elements ∧
    machine.workspace.emission.Records emission ∧
    machine.workspace.emission.nextNode ≤ identity ∧ identity < emission.nextNode ∧
    next = machine.holding path (.array { type := .array element, id := some identity } elements ::
      (machine.workspace.stack path).items) emission offset

section

variable (isCurrent : machine.current = some path) (inside : path < machine.workspace.paths.length)

include isCurrent

theorem forM_onCurrent {event : Event} {instruction : StackId → Run Unit} {position : Nat}
    (isStep : step task event = onCurrent instruction) :
    [.offset position, event].forM (step task) (machine.holding path items emission offset) =
      instruction path (machine.holding path items emission position) := by
  have isHere : (machine.holding path items emission position).current = some path := isCurrent
  refine (andThen_of_ok rfl).trans ?_
  refine trans ?_ (onCurrent_eq instruction isHere)
  rw [← isStep]
  exact congrFun bind_pure_unit _

include inside

variable {element : TypeSig} {length : Nat} {stored : List (ElementStore × Expr)}

/-- Without stores, the array holds default values only. -/
theorem creates (first second : Nat) :
    ∃ next, Filled machine path element length [] next ∧
      (initializer first second element length []).forM (step task) machine = .ok () next := by
  let items := (machine.workspace.stack path).items
  let loaded := machine.workspace.emission.place (.mkConstant (.integer .int32 length) .int32)
  have loads : [.offset first, .literal (.integer .int32 length) .int32].forM (step task) machine =
      .ok () (machine.holding path (loaded.1 :: items) (loaded.2.track loaded.1) first) :=
    forM_instruction ((@onCurrent_eq { machine with offset := first } _ _ isCurrent).trans (push_eq ..))
  let zero := (loaded.2.track loaded.1).place (.zeroOf element)
  let array : Expr := .mkArray element (replicate length zero.1)
  have records : machine.workspace.emission.Records zero.2 :=
    (((Emission.Records.refl _).place _).track _).place _
  refine ⟨machine.holding path ((zero.2.place array).1 :: items)
    ((zero.2.place array).2.track (zero.2.place array).1) second, ?_, ?_⟩
  · refine ⟨_, _, (zero.2.place array).2.track (zero.2.place array).1, second,
      ⟨?_, fun position below => ?_⟩, (records.place array).track _,
      le_trans records.nextNode (placeAll_le ..), Nat.lt_succ_self _, rfl⟩
    · rw [(placedIn_placeAll ..).length_eq.symm, length_replicate]
    · obtain ⟨start, isPlaced⟩ := getElem?_placeAll zero.2.nextNode (replicate length zero.1) position
      refine ⟨(loaded.2.track loaded.1).nextNode, isPlaced.trans ?_⟩
      rw [getElem?_replicate_of_lt below]
      rfl
  · refine forM_of_ok (forM_of_ok loads ((forM_onCurrent isCurrent rfl).trans ?_)) rfl
    refine (andThen_of_ok (pop_holding inside rfl)).trans ?_
    exact (andThen_of_ok rfl).trans (push_holding inside array)

/-- Up to the store itself: the array, its copy, the index and the argument are on the stack. -/
theorem operands_ready {store : ElementStore} {identity : Nat}
    (isPlaced : value.id? = some identity)
    (loads : ∀ machine, argument task store.slot machine = .ok value machine) :
    let array : Expr := .array { type := .array element, id := some own } elements
    ∃ (index : Header) (after : Emission), emission.Records after ∧
      store.operands.forM (step task) (machine.holding path (array :: items) emission offset) =
        .ok () (machine.holding path (value :: .constant index (.integer .int32 store.index) ::
          array :: array :: items) after (store.offset 2)) := by
  intro array
  have copies : duplicate task path
      (machine.holding path (array :: items) emission (store.offset 0)) = .ok () (machine.holding path
        (array :: array :: items) (emission.track array) (store.offset 0)) := by
    refine (andThen_of_ok rfl).trans ?_
    rw [items_holding inside]
    exact push_placed inside rfl
  let index := (emission.track array).place (.mkConstant (.integer .int32 store.index) .int32)
  refine ⟨{ type := .int32, id := some emission.nextNode }, (index.2.track index.1).track value,
    ((((Emission.Records.refl _).track _).place _).track _).track _,
    forM_of_ok ((forM_onCurrent isCurrent rfl).trans copies) ?_⟩
  refine forM_of_ok ((forM_onCurrent isCurrent rfl).trans (push_holding inside _)) ?_
  exact (forM_onCurrent isCurrent rfl).trans
    ((andThen_of_ok (loads _)).trans (push_placed inside isPlaced))

omit isCurrent in
/-- The store checks the index against the length of the array. -/
theorem storeElement_holding {coerced : Expr} {index : Header} {position : Int}
    (isValue : value.branch? = none) (converts : value.coerce element = .ok coerced) :
    let array : Expr := .array { type := .array element, id := some own } elements
    storeElement path (machine.holding path
        (value :: .constant index (.integer .int32 position) :: array :: array :: items) emission offset) =
      if 0 ≤ position ∧ position < elements.length then
        push path (.mkArray element (elements.set position.toNat coerced))
          (machine.holding path items emission offset)
      else malformed (.storeIndexOutOfRange position) (machine.holding path items emission offset) := by
  intro array
  have isSame : array.isSame array = true := by
    simp [array, isSame, id?, header]
  refine (andThen_of_ok (pop_holding inside isValue)).trans ?_
  refine (andThen_of_ok (pop_holding inside rfl)).trans ?_
  refine (andThen_of_ok (pop_holding inside rfl)).trans ?_
  refine (andThen_of_ok (pop_holding inside rfl)).trans ?_
  rw [if_pos isSame]
  split
  · exact andThen_of_ok (liftM_eq_ok.2 ⟨converts, rfl⟩)
  · rfl

/-- The whole group: the array and its copy go, and the new array comes if the index is one. -/
theorem events_forM {store : ElementStore} {coerced : Expr}
    (takes : store.Takes task element coerced) :
    ∃ after : Emission, emission.Records after ∧
      store.events.forM (step task) (machine.holding path
        (.array { type := .array element, id := some own } elements :: items) emission offset) =
      if store.InRange elements.length then
        push path (.mkArray element (elements.set store.index.toNat coerced))
          (machine.holding path items after (store.offset 3))
      else malformed (.storeIndexOutOfRange store.index)
        (machine.holding path items after (store.offset 3)) := by
  obtain ⟨value, identity, loads, isPlaced, isValue, converts⟩ := takes
  obtain ⟨index, after, records, readied⟩ := operands_ready isCurrent inside isPlaced loads
  refine ⟨after, records, ?_⟩
  rw [ElementStore.events, forM_append, andThen_of_ok readied, forM_onCurrent isCurrent rfl, runPlain,
    store.isStore]
  exact storeElement_holding inside isValue converts

section

variable (fills : Filled machine path element length stored filled)

include fills

/-- One more store into the array. -/
theorem stores_element {entry : ElementStore × Expr} (takes : entry.1.Takes task element entry.2)
    (inRange : entry.1.InRange length) :
    ∃ next, Filled machine path element length (stored ++ [entry]) next ∧
      entry.1.events.forM (step task) filled = .ok () next := by
  obtain ⟨own, elements, emission, offset, stores, records, -, -, rfl⟩ := fills
  obtain ⟨after, recordsMore, runs⟩ := events_forM isCurrent inside takes
  have recordsAll := records.trans recordsMore
  let array : Expr := .mkArray element (elements.set entry.1.index.toNat entry.2)
  refine ⟨_, ⟨(placeAll after.nextNode (elements.set entry.1.index.toNat entry.2)).2, _,
    (after.place array).2.track (after.place array).1, entry.1.offset 3,
    stores.set inRange after.nextNode, (recordsAll.place array).track _,
    le_trans recordsAll.nextNode (placeAll_le ..), Nat.lt_succ_self _, rfl⟩, runs.trans ?_⟩
  rw [if_pos (stores.1 ▸ inRange)]
  exact push_holding inside array

theorem refuses_element {entry : ElementStore × Expr} (takes : entry.1.Takes task element entry.2)
    (outOfRange : ¬ entry.1.InRange length) :
    ∃ stuck, entry.1.events.forM (step task) filled =
      .error (.shape (.storeIndexOutOfRange entry.1.index (entry.1.offset 3))) stuck := by
  obtain ⟨own, elements, emission, offset, stores, -, -, -, rfl⟩ := fills
  obtain ⟨after, -, runs⟩ := events_forM isCurrent inside takes
  refine ⟨machine.holding path (machine.workspace.stack path).items after (entry.1.offset 3),
    runs.trans ?_⟩
  rw [if_neg (stores.1 ▸ outOfRange)]
  rfl

/-- A run of stores into the array. -/
theorem stores_elements {entries : List (ElementStore × Expr)}
    (takes : ∀ entry ∈ entries, entry.1.Takes task element entry.2)
    (inRange : ∀ entry ∈ entries, entry.1.InRange length) :
    ∃ next, Filled machine path element length (stored ++ entries) next ∧
      ((entries.map fst).flatMap ElementStore.events).forM (step task) filled = .ok () next := by
  induction entries generalizing stored filled with
  | nil => exact ⟨filled, by rwa [append_nil], rfl⟩
  | cons entry rest ih =>
    obtain ⟨takesFirst, takesRest⟩ := forall_mem_cons.1 takes
    obtain ⟨firstInRange, restInRange⟩ := forall_mem_cons.1 inRange
    obtain ⟨middle, fillsOne, runsOne⟩ := stores_element isCurrent inside fills takesFirst firstInRange
    obtain ⟨next, fillsAll, runsRest⟩ := ih fillsOne takesRest restInRange
    refine ⟨next, ?_, forM_of_ok runsOne runsRest⟩
    rwa [append_assoc] at fillsAll

end

/-- An array is created and filled: the elements are what was last stored at their positions, and the
rest of the stack is as it was. Where an index is out of range, the first such store is refused. -/
theorem initializer_fills {count : Int} (isLength : 0 ≤ count)
    {entries : List (ElementStore × Expr)}
    (takes : ∀ entry ∈ entries, entry.1.Takes task element entry.2) (first second : Nat) :
    let events := initializer first second element count (entries.map fst)
    ((∀ entry ∈ entries, entry.1.InRange count) → ∃ next,
      Filled machine path element count.toNat entries next ∧
      events.forM (step task) machine = .ok () next) ∧
    ∀ before refused after, entries = before ++ refused :: after →
      (∀ entry ∈ before, entry.1.InRange count) → ¬ refused.1.InRange count →
      ∃ stuck, events.forM (step task) machine =
        .error (.shape (.storeIndexOutOfRange refused.1.index (refused.1.offset 3))) stuck := by
  intro events
  obtain ⟨length, rfl⟩ := eq_ofNat_of_zero_le isLength
  obtain ⟨fresh, fillsNone, created⟩ := creates isCurrent inside first second
  have runs : events.forM (step task) machine =
      ((entries.map fst).flatMap ElementStore.events).forM (step task) fresh :=
    (congrFun (forM_append ..) machine).trans (andThen_of_ok created)
  rw [runs]
  refine ⟨fun inRange => stores_elements isCurrent inside fillsNone takes inRange, ?_⟩
  rintro before refused after rfl inRange outOfRange
  obtain ⟨takesBefore, takesAfter⟩ := forall_mem_append.1 takes
  obtain ⟨middle, fills, runsBefore⟩ :=
    stores_elements isCurrent inside fillsNone takesBefore inRange
  obtain ⟨stuck, refuses⟩ := refuses_element isCurrent inside fills
    (forall_mem_cons.1 takesAfter).1 outOfRange
  refine ⟨stuck, ?_⟩
  rw [map_append, flatMap_append, forM_append, andThen_of_ok runsBefore, map_cons,
    flatMap_cons, forM_append]
  exact andThen_of_error refuses

end

/-- An integer and a byte as arguments. -/
def ElementStore.sampleTask : Task where
  resolver := ({} : MetadataTables).resolver
  options := {}
  method := { token := ⟨0x06000001⟩, name := "T", returnType := .void }
  returnType := .void
  parameters := [.parameter { type := .int32, id := some 0 } 0 "x",
    .parameter { type := .integer .uint8, id := some 1 } 1 "y"]
  target := none
  arguments := []
  liftNested _ _ _ _ := .error .nestingLimit

/-- Stores an argument into an array of long integers. -/
def ElementStore.sample (index : Int) (slot : Fin 2) : ElementStore × Expr :=
  (⟨index, slot, .stelemI8, fun step => step.val, rfl⟩,
    .mkConvert (ElementStore.sampleTask.parameters.get slot) (.integer .int64))

theorem ElementStore.sample_takes (index : Int) (slot : Fin 2) :
    (sample index slot).1.Takes sampleTask (.integer .int64) (sample index slot).2 := by
  rcases slot with ⟨_ | _ | _, below⟩
  · exact ⟨_, 0, fun _ => rfl, rfl, rfl, rfl⟩
  · exact ⟨_, 1, fun _ => rfl, rfl, rfl, rfl⟩
  · omega

/-- Two stores at one position of an array of two elements, and then one beside it. -/
theorem initializer_fills_twice :
    let machine : Machine := { workspace := { paths := [{ items := [.int 7] }] }, current := some 0 }
    let entries := [ElementStore.sample 1 0, ElementStore.sample 1 1]
    let run := fun entries : List (ElementStore × Expr) =>
      (initializer 0 1 (.integer .int64) 2 (entries.map fst)).forM (step ElementStore.sampleTask) machine
    (∃ next, machine.Filled 0 (.integer .int64) 2 entries next ∧ run entries = .ok () next) ∧
      ∃ stuck, run (entries ++ [ElementStore.sample 2 0]) =
        .error (.shape (.storeIndexOutOfRange 2 3)) stuck := by
  intro machine entries run
  have takes : ∀ entry ∈ entries, entry.1.Takes ElementStore.sampleTask (.integer .int64) entry.2 := by
    simp only [entries, forall_mem_cons]
    exact ⟨ElementStore.sample_takes .., ElementStore.sample_takes .., forall_mem_nil _⟩
  have inRange : ∀ entry ∈ entries, entry.1.InRange 2 := by decide
  refine ⟨(initializer_fills rfl (by decide) (by decide) takes 0 1).1 inRange, ?_⟩
  have takesLast := forall_mem_append.2 ⟨takes, forall_mem_singleton.2 (ElementStore.sample_takes 2 0)⟩
  exact (initializer_fills rfl (by decide) (by decide) takesLast 0 1).2 entries _ [] rfl inRange
    (by decide)

/-- Stores its argument into an array of one element. -/
def storesArgument : MethodBody where
  code := [0x17, 0x8d, 0x01, 0x00, 0x00, 0x01, 0x25, 0x16, 0x02, 0x9e, 0x2a]

/-- A placeholder in the place of the argument has the type of the elements, but is not stored. -/
theorem placeholder_not_stored :
    let lifter : Lifter := {
      resolver := MetadataTables.resolver { members := [(⟨0x01000001⟩, .type .void)] } }
    let method : Method := {
      token := ⟨0x06000001⟩, name := "Test", parameters := [{ name := "v", type := .void }]
      returnType := .array .void, flags := { isStatic := true } }
    (lifter.lift method storesArgument).map MethodTree.text = .ok "(v) => new void[] \x7b v \x7d" ∧
      (mkBranch 0).coerce .void = .ok (.mkBranch 0) ∧
      (lifter.liftBound method storesArgument none [.mkBranch 0]).map MethodTree.text =
        .error (.shape (.branchConsumed "stelem" 9)) := by
  refine ⟨?_, rfl, ?_⟩
  all_goals decide +kernel

end Machine

end CilLift
