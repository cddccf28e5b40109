import Mathlib.Data.List.Sort
import CilLift.Emission.Result

/-!
The order of productions in a ledger, and the order of the statements that follows from it.
-/

namespace CilLift

open List

variable {α : Type} {holds : α → Bool} (key : α → Nat)

/-- A production of the first identity comes before all productions of the second. -/
def Precedes (ledger : List Nat) (first second : Nat) : Prop :=
  ∃ before after, ledger = before ++ first :: after ∧ second ∉ before

namespace Precedes

variable {ledger : List Nat} {first second : Nat}

theorem of_not_mem (isProduced : first ∈ ledger) (isNew : second ∉ ledger) :
    Precedes ledger first second := by
  obtain ⟨before, after, rfl⟩ := append_of_mem isProduced
  exact ⟨before, after, rfl, fun mem => isNew (by simp [mem])⟩

theorem append (precedes : Precedes ledger first second) (rest : List Nat) :
    Precedes (ledger ++ rest) first second := by
  obtain ⟨before, after, rfl, isLater⟩ := precedes
  exact ⟨before, after ++ rest, by simp, isLater⟩

theorem mem_before {before after : List Nat}
    (precedes : Precedes (before ++ second :: after) first second) (isOther : first ≠ second) :
    first ∈ before := by
  obtain ⟨earlier, later, split, isLater⟩ := precedes
  rcases append_eq_append_iff.1 split with ⟨between, rfl, _⟩ | ⟨between, rfl, split⟩
  · cases between with
    | nil => simp_all
    | cons head rest => simp_all
  · cases between with
    | nil => simp_all
    | cons head rest => simp_all

/-- A production that is put in between leaves the order of the others. -/
theorem insert (precedes : Precedes ledger first second) (position : Nat) {new : Nat}
    (isOther : new ≠ second) :
    Precedes (ledger.take position ++ new :: ledger.drop position) first second := by
  obtain ⟨before, after, rfl, isLater⟩ := precedes
  by_cases inside : position ≤ before.length
  · rw [take_append_of_le_length inside, drop_append_of_le_length inside]
    refine ⟨before.take position ++ new :: before.drop position, after, by simp, ?_⟩
    simp only [mem_append, mem_cons, not_or]
    exact ⟨fun mem => isLater (mem_of_mem_take mem), isOther.symm,
      fun mem => isLater (mem_of_mem_drop mem)⟩
  · obtain ⟨beyond, rfl⟩ : ∃ beyond, position = before.length + (beyond + 1) :=
      ⟨position - before.length - 1, by omega⟩
    rw [take_length_add_append]
    exact ⟨before, (after.take beyond) ++ new :: after.drop beyond, by simp, isLater⟩

end Precedes

/-! The last position of an item. -/

theorem findIdx?_reverse {item : α} {before after : List α}
    (isFound : holds item = true) (isLast : ∀ later ∈ after, holds later = false) :
    (before ++ item :: after).reverse.findIdx? holds = some after.length := by
  have absent : after.reverse.findIdx? holds = none :=
    findIdx?_eq_none_iff.2 fun later mem => isLast later (by simpa using mem)
  rw [reverse_append, reverse_cons, append_assoc, findIdx?_append, absent]
  simp [findIdx?_cons, isFound]

theorem exists_last {items : List α} (found : ∃ item ∈ items, holds item = true) :
    ∃ before item after, items = before ++ item :: after ∧ holds item = true ∧
      ∀ later ∈ after, holds later = false := by
  induction items with
  | nil => simp at found
  | cons head rest ih =>
    by_cases inRest : ∃ item ∈ rest, holds item = true
    · obtain ⟨before, item, after, rfl, isFound, isLast⟩ := ih inRest
      exact ⟨head :: before, item, after, rfl, isFound, isLast⟩
    · obtain ⟨item, mem, isFound⟩ := found
      rcases mem_cons.1 mem with rfl | mem
      · exact ⟨[], item, rest, rfl, isFound, by simpa using inRest⟩
      · exact absurd ⟨item, mem, isFound⟩ inRest

theorem lastIndexWhere?_of_split {item : α} {before after : List α}
    (isFound : holds item = true) (isLast : ∀ later ∈ after, holds later = false) :
    lastIndexWhere? holds (before ++ item :: after) = some before.length := by
  rw [lastIndexWhere?, findIdx?_reverse isFound isLast]
  simp

theorem lastIndexWhere?_eq_some {items : List α} {index : Nat}
    (found : lastIndexWhere? holds items = some index) :
    ∃ item, items[index]? = some item ∧ holds item = true := by
  have inItems : ∃ item ∈ items, holds item = true := by
    by_contra absent
    have : items.reverse.findIdx? holds = none := findIdx?_eq_none_iff.2 fun item mem => by
        simpa using fun isFound => absent ⟨item, by simpa using mem, isFound⟩
    simp [lastIndexWhere?, this] at found
  obtain ⟨before, item, after, rfl, isFound, isLast⟩ := exists_last inItems
  rw [lastIndexWhere?_of_split isFound isLast] at found
  cases found
  exact ⟨item, by simp, isFound⟩

namespace Emission

variable {emission : Emission}

theorem lastIndexOf?_of_split {expr : Expr} {identity : Nat} {before after : List Nat}
    (isPlaced : expr.id? = some identity) (split : emission.ledger = before ++ identity :: after)
    (isLast : identity ∉ after) : emission.lastIndexOf? expr = some before.length := by
  have found : emission.ledger.reverse.idxOf? identity = some after.length := by
    rw [split]
    exact findIdx?_reverse (by simp) fun later mem => by
      simpa using fun same : later = identity => isLast (same ▸ mem)
  have total : emission.ledger.length = before.length + (after.length + 1) := by simp [split]
  simp only [lastIndexOf?, isPlaced, found, Option.bind_eq_bind, Option.bind_some,
    Option.pure_def, Option.some.injEq]
  omega

/-- A production that is recorded once, before all those of another, has the smaller rank. -/
theorem rank_lt {first second : Expr} {identity later : Nat} (firstPlaced : first.id? = some identity)
    (secondPlaced : second.id? = some later) (precedes : Precedes emission.ledger identity later)
    (once : emission.ledger.count identity = 1) (isProduced : later ∈ emission.ledger)
    (isOther : later ≠ identity) : emission.rank first < emission.rank second := by
  obtain ⟨before, after, split, isLater⟩ := precedes
  have onlyHere : identity ∉ after := by
    rw [split, count_append, count_cons_self] at once
    exact count_eq_zero.1 (by omega)
  have inAfter : later ∈ after := by
    rw [split] at isProduced
    simpa [isLater, isOther] using isProduced
  obtain ⟨between, _, rest, rfl, isLast, noneLater⟩ :=
    exists_last ⟨later, inAfter, beq_self_eq_true later⟩
  cases beq_iff_eq.1 isLast
  have splitAgain : emission.ledger = (before ++ identity :: between) ++ later :: rest := by
    simp [split]
  have notLater : later ∉ rest := fun mem => by simpa using noneLater later mem
  unfold rank
  rw [lastIndexOf?_of_split firstPlaced split onlyHere,
    lastIndexOf?_of_split secondPlaced splitAgain notLater]
  simp

end Emission

/-! Sorting by a key. -/

theorem sortByKey_eq (items : List α) :
    sortByKey key items = items.insertionSort fun first second => key first ≤ key second := by
  have inserts : ∀ (item : α) (rest : List α), insertByKey key item rest =
      rest.orderedInsert (fun first second => key first ≤ key second) item := by
    intro item rest
    induction rest with
    | nil => rfl
    | cons head tail ih =>
      rw [insertByKey, orderedInsert_cons, ih]
  unfold sortByKey insertionSort
  congr 1
  funext item rest
  exact inserts item rest

theorem perm_sortByKey (items : List α) : (sortByKey key items).Perm items := by
  rw [sortByKey_eq]
  exact perm_insertionSort _ _

theorem pairwise_sortByKey (items : List α) :
    (sortByKey key items).Pairwise fun first second => key first ≤ key second := by
  rw [sortByKey_eq]
  exact pairwise_insertionSort _ _

end CilLift
