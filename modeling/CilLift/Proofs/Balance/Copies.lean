import CilLift.Proofs.Balance.Completion
import CilLift.Proofs.Steps

/-!
The balance where trees are repeated: a tree that is repeated as it is raises what is allowed by the
watched calls in it, and an element store, which makes one array of two copies, lowers it again.
-/

namespace CilLift

open List Machine Workspace Nat

namespace Scale

/-- The same scale with another allowance. -/
def allow (scale : Scale) (allowance : Nat) : Scale := { scale with allowance }

variable {scale : Scale} {start space : Workspace} {active : StackId → Prop}
  {base atlas origin : Atlas} {pool : List (Expr × Expr)} {shared : List Expr} {hand : List Held}
  {first less : Nat}

theorem Fair.allow (fair : scale.Fair) (allowance : Nat) : (scale.allow allowance).Fair where
  mono := fair.mono
  build := fair.build
  part := fair.part
  place := fair.place

theorem Hosts.allow (hosts : scale.Hosts) (allowance : Nat) : (scale.allow allowance).Hosts := hosts

theorem Settles.allow (settles : scale.Settles) (allowance : Nat) :
    (scale.allow allowance).Settles := settles

theorem Tells.allow (tells : scale.Tells) (allowance : Nat) : (scale.allow allowance).Tells := tells

theorem Accepts.allow {task : Task} (accepts : scale.Accepts task first origin) (allowance : Nat) :
    (scale.allow allowance).Accepts task first origin where
  symbol := accepts.symbol
  unwatched := accepts.unwatched
  captured := accepts.captured
  nested := accepts.nested

/-- The load and the allowance change together. -/
theorem Balance.reallow {held : List Held} (spent saved : Nat)
    (balance : (scale.allow less).Balance start active base atlas pool space shared hand)
    (lighter : space.load (scale.weight space.emission.nextNode atlas) active pool held + saved ≤
      space.load (scale.weight space.emission.nextNode atlas) active pool hand + spent)
    (allowed : less + spent ≤ scale.allowance + saved) :
    scale.Balance start active base atlas pool space shared held where
  forks := balance.forks
  outline := balance.outline
  idle := balance.idle
  grown := balance.grown
  agrees := balance.agrees
  declared := balance.declared
  backed := balance.backed
  unexposed := balance.unexposed
  within := by
    have within := balance.within
    have more : ((scale.allow less).limit space.emission.nextNode + spent : ℕ∞) ≤
        scale.limit space.emission.nextNode + saved := by
      unfold limit allow
      dsimp only
      norm_cast
      omega
    refine (ENat.add_le_add_iff_right (ENat.natCast_ne_top saved)).1 ?_
    exact lighter.trans ((add_le_add_left within _).trans more)

/-- The trees at hand hold the watched call no more often than is allowed. -/
theorem Balance.countP_hand_le
    (balance : scale.Balance start active base atlas pool space shared hand) :
    ((hand.map Held.tree).map fun tree => tree.nodes.countP scale.isWatched).sum ≤
      scale.allowance + 1 := by
  have admits : ∀ tree ∈ hand.map Held.tree, scale.Admits space.emission.nextNode atlas tree := by
    intro tree mem
    obtain ⟨held, isHeld, rfl⟩ := mem_map.1 mem
    exact balance.admits_hand isHeld
  have light : ((hand.map Held.tree).map (scale.weight space.emission.nextNode atlas)).sum ≤
      scale.limit space.emission.nextNode := by
    refine le_trans ?_ balance.within
    simp only [load, map_append, List.sum_append]
    exact le_add_left (le_add_left le_add_self)
  rw [weight, sum_tally admits] at light
  exact (cast_le.1 light).trans (limit_le _)

theorem Carries.countP_statements_le {emission : Emission} (carries : scale.Carries atlas emission) :
    (emission.statements.map fun tree => tree.nodes.countP scale.isWatched).sum ≤
      scale.allowance + 1 := by
  have light : (emission.statements.map (scale.weight emission.nextNode atlas)).sum ≤
      scale.limit emission.nextNode := by
    refine le_trans ?_ (Balance.within carries)
    simp only [load, map_append, List.sum_append]
    exact le_add_left le_self_add
  rw [weight, sum_tally fun tree => carries.admits_statement] at light
  exact (cast_le.1 light).trans (limit_le _)

theorem Standing.reallow {held : List Held} (spent saved : Nat)
    (standing : (scale.allow less).Standing first origin active atlas pool space hand)
    (lighter : space.load (scale.weight space.emission.nextNode atlas) active pool held + saved ≤
      space.load (scale.weight space.emission.nextNode atlas) active pool hand + spent)
    (allowed : less + spent ≤ scale.allowance + saved) :
    scale.Standing first origin active atlas pool space held where
  begun := standing.begun
  agrees := standing.agrees
  test := standing.test
  balance := standing.balance.reallow spent saved lighter allowed

section All

variable (fair : scale.Fair) (hosts : scale.Hosts)

include fair hosts

/-- An instruction leaves everything standing, if a tree that it repeats as it is is allowed for. -/
theorem StandsAll.step {task : Task} {machine : Machine} {event : Event} {path : StackId}
    (accepts : scale.Accepts task first origin) (isInstruction : event.isInstruction = true)
    (isCurrent : machine.current = some path) (allowed : less ≤ scale.allowance)
    (doubles : ∀ opcode, event = .plain opcode →
      stackOperation? opcode = some .duplicate → ∀ top rest,
      (machine.workspace.stack path).items = top :: rest → repeats task top = true →
      less + top.nodes.countP scale.isWatched ≤ scale.allowance)
    (stands : (scale.allow less).StandsAll first origin machine.workspace []) :
    Ensures (fun _ => True) (step task event) machine fun _ final =>
      machine.workspace.forks <+: final.workspace.forks ∧
        scale.StandsAll first origin final.workspace [] := by
  obtain ⟨atlas, pool, before⟩ := stands
  have standing : scale.Standing first origin (fun _ => True) atlas pool machine.workspace [] :=
    before.reallow 0 0 le_rfl allowed
  have serves : (scale.custody machine.workspace (fun _ => True) atlas).Serves task path :=
    fair.serves accepts trivial standing.begun standing.agrees
  have kept : ∀ {next hand},
      (scale.custody machine.workspace (fun _ => True) atlas).Holds next [] hand →
      next.forks = machine.workspace.forks ∧ scale.StandsAll first origin next hand := by
    intro next hand holds
    refine ⟨?_, standing.reach fair holds fun _ => id⟩
    obtain ⟨_, _, balance⟩ := holds
    exact balance.forks
  refine serves.step isInstruction isCurrent standing.holds ?_ fun label => ⟨?_, ?_, ?_⟩
  · intro opcode isPlain isDuplicate top rest items repeats
    have admits := standing.balance.admits_item trivial
      (by rw [items]; exact mem_cons_self : top ∈ (machine.workspace.stack path).items)
    refine ⟨atlas, pool, before.balance.reallow (top.nodes.countP scale.isWatched) 0 ?_ ?_⟩
    · rw [load_cons, Held.tree, weight, tally_eq admits]
      exact le_of_eq (add_zero _)
    · exact doubles opcode isPlain isDuplicate top rest items repeats
  · intro next holds same
    obtain ⟨sameForks, stands⟩ := kept holds
    exact ⟨sameForks ▸ prefix_refl _, stands⟩
  · intro next holds same
    obtain ⟨sameForks, stands⟩ := kept holds
    exact ⟨sameForks ▸ prefix_refl _, stands⟩
  · intro next test holds same
    obtain ⟨sameForks, stands⟩ := kept holds
    rw [← sameForks]
    exact stands.forkAt fair hosts label path

omit hosts in
/-- An element store leaves everything standing with less allowed, since one of two copies of the array
is gone. -/
theorem StandsAll.renew {machine next : Machine} {path : StackId} (tells : scale.Tells)
    (stored : storeElement path machine = .ok () next)
    (stands : (scale.allow less).StandsAll first origin machine.workspace []) :
    ∃ value position array rest,
      (machine.workspace.stack path).items = value :: position :: array :: rest ∧
      ∃ left, left + array.nodes.countP scale.isWatched = less ∧
        (scale.allow left).StandsAll first origin next.workspace [] := by
  obtain ⟨value, position, header, elements, duplicated, rest, index, coerced, found, isSame,
    converts, pushed⟩ := storeElement_eq_ok stored
  refine ⟨value, position, .array header elements, duplicated :: rest, found, ?_⟩
  obtain ⟨atlas, pool, before⟩ := stands
  have taken : (scale.allow less).Balance machine.workspace (fun _ => True) atlas atlas pool
      (machine.workspace.withItems path rest) []
      [.made value, .made (.array header elements), .made duplicated] := by
    have fewer : ∀ one lost two three others : ℕ∞,
        others + (one + (two + three)) ≤ one + (lost + (two + (three + others))) := by
      intro one lost two three others
      calc others + (one + (two + three)) ≤ lost + (others + (one + (two + three))) := le_add_self
        _ = one + (lost + (two + (three + others))) := by ac_rfl
    refine before.balance.withItems trivial ?_
    rw [found]
    simp only [map_cons, map_nil, sum_cons, sum_nil, add_zero, Held.tree]
    exact fewer ..
  have opened : (scale.allow less).StandsAll first origin (machine.workspace.withItems path rest)
      [.made value, .made (.array header elements), .made duplicated] :=
    before.reach (fair.allow less) ⟨atlas, pool, taken⟩ fun _ => id
  obtain ⟨wider, others, opened⟩ := opened
  have admits : scale.Admits _ wider duplicated :=
    opened.balance.admits_hand (by simp : Held.made duplicated ∈ _)
  have admitsArray : scale.Admits _ wider (.array header elements) :=
    opened.balance.admits_hand (by simp : Held.made (.array header elements) ∈ _)
  have sameCount := tells _ wider duplicated (.array header elements) admits admitsArray isSame
  -- Both copies are within the limit, so one of them is within what is allowed beyond one.
  have covered : (Expr.array header elements).nodes.countP scale.isWatched ≤ less := by
    have both := opened.balance.countP_hand_le
    change value.nodes.countP scale.isWatched +
      ((Expr.array header elements).nodes.countP scale.isWatched +
        (duplicated.nodes.countP scale.isWatched + 0)) ≤ less + 1 at both
    omega
  obtain ⟨left, isLeft⟩ := Nat.exists_eq_add_of_le covered
  refine ⟨left, by omega, ?_⟩
  have standing : (scale.allow left).Standing first origin (fun _ => True) wider others
      (machine.workspace.withItems path rest) [.made value, .made (.array header elements)] := by
    refine opened.reallow 0 (duplicated.nodes.countP scale.isWatched) ?_ ?_
    · have weighs : (scale.allow left).weight
          (machine.workspace.withItems path rest).emission.nextNode wider duplicated =
          (duplicated.nodes.countP scale.isWatched : ℕ) := tally_eq admits
      simp only [load_cons, Held.tree]
      rw [← weighs, cast_zero, add_zero]
      exact le_of_eq (by ac_rfl)
    · change less + 0 ≤ left + _
      omega
  have lawful : ((scale.allow left).custody (machine.workspace.withItems path rest) (fun _ => True)
      wider).Lawful (fun _ => True) fun _ => True := (fair.allow left).lawful
  have element := lawful.build [value] ((Expr.coerce_forms value _).of_ok converts) standing.holds
  have renewed := lawful.build [coerced, .array header elements]
    (Expr.MadeOf.set header.type.elementOrObject header elements index coerced) element
  have pushes : Custody.Runs _ (push path _) (machine.withItems path rest) [] fun _ => [] :=
    (lawful.push trivial renewed).work
  exact standing.reach (fair.allow left) (pushes.of_ok pushed).1 fun _ => id

end All

end Scale

end CilLift
