import CilLift.Proofs.InstructionForms
import CilLift.Proofs.Locality
import CilLift.Proofs.Steps

/-!
Dead code has no influence. An instruction that is reached on no path can be overwritten by
instructions that do nothing, even if it is a jump, whose target then is a label no more: nobody
waits there but for other jumps, which make it a label again. Only paths that wait for a place inside
the instruction notice the difference.
-/

namespace CilLift

open Trace Nat Prod Instruction Label

open Machine

variable {machine : Machine} {place length stop : Nat} {instruction : Instruction}
  {event : Option Event} {failure : Option Error}

/-- The event that comes before the instruction at a place. -/
def Event.isAt (position : Nat) : Event → Bool
  | .offset place => place == position
  | _ => false

namespace Machine

/-- The machine right before the instruction at a place, if the run comes there. -/
def reachedAt? (task : Task) (position : Nat) : List Event → Machine → Option Machine
  | [], _ => none
  | event :: rest, machine =>
    if event.isAt position then some machine
    else
      match step task event machine with
      | .ok _ next => reachedAt? task position rest next
      | .error _ _ => none

theorem reachedAt?_append {task : Task} {position : Nat} {events : List Event}
    (elsewhere : ∀ event ∈ events, event.isAt position = false) (rest : List Event)
    (machine : Machine) :
    reachedAt? task position (events ++ rest) machine =
      match events.forM (step task) machine with
      | .ok _ next => reachedAt? task position rest next
      | .error _ _ => none := by
  induction events generalizing machine with
  | nil => rfl
  | cons event events ih =>
    have notHere := elsewhere event List.mem_cons_self
    rw [List.cons_append, reachedAt?, notHere]
    change _ = (match EStateM.bind (step task event) (fun _ => events.forM (step task)) machine with
      | .ok _ next => reachedAt? task position rest next
      | .error _ _ => none)
    unfold EStateM.bind
    cases step task event machine with
    | ok _ next => exact ih (fun event mem =>
        elsewhere event (List.mem_cons_of_mem _ mem)) next
    | error => rfl

theorem runTrace_prepend (task : Task) (events : List Event) (trace : Trace) :
    runTrace task (trace.prepend events) =
      (events.forM (step task) >>= fun _ => runTrace task trace) := by
  unfold runTrace prepend
  rw [forM_append, bind_assoc]

theorem step_of_dead {event : Event} (task : Task) (isCall : event.isCall)
    (isDead : machine.current = none) :
    step task event machine = .ok () machine := by
  have idle : ∀ instruction, onCurrent instruction machine = .ok () machine := by
    intro instruction
    refine andThen_eq_ok.2 ⟨machine, machine, rfl, ?_⟩
    rw [isDead]
    rfl
  cases event with
  | code => cases isCall
  | locals => cases isCall
  | label => cases isCall
  | offset => cases isCall
  | finish => cases isCall
  | _ => exact idle _

theorem Alike.mono {renames others : Label → Label → Prop} {machine' : Machine}
    (alike : Alike renames machine machine')
    (weaker : ∀ label renamed, renames label renamed → others label renamed) :
    Alike others machine machine' :=
  ⟨alike.workspace, alike.current,
    alike.waiters.imp fun _ _ waits => ⟨weaker _ _ waits.1, waits.2⟩, alike.notCacheable⟩

theorem agree_self (outcome : EStateM.Result Error Machine Unit) :
    Agree Error.SameKind (Alike fun _ _ => True) outcome outcome := by
  cases outcome with
  | ok result machine =>
    exact .ok ⟨rfl, rfl, List.forall₂_same.2 fun _ _ => ⟨trivial, rfl⟩, rfl⟩
  | error error machine => exact .error rfl

end Machine

/-! The labels that matter from a place on. -/

namespace Label

variable {position : Nat} {labels labels' : List Nat}

/-- A label for which paths can wait from `position` on: it has gone by, or will be announced from
both lists. -/
def Awaited (position : Nat) (labels labels' : List Nat) (label : Label) : Prop :=
  label = .finish ∨ ∃ place, label.offset? = some place ∧
    (place < position ∨ place ∈ labels ∧ place ∈ labels')

/-- One label on both sides, for which paths can wait. -/
def Shared (position : Nat) (labels labels' : List Nat) (label other : Label) : Prop :=
  label = other ∧ label.Awaited position labels labels'

theorem renaming_shared (position : Nat) (labels labels' : List Nat) :
    Renaming (Shared position labels labels') where
  finish := ⟨rfl, .inl rfl⟩
  faithful := by
    rintro label _ label' _ ⟨rfl, -⟩ ⟨rfl, -⟩
    exact Iff.rfl

theorem waiting_shared_iff {waiters waiters' : List (Label × StackId)} :
    Waiting (Shared position labels labels') waiters waiters' ↔
      waiters = waiters' ∧ ∀ waiter ∈ waiters, waiter.1.Awaited position labels labels' := by
  constructor
  · intro waiting
    induction waiting with
    | nil => simp
    | @cons waiter waiter' rest rest' shared _ ih =>
      obtain ⟨⟨sameLabel, awaited⟩, sameStack⟩ := shared
      obtain ⟨rfl, others⟩ := ih
      refine ⟨congrArg (· :: rest) (Prod.ext sameLabel sameStack), ?_⟩
      exact List.forall_mem_cons.2 ⟨awaited, others⟩
  · rintro ⟨rfl, awaited⟩
    exact List.forall₂_same.2 fun waiter mem => ⟨⟨rfl, awaited waiter mem⟩, rfl⟩

end Label

namespace Trace

variable {position : Nat} {labels labels' : List Nat}

/-- The places in the list have labels of their own. -/
def Genuine (labels : List Nat) : Prop :=
  ∀ place ∈ labels, (ofOffset place).offset? = some place

/-- The labels to announce behind an instruction. -/
def labelsBehind (instruction : Instruction) (labels : List Nat) : List Nat :=
  instruction.jumpOffset?.toList ++ labels.filter (· != instruction.offset)

theorem Genuine.behind (genuine : Genuine labels) (instruction : Instruction) :
    Genuine (labelsBehind instruction labels) := by
  intro place mem
  rcases List.mem_append.1 mem with isTarget | isOld
  · unfold jumpOffset? at isTarget
    split at isTarget
    · have isPlace := Option.mem_toList.1 isTarget
      rw [ofOffset_of_offset? isPlace]
      exact isPlace
    · cases isTarget
  · exact genuine place (List.mem_filter.1 isOld).1

theorem announce_of_nobody (task : Task) (genuine : Genuine labels)
    (nobody : ∀ waiter ∈ machine.waiters, waiter.1.offset? ≠ some place) :
    (announce labels place).forM (step task) machine = .ok () machine := by
  unfold announce
  split
  · rename_i isLabel
    have isPlace := genuine place (List.contains_iff_mem.1 isLabel)
    have unawaited : (machine.waiters.any fun waiter => waiter.1 == ofOffset place) = false := by
      rw [List.any_eq_false]
      intro waiter mem same
      exact nobody waiter mem (beq_iff_eq.1 same ▸ isPlace)
    exact andThen_eq_ok.2 ⟨_, _, arriveAt_idle unawaited, rfl⟩
  · rfl

section Streams

variable {resolver : Resolver} {context : Instantiation} {task : Task} {first second : Machine}

variable (task) in
/-- A place is announced on both sides, or nobody waits for it. -/
theorem agree_announce (genuine : Genuine labels) (genuine' : Genuine labels')
    (isBehind : position ≤ place)
    (alike : Machine.Alike (Label.Shared position labels labels') first second) :
    Agree Error.SameKind (Machine.Alike (Label.Shared position labels labels'))
      ((announce labels place).forM (step task) first)
      ((announce labels' place).forM (step task) second) := by
  by_cases both : place ∈ labels ∧ place ∈ labels'
  · have isShared : Label.Shared position labels labels' (ofOffset place) (ofOffset place) :=
      ⟨rfl, .inr ⟨place, genuine place both.1, .inr both⟩⟩
    have isLabel : announce labels place = [.label (ofOffset place)] := by
      simp [announce, both.1]
    have isLabel' : announce labels' place = [.label (ofOffset place)] := by
      simp [announce, both.2]
    rw [isLabel, isLabel']
    exact task.relays_sameKind.run (renaming_shared position labels labels')
      (.cons (.label isShared) .nil) _ _ alike
  · obtain ⟨sameWaiters, awaited⟩ := waiting_shared_iff.1 alike.waiters
    have nobody : ∀ waiter ∈ first.waiters, waiter.1.offset? ≠ some place := by
      intro waiter mem isPlace
      rcases awaited waiter mem with isFinish | ⟨other, isOther, gone | known⟩
      · rw [isFinish] at isPlace
        cases isPlace
      · cases isOther.symm.trans isPlace
        omega
      · cases isOther.symm.trans isPlace
        exact both known
    rw [announce_of_nobody task genuine nobody, announce_of_nobody task genuine' (sameWaiters ▸ nobody)]
    exact .ok alike

/-- Runs that end behind a place agree if they know what is awaited there. -/
theorem agree_runTrace_announce (genuine : Genuine labels) (genuine' : Genuine labels')
    (isBehind : position ≤ place) (trace : Trace)
    (same : trace.Alike (Shared position labels labels') trace)
    (alike : Machine.Alike (Shared position labels labels') first second) :
    Agree Error.SameKind (Machine.Alike fun _ _ => True)
      (runTrace task (prepend (announce labels place) trace) first)
      (runTrace task (prepend (announce labels' place) trace) second) := by
  rw [runTrace_prepend, runTrace_prepend]
  refine (agree_announce task genuine genuine' isBehind alike).andThen fun _ first second alike => ?_
  refine (agrees_runTrace task (renaming_shared ..) same _ _ alike).mono fun _ _ alike => ?_
  exact alike.mono fun _ _ _ => trivial

/-- What is awaited before an instruction is awaited behind it. -/
theorem Shared.behind {next : Nat} (isBehind : position ≤ instruction.offset)
    (isNext : instruction.offset < next) {label other : Label}
    (shared : Shared position labels labels' label other) :
    Shared next (labelsBehind instruction labels) (labelsBehind instruction labels') label other := by
  obtain ⟨same, isFinish | ⟨place, isPlace, gone | ⟨known, known'⟩⟩⟩ := shared
  · exact ⟨same, .inl isFinish⟩
  · exact ⟨same, .inr ⟨place, isPlace, .inl (by omega)⟩⟩
  · by_cases here : place = instruction.offset
    · exact ⟨same, .inr ⟨place, isPlace, .inl (by omega)⟩⟩
    · refine ⟨same, .inr ⟨place, isPlace, .inr ⟨?_, ?_⟩⟩⟩
      · exact List.mem_append_right _ (List.mem_filter.2 ⟨known, by simpa using here⟩)
      · exact List.mem_append_right _ (List.mem_filter.2 ⟨known', by simpa using here⟩)

/-- An instruction names labels that are announced behind it. -/
theorem event_shared {event : Event}
    (made : instruction.event resolver context = .ok (some event)) :
    event.Alike (Shared position (labelsBehind instruction labels)
      (labelsBehind instruction labels')) event := by
  by_cases isJump : instruction.opcode.family = .jump
  · have isTarget := made
    unfold Instruction.event at isTarget
    dsimp only at isTarget
    rw [isJump] at isTarget
    obtain ⟨label, goes, isEvent⟩ := bind_eq_ok.1 isTarget
    cases isEvent
    refine .jump _ ⟨rfl, ?_⟩
    unfold target at goes
    split at goes
    · rename_i found isOperand
      cases goes
      have isOffset : instruction.jumpOffset? = label.offset? := by
        unfold jumpOffset?
        rw [isJump, isOperand]
      cases isPlace : label.offset? with
      | none =>
        left
        unfold offset? isFinish at isPlace
        split at isPlace
        · simpa using ‹(label == Label.finish) = true›
        · cases isPlace
      | some place =>
        have mem : ∀ labels, place ∈ labelsBehind instruction labels := by
          intro labels
          unfold labelsBehind
          rw [isOffset, isPlace]
          exact List.mem_cons_self
        exact .inr ⟨place, isPlace, .inr ⟨mem labels, mem labels'⟩⟩
    · cases goes
  · exact event_alike _ isJump made

/-- What comes before an instruction, and the instruction. -/
def eventsOf (labels : List Nat) (instruction : Instruction) (event : Option Event) : List Event :=
  announce labels instruction.offset ++ [.offset instruction.offset] ++ event.toList

variable (task) in
/-- Runs with different labels agree on an instruction as long as both know what is awaited. -/
theorem agree_eventsOf (genuine : Genuine labels) (genuine' : Genuine labels') {next : Nat}
    (isBehind : position ≤ instruction.offset) (isNext : instruction.offset < next)
    (made : instruction.event resolver context = .ok event)
    (alike : Machine.Alike (Label.Shared position labels labels') first second) :
    Agree Error.SameKind (Machine.Alike (Label.Shared next (labelsBehind instruction labels)
        (labelsBehind instruction labels')))
      ((eventsOf labels instruction event).forM (step task) first)
      ((eventsOf labels' instruction event).forM (step task) second) := by
  unfold eventsOf
  rw [List.append_assoc, List.append_assoc, @forM_append (announce labels _),
    @forM_append (announce labels' _)]
  refine (agree_announce task genuine genuine' isBehind alike).andThen fun _ first second alike => ?_
  have events : List.Forall₂ (Event.Alike (Label.Shared next (labelsBehind instruction labels)
      (labelsBehind instruction labels'))) ([.offset instruction.offset] ++ event.toList)
      ([.offset instruction.offset] ++ event.toList) := by
    refine .cons (.offset _ _) ?_
    cases event with
    | none => exact .nil
    | some event => exact .cons (event_shared made) .nil
  exact task.relays_sameKind.run (renaming_shared ..) events _ _
    (alike.mono fun _ _ => Shared.behind isBehind isNext)

theorem streamed_cons (made : instruction.event resolver context = .ok event) (labels : List Nat)
    (rest : List Instruction) :
    streamed resolver context length failure labels (instruction :: rest) =
      prepend (eventsOf labels instruction event)
        (streamed resolver context length failure (labelsBehind instruction labels) rest) := by
  rw [streamed, made]
  rfl

/-- Runs of one code with different labels agree as long as both know what is awaited. -/
theorem agree_streamed {instructions : List Instruction} (tiles : Tiles stop position instructions)
    (fits : stop ≤ length) (genuine : Genuine labels) (genuine' : Genuine labels')
    (alike : Machine.Alike (Shared position labels labels') first second) :
    Agree Error.SameKind (Machine.Alike fun _ _ => True)
      (runTrace task (streamed resolver context length failure labels instructions) first)
      (runTrace task (streamed resolver context length failure labels' instructions) second) := by
  induction instructions generalizing position labels labels' first second with
  | nil =>
    obtain rfl := tiles
    cases failure with
    | some error => exact .error rfl
    | none =>
      exact agree_runTrace_announce genuine genuine' fits ⟨[.finish], none⟩
        ⟨.cons .finish .nil, .none⟩ alike
  | cons instruction rest ih =>
    obtain ⟨rfl, positive, tiles⟩ := tiles
    cases made : instruction.event resolver context with
    | error error =>
      unfold streamed
      rw [made]
      exact agree_runTrace_announce genuine genuine' (le_refl _)
        ⟨[.offset instruction.offset], some error⟩ ⟨.cons (.offset _ _) .nil, .some rfl⟩ alike
    | ok event =>
      rw [streamed_cons made, streamed_cons made, runTrace_prepend, runTrace_prepend]
      have isNext : instruction.offset < instruction.next := Nat.lt_add_of_pos_right positive
      refine (agree_eventsOf task genuine genuine' (le_refl _) isNext made alike).andThen
        fun _ first second alike => ?_
      exact ih tiles (genuine.behind instruction) (genuine'.behind instruction) alike

/-- Passing an instruction without effect changes the offset only. -/
theorem runTrace_idle (made : instruction.event resolver context = .ok event)
    (arrives : (announce labels instruction.offset).forM (step task) first = .ok () second)
    (idle : event.toList.forM (step task) { second with offset := instruction.offset } =
      .ok () { second with offset := instruction.offset }) (rest : List Instruction) :
    runTrace task (streamed resolver context length failure labels (instruction :: rest)) first =
      runTrace task (streamed resolver context length failure (labelsBehind instruction labels) rest)
        { second with offset := instruction.offset } := by
  have passes : (eventsOf labels instruction event).forM (step task) first =
      .ok () { second with offset := instruction.offset } := by
    unfold eventsOf
    rw [List.append_assoc, forM_append, andThen_of_ok arrives]
    exact andThen_eq_ok.2 ⟨(), { second with offset := instruction.offset }, rfl, idle⟩
  rw [streamed_cons made, runTrace_prepend]
  exact andThen_of_ok passes

/-- Instructions that do nothing are passed without change where nobody waits for a place among
them. -/
theorem runTrace_nops {start count : Nat} (genuine : Genuine labels) (after : List Instruction)
    (nobody : ∀ waiter ∈ machine.waiters, ∀ place ∈ waiter.1.offset?,
      ¬(start ≤ place ∧ place < start + count)) :
    ∃ remaining offset, Genuine remaining ∧
      (∀ place ∈ labels, start + count ≤ place → place ∈ remaining) ∧
      runTrace task (streamed resolver context length failure labels
          (nops start count ++ after)) machine =
        runTrace task (streamed resolver context length failure remaining after)
          { machine with offset } := by
  induction count generalizing start labels machine with
  | zero => exact ⟨labels, machine.offset, genuine, fun _ mem _ => mem, rfl⟩
  | succ count ih =>
    let nop : Instruction := ⟨start, 1, .nop, .none⟩
    have arrives : (announce labels nop.offset).forM (step task) machine = .ok () machine :=
      announce_of_nobody task genuine fun waiter mem isPlace =>
        nobody waiter mem start isPlace (by omega)
    have nobodyLater : ∀ waiter ∈ ({ machine with offset := start } : Machine).waiters,
        ∀ place ∈ waiter.1.offset?, ¬(start + 1 ≤ place ∧ place < start + 1 + count) :=
      fun waiter mem place isPlace inside => nobody waiter mem place isPlace (by omega)
    obtain ⟨remaining, offset, genuineLater, kept, later⟩ := ih (genuine.behind nop) nobodyLater
    refine ⟨remaining, offset, genuineLater, fun place mem isBehind => ?_, ?_⟩
    · have elsewhere : place ≠ start := by omega
      exact kept place (List.mem_append_right _ (List.mem_filter.2 ⟨mem, by simpa using elsewhere⟩))
        (by omega)
    · have isNop : nop.event resolver context = .ok none := rfl
      exact (runTrace_idle isNop arrives rfl _).trans later

/-- In dead code an instruction and the instructions that overwrite it lead to machines that agree
from there on. -/
theorem agree_dead {after : List Instruction}
    (tiles : Tiles stop instruction.offset (instruction :: after)) (fits : stop ≤ length)
    (genuine : Genuine labels) (made : instruction.event resolver context = .ok event)
    (alike : Machine.Alike (Shared instruction.offset labels labels) first first)
    (arrives : (announce labels instruction.offset).forM (step task) first = .ok () second)
    (isDead : second.current = none)
    (nobodyInside : ∀ waiter ∈ second.waiters, ∀ place ∈ waiter.1.offset?,
      ¬(instruction.offset < place ∧ place < instruction.next)) :
    Agree Error.SameKind (Machine.Alike fun _ _ => True)
      (runTrace task (streamed resolver context length failure labels (instruction :: after)) first)
      (runTrace task (streamed resolver context length failure labels
        (nops instruction.offset instruction.size ++ after)) first) := by
  obtain ⟨-, positive, tiles⟩ := tiles
  obtain ⟨count, isSize⟩ := exists_eq_add_one.2 positive
  have isNext : instruction.next = instruction.offset + 1 + count := by
    rw [next]
    omega
  have idle : event.toList.forM (step task) { second with offset := instruction.offset } =
      .ok () { second with offset := instruction.offset } := by
    cases event with
    | none => rfl
    | some event =>
      exact andThen_eq_ok.2 ⟨_, _, step_of_dead task (event_isCall made) isDead, rfl⟩
  -- The first of the overwriting instructions stands where the overwritten one did.
  let nop : Instruction := ⟨instruction.offset, 1, .nop, .none⟩
  have isNop : nop.event resolver context = .ok none := rfl
  have nobodyLater : ∀ waiter ∈ ({ second with offset := instruction.offset } : Machine).waiters,
      ∀ place ∈ waiter.1.offset?,
        ¬(instruction.offset + 1 ≤ place ∧ place < instruction.offset + 1 + count) :=
    fun waiter mem place isPlace inside => nobodyInside waiter mem place isPlace (by omega)
  obtain ⟨remaining, offset, genuineLater, kept, later⟩ :=
    runTrace_nops (genuine.behind nop) after nobodyLater
  rw [runTrace_idle made arrives idle, isSize, nops, List.cons_append,
    runTrace_idle isNop arrives rfl, later]
  refine agree_streamed tiles fits (genuine.behind instruction) genuineLater ⟨rfl, rfl, ?_, rfl⟩
  refine waiting_shared_iff.2 ⟨rfl, fun waiter mem => ?_⟩
  -- Who waits in dead code waits for the end, for a place gone by or for one known before.
  have awaited : waiter.1.Awaited instruction.offset labels labels := by
    have arrived := agree_announce task genuine genuine (le_refl _) alike
    rw [arrives] at arrived
    cases arrived with
    | ok alike => exact (waiting_shared_iff.1 alike.waiters).2 waiter mem
  obtain isFinish | ⟨place, isPlace, gone | ⟨known, -⟩⟩ := awaited
  · exact .inl isFinish
  · exact .inr ⟨place, isPlace, .inl (by omega)⟩
  · refine .inr ⟨place, isPlace, ?_⟩
    by_cases behind : instruction.next ≤ place
    · have elsewhere : place ≠ instruction.offset := by omega
      have old : place ∈ labels.filter (· != instruction.offset) :=
        List.mem_filter.2 ⟨known, by simpa using elsewhere⟩
      exact .inr ⟨List.mem_append_right _ old, kept place (List.mem_append_right _ old) (by omega)⟩
    · exact .inl (by omega)

theorem announce_elsewhere (labels : List Nat) (place position : Nat) :
    ∀ event ∈ announce labels place, event.isAt position = false := by
  unfold announce
  split
  · simp [Event.isAt]
  · simp

theorem eventsOf_elsewhere (labels : List Nat) {position : Nat}
    (made : instruction.event resolver context = .ok event)
    (elsewhere : instruction.offset ≠ position) :
    ∀ found ∈ eventsOf labels instruction event, found.isAt position = false := by
  intro found mem
  rcases List.mem_append.1 mem with mem | isEvent
  · rcases List.mem_append.1 mem with isLabel | isOffset
    · exact announce_elsewhere labels _ position found isLabel
    · rw [List.mem_singleton.1 isOffset]
      simpa [Event.isAt] using elsewhere
  · have isCall := event_isCall ((Option.mem_toList.1 isEvent) ▸ made)
    cases found with
    | offset => cases isCall
    | _ => rfl

/-- An instruction is reached behind the label of its place. -/
theorem arrives_of_reached {trace : Trace} (reached : reachedAt? task instruction.offset
      (prepend (eventsOf labels instruction event) trace).events first = some second) :
    (announce labels instruction.offset).forM (step task) first = .ok () second := by
  change reachedAt? task _ (announce labels instruction.offset ++ [.offset instruction.offset] ++
    event.toList ++ trace.events) first = _ at reached
  rw [List.append_assoc, List.append_assoc, reachedAt?_append (announce_elsewhere labels _ _)] at reached
  cases arrives : (announce labels instruction.offset).forM (step task) first with
  | error error next =>
    rw [arrives] at reached
    cases reached
  | ok result next =>
    rw [arrives] at reached
    simpa [reachedAt?, Event.isAt] using reached

/-- Runs of a code and of the code in which a dead instruction is overwritten agree. -/
theorem agree_blanked {start : Nat} {before after : List Instruction} {dead : Machine}
    (tiles : Tiles stop start (before ++ instruction :: after)) (fits : stop ≤ length)
    (genuine : Genuine labels) (made : instruction.event resolver context = .ok event)
    (alike : Machine.Alike (Shared start labels labels) machine machine)
    (reached : reachedAt? task instruction.offset (streamed resolver context length failure labels
      (before ++ instruction :: after)).events machine = some dead) (isDead : dead.current = none)
    (nobodyInside : ∀ waiter ∈ dead.waiters, ∀ place ∈ waiter.1.offset?,
      ¬(instruction.offset < place ∧ place < instruction.next)) :
    Agree Error.SameKind (Machine.Alike fun _ _ => True)
      (runTrace task (streamed resolver context length failure labels
        (before ++ instruction :: after)) machine)
      (runTrace task (streamed resolver context length failure labels
        (before ++ (nops instruction.offset instruction.size ++ after))) machine) := by
  induction before generalizing start labels machine with
  | nil =>
    obtain ⟨rfl, tiles⟩ := tiles
    refine agree_dead ⟨rfl, tiles⟩ fits genuine made alike ?_ isDead nobodyInside
    rw [List.nil_append, streamed_cons made] at reached
    exact arrives_of_reached reached
  | cons first before ih =>
    obtain ⟨rfl, positive, tiles⟩ := tiles
    rw [List.cons_append, List.cons_append]
    rw [List.cons_append] at reached
    cases madeFirst : first.event resolver context with
    | error error =>
      unfold streamed
      rw [madeFirst]
      exact agree_self _
    | ok firstEvent =>
      rw [streamed_cons madeFirst] at reached
      rw [streamed_cons madeFirst, streamed_cons madeFirst, runTrace_prepend, runTrace_prepend]
      have isNext : first.offset < first.next := Nat.lt_add_of_pos_right positive
      have isBefore : first.next ≤ instruction.offset := tiles.pairwise.2 _ (by simp [places])
      refine agree_afterSame (fun _ => rfl) fun _ middle passed => ?_
      have alikeBehind := agree_eventsOf task genuine genuine (le_refl _) isNext madeFirst alike
      rw [passed] at alikeBehind
      cases alikeBehind with
      | ok alikeBehind =>
        refine ih tiles (genuine.behind first) alikeBehind ?_
        have elsewhere := eventsOf_elsewhere labels madeFirst
          (Nat.ne_of_lt (lt_of_lt_of_le isNext isBefore))
        change reachedAt? task instruction.offset (eventsOf labels first firstEvent ++ _) _ = _ at reached
        rwa [reachedAt?_append elsewhere, passed] at reached

end Streams

end Trace

theorem Listing.Comes.exists_tiles {cursor : Cursor} {listing : Listing}
    (comes : Comes cursor listing) (here : cursor.position ≤ cursor.data.length) :
    ∃ stop ≤ cursor.data.length, Tiles stop cursor.position listing.instructions := by
  induction comes with
  | @ends cursor => exact ⟨cursor.position, here, rfl⟩
  | @fails cursor => exact ⟨cursor.position, here, rfl⟩
  | reads hasMore read later ih =>
    obtain ⟨stands, rfl⟩ := readInstruction_eq_ok read
    have inside := stands.inside here
    rw [← stands.next_eq] at inside
    obtain ⟨stop, fits, tiles⟩ := ih inside
    rw [stands.next_eq] at tiles
    exact ⟨stop, fits, stands.offset, stands.size_pos, tiles⟩

namespace Lifter

/-- The machine right before the instruction at a place of a body, if the lifting comes there. -/
def reached? (lifter : Lifter) (method : Method) (body : MethodBody) (position : Nat) : Option Machine :=
  match lifter.rootTask method with
  | .ok (task, nextNode) =>
    Machine.reachedAt? task position (lifter.trace body).events (.initial nextNode)
  | .error _ => none

/-- Dead code has no influence: an instruction that is reached on no path, and that would have had a
meaning, can be overwritten by instructions that do nothing, as long as no path waits for a place
inside it. -/
theorem lift_of_dead_instruction (lifter : Lifter) (method : Method) {body : MethodBody}
    {instruction : Instruction} {event : Option Event} {machine : Machine}
    (listed : instruction ∈ (Listing.ofCode body.code).instructions)
    (made : instruction.event lifter.resolver lifter.context = .ok event)
    (reached : lifter.reached? method body instruction.offset = some machine)
    (isDead : machine.current = none)
    (nobodyInside : ∀ waiter ∈ machine.waiters, ∀ place ∈ waiter.1.offset?,
      ¬(instruction.offset < place ∧ place < instruction.next)) :
    SameOutcome (lifter.lift method body) (lifter.lift method
      { body with code := blanked body.code instruction.offset instruction.size }) := by
  refine lift_sameOutcome (fun _ _ => True) fun task nextNode prepared => ?_
  obtain ⟨before, after, isSplit⟩ := List.append_of_mem listed
  obtain ⟨stop, fits, tiles⟩ := (Listing.comes_ofCode body.code).exists_tiles (zero_le _)
  have inside := ((Listing.comes_ofCode body.code).inside (zero_le _) _ listed).2
  unfold reached? trace at reached
  rw [prepared, ofBody_eq_streamed, isSplit] at reached
  rw [isSplit] at tiles
  unfold runBody trace
  rw [ofBody_eq_streamed, ofBody_eq_streamed, Listing.ofCode_blanked isSplit, isSplit,
    runTrace_prepend, runTrace_prepend, length_blanked inside]
  refine agree_afterSame (fun _ => rfl) fun _ start begun => ?_
  have alike : Alike (Shared 0 [] []) start start := by
    have agree := task.relays_sameKind.run (renaming_shared 0 [] [])
      (.cons .code (.cons (.locals body.maxStack body.maxStack
        (body.locals.map (TypeSig.instantiate lifter.context))) .nil))
      (.initial nextNode) (.initial nextNode)
      ⟨rfl, rfl, .nil, rfl⟩
    rw [begun] at agree
    cases agree with
    | ok alike => exact alike
  refine agree_blanked tiles fits (fun _ mem => nomatch mem) made alike ?_ isDead nobodyInside
  change reachedAt? task instruction.offset ([.code, .locals _ _] ++ _) _ = _ at reached
  rwa [reachedAt?_append (by simp [Event.isAt]), begun] at reached

/-- What is seen of the machine right before an instruction: the current path, and the labels that
others wait for. -/
def sight? (body : MethodBody) (position : Nat) : Option (Option StackId × List Label) :=
  (withoutMembers.reached? (.taking .bool ["a"]) body position).map fun machine =>
    (machine.current, machine.waiters.map fst)

/-- A choice with a jump between its sides, which is never taken and goes where the other one does. -/
def choiceAroundJump : MethodBody :=
  { code := [0x02, 0x2d, 0x04, 0x17, 0x2a, 0x2b, 0x00, 0x18, 0x2a] }

def deadJump : Instruction := ⟨5, 2, .brS, .target ⟨7⟩⟩

theorem choiceAroundJump_without_jump :
    deadJump ∈ (Listing.ofCode choiceAroundJump.code).instructions ∧
    sight? choiceAroundJump deadJump.offset = some (none, [⟨7⟩, .finish]) ∧
    (withoutMembers.lift (.taking .bool ["a"]) choiceAroundJump).map MethodTree.text =
      .ok "(a) => (!a ? 1 : 2)" ∧
    SameOutcome (withoutMembers.lift (.taking .bool ["a"]) choiceAroundJump)
      (withoutMembers.lift (.taking .bool ["a"]) { choiceAroundJump with
        code := blanked choiceAroundJump.code deadJump.offset deadJump.size }) := by
  have listed : deadJump ∈ (Listing.ofCode choiceAroundJump.code).instructions := by decide +kernel
  have seen : sight? choiceAroundJump deadJump.offset = some (none, [⟨7⟩, .finish]) := by decide +kernel
  have lifted : (withoutMembers.lift (.taking .bool ["a"]) choiceAroundJump).map MethodTree.text =
      .ok "(a) => (!a ? 1 : 2)" := by decide +kernel
  obtain ⟨machine, reached, isSight⟩ := Option.map_eq_some_iff.1 seen
  obtain ⟨isDead, waiting⟩ := Prod.mk.inj isSight
  refine ⟨listed, seen, lifted, ?_⟩
  refine lift_of_dead_instruction _ _ listed rfl reached isDead fun waiter mem place isPlace => ?_
  have isLabel : waiter.1 ∈ machine.waiters.map Prod.fst := List.mem_map_of_mem mem
  rw [waiting, List.mem_pair] at isLabel
  rcases isLabel with isSeven | isFinish
  · rw [isSeven] at isPlace
    cases isPlace
    decide
  · rw [isFinish] at isPlace
    cases isPlace

/-- A choice with a literal between its sides, which is never loaded, and into whose operand the other
side jumps. -/
def choiceIntoLiteral : MethodBody :=
  { code := [0x02, 0x2d, 0x03, 0x17, 0x2a, 0x20, 0x00, 0x00, 0x00, 0x00, 0x18, 0x2a] }

def deadLiteral : Instruction := ⟨5, 5, .ldcI4, .int 0⟩

/-- Overwriting the literal makes the place inside it a label, so that the path waiting there is
joined and not lost. -/
theorem choiceIntoLiteral_depends_on_literal :
    deadLiteral ∈ (Listing.ofCode choiceIntoLiteral.code).instructions ∧
    (∃ event, deadLiteral.event withoutMembers.resolver withoutMembers.context = .ok event) ∧
    sight? choiceIntoLiteral deadLiteral.offset = some (none, [⟨6⟩, .finish]) ∧
    ¬SameOutcome (withoutMembers.lift (.taking .bool ["a"]) choiceIntoLiteral)
      (withoutMembers.lift (.taking .bool ["a"]) { choiceIntoLiteral with
        code := blanked choiceIntoLiteral.code deadLiteral.offset deadLiteral.size }) := by
  have fails : (withoutMembers.lift (.taking .bool ["a"]) choiceIntoLiteral).map MethodTree.text =
      .error (.shape (.pathsNeverJoin ⟨6⟩)) := by decide +kernel
  have lifts : (withoutMembers.lift (.taking .bool ["a"]) { choiceIntoLiteral with
      code := blanked choiceIntoLiteral.code deadLiteral.offset deadLiteral.size }).map
        MethodTree.text = .ok "(a) => (!a ? 1 : 2)" := by decide +kernel
  obtain ⟨tree, isTree, -⟩ := exists_of_map lifts
  refine ⟨by decide +kernel, ⟨_, rfl⟩, by decide +kernel, fun same => ?_⟩
  rw [isTree] at same
  rw [same.eq_ok] at fails
  cases fails

end Lifter

end CilLift
