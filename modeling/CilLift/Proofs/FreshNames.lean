import CilLift.Proofs.Scoping

/-!
The names and numbers that an emission hands out, over any sequence of requests. A temporary name is
not reserved by asking for it, and a variable may be asked for under any name, so what is kept is that
every number the counter of temporaries has passed is in a name that was handed out. So the counter is
at most as many numbers further as there were answers.
-/

namespace CilLift.Emission

open List Emission Nat

/-- The requests that name, number or declare variables. -/
inductive Request where
  | temporaryName
  | newVariable (name : String) (type : TypeSig)
  | materialize (expr : Expr) (name : String)
  | declare (node assignment : Expr)
  | addVariable (node : Expr)

/-- An emission with what it has answered so far, the latest first. -/
structure Session where
  emission : Emission
  temporaries : List String := []
  made : List Expr := []

namespace Session

def start (stem : String) (first : UInt64) : Session where
  emission := { stem, nextTemporary := first }

def serve (session : Session) : Request → Session
  | .temporaryName =>
    let (name, emission) := session.emission.freshName
    { session with emission, temporaries := name :: session.temporaries }
  | .newVariable name type =>
    let (node, emission) := session.emission.newVariable name type
    { session with emission, made := node :: session.made }
  | .materialize expr name =>
    let (node, emission) := session.emission.materialize expr name
    { session with emission, made := node :: session.made }
  | .declare node assignment =>
    { session with emission := session.emission.declare node assignment }
  | .addVariable node => { session with emission := session.emission.addVariable node }

def run (session : Session) (requests : List Request) : Session := requests.foldl serve session

/-- The variables made in a session. -/
def symbols (session : Session) : List Variable := session.made.filterMap Expr.variableOf?

/-- The number of names handed out. -/
def answers (session : Session) : Nat := session.temporaries.length + session.made.length

/-- A request is answered with one name at most. -/
theorem answers_serve (session : Session) (request : Request) :
    (session.serve request).answers ≤ session.answers + 1 := by
  cases request <;> simp only [serve, answers, length_cons] <;> omega

end Session

/-- The search for a free name passes over names that are taken. -/
theorem stepsToFree_eq (emission : Emission) (steps limit : Nat) :
    ∃ more ≤ limit, emission.stepsToFree steps limit = steps + more ∧
      ∀ step < more, emission.temporaryName (steps + step) ∈ emission.names := by
  induction limit generalizing steps with
  | zero => exact ⟨0, le_refl 0, rfl, nofun⟩
  | succ limit ih =>
    rw [stepsToFree]
    split
    · rename_i isTaken
      obtain ⟨more, within, isFound, taken⟩ := ih (steps + 1)
      refine ⟨more + 1, succ_le_succ within, by omega, fun step isStep => ?_⟩
      cases step with
      | zero => exact contains_iff_mem.1 isTaken
      | succ step =>
        rw [add_comm step, ← add_assoc]
        exact taken step (lt_of_succ_lt_succ isStep)
    · exact ⟨0, zero_le _, rfl, nofun⟩

/-- The counter has come from `first` to where it is through numbers in names that were handed out, and
has passed those of the temporaries. -/
structure Counts (stem : String) (first counter : UInt64) (temporaries names : List String) : Prop where
  later : first.toNat ≤ counter.toNat
  used : ∀ number, first.toNat ≤ number → number < counter.toNat →
    stem ++ toString number ∈ temporaries ++ names
  passed : ∀ name ∈ temporaries, ∃ number < counter.toNat, name = stem ++ toString number

namespace Counts

variable {stem : String} {first counter : UInt64} {temporaries names : List String}

/-- There are no more used numbers than names. -/
theorem le_of_used (stem : String) {number : Nat}
    (used : ∀ found, first.toNat ≤ found → found < number → stem ++ toString found ∈ names) :
    number ≤ first.toNat + names.length := by
  let seen := (range' first.toNat (number - first.toNat)).map fun found => stem ++ toString found
  have distinct : seen.Nodup := Nodup.map (numbered_injective stem) nodup_range'
  have included : seen ⊆ names := by
    intro name mem
    obtain ⟨found, isFound, rfl⟩ := mem_map.1 mem
    rw [mem_range'_1] at isFound
    exact used found isFound.1 (by omega)
  have fewer := (distinct.subperm included).length_le
  simp only [seen, length_map, length_range'] at fewer
  omega

/-- Another name is handed out under any number. -/
theorem grow {more : List String} (counts : Counts stem first counter temporaries names)
    (isMore : names ⊆ more) : Counts stem first counter temporaries more :=
  ⟨counts.later, fun number from' below => (mem_append.1 (counts.used number from' below)).elim
    (mem_append_left _) (fun mem => mem_append_right _ (isMore mem)), counts.passed⟩

/-- The counter goes on over names that are taken and one that is handed out now. -/
theorem advance {next : UInt64} {steps : Nat} {temporaries' names' : List String}
    (counts : Counts stem first counter temporaries names)
    (isNext : next.toNat = counter.toNat + steps + 1)
    (taken : ∀ step < steps, stem ++ toString (counter.toNat + step) ∈ names)
    (kept : temporaries ++ names ⊆ temporaries' ++ names')
    (given : stem ++ toString (counter.toNat + steps) ∈ temporaries' ++ names')
    (known : ∀ name ∈ temporaries', name ∈ temporaries ∨ name = stem ++ toString (counter.toNat + steps)) :
    Counts stem first next temporaries' names' := by
  have later := counts.later
  refine ⟨by omega, fun number from' below => ?_, fun name mem => ?_⟩
  · by_cases isOld : number < counter.toNat
    · exact kept (counts.used number from' isOld)
    · obtain ⟨step, rfl⟩ := Nat.exists_eq_add_of_le (Nat.le_of_not_lt isOld)
      rcases lt_or_eq_of_le (show step ≤ steps by omega) with isTaken | rfl
      · exact kept (mem_append_right _ (taken step isTaken))
      · exact given
  · rcases known name mem with isOld | rfl
    · obtain ⟨number, isPassed, isName⟩ := counts.passed name isOld
      exact ⟨number, by omega, isName⟩
    · exact ⟨_, by omega, rfl⟩

end Counts

namespace Session

/-- The names and numbers of the variables made are recorded and differ, and so do the temporaries
given, all of which the counter has passed. -/
structure Sound (stem : String) (first : UInt64) (session : Session) : Prop where
  sameStem : session.emission.stem = stem
  areVariables : session.made.map Expr.variableOf? = session.symbols.map some
  names : session.symbols.map Variable.name = session.emission.names
  numbers : session.symbols.map Variable.number = (range session.emission.nextVariable).reverse
  distinct : session.emission.names.Nodup
  counts : Counts stem first session.emission.nextTemporary session.temporaries session.emission.names
  apart : session.temporaries.Nodup

theorem sound_start (stem : String) (first : UInt64) : (start stem first).Sound stem first :=
  ⟨rfl, rfl, rfl, rfl, nodup_nil, ⟨le_refl _, fun _ from' below => absurd from' (not_le.2 below),
    forall_mem_nil _⟩, nodup_nil⟩

variable {session : Session}

namespace Sound

variable {stem : String} {first : UInt64} (sound : session.Sound stem first)

include sound

/-- Every variable made has a name on record. -/
theorem length_names : session.emission.names.length = session.made.length := by
  have lengths := congrArg length sound.areVariables
  rw [length_map, length_map] at lengths
  rw [← sound.names, length_map, lengths]

/-- What leaves the names and the counters alone keeps a session sound. -/
theorem keep {next : Emission} (stemKept : next.stem = session.emission.stem)
    (names : next.names = session.emission.names)
    (nextVariable : next.nextVariable = session.emission.nextVariable)
    (nextTemporary : next.nextTemporary = session.emission.nextTemporary) :
    Sound stem first { session with emission := next } where
  sameStem := stemKept.trans sound.sameStem
  areVariables := sound.areVariables
  names := sound.names.trans names.symm
  numbers := by
    rw [nextVariable]
    exact sound.numbers
  distinct := by
    rw [names]
    exact sound.distinct
  counts := by
    rw [names, nextTemporary]
    exact sound.counts
  apart := sound.apart

section

variable (few : first.toNat + session.answers + 1 < UInt64.size)

include few

/-- A temporary name is the first from the counter on that no variable made carries, the counter does
not overflow, and the name is not among those given before. -/
theorem freshName : ∃ steps ≤ session.made.length,
    session.emission.freshName.1 = stem ++ toString (session.emission.nextTemporary.toNat + steps) ∧
    session.emission.freshName.2.nextTemporary.toNat = session.emission.nextTemporary.toNat + steps + 1 ∧
    (∀ step < steps, stem ++ toString (session.emission.nextTemporary.toNat + step) ∈
      session.emission.names) ∧
    session.emission.freshName.1 ∉ session.temporaries := by
  let counter := session.emission.nextTemporary.toNat
  obtain ⟨steps, within, isFound, taken⟩ :=
    session.emission.stepsToFree_eq 0 session.emission.names.length
  rw [zero_add] at isFound
  have isCounted : (session.temporaries ++ session.emission.names).length = session.answers := by
    rw [length_append, sound.length_names, answers]
  have named {step : Nat} (isWord : counter + step < UInt64.size) :
      session.emission.temporaryName step = stem ++ toString (counter + step) := by
    rw [temporaryName, sound.sameStem, numberAfter, if_pos (by omega), mod_eq_of_lt isWord]
  -- All numbers up to the one found are in names, so it is no larger than the number of these.
  have bounded (step : Nat) (isStep : step ≤ steps) : counter + step ≤ first.toNat + session.answers := by
    rw [← isCounted]
    induction step with
    | zero => exact Counts.le_of_used stem sound.counts.used
    | succ step ih =>
      refine Counts.le_of_used stem fun found from' below => ?_
      by_cases isOld : found < counter
      · exact sound.counts.used found from' isOld
      · obtain ⟨earlier, rfl⟩ := Nat.exists_eq_add_of_le (Nat.le_of_not_lt isOld)
        have isTaken := taken earlier (by omega)
        rw [zero_add, named (by omega)] at isTaken
        exact mem_append_right _ isTaken
  have isLast := bounded steps (le_refl _)
  have isFresh : session.emission.freshName.1 = stem ++ toString (counter + steps) := by
    rw [Emission.freshName, isFound, named (by omega)]
  refine ⟨steps, sound.length_names ▸ within, isFresh, ?_, fun step isStep => ?_, fun isGiven => ?_⟩
  · rw [Emission.freshName, UInt64.toNat_add, UInt64.toNat_ofNat']
    simp only [UInt64.size] at few isLast ⊢
    omega
  · have isTaken := taken step isStep
    rwa [zero_add, named (by omega)] at isTaken
  · obtain ⟨number, isPassed, isName⟩ := sound.counts.passed _ isGiven
    rw [isFresh] at isName
    have same := numbered_injective stem isName
    omega

theorem temporaryName : (session.serve .temporaryName).Sound stem first := by
  obtain ⟨steps, -, isName, isNext, taken, notGiven⟩ := sound.freshName few
  refine ⟨sound.sameStem, sound.areVariables, sound.names, sound.numbers, sound.distinct,
    sound.counts.advance isNext taken ?_ ?_ ?_, nodup_cons.2 ⟨notGiven, sound.apart⟩⟩
  · exact subset_cons_of_subset _ (Subset.refl _)
  · rw [← isName]
    exact mem_cons_self
  · rw [← isName]
    exact fun name mem => (mem_cons.1 mem).symm

/-- A variable gets the name asked for, or a temporary one that is free. -/
theorem newVariable_eq (name : String) (type : TypeSig) :
    ∃ given counter, given ∉ session.emission.names ∧
      Counts stem first counter session.temporaries (given :: session.emission.names) ∧
      session.emission.newVariable name type =
        (.var { type, id := some session.emission.nextNode } session.emission.nextVariable given,
          { session.emission with
            names := given :: session.emission.names
            nextTemporary := counter
            nextVariable := session.emission.nextVariable + 1
            nextNode := session.emission.nextNode + 1 }) := by
  unfold newVariable
  by_cases isTaken : session.emission.names.contains name = true
  · rw [if_pos isTaken]
    obtain ⟨steps, -, isName, isNext, taken, -⟩ := sound.freshName few
    refine ⟨_, _, freshName_not_mem, sound.counts.advance isNext taken ?_ ?_ ?_, rfl⟩
    · exact append_subset.2 ⟨subset_append_left .., fun _ mem =>
        mem_append_right _ (mem_cons_of_mem _ mem)⟩
    · rw [← isName]
      exact mem_append_right _ mem_cons_self
    · exact fun _ => .inl
  · rw [if_neg isTaken]
    exact ⟨_, _, fun mem => isTaken (contains_iff_mem.2 mem),
      sound.counts.grow (subset_cons_self ..), rfl⟩

theorem newVariable (name : String) (type : TypeSig) :
    (session.serve (.newVariable name type)).Sound stem first := by
  obtain ⟨given, counter, isFree, counts, isNew⟩ := sound.newVariable_eq few name type
  simp only [serve, isNew]
  refine ⟨sound.sameStem, ?_, ?_, ?_, nodup_cons.2 ⟨isFree, sound.distinct⟩, counts, sound.apart⟩
  · exact congrArg (some _ :: ·) sound.areVariables
  · exact congrArg (given :: ·) sound.names
  · rw [range_succ, reverse_append]
    exact congrArg (_ :: ·) sound.numbers

/-- One request keeps a session sound. -/
theorem serve (request : Request) : (session.serve request).Sound stem first := by
  cases request with
  | temporaryName => exact sound.temporaryName few
  | newVariable name type => exact sound.newVariable few name type
  | materialize expr name => exact (sound.newVariable few name expr.type).keep rfl rfl rfl rfl
  | declare node assignment =>
    simp only [Session.serve, declare]
    split
    · exact sound
    · exact sound.keep rfl rfl rfl rfl
  | addVariable node => exact sound.keep rfl rfl rfl rfl

end

/-- Any requests keep a session sound as long as the counter cannot overflow. -/
theorem run (requests : List Request)
    (few : first.toNat + session.answers + requests.length < UInt64.size) :
    (session.run requests).Sound stem first ∧
      (session.run requests).answers ≤ session.answers + requests.length := by
  induction requests generalizing session with
  | nil => exact ⟨sound, le_refl _⟩
  | cons request requests ih =>
    rw [length_cons] at few ⊢
    have counted := session.answers_serve request
    have later := ih (sound.serve (by omega) request) (by omega)
    exact ⟨later.1, later.2.trans (by omega)⟩

end Sound

/-- Whatever has been asked for, as long as the counter of temporaries cannot overflow the next
temporary name is found after at most as many steps as there are variables made, is carried by none of
them and has not been given before; and all variables made have different names and different numbers.
No variable at all carries the name exactly if none does that was made elsewhere and is declared here. -/
theorem names_unique (stem : String) (first : UInt64) (requests : List Request)
    (few : first.toNat + requests.length + 1 < UInt64.size) :
    let session := (start stem first).run requests
    let name := session.emission.freshName.1
    (∃ steps ≤ session.made.length,
      name = stem ++ toString (session.emission.nextTemporary.toNat + steps) ∧
      session.emission.freshName.2.nextTemporary.toNat =
        session.emission.nextTemporary.toNat + steps + 1 ∧
      ∀ step < steps, stem ++ toString (session.emission.nextTemporary.toNat + step) ∈
        session.symbols.map Variable.name) ∧
    name ∉ session.symbols.map Variable.name ∧ name ∉ session.temporaries ∧
    session.temporaries.Nodup ∧
    session.made.map Expr.variableOf? = session.symbols.map some ∧
    (session.symbols.map Variable.name).Nodup ∧ (session.symbols.map Variable.number).Nodup ∧
    (name ∉ session.emission.declared.map Variable.name ↔
      ∀ symbol ∈ session.emission.declared, symbol ∉ session.symbols → symbol.name ≠ name) := by
  intro session name
  obtain ⟨sound, answered⟩ : session.Sound stem first ∧ session.answers ≤ 0 + requests.length :=
    (sound_start stem first).run requests (by simp only [start, answers, length_nil]; omega)
  obtain ⟨steps, within, isName, isNext, taken, notGiven⟩ := sound.freshName (by omega)
  have notCarried : name ∉ session.symbols.map Variable.name := by
    rw [sound.names]
    exact freshName_not_mem
  refine ⟨⟨steps, within, isName, isNext, sound.names ▸ taken⟩, notCarried, notGiven, sound.apart,
    sound.areVariables, ?_, ?_, ?_⟩
  · rw [sound.names]
    exact sound.distinct
  · rw [sound.numbers]
    exact nodup_reverse.2 nodup_range
  · constructor
    · exact fun free symbol isDeclared _ same => free (mem_map.2 ⟨symbol, isDeclared, same⟩)
    · intro free isCarried
      obtain ⟨symbol, isDeclared, same⟩ := mem_map.1 isCarried
      refine free symbol isDeclared (fun isMade => notCarried ?_) same
      exact mem_map.2 ⟨symbol, isMade, same⟩

/-- Two variables that are asked for under the name of a temporary, and one that is made elsewhere. -/
def mixedRequests : List Request :=
  [.temporaryName, .newVariable "t4" .int32, .materialize (.int 5) "t4",
    .addVariable (.mkVar 0 "t7" .bool)]

theorem names_unique_mixedRequests :
    let session := (start "t" 3).run mixedRequests
    (3 : UInt64).toNat + mixedRequests.length + 1 < UInt64.size ∧
      session.temporaries = ["t3"] ∧ session.symbols = [⟨1, "t5"⟩, ⟨0, "t4"⟩] ∧
      session.emission.freshName.1 = "t6" ∧
      session.emission.freshName.1 ∉ session.emission.declared.map Variable.name := by
  have few : (3 : UInt64).toNat + mixedRequests.length + 1 < UInt64.size := by decide
  obtain ⟨-, -, -, -, -, -, -, exactly⟩ := names_unique "t" 3 mixedRequests few
  exact ⟨few, by decide, by decide, by decide, exactly.2 (by decide)⟩

/-- A variable that was not made in the session can be declared there, and its name is still given to
a temporary. -/
theorem declared_name_given :
    let session := (start "V_" 0).run [.addVariable (.mkVar 0 "V_0" .int32)]
    session.emission.freshName.1 = "V_0" ∧ session.emission.declared.map Variable.name = ["V_0"] := by
  decide

end Session

end CilLift.Emission
