import CilLift.Proofs.Outcome
import CilLift.Proofs.Recency
import Mathlib.Data.List.Induction

/-!
A shared cache makes no difference. Keys cover all that lifters of one host can differ in, so that every
tree in a cache was made by the lifter that gets it, for the method that it asks for.
-/

namespace CilLift

open List Option

/-- What the lifters that share a cache have in common. -/
structure Host where
  resolver : Resolver
  nesting : Nat
  method : Token → Method
  body : Token → MethodBody
  /-- The predicate of each identity. -/
  predicate : Nat → Method → Bool
  token_method : ∀ token, (method token).token = token

namespace Host

variable {host : Host} {lifter : Lifter} {token : Token}

/-- The lifter works with the resolver of the host; its options and its context are its own. -/
structure Employs (host : Host) (lifter : Lifter) : Prop where
  resolver : lifter.resolver = host.resolver
  nesting : lifter.nesting = host.nesting
  predicate : ∀ predicate, lifter.options.pureCalls = some predicate →
    predicate.holds = host.predicate predicate.identity

/-- The request of a lifter for the method of a token. -/
def request (host : Host) (lifter : Lifter) (token : Token) : CacheRequest :=
  .getOrLift lifter (host.method token) (host.body token)

/-- The requests of a host; its lifters are the only ones that fill the cache. -/
inductive Makes (host : Host) : CacheRequest → Prop where
  | lift {lifter : Lifter} (employed : host.Employs lifter) (token : Token) :
    Makes host (host.request lifter token)
  | get (key : CacheKey) : Makes host (.get key)
  | remove (key : CacheKey) : Makes host (.remove key)
  | removeMethod (token : Token) : Makes host (.removeMethod token)
  | clear : Makes host .clear

/-- Lifters of one host with one key are one lifter, and they ask for one method. -/
theorem Employs.eq_of_key {other : Lifter} {otherToken : Token} (employed : host.Employs lifter)
    (otherEmployed : host.Employs other)
    (same : CacheKey.ofLifter lifter token = CacheKey.ofLifter other otherToken) :
    lifter = other ∧ token = otherToken := by
  obtain ⟨resolver, options, context, nesting⟩ := lifter
  obtain ⟨resolver', options', context', nesting'⟩ := other
  obtain ⟨stem, folds, inlines, trailing, pureCalls⟩ := options
  obtain ⟨stem', folds', inlines', trailing', pureCalls'⟩ := options'
  obtain ⟨rfl, rfl, holds⟩ := employed
  obtain ⟨rfl, rfl, holds'⟩ := otherEmployed
  simp only [CacheKey.ofLifter, CacheKey.ofOptions, CacheKey.mk.injEq] at same
  obtain ⟨rfl, rfl, rfl, rfl, rfl, rfl, sameIdentity⟩ := same
  suffices samePredicate : pureCalls = pureCalls' by
    subst samePredicate
    exact ⟨rfl, rfl⟩
  -- The key holds the identity of the predicate alone, and the host has one predicate of each.
  cases pureCalls <;> cases pureCalls' <;> simp only [map_some] at sameIdentity
  · rfl
  · cases sameIdentity
  · cases sameIdentity
  · rename_i predicate predicate'
    have sameHolds : predicate.holds = predicate'.holds := by
      rw [holds predicate rfl, holds' predicate' rfl, some.inj sameIdentity]
    obtain ⟨identity, test⟩ := predicate
    cases sameHolds
    cases sameIdentity
    rfl

end Host

namespace Cache

variable {cache : Cache} {key : CacheKey}

/-- The cache that the requests leave. -/
def after (limit : Nat) (requests : List CacheRequest) : Cache :=
  (serveAll serve size { highWatermark := limit } requests).2

theorem after_append (limit : Nat) (requests : List CacheRequest) (request : CacheRequest) :
    after limit (requests ++ [request]) = ((after limit requests).serve request).2 := by
  unfold after
  generalize ({ highWatermark := limit } : Cache) = cache
  induction requests generalizing cache with
  | nil => rfl
  | cons first rest ih => exact ih _

/-! Which trees a request leaves in the cache. -/

/-- The tree is kept under the key. -/
def Keeps (cache : Cache) (key : CacheKey) (stored : StoredTree) : Prop :=
  ∃ entry ∈ cache.entries, entry.content = (key, stored)

variable {stored : StoredTree}

theorem keeps_of_get (found : (cache.get key).1 = some stored) : cache.Keeps key stored := by
  unfold get at found
  split at found
  · cases found
  · rename_i entry isFound
    cases found
    have isKey : entry.key = key := by simpa using find?_some isFound
    exact ⟨entry, mem_of_find?_eq_some isFound, Prod.ext isKey rfl⟩

theorem Keeps.of_get {asked : CacheKey} (keeps : (cache.get asked).2.Keeps key stored) :
    cache.Keeps key stored := by
  unfold get at keeps
  split at keeps
  · exact keeps
  · obtain ⟨_, touched, isContent⟩ := keeps
    obtain ⟨entry, mem, rfl⟩ := mem_map.1 touched
    refine ⟨entry, mem, ?_⟩
    rw [← isContent]
    split <;> rfl

theorem Keeps.of_subset {next : Cache} (keeps : next.Keeps key stored)
    (subset : next.entries ⊆ cache.entries) : cache.Keeps key stored := by
  obtain ⟨entry, mem, isContent⟩ := keeps
  exact ⟨entry, subset mem, isContent⟩

theorem Keeps.of_insert {asked : CacheKey} {tree : MethodTree}
    (keeps : (cache.insert asked tree).2.Keeps key stored) :
    cache.Keeps key stored ∨ key = asked ∧ stored = ⟨cache.nextSerial, tree⟩ := by
  unfold insert at keeps
  dsimp only at keeps
  split at keeps
  · exact .inl keeps
  · obtain ⟨entry, mem, isContent⟩ := keeps
    have mem : entry ∈ ⟨asked, ⟨cache.nextSerial, tree⟩, cache.clock⟩ ::
        cache.entries.filter fun entry => entry.key != asked := by
      split at mem
      · exact (perm_sortByKey _ _).mem_iff.1 (mem_of_mem_drop mem)
      · exact mem
    rcases mem_cons.1 mem with rfl | mem
    · cases isContent
      exact .inr ⟨rfl, rfl⟩
    · exact .inl ⟨entry, mem_of_mem_filter mem, isContent⟩

section GetOrLift

variable {lifter : Lifter} {method : Method} {body : MethodBody} {tree : MethodTree} {error : Error}

theorem getOrLift_of_found (found : (cache.get (.ofLifter lifter method.token)).1 = some stored) :
    cache.getOrLift lifter method body = (.ok stored, (cache.get (.ofLifter lifter method.token)).2) := by
  unfold getOrLift
  dsimp only
  split
  · rename_i known next got
    rw [got] at found ⊢
    cases found
    rfl
  · rename_i next got
    rw [got] at found
    cases found

theorem get_of_missing (missing : (cache.get key).1 = none) : cache.get key = (none, cache) := by
  unfold get at missing ⊢
  split at missing
  · rfl
  · cases missing

theorem getOrLift_of_lift (missing : (cache.get (.ofLifter lifter method.token)).1 = none)
    (lifts : lifter.lift method body = .ok tree) :
    cache.getOrLift lifter method body =
      (.ok ⟨cache.nextSerial, tree⟩, (cache.insert (.ofLifter lifter method.token) tree).2) := by
  have isFirst : (cache.insert (.ofLifter lifter method.token) tree).1 = ⟨cache.nextSerial, tree⟩ := by
    unfold insert
    split <;> rfl
  unfold getOrLift
  dsimp only
  rw [get_of_missing missing, lifts, ← isFirst]

theorem getOrLift_of_failure (missing : (cache.get (.ofLifter lifter method.token)).1 = none)
    (fails : lifter.lift method body = .error error) :
    cache.getOrLift lifter method body = (.error error, cache) := by
  unfold getOrLift
  dsimp only
  rw [get_of_missing missing, fails]

/-- The tree is lifted for this request, and is the next one that is handed out. -/
structure Builds (cache : Cache) (lifter : Lifter) (method : Method) (body : MethodBody)
    (stored : StoredTree) : Prop where
  lifts : lifter.lift method body = .ok stored.tree
  isNew : stored.serial = cache.nextSerial
  answers : (cache.getOrLift lifter method body).1 = .ok stored

theorem Keeps.of_getOrLift (keeps : (cache.getOrLift lifter method body).2.Keeps key stored) :
    cache.Keeps key stored ∨
      key = .ofLifter lifter method.token ∧ cache.Builds lifter method body stored := by
  cases found : (cache.get (.ofLifter lifter method.token)).1 with
  | some known =>
    rw [getOrLift_of_found found] at keeps
    exact .inl (.of_get keeps)
  | none =>
    cases lifts : lifter.lift method body with
    | error error =>
      rw [getOrLift_of_failure found lifts] at keeps
      exact .inl keeps
    | ok tree =>
      have answers := getOrLift_of_lift found lifts
      rw [answers] at keeps
      refine (of_insert keeps).imp_right fun ⟨isKey, isStored⟩ => ⟨isKey, ?_⟩
      subst isStored
      exact ⟨lifts, rfl, by rw [answers]⟩

end GetOrLift

/-- The tree was made for one of the requests, by the lifter and for the method of that request. -/
def MadeFor (limit : Nat) (requests : List CacheRequest) (lifter : Lifter) (method : Method)
    (body : MethodBody) (stored : StoredTree) : Prop :=
  ∃ before later, requests = before ++ .getOrLift lifter method body :: later ∧
    (after limit before).Builds lifter method body stored

theorem MadeFor.append {limit : Nat} {requests : List CacheRequest} {lifter : Lifter}
    {method : Method} {body : MethodBody} (made : MadeFor limit requests lifter method body stored)
    (request : CacheRequest) : MadeFor limit (requests ++ [request]) lifter method body stored := by
  obtain ⟨before, later, rfl, builds⟩ := made
  exact ⟨before, later ++ [request], by simp, builds⟩

end Cache

namespace Host

variable {host : Host} {limit : Nat} {requests : List CacheRequest} {key : CacheKey}
  {stored : StoredTree}

/-- A tree in the cache of a host was made by one of its lifters, under the key of that lifter. -/
theorem madeFor_of_keeps (makes : ∀ request ∈ requests, host.Makes request)
    (keeps : (Cache.after limit requests).Keeps key stored) :
    ∃ lifter token, host.Employs lifter ∧ key = .ofLifter lifter token ∧
      Cache.MadeFor limit requests lifter (host.method token) (host.body token) stored := by
  induction requests using reverseRecOn with
  | nil =>
    obtain ⟨_, ⟨⟩, -⟩ := keeps
  | append_singleton requests request ih =>
    have earlier (keeps : (Cache.after limit requests).Keeps key stored) :
        ∃ lifter token, host.Employs lifter ∧ key = .ofLifter lifter token ∧
          Cache.MadeFor limit (requests ++ [request]) lifter (host.method token) (host.body token)
            stored := by
      obtain ⟨lifter, token, employed, isKey, made⟩ :=
        ih (fun request mem => makes request (by simp [mem])) keeps
      exact ⟨lifter, token, employed, isKey, made.append request⟩
    rw [Cache.after_append] at keeps
    cases makes request (by simp) with
    | @lift lifter employed token =>
      rcases Cache.Keeps.of_getOrLift keeps with old | ⟨isKey, builds⟩
      · exact earlier old
      · rw [host.token_method] at isKey
        exact ⟨lifter, token, employed, isKey, requests, [], rfl, builds⟩
    | get asked => exact earlier (Cache.Keeps.of_get keeps)
    | remove asked => exact earlier (keeps.of_subset (filter_subset_self _))
    | removeMethod token => exact earlier (keeps.of_subset (filter_subset_self _))
    | clear => exact earlier (keeps.of_subset (nil_subset _))

/-- Whatever has been asked of a cache by the lifters of one host, it gives every lifter the outcome of
lifting the method itself. What it finds under the key of a lifter was made by that lifter and for that
method. -/
theorem cache_transparent (host : Host) (limit : Nat) {requests : List CacheRequest}
    (makes : ∀ request ∈ requests, host.Makes request) {lifter : Lifter}
    (employed : host.Employs lifter) (token : Token) :
    let cache := Cache.after limit requests
    let method := host.method token
    let body := host.body token
    (cache.getOrLift lifter method body).1.map StoredTree.tree = lifter.lift method body ∧
      ∀ stored, (cache.get (.ofLifter lifter token)).1 = some stored →
        lifter.lift method body = .ok stored.tree ∧
          Cache.MadeFor limit requests lifter method body stored := by
  intro cache method body
  have found : ∀ stored, (cache.get (.ofLifter lifter token)).1 = some stored →
      lifter.lift method body = .ok stored.tree ∧
        Cache.MadeFor limit requests lifter method body stored := by
    intro stored found
    obtain ⟨maker, madeToken, isEmployed, isKey, made⟩ :=
      madeFor_of_keeps makes (Cache.keeps_of_get found)
    obtain ⟨rfl, rfl⟩ := employed.eq_of_key isEmployed isKey
    obtain ⟨_, _, _, builds⟩ := id made
    exact ⟨builds.lifts, made⟩
  refine ⟨?_, found⟩
  rw [← host.token_method token] at found
  cases known : (cache.get (.ofLifter lifter method.token)).1 with
  | some stored =>
    rw [Cache.getOrLift_of_found known, (found stored known).1]
    rfl
  | none =>
    cases lifts : lifter.lift method body with
    | error error =>
      rw [Cache.getOrLift_of_failure known lifts]
      rfl
    | ok tree =>
      rw [Cache.getOrLift_of_lift known lifts]
      rfl

/-- Every method adds one to its argument, by way of a local. -/
def increments : Host where
  resolver := MetadataTables.resolver {}
  nesting := 1
  method token := {
    token, name := "M", returnType := .int32
    parameters := [{ name := "x", type := .int32 }], flags := { isStatic := true } }
  body _ := { code := [0x02, 0x17, 0x58, 0x0a, 0x06, 0x2a], locals := [.int32] }
  predicate _ _ := false
  token_method _ := rfl

def increments.lifter (inlineTrailing : Bool) : Lifter where
  resolver := increments.resolver
  nesting := 1
  options := { inlineTrailing }

/-- Two lifters take turns at two methods; the fifth request makes three trees one too many. -/
def increments.history : List CacheRequest := [
  increments.request (lifter true) ⟨1⟩, increments.request (lifter false) ⟨2⟩,
  increments.request (lifter false) ⟨1⟩, increments.request (lifter true) ⟨1⟩,
  increments.request (lifter true) ⟨2⟩, increments.request (lifter false) ⟨1⟩, .removeMethod ⟨2⟩]

theorem increments.employs (inlineTrailing : Bool) : increments.Employs (lifter inlineTrailing) :=
  ⟨rfl, rfl, nofun⟩

/-- Each of the lifters gets its own tree of the one method. -/
theorem cache_transparent_increments :
    let cache := Cache.after 3 increments.history
    ∀ inlineTrailing, (cache.get (.ofLifter (increments.lifter inlineTrailing) ⟨1⟩)).1.map
        (fun stored => stored.tree.text) =
          some (if inlineTrailing then "(x) => (x + 1)" else "(x) => \x7b V_0 = (x + 1); V_0; \x7d") ∧
      (cache.getOrLift (increments.lifter inlineTrailing) (increments.method ⟨2⟩)
        (increments.body ⟨2⟩)).1.map StoredTree.tree =
          (increments.lifter inlineTrailing).lift (increments.method ⟨2⟩) (increments.body ⟨2⟩) ∧
      ∃ stored, (cache.get (.ofLifter (increments.lifter inlineTrailing) ⟨1⟩)).1 = some stored ∧
        Cache.MadeFor 3 increments.history (increments.lifter inlineTrailing)
          (increments.method ⟨1⟩) (increments.body ⟨1⟩) stored := by
  have makes : ∀ request ∈ increments.history, increments.Makes request := by
    have lifted := fun inlineTrailing => Makes.lift (increments.employs inlineTrailing)
    simp only [increments.history, forall_mem_cons]
    exact ⟨lifted true ⟨1⟩, lifted false ⟨2⟩, lifted false ⟨1⟩, lifted true ⟨1⟩, lifted true ⟨2⟩,
      lifted false ⟨1⟩, .removeMethod ⟨2⟩, forall_mem_nil _⟩
  intro cache inlineTrailing
  have found : (cache.get (.ofLifter (increments.lifter inlineTrailing) ⟨1⟩)).1.map
      (fun stored => stored.tree.text) =
        some (if inlineTrailing then "(x) => (x + 1)" else "(x) => \x7b V_0 = (x + 1); V_0; \x7d") := by
    cases inlineTrailing <;> decide +kernel
  obtain ⟨stored, isFound, -⟩ := map_eq_some_iff.1 found
  have transparent := cache_transparent increments 3 makes (increments.employs inlineTrailing)
  exact ⟨found, (transparent ⟨2⟩).1, stored, isFound, ((transparent ⟨1⟩).2 stored isFound).2⟩

end Host

end CilLift
