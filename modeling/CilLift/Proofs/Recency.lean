import CilLift.Cache
import CilLift.Proofs.Ledger

/-!
The cache as a list in the order of last use. Times of use tell entries apart and lie in the past, so
that the order of times is the order of use, and thinning out cuts the list. Whatever a cache is asked,
it answers as the list does.
-/

namespace CilLift

open List Nat Prod CacheEntry

/-- What a cache can be asked for. -/
inductive CacheRequest where
  | insert (key : CacheKey) (tree : MethodTree)
  | get (key : CacheKey)
  | getOrLift (lifter : Lifter) (method : Method) (body : MethodBody)
  | remove (key : CacheKey)
  | removeMethod (token : Token)
  | clear

inductive CacheReply where
  | stored (tree : StoredTree)
  | found (tree : Option StoredTree)
  | lifted (outcome : Except Error StoredTree)
  | removed (tree : Option StoredTree)
  | dropped (count : Nat)
  | cleared

/-- Serves requests one after the other. Each reply comes with the size that the request leaves. -/
def serveAll {σ : Type} (serve : σ → CacheRequest → CacheReply × σ) (size : σ → Nat) (state : σ) :
    List CacheRequest → List (CacheReply × Nat) × σ
  | [] => ([], state)
  | request :: rest =>
    let (reply, state) := serve state request
    let (replies, final) := serveAll serve size state rest
    ((reply, size state) :: replies, final)

namespace Cache

def serve (cache : Cache) : CacheRequest → CacheReply × Cache
  | .insert key tree => (cache.insert key tree).map .stored id
  | .get key => (cache.get key).map .found id
  | .getOrLift lifter method body => (cache.getOrLift lifter method body).map .lifted id
  | .remove key => (cache.remove key).map .removed id
  | .removeMethod token => (cache.removeMethod token).map .dropped id
  | .clear => (.cleared, cache.clear)

end Cache

/-- The trees that are kept, the last used one first. -/
structure Recency where
  entries : List (CacheKey × StoredTree) := []
  /-- The number of trees handed out so far, which tells them apart. -/
  handedOut : Nat := 0

namespace Recency

variable (limit : Nat) (recency : Recency)

def size : Nat := recency.entries.length

/-- The entries but for that of a key. -/
def others (key : CacheKey) : List (CacheKey × StoredTree) :=
  recency.entries.filter fun entry => entry.1 != key

/-- Finds a tree and moves it to the front. -/
def get (key : CacheKey) : Option StoredTree × Recency :=
  match recency.entries.lookup key with
  | some stored => (some stored, { recency with entries := (key, stored) :: recency.others key })
  | none => (none, recency)

/-- Cuts a list that has grown beyond the limit to four fifths of it. -/
def trim (entries : List (CacheKey × StoredTree)) : List (CacheKey × StoredTree) :=
  if limit < entries.length then entries.take (4 * limit / 5) else entries

/-- Puts a tree at the front, unless it is not to be kept. -/
def insert (key : CacheKey) (tree : MethodTree) : StoredTree × Recency :=
  let stored : StoredTree := ⟨recency.handedOut, tree⟩
  (stored, {
    entries := if tree.notCacheable then recency.entries
      else trim limit ((key, stored) :: recency.others key)
    handedOut := recency.handedOut + 1 })

def getOrLift (lifter : Lifter) (method : Method) (body : MethodBody) :
    Except Error StoredTree × Recency :=
  let key := CacheKey.ofLifter lifter method.token
  match recency.get key with
  | (some stored, used) => (.ok stored, used)
  | (none, _) =>
    match lifter.lift method body with
    | .error error => (.error error, recency)
    | .ok tree => (recency.insert limit key tree).map .ok id

def remove (key : CacheKey) : Option StoredTree × Recency :=
  (recency.entries.lookup key, { recency with entries := recency.others key })

def removeMethod (token : Token) : Nat × Recency :=
  (recency.entries.countP fun entry => entry.1.token == token,
    { recency with entries := recency.entries.filter fun entry => entry.1.token != token })

def serve : CacheRequest → CacheReply × Recency
  | .insert key tree => (recency.insert limit key tree).map .stored id
  | .get key => (recency.get key).map .found id
  | .getOrLift lifter method body => (recency.getOrLift limit lifter method body).map .lifted id
  | .remove key => (recency.remove key).map .removed id
  | .removeMethod token => (recency.removeMethod token).map .dropped id
  | .clear => (.cleared, { recency with entries := [] })

end Recency

/-! Entries in the order of their times. -/

namespace CacheEntry

/-- The key and the tree, without the time. -/
def content (entry : CacheEntry) : CacheKey × StoredTree := (entry.key, entry.stored)

variable {entries : List CacheEntry} {key : CacheKey}

theorem filter_content (keeps : CacheKey → Bool) (entries : List CacheEntry) :
    (entries.map content).filter (fun entry => keeps entry.1) =
      (entries.filter fun entry => keeps entry.key).map content := by
  rw [filter_map]
  rfl

theorem lookup_content (entries : List CacheEntry) (key : CacheKey) :
    (entries.map content).lookup key = (entries.find? fun entry => entry.key == key).map stored := by
  induction entries with
  | nil => rfl
  | cons entry rest ih =>
    rw [map_cons, content, lookup_cons, find?_cons, ih]
    by_cases isKey : entry.key = key
    · simp [isKey]
    · rw [beq_eq_false_iff_ne.2 isKey, beq_eq_false_iff_ne.2 (symm isKey)]

theorem find?_eq_some_iff {entry : CacheEntry} (apart : (entries.map CacheEntry.key).Nodup) :
    entries.find? (fun entry => entry.key == key) = some entry ↔ entry ∈ entries ∧ entry.key = key := by
  constructor
  · intro found
    exact ⟨mem_of_find?_eq_some found, by simpa using find?_some found⟩
  · rintro ⟨mem, rfl⟩
    cases found : entries.find? fun other => other.key == entry.key with
    | none => exact absurd (beq_self_eq_true entry.key) (find?_eq_none.1 found entry mem)
    | some other =>
      have same : other.key = entry.key := by simpa using find?_some found
      rw [inj_on_of_nodup_map apart (mem_of_find?_eq_some found) mem same]

/-- An entry comes first in some order of the entries, and the others have other keys. -/
theorem perm_of_mem {found : CacheEntry} (apart : (entries.map CacheEntry.key).Nodup)
    (mem : found ∈ entries) :
    entries.Perm (found :: entries.filter fun entry => entry.key != found.key) := by
  obtain ⟨before, after, rfl⟩ := append_of_mem mem
  rw [map_append, map_cons, nodup_middle, nodup_cons, ← map_append] at apart
  have others : ∀ entry ∈ before ++ after, entry.key ≠ found.key := fun entry isOther same =>
    apart.1 (same ▸ mem_map_of_mem isOther)
  have kept : (before ++ found :: after).filter (fun entry => entry.key != found.key) =
      before ++ after := by
    rw [filter_append, filter_cons_of_neg (by simp), ← filter_append]
    exact filter_eq_self.2 fun entry isOther => by simpa using others entry isOther
  rw [kept]
  exact perm_middle

end CacheEntry

namespace Cache

variable {cache : Cache} {entries : List CacheEntry} {key : CacheKey}

/-- The list holds the entries of the cache, the last used one first, and all times are past. -/
structure Lists (cache : Cache) (entries : List CacheEntry) : Prop where
  perm : entries.Perm cache.entries
  apart : (entries.map CacheEntry.key).Nodup
  latestFirst : entries.Pairwise fun first second => second.lastUsed < first.lastUsed
  past : ∀ entry ∈ entries, entry.lastUsed < cache.clock
  cacheable : ∀ entry ∈ entries, entry.stored.tree.notCacheable = false

/-- The cache without the times. -/
def recency (cache : Cache) (entries : List CacheEntry) : Recency :=
  ⟨entries.map content, cache.nextSerial⟩

namespace Lists

variable (lists : cache.Lists entries)

include lists

theorem size_eq : cache.size = (cache.recency entries).size := by
  rw [size, ← lists.perm.length_eq, Recency.size, recency, length_map]

theorem apart_cache : (cache.entries.map CacheEntry.key).Nodup :=
  (lists.perm.map key).nodup_iff.1 lists.apart

theorem apart_recency : ((cache.recency entries).entries.map fst).Nodup := by
  rw [recency, List.map_map]
  exact lists.apart

theorem lookup_eq (key : CacheKey) :
    (cache.recency entries).entries.lookup key = (cache.find? key).map stored := by
  have sameEntry : (entries.find? fun entry => entry.key == key) = cache.find? key := by
    refine Option.ext fun entry => ?_
    rw [find?, CacheEntry.find?_eq_some_iff lists.apart,
      find?_eq_some_iff lists.apart_cache, lists.perm.mem_iff]
  rw [← sameEntry]
  exact lookup_content entries key

theorem filter (keeps : CacheEntry → Bool) :
    { cache with entries := cache.entries.filter keeps }.Lists (entries.filter keeps) where
  perm := lists.perm.filter keeps
  apart := lists.apart.sublist (filter_sublist.map _)
  latestFirst := lists.latestFirst.filter keeps
  past entry mem := lists.past entry (mem_of_mem_filter mem)
  cacheable entry mem := lists.cacheable entry (mem_of_mem_filter mem)

/-- An entry that is used now comes before all entries with other keys. -/
theorem front (stored : StoredTree) (cacheable : stored.tree.notCacheable = false) {next : Cache}
    (perm : next.entries.Perm
      (⟨key, stored, cache.clock⟩ :: cache.entries.filter fun entry => entry.key != key))
    (ticks : next.clock = cache.clock + 1) :
    next.Lists (⟨key, stored, cache.clock⟩ :: entries.filter fun entry => entry.key != key) := by
  have others := lists.filter fun entry => entry.key != key
  constructor
  · exact (others.perm.cons _).trans perm.symm
  · rw [map_cons, nodup_cons]
    refine ⟨fun mem => ?_, others.apart⟩
    obtain ⟨entry, isOther, isKey⟩ := mem_map.1 mem
    simpa [isKey] using (mem_filter.1 isOther).2
  · exact pairwise_cons.2 ⟨others.past, others.latestFirst⟩
  · rw [ticks, forall_mem_cons]
    exact ⟨lt_succ_self _, fun entry mem => lt_succ_of_lt (others.past entry mem)⟩
  · exact forall_mem_cons.2 ⟨cacheable, others.cacheable⟩

theorem sorted : sortByKey lastUsed cache.entries = entries.reverse := by
  have timesApart : (entries.map lastUsed).Nodup :=
    pairwise_map.2 (lists.latestFirst.imp fun isLater => (ne_of_lt isLater).symm)
  have perm : (sortByKey lastUsed cache.entries).Perm entries.reverse :=
    (perm_sortByKey _ _).trans (lists.perm.symm.trans (reverse_perm _).symm)
  refine Perm.eq_of_pairwise ?_ (pairwise_sortByKey _ _)
    (pairwise_reverse.2 (lists.latestFirst.imp le_of_lt)) perm
  intro first second firstMember secondMember firstLe secondLe
  exact inj_on_of_nodup_map timesApart (mem_reverse.1 (perm.mem_iff.1 firstMember))
    (mem_reverse.1 secondMember) (le_antisymm firstLe secondLe)

theorem evict (many : lowWatermark cache.highWatermark ≤ entries.length) :
    cache.evict.Lists (entries.take (lowWatermark cache.highWatermark)) := by
  have kept : cache.evict.entries = (entries.take (lowWatermark cache.highWatermark)).reverse := by
    change (sortByKey CacheEntry.lastUsed cache.entries).drop (cache.size - _) = _
    rw [lists.sorted, drop_reverse, size, ← lists.perm.length_eq, Nat.sub_sub_self many]
  have isPart := take_sublist (lowWatermark cache.highWatermark) entries
  constructor
  · rw [kept]
    exact (reverse_perm _).symm
  · exact lists.apart.sublist (isPart.map _)
  · exact lists.latestFirst.sublist isPart
  · exact fun entry mem => lists.past entry (isPart.subset mem)
  · exact fun entry mem => lists.cacheable entry (isPart.subset mem)

theorem thinned : ∃ kept,
    (if cache.highWatermark < cache.size then cache.evict else cache).Lists kept ∧
      kept.map CacheEntry.content = Recency.trim cache.highWatermark (entries.map CacheEntry.content) ∧
      kept.length ≤ cache.highWatermark := by
  have sameLength : cache.size = entries.length := lists.perm.length_eq.symm
  unfold Recency.trim
  rw [length_map, sameLength]
  have isLower : lowWatermark cache.highWatermark ≤ cache.highWatermark := by
    unfold lowWatermark
    omega
  split
  · refine ⟨_, lists.evict (by omega), ?_, (length_take_le _ _).trans isLower⟩
    rw [map_take, lowWatermark, Nat.mul_comm]
  · exact ⟨entries, lists, rfl, by omega⟩

end Lists

/-! What a cache answers to single requests. -/

/-- A request is answered as by the list, and leaves the cache in the state of the list. -/
structure Answers {α : Type} (cache : Cache) (outcome : α × Cache) (expected : α × Recency) :
    Prop where
  reply : outcome.1 = expected.1
  limit : outcome.2.highWatermark = cache.highWatermark
  clock : outcome.2.clock ≤ cache.clock + 1
  size : cache.size ≤ cache.highWatermark → outcome.2.size ≤ cache.highWatermark
  lists : ∃ entries, outcome.2.Lists entries ∧ outcome.2.recency entries = expected.2

theorem Answers.map {α β : Type} {outcome : α × Cache} {expected : α × Recency} (view : α → β)
    (answers : cache.Answers outcome expected) :
    cache.Answers (outcome.map view id) (expected.map view id) :=
  ⟨congrArg view answers.reply, answers.limit, answers.clock, answers.size, answers.lists⟩

theorem others_recency (entries : List CacheEntry) (key : CacheKey) :
    (cache.recency entries).others key = (entries.filter fun entry => entry.key != key).map content :=
  filter_content (· != key) entries

namespace Lists

variable (lists : cache.Lists entries) (key : CacheKey)

include lists

/-- Looking up a key does to a cache what it does to its list. -/
theorem get : cache.Answers (cache.get key) ((cache.recency entries).get key) := by
  unfold Cache.get Recency.get
  rw [lists.lookup_eq]
  cases found : cache.find? key with
  | none => exact ⟨rfl, rfl, le_succ _, id, entries, lists, rfl⟩
  | some entry =>
    obtain ⟨mem, rfl⟩ := (find?_eq_some_iff lists.apart_cache).1 found
    have touched : (cache.entries.map fun other =>
          if other.key == entry.key then { other with lastUsed := cache.clock } else other).Perm
        (⟨entry.key, entry.stored, cache.clock⟩ ::
          cache.entries.filter fun other => other.key != entry.key) := by
      refine ((perm_of_mem lists.apart_cache mem).map _).trans ?_
      rw [map_cons, if_pos (beq_self_eq_true entry.key), map_congr_left, List.map_id]
      intro other isOther
      exact if_neg (by simpa using (mem_filter.1 isOther).2)
    have isCacheable := lists.cacheable entry (lists.perm.mem_iff.2 mem)
    refine ⟨rfl, rfl, le_refl _, fun few => ?_, _, lists.front entry.stored isCacheable touched rfl, ?_⟩
    · rwa [size, length_map]
    · rw [others_recency]
      rfl

/-- Storing a tree does to a cache what it does to its list. -/
theorem insert (tree : MethodTree) :
    cache.Answers (cache.insert key tree)
      ((cache.recency entries).insert cache.highWatermark key tree) := by
  unfold Cache.insert Recency.insert
  dsimp only
  rw [others_recency]
  cases cacheable : tree.notCacheable with
  | true =>
    exact ⟨rfl, rfl, le_succ _, id, entries,
      ⟨lists.perm, lists.apart, lists.latestFirst, lists.past, lists.cacheable⟩, rfl⟩
  | false =>
    let stored : StoredTree := ⟨cache.nextSerial, tree⟩
    let grown : Cache := { cache with
      entries := ⟨key, stored, cache.clock⟩ :: cache.entries.filter fun entry => entry.key != key
      clock := cache.clock + 1
      nextSerial := cache.nextSerial + 1 }
    have grownLists := lists.front stored cacheable (.refl _ : grown.entries.Perm _) rfl
    obtain ⟨kept, keptLists, isTrimmed, few⟩ := grownLists.thinned
    rw [if_neg Bool.false_ne_true]
    refine ⟨rfl, ?_, ?_, fun _ => ?_, kept, keptLists, ?_⟩
    · split <;> rfl
    · split <;> exact le_refl _
    · rwa [size, ← keptLists.perm.length_eq]
    · unfold recency
      rw [isTrimmed]
      split <;> rfl

theorem getOrLift (lifter : Lifter) (method : Method) (body : MethodBody) :
    cache.Answers (cache.getOrLift lifter method body)
      ((cache.recency entries).getOrLift cache.highWatermark lifter method body) := by
  have got := lists.get (.ofLifter lifter method.token)
  unfold Cache.getOrLift Recency.getOrLift
  unfold Cache.get Recency.get at got ⊢
  dsimp only at got ⊢
  rw [lists.lookup_eq] at got ⊢
  cases found : cache.find? (.ofLifter lifter method.token) with
  | some entry =>
    rw [found] at got
    exact got.map fun _ => Except.ok entry.stored
  | none =>
    cases lifts : lifter.lift method body with
    | error error =>
      rw [found] at got
      exact got.map fun _ => Except.error error
    | ok tree => exact (lists.insert _ tree).map Except.ok

theorem remove : cache.Answers (cache.remove key) ((cache.recency entries).remove key) := by
  refine ⟨(lists.lookup_eq key).symm, rfl, le_succ _, fun few => ?_, _, lists.filter _,
    congrArg (Recency.mk · _) (others_recency entries key).symm⟩
  exact (length_filter_le _ _).trans few

theorem removeMethod (token : Token) :
    cache.Answers (cache.removeMethod token) ((cache.recency entries).removeMethod token) := by
  refine ⟨?_, rfl, le_succ _, fun few => ?_, _, lists.filter _,
    congrArg (Recency.mk · _) (filter_content (·.token != token) entries).symm⟩
  · have split := length_eq_length_filter_add (l := cache.entries) fun entry => entry.key.token == token
    have sameCount : (entries.map content).countP (fun entry => entry.1.token == token) =
        (cache.entries.filter fun entry => entry.key.token == token).length := by
      rw [countP_map, lists.perm.countP_eq, countP_eq_length_filter]
      rfl
    change cache.entries.length - (cache.entries.filter fun entry => !(entry.key.token == token)).length
      = (entries.map content).countP _
    omega
  · exact (length_filter_le _ _).trans few

theorem serve (request : CacheRequest) :
    cache.Answers (cache.serve request) ((cache.recency entries).serve cache.highWatermark request) := by
  cases request with
  | insert key tree => exact (lists.insert key tree).map CacheReply.stored
  | get key => exact (lists.get key).map CacheReply.found
  | getOrLift lifter method body =>
    exact (lists.getOrLift lifter method body).map CacheReply.lifted
  | remove key => exact (lists.remove key).map CacheReply.removed
  | removeMethod token => exact (lists.removeMethod token).map CacheReply.dropped
  | clear =>
    exact ⟨rfl, rfl, le_succ _, fun _ => zero_le _, [], ⟨.nil, .nil, .nil, nofun, nofun⟩, rfl⟩

theorem cacheable_of_found {request : CacheRequest} {stored : StoredTree}
    (found : (cache.serve request).1 = .found (some stored)) :
    stored.tree.notCacheable = false := by
  cases request with
  | get key =>
    have found : (cache.get key).1 = some stored := CacheReply.found.inj found
    unfold Cache.get at found
    split at found
    · cases found
    · rename_i entry isFound
      cases found
      exact lists.cacheable entry (lists.perm.mem_iff.2 (mem_of_find?_eq_some isFound))
  | insert | getOrLift | remove | removeMethod | clear => cases found

/-- A cache whose entries are in the list answers all requests as the list does. -/
theorem serveAll (few : cache.size ≤ cache.highWatermark) (requests : List CacheRequest) :
    let (replies, final) := serveAll Cache.serve size cache requests
    let (expected, recency) := serveAll (Recency.serve cache.highWatermark) Recency.size
      (cache.recency entries) requests
    replies = expected ∧ (recency.entries.map fst).Nodup ∧
      (∀ reply ∈ replies, reply.2 ≤ cache.highWatermark) ∧
      (∀ stored size, (CacheReply.found (some stored), size) ∈ replies →
        stored.tree.notCacheable = false) ∧
      final.clock ≤ cache.clock + requests.length := by
  induction requests generalizing cache entries with
  | nil => exact ⟨rfl, lists.apart_recency, nofun, nofun, le_refl _⟩
  | cons request rest ih =>
    obtain ⟨sameReply, sameLimit, ticks, stays, next, nextLists, isNext⟩ := lists.serve request
    obtain ⟨replies, apart, bounded, cacheable, later⟩ :=
      ih nextLists (by rw [sameLimit]; exact stays few)
    rw [sameLimit, isNext] at replies apart
    rw [sameLimit] at bounded
    have sameSize := nextLists.size_eq
    rw [isNext] at sameSize
    refine ⟨?_, apart, ?_, ?_, ?_⟩
    · exact congr (congrArg cons (Prod.ext sameReply sameSize)) replies
    · exact forall_mem_cons.2 ⟨stays few, bounded⟩
    · intro stored size mem
      rcases mem_cons.1 mem with isFirst | mem
      · exact lists.cacheable_of_found (Prod.mk.inj isFirst).1.symm
      · exact cacheable stored size mem
    · rw [length_cons]
      exact later.trans (by omega)

end Lists

theorem lists_empty (limit : Nat) : { highWatermark := limit : Cache }.Lists [] :=
  ⟨.nil, .nil, .nil, nofun, nofun⟩

/-- A cache answers every sequence of requests, and has the size after each of them, as the list of its
trees in the order of last use. The list holds no key twice and is never longer than the limit, what is
found may be kept, and time goes on by at most one with each request. -/
theorem serveAll_eq_recency (limit : Nat) (requests : List CacheRequest) :
    let (replies, cache) := serveAll serve size { highWatermark := limit } requests
    let (expected, recency) := serveAll (Recency.serve limit) Recency.size {} requests
    replies = expected ∧ (recency.entries.map fst).Nodup ∧ (∀ reply ∈ replies, reply.2 ≤ limit) ∧
      (∀ stored size, (CacheReply.found (some stored), size) ∈ replies →
        stored.tree.notCacheable = false) ∧
      cache.clock ≤ requests.length := by
  obtain ⟨replies, apart, bounded, cacheable, ticks⟩ :=
    (lists_empty limit).serveAll (zero_le _) requests
  exact ⟨replies, apart, bounded, cacheable, ticks.trans_eq (Nat.zero_add _)⟩

end Cache

end CilLift
