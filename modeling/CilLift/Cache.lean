import CilLift.Lift

/-!
Lifted trees kept for later; the least recently used give way when there are too many. The entries
are those of a finite map, held as a list. Of the map no more is assumed than that it has at most one
entry for a key, that looking a key up finds what was last inserted for it and that each operation is
done before the next begins; the order of the list stands for nothing.
-/

namespace CilLift

/-- Everything that decides which tree a method is lifted to, for one resolver. -/
structure CacheKey where
  token : Token
  context : Instantiation
  variableStem : String
  foldReferenceTests : Bool
  inlineDelegates : Bool
  inlineTrailing : Bool
  /-- The identity of the predicate for pure calls. -/
  pureCalls : Option Nat
  deriving DecidableEq

namespace CacheKey

def ofOptions (token : Token) (options : Options) (context : Instantiation) : CacheKey where
  token
  context
  variableStem := options.variableStem
  foldReferenceTests := options.foldReferenceTests
  inlineDelegates := options.inlineDelegates
  inlineTrailing := options.inlineTrailing
  pureCalls := options.pureCalls.map CallPredicate.identity

def ofLifter (lifter : Lifter) (token : Token) : CacheKey :=
  ofOptions token lifter.options lifter.context

/-- The choices of a key as bits. -/
def flags (key : CacheKey) : Nat :=
  (if key.foldReferenceTests then 1 else 0) + (if key.inlineDelegates then 2 else 0) +
    (if key.inlineTrailing then 4 else 0)

end CacheKey

/-- A tree as the cache hands it out, with a number that tells it from all others. -/
structure StoredTree where
  serial : Nat
  tree : MethodTree

structure CacheEntry where
  key : CacheKey
  stored : StoredTree
  /-- The time of the last use. -/
  lastUsed : Nat

structure Cache where
  /-- The number of entries above which the cache is thinned out. -/
  highWatermark : Nat := 1024
  entries : List CacheEntry := []
  clock : Nat := 0
  nextSerial : Nat := 0

namespace Cache

/-- The number of entries that thinning leaves. -/
def lowWatermark (highWatermark : Nat) : Nat := highWatermark * 4 / 5

def size (cache : Cache) : Nat := cache.entries.length

def find? (cache : Cache) (key : CacheKey) : Option CacheEntry :=
  cache.entries.find? fun entry => entry.key == key

/-- The tree of a key, which counts as a use. -/
def get (cache : Cache) (key : CacheKey) : Option StoredTree × Cache :=
  match cache.find? key with
  | none => (none, cache)
  | some found =>
    (some found.stored, { cache with
      entries := cache.entries.map fun entry =>
        if entry.key == key then { entry with lastUsed := cache.clock } else entry
      clock := cache.clock + 1 })

/-- Drops the least recently used entries down to the low watermark. -/
def evict (cache : Cache) : Cache :=
  let excess := cache.size - lowWatermark cache.highWatermark
  { cache with entries := (sortByKey CacheEntry.lastUsed cache.entries).drop excess }

/-- Hands out a tree and keeps it, unless it depends on what a delegate held. -/
def insert (cache : Cache) (key : CacheKey) (tree : MethodTree) : StoredTree × Cache :=
  let stored : StoredTree := ⟨cache.nextSerial, tree⟩
  if tree.notCacheable then (stored, { cache with nextSerial := cache.nextSerial + 1 })
  else
    let others := cache.entries.filter fun entry => entry.key != key
    let grown := { cache with
      entries := ⟨key, stored, cache.clock⟩ :: others
      clock := cache.clock + 1
      nextSerial := cache.nextSerial + 1 }
    (stored, if cache.highWatermark < grown.size then grown.evict else grown)

/-- The tree of a method, lifted if the cache does not hold it. -/
def getOrLift (cache : Cache) (lifter : Lifter) (method : Method) (body : MethodBody) :
    Except Error StoredTree × Cache :=
  let key := CacheKey.ofLifter lifter method.token
  match cache.get key with
  | (some stored, cache) => (.ok stored, cache)
  | (none, cache) =>
    match lifter.lift method body with
    | .error error => (.error error, cache)
    | .ok tree =>
      let (stored, cache) := cache.insert key tree
      (.ok stored, cache)

def remove (cache : Cache) (key : CacheKey) : Option StoredTree × Cache :=
  ((cache.find? key).map CacheEntry.stored,
    { cache with entries := cache.entries.filter fun entry => entry.key != key })

/-- Drops every entry of a method and counts them. -/
def removeMethod (cache : Cache) (token : Token) : Nat × Cache :=
  let kept := cache.entries.filter fun entry => entry.key.token != token
  (cache.size - kept.length, { cache with entries := kept })

def clear (cache : Cache) : Cache := { cache with entries := [] }

def description (cache : Cache) : String :=
  let config := Text.record "CacheConfig" [s!"high_watermark: {cache.highWatermark}"]
  Text.record "DecompileCache" [s!"entries: {cache.size}", s!"config: {config}"]

end Cache

end CilLift
