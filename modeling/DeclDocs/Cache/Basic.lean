import DeclDocs.Model.Basic
import DeclDocs.Outline.Wire

/-!
# The symbol cache

Outlines are kept per document and open version, and the least recently used one gives way when
the cache is full.  Callers that ask for the same document and version while a lookup is under way
share that lookup.

A lookup is asked to go on by whoever waits for it.  It enters the provider once, and the poll in
which the provider has answered finishes it: every caller then gets the same outline.  A lookup
whose mark has been taken away by an invalidation still finishes for its callers, but leaves the
cache alone.  Failures give an empty outline and are not kept.

* `SymbolCache.resolve`: a caller asks for the outline of a document.
* `SymbolCache.poll`: a lookup goes on.
* `SymbolCache.invalidate`, `SymbolCache.invalidateAll`: outlines are forgotten.
-/

namespace DeclDocs

/-! ## §1 Lookups -/

/-- What a lookup is for: a document and the version that is open, if one is. -/
structure LookupKey where
  document : DocumentId
  version : Option Int
deriving DecidableEq, Repr

/-- How far a lookup has come. -/
inductive LookupPhase where
  /-- The provider has not been entered. -/
  | fresh
  /-- The provider has been entered and has not answered. -/
  | asked
  /-- The provider has answered or failed. -/
  | finished (symbols : List DeclarationSymbol)

/-- A lookup under way or finished. -/
structure Lookup where
  key : LookupKey
  phase : LookupPhase := .fresh

/-- What a provider says when it is asked. -/
inductive ProviderReply where
  | pending
  | answered (value : Json)
  | failed

/-! ## §2 The cache -/

/-- How requests were met.  The counters are natural numbers and never wrap around; words of 64 bits
would agree with them on every run of fewer than `2 ^ 64` events. -/
structure CacheStats where
  hits : Nat := 0
  misses : Nat := 0
  coalesced : Nat := 0
  externalCalls : Nat := 0
deriving DecidableEq, Repr

/-- An outline that is kept. -/
structure CacheEntry where
  document : DocumentId
  version : Int
  symbols : List DeclarationSymbol

/-- The entry is for the document and version. -/
def CacheEntry.isFor (entry : CacheEntry) (document : DocumentId) (version : Int) : Bool :=
  entry.document == document && entry.version == version

/-- A mark that a lookup for the key is under way. -/
structure InFlight where
  key : LookupKey
  /-- The number of the lookup, a natural number like the counters and not a word of 64 bits. -/
  ticket : Nat
deriving DecidableEq, Repr

/-- Kept outlines and lookups. -/
structure SymbolCache where
  /-- Most entries that are kept. -/
  capacity : Nat
  /-- The entries, most recently used first. -/
  entries : List CacheEntry := []
  /-- The marks of lookups under way, at most one for each key. -/
  inFlight : List InFlight := []
  /-- All lookups ever started; a lookup's number is its place. -/
  lookups : List Lookup := []
  stats : CacheStats := {}

/-- What a caller gets when it asks for an outline. -/
inductive Resolution where
  /-- The outline, from the cache. -/
  | hit (symbols : List DeclarationSymbol)
  /-- The number of the lookup to wait for. -/
  | awaits (ticket : Nat)

namespace SymbolCache

/-- An empty cache that keeps at least one outline. -/
def ofCapacity (capacity : Nat) : SymbolCache :=
  { capacity := max 1 capacity }

/-- The entry for a document and version. -/
def entry? (cache : SymbolCache) (document : DocumentId) (version : Int) : Option CacheEntry :=
  cache.entries.find? fun entry => entry.isFor document version

/-- The entries without the one for a document and version. -/
def entriesBut (cache : SymbolCache) (document : DocumentId) (version : Int) : List CacheEntry :=
  cache.entries.filter fun entry => !entry.isFor document version

/-- The entry for a key; a document that is not open has none. -/
def cached? (cache : SymbolCache) (key : LookupKey) : Option CacheEntry :=
  key.version.bind fun version => cache.entry? key.document version

/-- The mark for a key. -/
def mark? (cache : SymbolCache) (key : LookupKey) : Option InFlight :=
  cache.inFlight.find? fun mark => mark.key == key

/-- Puts an entry in front; entries beyond the capacity are dropped from the back. -/
def touch (cache : SymbolCache) (entry : CacheEntry) : SymbolCache :=
  { cache with
    entries := (entry :: cache.entriesBut entry.document entry.version).take cache.capacity }

/-! ## §3 Asking -/

/-- Starts a lookup for the key. -/
def start (cache : SymbolCache) (key : LookupKey) : SymbolCache :=
  { cache with
    inFlight := cache.inFlight ++ [⟨key, cache.lookups.length⟩]
    lookups := cache.lookups ++ [{ key }]
    stats := { cache.stats with misses := cache.stats.misses + 1 } }

/-- A caller asks for the outline of a document of which a version may be open: a kept outline, a
lookup under way, or a new lookup. -/
def resolve (cache : SymbolCache) (document : DocumentId) (version : Option Int) :
    SymbolCache × Resolution :=
  let key : LookupKey := ⟨document, version⟩
  match cache.cached? key with
  | some entry =>
    ({ cache.touch entry with stats := { cache.stats with hits := cache.stats.hits + 1 } },
      .hit entry.symbols)
  | none =>
    match cache.mark? key with
    | some mark =>
      ({ cache with stats := { cache.stats with coalesced := cache.stats.coalesced + 1 } },
        .awaits mark.ticket)
    | none => (cache.start key, .awaits cache.lookups.length)

/-! ## §4 Going on with a lookup -/

/-- The lookup has not entered the provider yet. -/
def isFresh (cache : SymbolCache) (ticket : Nat) : Bool :=
  match cache.lookups[ticket]? with
  | some { phase := .fresh, .. } => true
  | _ => false

/-- Sets how far a lookup has come. -/
def setPhase (cache : SymbolCache) (ticket : Nat) (phase : LookupPhase) : SymbolCache :=
  { cache with lookups := cache.lookups.modify ticket fun lookup => { lookup with phase } }

/-- Counts the entry into the provider that the first poll of a lookup makes. -/
def countCall (cache : SymbolCache) (ticket : Nat) : SymbolCache :=
  if cache.isFresh ticket then
    { cache with
      stats := { cache.stats with externalCalls := cache.stats.externalCalls + 1 } }
  else cache

/-- The lookup's own mark is still there. -/
def isCurrent (cache : SymbolCache) (key : LookupKey) (ticket : Nat) : Bool :=
  cache.inFlight.contains ⟨key, ticket⟩

/-- Takes the lookup's own mark away, if it is still there. -/
def takeMark (cache : SymbolCache) (key : LookupKey) (ticket : Nat) : SymbolCache :=
  { cache with inFlight := cache.inFlight.filter fun mark => mark != ⟨key, ticket⟩ }

/-- Finishes a lookup that the provider has answered: the outline is kept if the lookup is current
and its document open. -/
def finish (cache : SymbolCache) (key : LookupKey) (ticket : Nat)
    (symbols : List DeclarationSymbol) : SymbolCache :=
  let taken := (cache.takeMark key ticket).setPhase ticket (.finished symbols)
  match key.version with
  | some version =>
    if cache.isCurrent key ticket then taken.touch ⟨key.document, version, symbols⟩ else taken
  | none => taken

/-- Finishes a lookup that failed. -/
def finishFailed (cache : SymbolCache) (key : LookupKey) (ticket : Nat) : SymbolCache :=
  (cache.takeMark key ticket).setPhase ticket (.finished [])

/-- A lookup goes on with what the provider says now.  The outline is there once the lookup has
finished, in this poll or an earlier one. -/
def poll (cache : SymbolCache) (ticket : Nat) (reply : ProviderReply) :
    SymbolCache × Option (List DeclarationSymbol) :=
  match cache.lookups[ticket]? with
  | none => (cache, none)
  | some { phase := .finished symbols, .. } => (cache, some symbols)
  | some { key, .. } =>
    let called := cache.countCall ticket
    match reply with
    | .pending => (called.setPhase ticket .asked, none)
    | .answered value => (called.finish key ticket (normalize value), some (normalize value))
    | .failed => (called.finishFailed key ticket, some [])

/-! ## §5 Forgetting -/

/-- Forgets the outlines of a document and the marks of its lookups. -/
def invalidate (cache : SymbolCache) (document : DocumentId) : SymbolCache :=
  { cache with
    entries := cache.entries.filter fun entry => entry.document != document
    inFlight := cache.inFlight.filter fun mark => mark.key.document != document }

/-- Forgets all outlines and marks. -/
def invalidateAll (cache : SymbolCache) : SymbolCache :=
  { cache with entries := [], inFlight := [] }

end SymbolCache

end DeclDocs
