import DeclDocs.Proofs.Cache.Entries

/-!
# The cache in every reachable state

The cache is seen here without its surroundings: requests, polls of any lookup with any reply, and
invalidations follow each other in any order.  A session drives its cache in no other way.

* `CacheEvent`, `SymbolCache.after`: what can happen to a cache, and runs.
* `SymbolCache.IsTidy`: what every event preserves.
* `SymbolCache.IsSound`: what is therefore true after every run.
* `Session.exists_events`: the cache of a session is one that such a run reaches.
-/

namespace DeclDocs

/-! ## §1 Runs of a cache -/

/-- What can happen to a cache. -/
inductive CacheEvent where
  | resolve (document : DocumentId) (version : Option Int)
  /-- A lookup goes on with what the provider says. -/
  | poll (ticket : Nat) (reply : ProviderReply)
  | invalidate (document : DocumentId)
  | invalidateAll

namespace SymbolCache

/-- The cache after one event. -/
def step (cache : SymbolCache) : CacheEvent → SymbolCache
  | .resolve document version => (cache.resolve document version).1
  | .poll ticket reply => (cache.poll ticket reply).1
  | .invalidate document => cache.invalidate document
  | .invalidateAll => cache.invalidateAll

/-- The cache after the events. -/
def after (cache : SymbolCache) (events : List CacheEvent) : SymbolCache :=
  events.foldl step cache

theorem after_cons (cache : SymbolCache) (event : CacheEvent) (events : List CacheEvent) :
    cache.after (event :: events) = (cache.step event).after events := rfl

theorem after_append (cache : SymbolCache) (earlier later : List CacheEvent) :
    cache.after (earlier ++ later) = (cache.after earlier).after later :=
  List.foldl_append

/-- A property that every event preserves holds after every run. -/
theorem after_induction {kept : SymbolCache → Prop}
    (hstep : ∀ cache event, kept cache → kept (cache.step event)) {cache : SymbolCache}
    (h : kept cache) (events : List CacheEvent) : kept (cache.after events) := by
  induction events generalizing cache with
  | nil => exact h
  | cons event events ih => exact ih (hstep cache event h)

/-! ## §2 The keys of the entries -/

/-- The keys of the entries, most recently used first. -/
def keys (cache : SymbolCache) : List LookupKey :=
  cache.entries.map CacheEntry.key

private theorem isFor_eq (entry other : CacheEntry) :
    other.isFor entry.document entry.version = (other.key == entry.key) := by
  rw [Bool.eq_iff_iff]
  simp [CacheEntry.isFor, CacheEntry.key]

/-- The key comes to the front, and what is beyond the capacity goes. -/
theorem keys_touch (cache : SymbolCache) (entry : CacheEntry) :
    (cache.touch entry).keys =
      (entry.key :: cache.keys.filter fun key => key != entry.key).take cache.capacity := by
  have hfor : (fun other : CacheEntry => !other.isFor entry.document entry.version) =
      (fun key => key != entry.key) ∘ CacheEntry.key := by
    funext other
    rw [isFor_eq]
    rfl
  rw [keys, keys, touch, entriesBut, hfor, List.map_take, List.map_cons, List.filter_map]

theorem cached?_eq_none_iff_notMem {cache : SymbolCache} {key : LookupKey} :
    cache.cached? key = none ↔ key ∉ cache.keys := by
  rw [cached?_eq_none, keys, List.mem_map]
  exact ⟨fun h ⟨entry, hmem, hkey⟩ => h entry hmem hkey, fun h entry hmem hkey =>
    h ⟨entry, hmem, hkey⟩⟩

/-! ## §3 What every event preserves -/

/-- Entries within the capacity and with distinct keys, marks with distinct keys that belong to
unfinished lookups, and no key with both an entry and a mark. -/
structure IsTidy (cache : SymbolCache) : Prop extends cache.IsMarked where
  bounded : cache.entries.length ≤ cache.capacity
  keyed : cache.keys.Nodup
  exclusive : cache.IsExclusive

section Touch

variable {cache next : SymbolCache} {entry : CacheEntry}
  (hentries : next.entries = (cache.touch entry).entries)

include hentries

private theorem length_le_of_touch : next.entries.length ≤ cache.capacity := by
  rw [hentries]
  exact List.length_take_le _ _

private theorem keys_nodup_of_touch (h : cache.keys.Nodup) : next.keys.Nodup := by
  have hkeys : next.keys = (cache.touch entry).keys := by rw [keys, keys, hentries]
  rw [hkeys, keys_touch]
  refine List.Nodup.sublist (List.take_sublist _ _) (List.nodup_cons.mpr ⟨?_, h.filter _⟩)
  simp

end Touch

private theorem capacity_poll (cache : SymbolCache) (ticket : Nat) (reply : ProviderReply) :
    (cache.poll ticket reply).1.capacity = cache.capacity := by
  unfold poll
  split
  · rfl
  · rfl
  · cases reply with
    | pending => simp [countCall_eq, setPhase]
    | answered value =>
      obtain ⟨entries, hfinish⟩ := finish_eq (cache.countCall ticket) _ ticket (normalize value)
      dsimp only
      rw [hfinish, countCall_eq]
      rfl
    | failed => simp [countCall_eq, finishFailed, takeMark, setPhase]

theorem capacity_step (cache : SymbolCache) (event : CacheEvent) :
    (cache.step event).capacity = cache.capacity := by
  cases event with
  | resolve document version =>
    rw [step]
    rcases cache.resolve_cases document version with
      ⟨entry, _, hresolve⟩ | ⟨_, mark, _, hresolve⟩ | ⟨_, _, hresolve⟩ <;> rw [hresolve] <;> rfl
  | poll ticket reply => exact cache.capacity_poll ticket reply
  | invalidate document => rfl
  | invalidateAll => rfl

namespace IsTidy

variable {cache : SymbolCache}

theorem resolve (h : cache.IsTidy) (document : DocumentId) (version : Option Int) :
    (cache.resolve document version).1.IsTidy := by
  rcases cache.resolve_cases document version with
    ⟨entry, hentry, hresolve⟩ | ⟨_, mark, _, hresolve⟩ | ⟨hentry, hmark, hresolve⟩ <;>
    rw [hresolve]
  · -- a hit: the entry was there before
    refine ⟨⟨h.distinct, h.marked⟩, @length_le_of_touch cache _ entry rfl,
      @keys_nodup_of_touch cache _ entry rfl h.keyed, ?_⟩
    intro other hother mark hmem
    rcases mem_touch hother with rfl | hbefore
    · exact h.exclusive _ (mem_of_cached? hentry).1 mark hmem
    · exact h.exclusive other hbefore mark hmem
  · exact ⟨⟨h.distinct, h.marked⟩, h.bounded, h.keyed, h.exclusive⟩
  · -- a lookup starts only where there is no entry
    refine ⟨h.toIsMarked.start hmark, h.bounded, h.keyed, ?_⟩
    intro entry hmem mark hmark
    rcases List.mem_append.mp hmark with hold | hnew
    · exact h.exclusive entry hmem mark hold
    · rw [List.mem_singleton.mp hnew]
      exact (cached?_eq_none.mp hentry entry hmem).symm

/-- What a poll puts in front is for a key that had no entry. -/
theorem entries_poll (h : cache.IsTidy) (ticket : Nat) (reply : ProviderReply) :
    (cache.poll ticket reply).1.entries = cache.entries ∨
      ∃ entry, ⟨entry.key, ticket⟩ ∈ cache.inFlight ∧ entry.key ∉ cache.keys ∧
        ((cache.poll ticket reply).1.outcome? ticket).isSome = true ∧
        (cache.poll ticket reply).1.entries = (cache.touch entry).entries := by
  refine (cache.entries_poll ticket reply).imp_right ?_
  rintro ⟨document, version, value, hkey, hrunning, rfl, hmark, hstored⟩
  refine ⟨⟨document, version, normalize value⟩, hmark, ?_, ?_, hstored⟩
  · rw [keys, List.mem_map]
    rintro ⟨entry, hmem, hentry⟩
    exact h.exclusive entry hmem _ hmark hentry.symm
  · rw [(cache.poll_isPoll ticket _).2, poll_outcome? hkey hrunning]
    rfl

theorem poll (h : cache.IsTidy) (ticket : Nat) (reply : ProviderReply) :
    (cache.poll ticket reply).1.IsTidy := by
  have hpoll := (cache.poll_isPoll ticket reply).1
  have hmarked := h.toIsMarked.poll hpoll
  have hbefore : ∀ mark ∈ (cache.poll ticket reply).1.inFlight, mark ∈ cache.inFlight :=
    fun mark hmem => ((h.mem_poll hpoll).mp hmem).1
  rcases h.entries_poll ticket reply with hsame | ⟨entry, hmark, _, hfinished, hstored⟩
  · refine ⟨hmarked, ?_, ?_, ?_⟩
    · rw [hsame, cache.capacity_poll]
      exact h.bounded
    · rw [keys, hsame]
      exact h.keyed
    · rw [IsExclusive, hsame]
      exact fun entry hentry mark hmem => h.exclusive entry hentry mark (hbefore mark hmem)
  · refine ⟨hmarked, ?_, keys_nodup_of_touch hstored h.keyed, ?_⟩
    · rw [cache.capacity_poll]
      exact length_le_of_touch hstored
    · intro other hother mark hmem hkey
      rw [hstored] at hother
      rcases mem_touch hother with rfl | hold
      · -- the mark for the key was that of the polled lookup, which has finished
        have hsame : mark = ⟨other.key, ticket⟩ :=
          List.inj_on_of_nodup_map h.distinct (hbefore mark hmem) hmark hkey
        have hrunning := ((h.mem_poll hpoll).mp hmem).2
        rw [hsame] at hrunning
        simp [hrunning] at hfinished
      · exact h.exclusive other hold mark (hbefore mark hmem) hkey

theorem invalidate (h : cache.IsTidy) (document : DocumentId) :
    (cache.invalidate document).IsTidy where
  distinct := h.distinct.sublist (List.filter_sublist.map InFlight.key)
  marked := fun mark hmem => h.marked mark (List.mem_of_mem_filter hmem)
  bounded := Nat.le_trans (List.length_filter_le _ _) h.bounded
  keyed := h.keyed.sublist (List.filter_sublist.map CacheEntry.key)
  exclusive := fun entry hentry mark hmem =>
    h.exclusive entry (List.mem_of_mem_filter hentry) mark (List.mem_of_mem_filter hmem)

theorem invalidateAll (cache : SymbolCache) : cache.invalidateAll.IsTidy where
  distinct := List.nodup_nil
  marked := by simp [SymbolCache.invalidateAll]
  bounded := Nat.zero_le _
  keyed := List.nodup_nil
  exclusive := by simp [IsExclusive, SymbolCache.invalidateAll]

theorem step (h : cache.IsTidy) (event : CacheEvent) : (cache.step event).IsTidy := by
  cases event with
  | resolve document version => exact h.resolve document version
  | poll ticket reply => exact h.poll ticket reply
  | invalidate document => exact h.invalidate document
  | invalidateAll => exact .invalidateAll cache

theorem after (h : cache.IsTidy) (events : List CacheEvent) : (cache.after events).IsTidy :=
  after_induction (fun _ event hkept => hkept.step event) h events

theorem ofCapacity (capacity : Nat) : (SymbolCache.ofCapacity capacity).IsTidy :=
  .invalidateAll (SymbolCache.ofCapacity capacity)

end IsTidy

theorem capacity_after (capacity : Nat) (events : List CacheEvent) :
    ((ofCapacity capacity).after events).capacity = max 1 capacity :=
  after_induction (fun cache event hkept => (cache.capacity_step event).trans hkept) rfl events

/-! ## §4 Reachable states -/

/-- The cache keeps its bookkeeping in order, with `limit` entries at most. -/
structure IsSound (cache : SymbolCache) (limit : Nat) : Prop where
  bounded : cache.entries.length ≤ limit
  keyed : cache.keys.Nodup
  exclusive : cache.IsExclusive
  /-- Marks are for different lookups. -/
  numbered : (cache.inFlight.map InFlight.ticket).Nodup
  /-- Marks are for lookups that were started. -/
  started : ∀ mark ∈ cache.inFlight, mark.ticket < cache.lookups.length
  /-- Marks are for lookups that have not finished. -/
  running : ∀ mark ∈ cache.inFlight, cache.outcome? mark.ticket = none
  /-- A lookup that finishes takes no other entry's place: what it stores comes in addition, and
  only the capacity makes an entry go. -/
  stored : ∀ ticket reply, (cache.poll ticket reply).1.entries = cache.entries ∨
    ∃ entry, cache.keyOf? ticket = some entry.key ∧ entry.key ∉ cache.keys ∧
      (cache.poll ticket reply).1.entries = (entry :: cache.entries).take limit

/-- A key without an entry comes in addition to the others. -/
theorem entries_touch_of_notMem {cache : SymbolCache} {entry : CacheEntry}
    (h : entry.key ∉ cache.keys) :
    (cache.touch entry).entries = (entry :: cache.entries).take cache.capacity := by
  have hbut : cache.entriesBut entry.document entry.version = cache.entries := by
    refine List.filter_eq_self.mpr fun other hmem => ?_
    have hne : other.key ≠ entry.key := fun hkey => h (List.mem_map.mpr ⟨other, hmem, hkey⟩)
    rw [isFor_eq, Bool.not_eq_true']
    exact beq_eq_false_iff_ne.mpr hne
  rw [touch, hbut]

private theorem IsTidy.isSound {cache : SymbolCache} (h : cache.IsTidy) :
    cache.IsSound cache.capacity where
  bounded := h.bounded
  keyed := h.keyed
  exclusive := h.exclusive
  numbered := by
    refine (List.nodup_map_iff_inj_on h.distinct.of_map).mpr fun mark hmem other hother heq => ?_
    -- lookups of one number have one key, and a key has one mark
    have hkey : mark.key = other.key := by
      have hsame := (h.marked mark hmem).1.symm.trans (heq ▸ (h.marked other hother).1)
      exact Option.some.inj hsame
    exact List.inj_on_of_nodup_map h.distinct hmem hother hkey
  started := by
    intro mark hmem
    obtain ⟨lookup, hlookup, _⟩ := Option.map_eq_some_iff.mp (h.marked mark hmem).1
    exact (List.getElem?_eq_some_iff.mp hlookup).1
  running := fun mark hmem => (h.marked mark hmem).2
  stored := by
    intro ticket reply
    refine (h.entries_poll ticket reply).imp_right ?_
    rintro ⟨entry, hmark, hnew, _, hstored⟩
    exact ⟨entry, (h.marked _ hmark).1, hnew, hstored.trans (entries_touch_of_notMem hnew)⟩

end SymbolCache

namespace Session

/-- What an event does to the cache of a session is what a few events of the cache do. -/
theorem exists_events_step (session : Session) (event : SessionEvent) :
    ∃ events, (session.step event).1.cache = session.cache.after events := by
  have hmoves := session.step_moves event
  generalize (session.step event).1.cache = next, (session.step event).2.calls = calls at hmoves
  cases hmoves with
  | rests hrests =>
    cases hrests with
    | quiet => exact ⟨[], rfl⟩
    | @hits _ document entry _ hentry =>
      refine ⟨[.resolve document (session.script document).version], ?_⟩
      rw [keyFor] at hentry
      simp [SymbolCache.after, SymbolCache.step, SymbolCache.resolve, hentry]
    | forgets document => exact ⟨[.invalidate document], rfl⟩
    | forgetsAll => exact ⟨[.invalidateAll], rfl⟩
  | @polls ticket begun hwaits =>
    rcases hwaits.event_cases with ⟨document, hasks⟩ | ⟨caller, rfl, rfl, -⟩
    · -- who asks for a lookup polls it at once
      refine ⟨[.resolve document (session.script document).version,
        .poll ticket (session.replyTo (begun.keyOf? ticket))], ?_⟩
      simp [SymbolCache.after, SymbolCache.step, hwaits.resolve_eq hasks]
    · exact ⟨[.poll ticket _], rfl⟩

/-- The cache of a session is one that a run of the cache alone reaches. -/
theorem exists_events (session : Session) (capacity : Nat) (events : List SessionEvent) :
    ∃ operations, ((session.emptied capacity).after events).cache =
      (SymbolCache.ofCapacity capacity).after operations := by
  induction events using List.reverseRecOn with
  | nil => exact ⟨[], rfl⟩
  | append_singleton events event ih =>
    obtain ⟨earlier, hearlier⟩ := ih
    obtain ⟨later, hlater⟩ := exists_events_step ((session.emptied capacity).after events) event
    refine ⟨earlier ++ later, ?_⟩
    rw [after_concat, hlater, hearlier, SymbolCache.after_append]

end Session

/-- After every run, of a cache alone or of a session, the bookkeeping of the cache is in order. -/
theorem SymbolCache.isSound_reachable (capacity : Nat) :
    (∀ events, ((ofCapacity capacity).after events).IsSound (max 1 capacity)) ∧
      ∀ (session : Session) events,
        ((session.emptied capacity).after events).cache.IsSound (max 1 capacity) := by
  have hsound : ∀ events, ((ofCapacity capacity).after events).IsSound (max 1 capacity) := by
    intro events
    rw [← capacity_after capacity events]
    exact ((IsTidy.ofCapacity capacity).after events).isSound
  refine ⟨hsound, fun session events => ?_⟩
  obtain ⟨operations, hcache⟩ := session.exists_events capacity events
  rw [hcache]
  exact hsound operations

end DeclDocs
