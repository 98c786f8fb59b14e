import DeclDocs.Proofs.Cache.Polling

/-!
# Entries and marks

An entry is put in place by the event in which the provider answers a lookup that still has its
mark, and in no other way.  Since the mark goes in the same event, and a lookup is started only where
there is neither an entry nor a mark, no key ever has both.

* `Session.Stores`, `Session.mem_entries_step`: every entry was there before or is stored.
* `SymbolCache.IsExclusive`: no key has both an entry and a mark.
* `SymbolCache.IsClear`: a key has neither.
-/

namespace DeclDocs

/-! ## §1 Reading the cache -/

/-- The key that the entry is for. -/
def CacheEntry.key (entry : CacheEntry) : LookupKey :=
  ⟨entry.document, some entry.version⟩

namespace SymbolCache

variable {cache : SymbolCache}

theorem mem_touch {entry other : CacheEntry} (h : other ∈ (cache.touch entry).entries) :
    other = entry ∨ other ∈ cache.entries := by
  have hfront : other ∈ entry :: cache.entriesBut entry.document entry.version :=
    List.mem_of_mem_take h
  rcases List.mem_cons.mp hfront with heq | hmem
  · exact Or.inl heq
  · exact Or.inr (List.mem_of_mem_filter hmem)

/-- The entry for a key is one of the entries. -/
theorem mem_of_cached? {key : LookupKey} {entry : CacheEntry} (h : cache.cached? key = some entry) :
    entry ∈ cache.entries ∧ key = entry.key := by
  obtain ⟨document, version⟩ := key
  obtain ⟨version, rfl, hentry⟩ := Option.bind_eq_some_iff.mp h
  -- the entry that is found is the first one for its document and version
  have hfor := List.find?_some (show cache.entries.find? _ = some entry from hentry)
  simp only [CacheEntry.isFor, Bool.and_eq_true, beq_iff_eq] at hfor
  exact ⟨List.mem_of_find?_eq_some hentry, by rw [CacheEntry.key, hfor.1, hfor.2]⟩

theorem cached?_eq_none {key : LookupKey} :
    cache.cached? key = none ↔ ∀ entry ∈ cache.entries, entry.key ≠ key := by
  obtain ⟨document, version⟩ := key
  cases version with
  | none => simp [cached?, CacheEntry.key]
  | some version => simp [cached?, entry?, CacheEntry.key, CacheEntry.isFor]

theorem mark?_eq_none {key : LookupKey} :
    cache.mark? key = none ↔ ∀ mark ∈ cache.inFlight, mark.key ≠ key := by
  simp [mark?]

/-- No key has both an entry and a mark. -/
def IsExclusive (cache : SymbolCache) : Prop :=
  ∀ entry ∈ cache.entries, ∀ mark ∈ cache.inFlight, mark.key ≠ entry.key

/-- The key has neither an entry nor a mark. -/
def IsClear (cache : SymbolCache) (key : LookupKey) : Prop :=
  cache.cached? key = none ∧ cache.mark? key = none

end SymbolCache

namespace Session

variable {session : Session} {event : SessionEvent} {ticket : Nat}

/-! ## §2 Where entries come from -/

/-- The lookup has its mark when the event polls it, from before or because the event starts it. -/
def HasMark (session : Session) (event : SessionEvent) (ticket : Nat) (key : LookupKey) : Prop :=
  ⟨key, ticket⟩ ∈ session.cache.inFlight ∨ session.Starts event ticket key

/-- The event puts the entry in front: the provider answers a lookup for its document and version
that has its mark. -/
structure Stores (session : Session) (event : SessionEvent) (ticket : Nat) (entry : CacheEntry) :
    Prop where
  answered : ∃ value, session.Consults event ticket entry.key (.answered value) ∧
    entry.symbols = normalize value
  current : session.HasMark event ticket entry.key

/-- Every entry was there before and is not forgotten, or is stored. -/
theorem mem_entries_step {entry : CacheEntry}
    (h : entry ∈ (session.step event).1.cache.entries) :
    (entry ∈ session.cache.entries ∧ event.forgets entry.document = false) ∨
      ∃ ticket, session.Stores event ticket entry := by
  rcases session.rests_or_waits event with ⟨hrests, -⟩ | ⟨ticket, begun, hwaits⟩
  · left
    generalize (session.step event).1.cache = next at hrests h
    cases hrests with
    | quiet _ hforgets => exact ⟨h, hforgets _⟩
    | hits hasks hentry =>
      refine ⟨?_, SessionEvent.forgets_of_asks? hasks _⟩
      rcases SymbolCache.mem_touch h with rfl | hmem
      · exact (SymbolCache.mem_of_cached? hentry).1
      · exact hmem
    | forgets document =>
      obtain ⟨hmem, hother⟩ := List.mem_filter.mp h
      exact ⟨hmem, beq_eq_false_iff_ne.mpr (bne_iff_ne.mp hother).symm⟩
    | forgetsAll => simp [SymbolCache.invalidateAll] at h
  · have hforgets := hwaits.forgets_eq entry.document
    have hstep := hwaits.step_eq.1
    rcases begun.entries_poll ticket (session.replyTo (begun.keyOf? ticket)) with
      hsame | ⟨document, version, value, hkey, hrunning, hreply, hcurrent, hstored⟩
    · rw [hstep, hsame, hwaits.entries_eq] at h
      exact Or.inl ⟨h, hforgets⟩
    · rw [hstep, hstored] at h
      rcases SymbolCache.mem_touch h with rfl | hmem
      · have hkeyed : (session.step event).1.cache.keyOf? ticket =
            some ⟨document, some version⟩ := by
          rw [hwaits.keyOf?_eq, hkey]
        refine Or.inr ⟨ticket, ⟨value, ⟨hwaits.awaited?_eq, ?_, hkeyed, ?_⟩, rfl⟩, ?_⟩
        · rw [← hwaits.outcome?_eq, hrunning]
        · rw [← hreply, hkey]
          rfl
        · cases hwaits with
          | still | joins => exact Or.inl hcurrent
          | starts => exact Or.inr ⟨rfl, hkeyed⟩
      · rw [hwaits.entries_eq] at hmem
        exact Or.inl ⟨hmem, hforgets⟩

/-! ## §3 Entries and marks apart -/

section Apart

variable {key : LookupKey} (hmarked : session.cache.IsMarked)

include hmarked

/-- A key has one lookup with a mark at most. -/
theorem HasMark.unique {other : Nat} (h : session.HasMark event ticket key)
    (hother : session.HasMark event other key) : ticket = other := by
  rcases h with hmem | hstarts
  · have hmark : session.cache.mark? key = some ⟨key, ticket⟩ := hmarked.mark?_eq_some hmem
    rcases hother with hmem' | hstarts'
    · have hmark' : session.cache.mark? key = some ⟨key, other⟩ := hmarked.mark?_eq_some hmem'
      simpa using hmark.symm.trans hmark'
    · simp [hstarts'.resolves.2.2] at hmark
  · rcases hother with hmem' | hstarts'
    · have hmark' : session.cache.mark? key = some ⟨key, other⟩ := hmarked.mark?_eq_some hmem'
      simp [hstarts.resolves.2.2] at hmark'
    · exact hstarts.number.symm.trans hstarts'.number

theorem hasMark_of_mem_step {mark : InFlight}
    (h : mark ∈ (session.step event).1.cache.inFlight) :
    session.HasMark event mark.ticket mark.key ∧
      (session.step event).1.cache.outcome? mark.ticket = none := by
  obtain ⟨⟨hmem, _⟩ | hstarts, hrunning⟩ := (mem_inFlight_step hmarked event).mp h
  · exact ⟨Or.inl hmem, hrunning⟩
  · exact ⟨Or.inr ⟨hstarts.1, hstarts.2⟩, hrunning⟩

/-- No event gives a key both an entry and a mark. -/
theorem isExclusive_step (h : session.cache.IsExclusive) (event : SessionEvent) :
    (session.step event).1.cache.IsExclusive := by
  intro entry hentry mark hmark hkey
  obtain ⟨hmem, hrunning⟩ := hasMark_of_mem_step hmarked hmark
  rw [hkey] at hmem
  rcases mem_entries_step hentry with ⟨hbefore, _⟩ | ⟨ticket, ⟨value, hconsults, _⟩, hcurrent⟩
  · rcases hmem with hmem | hstarts
    · exact h entry hbefore ⟨entry.key, mark.ticket⟩ hmem rfl
    · -- a lookup is started only where there is no entry
      exact SymbolCache.cached?_eq_none.mp hstarts.resolves.2.1 entry hbefore rfl
  · -- the lookup whose answer is stored has finished
    rw [hmem.unique hmarked hcurrent, hconsults.outcome?_eq] at hrunning
    simp [ProviderReply.outcome?] at hrunning

/-- A key without entry and mark stays so until it is asked for. -/
theorem isClear_step (h : session.cache.IsClear key) (hasks : ¬ session.Resolves event key) :
    (session.step event).1.cache.IsClear key := by
  have hmark : ∀ ticket, ¬ session.HasMark event ticket key := by
    rintro ticket (hmem | hstarts)
    · exact SymbolCache.mark?_eq_none.mp h.2 _ hmem rfl
    · exact hasks hstarts.resolves.1
  constructor
  · rw [SymbolCache.cached?_eq_none]
    rintro entry hentry rfl
    rcases mem_entries_step hentry with ⟨hbefore, _⟩ | ⟨ticket, hstores⟩
    · exact SymbolCache.cached?_eq_none.mp h.1 entry hbefore rfl
    · exact hmark ticket hstores.current
  · rw [SymbolCache.mark?_eq_none]
    rintro mark hmem rfl
    exact hmark mark.ticket (hasMark_of_mem_step hmarked hmem).1

end Apart

end Session

end DeclDocs
