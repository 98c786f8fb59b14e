import DeclDocs.Proofs.Cache.Provenance

/-!
# Invalidation is final

An invalidation takes away the entries and the marks of the documents that it is about.  A lookup
that had been started before never gets a mark again, so that it finishes for its callers only: the
entries, and the mark of a newer lookup for the same key, are left alone.  What is kept for the
document later comes from lookups that were started later.

* `Session.not_mem_inFlight_after`: a lookup without a mark stays without one.
* `Session.no_stale_outline`: what holds at every moment after an invalidation.
-/

namespace DeclDocs

namespace SessionEvent

private theorem asks?_of_forgets {event : SessionEvent} {document : DocumentId}
    (h : event.forgets document = true) : event.asks? = none := by
  cases event with
  | invalidate | invalidateAll => rfl
  | _ => simp [forgets] at h

end SessionEvent

namespace Session

variable {session : Session} {event : SessionEvent} {ticket : Nat} {key : LookupKey}

/-! ## §1 The invalidation itself -/

theorem awaited?_of_forgets {document : DocumentId} (h : event.forgets document = true) :
    session.awaited? event = none := by
  cases event with
  | invalidate | invalidateAll => rfl
  | _ => simp [SessionEvent.forgets] at h

/-- An invalidation leaves no entry of a document that it is about. -/
theorem not_mem_entries_of_forgets {entry : CacheEntry}
    (h : event.forgets entry.document = true) :
    entry ∉ (session.step event).1.cache.entries := by
  intro hmem
  rcases mem_entries_step hmem with ⟨_, hkept⟩ | ⟨ticket, ⟨value, hconsults, _⟩, _⟩
  · simp [h] at hkept
  · have hawaits := hconsults.awaited
    rw [awaited?_of_forgets h] at hawaits
    simp at hawaits

/-- An invalidation starts no lookup. -/
theorem keyOf?_of_forgets {document : DocumentId} (h : event.forgets document = true)
    (ticket : Nat) : (session.step event).1.cache.keyOf? ticket = session.cache.keyOf? ticket := by
  rcases session.keyOf?_step event with hsame | ⟨started, ⟨hasks, _⟩, _⟩
  · exact hsame ticket
  · rw [SessionEvent.asks?_of_forgets h] at hasks
    simp at hasks

/-- An invalidation leaves no mark of a lookup for a document that it is about. -/
theorem not_mem_inFlight_of_forgets (hmarked : session.cache.IsMarked)
    (hkey : session.cache.keyOf? ticket = some key) (h : event.forgets key.document = true) :
    ⟨key, ticket⟩ ∉ (session.step event).1.cache.inFlight := by
  rw [mem_inFlight_step hmarked]
  rintro ⟨⟨_, hkept⟩ | ⟨rfl, _⟩, _⟩
  · simp [h] at hkept
  · simp [SymbolCache.keyOf?_length] at hkey

/-! ## §2 Lookups without a mark -/

theorem not_mem_inFlight_step (hmarked : session.cache.IsMarked)
    (hkey : session.cache.keyOf? ticket = some key)
    (h : ⟨key, ticket⟩ ∉ session.cache.inFlight) (event : SessionEvent) :
    ⟨key, ticket⟩ ∉ (session.step event).1.cache.inFlight := by
  rw [mem_inFlight_step hmarked]
  rintro ⟨⟨hmem, _⟩ | ⟨rfl, _⟩, _⟩
  · exact h hmem
  · simp [SymbolCache.keyOf?_length] at hkey

/-- A lookup without a mark stays without one. -/
theorem not_mem_inFlight_after (hmarked : session.cache.IsMarked)
    (hkey : session.cache.keyOf? ticket = some key)
    (h : ⟨key, ticket⟩ ∉ session.cache.inFlight) (events : List SessionEvent) :
    ⟨key, ticket⟩ ∉ (session.after events).cache.inFlight := by
  -- that marks are in order and that the lookup is known is kept along with it
  have hkept := invariant_after
    (fun now => now.cache.IsMarked ∧ now.cache.keyOf? ticket = some key ∧
      ⟨key, ticket⟩ ∉ now.cache.inFlight) ?_ ⟨hmarked, hkey, h⟩ events
  · exact hkept.2.2
  · rintro now event ⟨hmarked, hkey, h⟩
    exact ⟨isMarked_step hmarked event, keyOf?_step_of_some hkey event,
      not_mem_inFlight_step hmarked hkey h event⟩

/-- An entry that stands for a lookup shows that the lookup had its mark when the entry was
stored. -/
theorem not_produced {events : List SessionEvent} {entry : CacheEntry}
    (hmarked : session.cache.IsMarked) (hkey : session.cache.keyOf? ticket = some key)
    (h : ⟨key, ticket⟩ ∉ session.cache.inFlight) :
    ¬ session.Produced events ticket entry := by
  rintro ⟨earlier, event, later, rfl, ⟨⟨value, hconsults, _⟩, hcurrent⟩, _⟩
  have hknown := keyOf?_after hkey earlier
  have hsame : key = entry.key :=
    Option.some.inj ((keyOf?_step_of_some hknown event).symm.trans hconsults.keyed)
  rcases hcurrent with hmem | hstarts
  · rw [← hsame] at hmem
    exact not_mem_inFlight_after hmarked hkey h earlier hmem
  · rw [← hstarts.number, SymbolCache.keyOf?_length] at hknown
    simp at hknown

/-! ## §3 After an invalidation -/

section Forgotten

variable (hmarked : session.cache.IsMarked)

include hmarked

/-- A lookup from before an invalidation is known from then on, and has no mark. -/
theorem unmarked_of_forgets (hkey : session.cache.keyOf? ticket = some key)
    (h : event.forgets key.document = true) (later : List SessionEvent) :
    ((session.step event).1.after later).cache.keyOf? ticket = some key ∧
      ⟨key, ticket⟩ ∉ ((session.step event).1.after later).cache.inFlight := by
  have hknown := keyOf?_step_of_some hkey event
  have hunmarked := not_mem_inFlight_of_forgets hmarked hkey h
  exact ⟨keyOf?_after hknown later,
    not_mem_inFlight_after (isMarked_step hmarked event) hknown hunmarked later⟩

/-- An entry for a document that was invalidated comes from a lookup that was started since. -/
theorem exists_produced_of_forgets {entry : CacheEntry} {later : List SessionEvent}
    (h : event.forgets entry.document = true)
    (hmem : entry ∈ ((session.step event).1.after later).cache.entries) :
    ∃ ticket, (session.step event).1.Produced later ticket entry ∧
      ∃ earlier start rest, later = earlier ++ start :: rest ∧
        ((session.step event).1.after earlier).Starts start ticket entry.key := by
  obtain ⟨ticket, hproduced⟩ := exists_produced (not_mem_entries_of_forgets h) hmem
  refine ⟨ticket, hproduced, ?_⟩
  cases hknown : (session.step event).1.cache.keyOf? ticket with
  | none => exact exists_starts hknown hproduced.keyOf?_eq
  | some key =>
    -- a lookup from before the invalidation has produced nothing since
    obtain rfl := Option.some.inj ((keyOf?_after hknown later).symm.trans hproduced.keyOf?_eq)
    have hbefore := hknown
    rw [keyOf?_of_forgets h] at hbefore
    have hunmarked := not_mem_inFlight_of_forgets hmarked hbefore h
    exact absurd hproduced (not_produced (isMarked_step hmarked event) hknown hunmarked)

end Forgotten

/-- After an invalidation in any run: every entry for a document that it is about comes from a
lookup that was started later; a lookup that had been started before finishes without a change to
entries and marks, and gives every caller its own result; and the invalidation of one document
leaves the entries and marks of the others as they were, in their order. -/
theorem no_stale_outline (session : Session) (capacity : Nat) (earlier : List SessionEvent)
    (invalidation : SessionEvent) (later : List SessionEvent) :
    let before := (session.emptied capacity).after earlier
    let forgotten := (before.step invalidation).1
    let now := forgotten.after later
    (∀ entry ∈ now.cache.entries, invalidation.forgets entry.document = true →
      ∃ ticket, forgotten.Produced later ticket entry ∧
        ∃ first event second, later = first ++ event :: second ∧
          (forgotten.after first).Starts event ticket entry.key) ∧
    (∀ ticket key, before.cache.keyOf? ticket = some key →
      invalidation.forgets key.document = true → ∀ event,
      (∀ symbols, now.cache.outcome? ticket = none →
        (now.step event).1.cache.outcome? ticket = some symbols →
        (now.step event).1.cache.entries = now.cache.entries ∧
          (now.step event).1.cache.inFlight = now.cache.inFlight ∧
          now.Completes event symbols) ∧
      (now.awaited? event = some ticket → ∀ symbols, now.Completes event symbols ↔
        (now.cache.outcome? ticket).or (now.script key.document).reply.outcome? =
          some symbols)) ∧
    (∀ document, invalidation = .invalidate document →
      forgotten.cache.entries.filter (·.document != document) =
          before.cache.entries.filter (·.document != document) ∧
        forgotten.cache.inFlight.filter (·.key.document != document) =
          before.cache.inFlight.filter (·.key.document != document)) := by
  intro before forgotten now
  have hmarked : before.cache.IsMarked := isMarked_after session capacity earlier
  refine ⟨fun entry hmem hforgets => exists_produced_of_forgets hmarked hforgets hmem, ?_, ?_⟩
  · intro ticket key hkey hforgets event
    obtain ⟨hknown, hunmarked⟩ := unmarked_of_forgets hmarked hkey hforgets later
    refine ⟨fun symbols hbefore hafter => ?_, fun hawaits symbols =>
      completes_iff_of_awaited? hawaits hknown⟩
    obtain ⟨_, reply, hconsults, hreply⟩ := consults_of_finishes hbefore hafter
    obtain ⟨hentries, hmarks⟩ := step_of_unmarked hconsults.awaited hknown hunmarked
    exact ⟨hentries, hmarks, hconsults.completes_iff.mpr hreply⟩
  · rintro document rfl
    constructor
    · change (before.cache.entries.filter _).filter _ = _
      simp
    · change (before.cache.inFlight.filter _).filter _ = _
      simp

/-- An outdated lookup finishes while a newer one for the same key is under way: the mark of the
newer one stays, nothing is kept, and the caller gets the answer. -/
theorem no_stale_outline_overlap :
    let document : DocumentId := ⟨"A".toList⟩
    let key : LookupKey := ⟨document, some 1⟩
    let start := Session.emptied { cache := .ofCapacity 1 } 1
    let earlier := [.setVersion document (some 1), .setGate document true, .request 1 document]
    let later := [.request 2 document, .setGate document false]
    let now := ((start.after earlier).step (.invalidate document)).1.after later
    now.cache.inFlight = [⟨key, 1⟩] ∧
      (now.step (.poll 1)).1.cache.entries = [] ∧
      (now.step (.poll 1)).1.cache.inFlight = [⟨key, 1⟩] ∧ now.Completes (.poll 1) [] := by
  refine ⟨rfl, ?_⟩
  have hstale := (no_stale_outline { cache := .ofCapacity 1 } 1
    [.setVersion ⟨"A".toList⟩ (some 1), .setGate ⟨"A".toList⟩ true, .request 1 ⟨"A".toList⟩]
    (.invalidate ⟨"A".toList⟩) [.request 2 ⟨"A".toList⟩, .setGate ⟨"A".toList⟩ false]).2.1
  exact (hstale 0 ⟨⟨"A".toList⟩, some 1⟩ rfl rfl (.poll 1)).1 [] rfl rfl

end Session

end DeclDocs
