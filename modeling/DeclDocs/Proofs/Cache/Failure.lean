import DeclDocs.Proofs.Cache.Provenance

/-!
# Failures are not kept

What is kept is always a provider's answer.  A lookup that fails gives everyone who waits for it an
empty outline, and leaves the cache as if it had never been started: the entries are untouched, its
own mark is the only one that goes, and the next request for the key asks the provider again.

* `Session.isExclusive_after`: no key has both an entry and a mark after any run.
* `Session.isClear_of_failed`: a failed lookup leaves neither for its key.
* `Session.failures_not_kept`: what failures do in every run.
-/

namespace DeclDocs

namespace Session

variable {session : Session} {event : SessionEvent} {ticket : Nat} {key : LookupKey}

/-! ## §1 The failing event -/

theorem isExclusive_after (session : Session) (capacity : Nat) (events : List SessionEvent) :
    ((session.emptied capacity).after events).cache.IsExclusive := by
  -- that the marks are in order is kept along with it
  have hkept := invariant_after (fun now => now.cache.IsMarked ∧ now.cache.IsExclusive) ?_
    ⟨isMarked_after session capacity [], ?_⟩ events
  · exact hkept.2
  · rintro now event ⟨hmarked, h⟩
    exact ⟨isMarked_step hmarked event, isExclusive_step hmarked h event⟩
  · simp [SymbolCache.IsExclusive, after, emptied, SymbolCache.ofCapacity]

/-- Only an answer to a lookup of an open document changes the entries. -/
theorem Consults.entries_eq {reply : ProviderReply}
    (h : session.Consults event ticket key reply)
    (hreply : key.version = none ∨ ∀ value, reply ≠ .answered value) :
    (session.step event).1.cache.entries = session.cache.entries := by
  obtain ⟨begun, hwaits, hkey, _, hstep, _⟩ := h.exists_poll
  rw [hstep, ← hwaits.entries_eq]
  rcases begun.entries_poll ticket reply with
    hsame | ⟨document, version, value, hfound, _, hvalue, _⟩
  · exact hsame
  · obtain rfl := Option.some.inj (hkey.symm.trans hfound)
    rcases hreply with hnone | hother
    · simp at hnone
    · exact absurd hvalue (hother value)

/-- A failed lookup that had its mark leaves neither an entry nor a mark for its key. -/
theorem isClear_of_failed (hmarked : session.cache.IsMarked)
    (hexclusive : session.cache.IsExclusive) (h : session.Consults event ticket key .failed)
    (hcurrent : session.HasMark event ticket key) :
    (session.step event).1.cache.IsClear key := by
  constructor
  · rw [SymbolCache.cached?_eq_none, h.entries_eq (Or.inr (by simp))]
    -- where the lookup had its mark, or was started by the event, there is no entry
    rcases hcurrent with hmem | hstarts
    · intro entry hentry hkey
      exact hexclusive entry hentry ⟨key, ticket⟩ hmem hkey.symm
    · exact SymbolCache.cached?_eq_none.mp hstarts.resolves.2.1
  · rw [SymbolCache.mark?_eq_none]
    rintro mark hmem rfl
    -- the only mark for the key was the lookup's own, and the lookup has finished
    obtain ⟨hmark, hrunning⟩ := hasMark_of_mem_step hmarked hmem
    rw [hmark.unique hmarked hcurrent, h.outcome?_eq] at hrunning
    simp [ProviderReply.outcome?] at hrunning

/-! ## §2 The next request -/

/-- A request for a key without entry and mark is a miss and calls the provider. -/
theorem miss_of_isClear (hasked : ∀ ticket, session.cache.isFresh ticket = false)
    (h : session.cache.IsClear key) (hresolves : session.Resolves event key) :
    (session.step event).2.calls = [key.document] ∧
      (session.step event).1.cache.stats = { session.cache.stats with
        misses := session.cache.stats.misses + 1
        externalCalls := session.cache.stats.externalCalls + 1 } := by
  obtain ⟨hasks, hkey⟩ := hresolves
  have hcalls : (session.step event).2.calls = [key.document] := by
    have hmoves := session.step_moves event
    generalize (session.step event).1.cache = next, (session.step event).2.calls = calls at hmoves
    cases hmoves with
    | rests hrests =>
      cases hrests with
      | quiet hnone => simp [hasks] at hnone
      | forgets | forgetsAll => simp [SessionEvent.asks?] at hasks
      | hits hother hentry =>
        rw [← Option.some.inj (hasks.symm.trans hother), hkey, h.1] at hentry
        simp at hentry
    | polls hwaits =>
      cases hwaits with
      | still => simp [SessionEvent.asks?] at hasks
      | joins hother _ hmark =>
        rw [← Option.some.inj (hasks.symm.trans hother), hkey, h.2] at hmark
        simp at hmark
      | starts hother =>
        rw [SymbolCache.callsOf_start, Option.some.inj (hasks.symm.trans hother)]
        rfl
  refine ⟨hcalls, ?_⟩
  -- of the ways to count an event, only a miss goes with a call
  have hcounted := counted_step hasked event
  generalize (session.step event).1.cache.stats = stats, (session.step event).2.calls = calls
    at hcounted hcalls ⊢
  cases hcounted with
  | other | hit | join => simp at hcalls
  | miss => rfl

/-- A key without entry and mark stays so along events that do not ask for it. -/
theorem isClear_after {events : List SessionEvent} (hmarked : session.cache.IsMarked)
    (h : session.cache.IsClear key)
    (hevents : session.Throughout (fun now event => ¬ now.Resolves event key) events) :
    (session.after events).cache.IsClear key := by
  have hkept := hevents.invariant (fun now => now.cache.IsMarked ∧ now.cache.IsClear key) ?_
    ⟨hmarked, h⟩
  · exact hkept.2
  · rintro now event ⟨hmarked, h⟩ hother
    exact ⟨isMarked_step hmarked event, isClear_step hmarked h hother⟩

/-! ## §3 Every run -/

/-- An entry holds the answer to a lookup that was started when its version was open. -/
theorem exists_produced_starts {capacity : Nat} {events : List SessionEvent} {entry : CacheEntry}
    (h : entry ∈ ((session.emptied capacity).after events).cache.entries) :
    ∃ ticket, (session.emptied capacity).Produced events ticket entry ∧
      ∃ earlier event later, events = earlier ++ event :: later ∧
        ((session.emptied capacity).after earlier).Starts event ticket entry.key ∧
        (((session.emptied capacity).after earlier).script entry.document).version =
          some entry.version := by
  have hnew : entry ∉ (session.emptied capacity).cache.entries := List.not_mem_nil
  obtain ⟨ticket, hproduced⟩ := exists_produced hnew h
  obtain ⟨earlier, event, later, hsplit, hstarts⟩ := exists_starts rfl hproduced.keyOf?_eq
  have hopen := congrArg LookupKey.version hstarts.resolves.1.2
  exact ⟨ticket, hproduced, earlier, event, later, hsplit, hstarts, hopen⟩

/-- In every run from an empty cache: every entry holds an answer of the provider to a lookup that
was started when the version of the entry was open, and a lookup of a document that is not open
keeps nothing.  When a lookup fails, all who wait for it get the empty outline; the entries and their
order stay, and of the marks only its own goes; and if it had its mark, the next request for its key
is a miss that calls the provider. -/
theorem failures_not_kept (session : Session) (capacity : Nat) (events : List SessionEvent) :
    let start := session.emptied capacity
    let now := start.after events
    (∀ entry ∈ now.cache.entries, ∃ ticket, start.Produced events ticket entry ∧
      ∃ earlier event later, events = earlier ++ event :: later ∧
        (start.after earlier).Starts event ticket entry.key ∧
        ((start.after earlier).script entry.document).version = some entry.version) ∧
    (∀ event ticket key reply, now.Consults event ticket key reply → key.version = none →
      (now.step event).1.cache.entries = now.cache.entries) ∧
    (∀ event ticket key, now.Consults event ticket key .failed →
      let failed := (now.step event).1
      now.Completes event [] ∧
      (∀ later other symbols, (failed.after later).awaited? other = some ticket →
        ((failed.after later).Completes other symbols ↔ symbols = [])) ∧
      failed.cache.entries = now.cache.entries ∧
      failed.cache.inFlight = now.cache.inFlight.filter (· != ⟨key, ticket⟩) ∧
      (now.HasMark event ticket key → ∀ later request,
        failed.Throughout (fun session event => ¬ session.Resolves event key) later →
        (failed.after later).Resolves request key →
        ((failed.after later).step request).2.calls = [key.document] ∧
          ((failed.after later).step request).1.cache.stats =
            { (failed.after later).cache.stats with
              misses := (failed.after later).cache.stats.misses + 1
              externalCalls := (failed.after later).cache.stats.externalCalls + 1 })) := by
  intro start now
  have hmarked : now.cache.IsMarked := isMarked_after session capacity events
  refine ⟨fun entry hmem => exists_produced_starts hmem, ?_, ?_⟩
  · intro event ticket key reply hconsults hclosed
    exact hconsults.entries_eq (Or.inl hclosed)
  · intro event ticket key hconsults failed
    have houtcome : failed.cache.outcome? ticket = some [] := hconsults.outcome?_eq
    refine ⟨hconsults.completes_iff.mpr rfl, ?_, hconsults.entries_eq (Or.inr (by simp)),
      hconsults.inFlight_eq (by simp [ProviderReply.outcome?]), ?_⟩
    · -- the outcome stays for all who poll the lookup later
      intro later other symbols hawaits
      exact completes_of_finished hawaits (outcome?_after houtcome later)
    · intro hcurrent later request hothers hresolves
      have hclear : failed.cache.IsClear key :=
        isClear_of_failed hmarked (isExclusive_after session capacity events) hconsults hcurrent
      have hasked : ∀ other, (failed.after later).cache.isFresh other = false := by
        have hfailed : failed.after later = start.after (events ++ event :: later) :=
          (after_append_cons start events event later).symm
        rw [hfailed]
        exact isFresh_after session capacity (events ++ event :: later)
      exact miss_of_isClear hasked (isClear_after (isMarked_step hmarked event) hclear hothers)
        hresolves

/-- Two callers wait for a lookup that fails while another one is under way: the second one gets the
empty outline too, only the mark of the failed lookup goes, and the next request is a miss. -/
theorem failures_not_kept_shared :
    let document : DocumentId := ⟨"A".toList⟩
    let other : DocumentId := ⟨"B".toList⟩
    let events := [.setVersion document (some 1), .setGate document true, .setGate other true,
      .request 1 document, .request 2 document, .request 3 other, .setFailure document (.io []),
      .setGate document false]
    let now := (Session.emptied { cache := .ofCapacity 1 } 1).after events
    let failed := (now.step (.poll 1)).1
    now.cache.inFlight = [⟨⟨document, some 1⟩, 0⟩, ⟨⟨other, none⟩, 1⟩] ∧
      now.Consults (.poll 1) 0 ⟨document, some 1⟩ .failed ∧ now.Completes (.poll 1) [] ∧
      failed.Completes (.poll 2) [] ∧ failed.cache.inFlight = [⟨⟨other, none⟩, 1⟩] ∧
      (failed.step (.request 4 document)).2.calls = [document] := by
  have hconsults : ((Session.emptied { cache := .ofCapacity 1 } 1).after
      [.setVersion ⟨"A".toList⟩ (some 1), .setGate ⟨"A".toList⟩ true, .setGate ⟨"B".toList⟩ true,
        .request 1 ⟨"A".toList⟩, .request 2 ⟨"A".toList⟩, .request 3 ⟨"B".toList⟩,
        .setFailure ⟨"A".toList⟩ (.io []), .setGate ⟨"A".toList⟩ false]).Consults
        (.poll 1) 0 ⟨⟨"A".toList⟩, some 1⟩ .failed := ⟨rfl, rfl, rfl, rfl⟩
  obtain ⟨hfirst, hsecond, _, hmarks, hretry⟩ :=
    (failures_not_kept { cache := .ofCapacity 1 } 1 _).2.2 _ _ _ hconsults
  exact ⟨rfl, hconsults, hfirst, (hsecond [] (.poll 2) [] rfl).mpr rfl, hmarks,
    (hretry (Or.inl (List.mem_cons_self ..)) [] (.request 4 ⟨"A".toList⟩) trivial ⟨rfl, rfl⟩).1⟩

end Session

end DeclDocs
