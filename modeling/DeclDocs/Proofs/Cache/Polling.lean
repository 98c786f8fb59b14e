import DeclDocs.Proofs.Cache.Coalescing

/-!
# What a polled lookup gives

An event that waits for a lookup polls it once with what the provider says at that moment.  This
module says what comes of such a poll for the caller, for the marks and for the entries.

* `ProviderReply.outcome?`: what a reply makes of a lookup.
* `Session.Starts`: an event starts a lookup.
* `Session.Consults`: an event asks the provider on behalf of an unfinished lookup.
-/

namespace DeclDocs

/-- What a reply makes of a lookup: an outline once the provider has answered or failed. -/
def ProviderReply.outcome? : ProviderReply → Option (List DeclarationSymbol)
  | pending => none
  | answered value => some (normalize value)
  | failed => some []

theorem ProviderReply.outcome?_eq_none {reply : ProviderReply} :
    reply.outcome? = none ↔ reply = .pending := by
  cases reply <;> simp [outcome?]

namespace SymbolCache

variable {cache : SymbolCache} {ticket : Nat}

/-! ## §1 One poll -/

/-- A finished lookup gives its outcome and leaves the cache alone. -/
theorem poll_of_finished {symbols : List DeclarationSymbol}
    (h : cache.outcome? ticket = some symbols) (reply : ProviderReply) :
    cache.poll ticket reply = (cache, some symbols) := by
  obtain ⟨⟨key, phase⟩, hlookup, hphase⟩ := Option.bind_eq_some_iff.mp h
  cases phase with
  | fresh | asked => simp [LookupPhase.outcome?] at hphase
  | finished found =>
    obtain rfl : found = symbols := by simpa [LookupPhase.outcome?] using hphase
    simp [poll, hlookup]

section Running

variable {key : LookupKey} (hkey : cache.keyOf? ticket = some key)
  (hrunning : cache.outcome? ticket = none)

include hkey hrunning

private theorem exists_running :
    ∃ phase, cache.lookups[ticket]? = some ⟨key, phase⟩ ∧ (phase = .fresh ∨ phase = .asked) := by
  obtain ⟨⟨key', phase⟩, hlookup, rfl⟩ := Option.map_eq_some_iff.mp hkey
  refine ⟨phase, hlookup, ?_⟩
  cases phase with
  | fresh => exact Or.inl rfl
  | asked => exact Or.inr rfl
  | finished symbols => simp [outcome?, hlookup, LookupPhase.outcome?] at hrunning

theorem poll_pending :
    cache.poll ticket .pending = ((cache.countCall ticket).setPhase ticket .asked, none) := by
  obtain ⟨phase, hlookup, rfl | rfl⟩ := exists_running hkey hrunning <;> simp [poll, hlookup]

theorem poll_answered (value : Json) :
    cache.poll ticket (.answered value) =
      ((cache.countCall ticket).finish key ticket (normalize value), some (normalize value)) := by
  obtain ⟨phase, hlookup, rfl | rfl⟩ := exists_running hkey hrunning <;> simp [poll, hlookup]

theorem poll_failed :
    cache.poll ticket .failed = ((cache.countCall ticket).finishFailed key ticket, some []) := by
  obtain ⟨phase, hlookup, rfl | rfl⟩ := exists_running hkey hrunning <;> simp [poll, hlookup]

/-- An unfinished lookup gives what the reply makes of it. -/
theorem poll_outcome? (reply : ProviderReply) : (cache.poll ticket reply).2 = reply.outcome? := by
  cases reply with
  | pending => rw [poll_pending hkey hrunning]; rfl
  | answered value => rw [poll_answered hkey hrunning]; rfl
  | failed => rw [poll_failed hkey hrunning]; rfl

end Running

private theorem isCurrent_iff {key : LookupKey} :
    cache.isCurrent key ticket = true ↔ ⟨key, ticket⟩ ∈ cache.inFlight := by
  simp [isCurrent]

private theorem entries_countCall : (cache.countCall ticket).entries = cache.entries := by
  rw [countCall_eq]

/-- A poll leaves the entries as they are, unless the provider answers a lookup that is current and
whose document is open. -/
theorem entries_poll (cache : SymbolCache) (ticket : Nat) (reply : ProviderReply) :
    (cache.poll ticket reply).1.entries = cache.entries ∨
      ∃ document version value, cache.keyOf? ticket = some ⟨document, some version⟩ ∧
        cache.outcome? ticket = none ∧ reply = .answered value ∧
        ⟨⟨document, some version⟩, ticket⟩ ∈ cache.inFlight ∧
        (cache.poll ticket reply).1.entries =
          (cache.touch ⟨document, version, normalize value⟩).entries := by
  cases houtcome : cache.outcome? ticket with
  | some symbols => exact Or.inl (by rw [poll_of_finished houtcome])
  | none =>
    cases hkey : cache.keyOf? ticket with
    | none =>
      have hlookup : cache.lookups[ticket]? = none := by simpa [keyOf?] using hkey
      exact Or.inl (by simp [poll, hlookup])
    | some key =>
      cases reply with
      | pending =>
        rw [poll_pending hkey houtcome]
        exact Or.inl entries_countCall
      | failed =>
        rw [poll_failed hkey houtcome]
        exact Or.inl entries_countCall
      | answered value =>
        rw [poll_answered hkey houtcome]
        obtain ⟨document, version⟩ := key
        cases version with
        | none => exact Or.inl entries_countCall
        | some version =>
          by_cases hcurrent : cache.isCurrent ⟨document, some version⟩ ticket = true
          · refine Or.inr ⟨document, version, value, rfl, rfl, rfl, isCurrent_iff.mp hcurrent, ?_⟩
            simp [countCall_eq, finish, isCurrent] at hcurrent ⊢
            simp [hcurrent, touch, entriesBut, takeMark, setPhase]
          · refine Or.inl ?_
            simp [countCall_eq, finish, isCurrent] at hcurrent ⊢
            simp [hcurrent, takeMark, setPhase]

end SymbolCache

/-! ## §2 Starting a lookup -/

namespace Session

variable {session : Session} {event : SessionEvent} {ticket : Nat} {begun : SymbolCache}

/-- A request waits for an unfinished lookup for its own key. -/
theorem Waits.request_key (h : session.Waits event ticket begun)
    (hmarked : session.cache.IsMarked) {document : DocumentId}
    (hasks : event.asks? = some document) :
    begun.keyOf? ticket = some (session.keyFor document) ∧
      session.cache.outcome? ticket = none := by
  cases h with
  | still => simp [SessionEvent.asks?] at hasks
  | @joins _ other mark hother _ hmark =>
    have hmem : mark ∈ session.cache.inFlight := List.mem_of_find?_eq_some hmark
    have hkey : mark.key = session.keyFor other := by simpa using List.find?_some hmark
    rw [Option.some.inj (hasks.symm.trans hother), ← hkey]
    exact hmarked.marked mark hmem
  | starts hother =>
    obtain rfl := Option.some.inj (hother.symm.trans hasks)
    exact ⟨SymbolCache.keyOf?_start _ _, by simp [SymbolCache.outcome?]⟩

/-- The event asks for the outline that the key stands for. -/
def Resolves (session : Session) (event : SessionEvent) (key : LookupKey) : Prop :=
  event.asks? = some key.document ∧ session.keyFor key.document = key

/-- The event starts the lookup of that number. -/
structure Starts (session : Session) (event : SessionEvent) (ticket : Nat) (key : LookupKey) :
    Prop where
  number : session.cache.lookups.length = ticket
  keyed : (session.step event).1.cache.keyOf? ticket = some key

/-- Lookups keep their keys, and a new one is started by a request that finds neither an outline nor
a mark for its key. -/
theorem keyOf?_step (session : Session) (event : SessionEvent) :
    (∀ ticket, (session.step event).1.cache.keyOf? ticket = session.cache.keyOf? ticket) ∨
    ∃ key, session.Resolves event key ∧ session.cache.cached? key = none ∧
      session.cache.mark? key = none ∧
      ∀ ticket, (session.step event).1.cache.keyOf? ticket =
        (session.cache.start key).keyOf? ticket := by
  rcases session.rests_or_waits event with ⟨hrests, -⟩ | ⟨ticket, begun, hwaits⟩
  · generalize (session.step event).1.cache = next at hrests
    cases hrests <;> exact Or.inl fun _ => rfl
  · have hkeys := hwaits.keyOf?_eq
    cases hwaits with
    | still | joins => exact Or.inl hkeys
    | starts hasks hentry hmark => exact Or.inr ⟨_, ⟨hasks, rfl⟩, hentry, hmark, hkeys⟩

theorem keyOf?_step_of_some {key : LookupKey} (h : session.cache.keyOf? ticket = some key)
    (event : SessionEvent) : (session.step event).1.cache.keyOf? ticket = some key := by
  rcases session.keyOf?_step event with hsame | ⟨started, _, _, _, hstart⟩
  · rw [hsame, h]
  · rw [hstart, SymbolCache.keyOf?_start_of_some _ _ h]

/-- A lookup was there before or is started. -/
theorem keyOf?_or_starts {key : LookupKey}
    (h : (session.step event).1.cache.keyOf? ticket = some key) :
    session.cache.keyOf? ticket = some key ∨ session.Starts event ticket key := by
  rcases session.keyOf?_step event with hsame | ⟨started, _, _, _, hstart⟩
  · exact Or.inl (by rw [← hsame, h])
  · rcases Nat.lt_trichotomy ticket session.cache.lookups.length with hlt | heq | hgt
    · left
      rw [← h, hstart, SymbolCache.keyOf?, SymbolCache.keyOf?, SymbolCache.lookups_start,
        List.getElem?_append_left hlt]
    · exact Or.inr ⟨heq.symm, h⟩
    · -- no lookup has a number behind the new one
      rw [hstart, SymbolCache.keyOf?, SymbolCache.lookups_start,
        List.getElem?_eq_none (by simp; omega)] at h
      simp at h

/-- A lookup is started for the version that is open, where there is no outline and no mark. -/
theorem Starts.resolves {key : LookupKey} (h : session.Starts event ticket key) :
    session.Resolves event key ∧ session.cache.cached? key = none ∧
      session.cache.mark? key = none := by
  obtain ⟨rfl, hkeyed⟩ := h
  rcases session.keyOf?_step event with hsame | ⟨started, hresolves, hentry, hmark, hstart⟩
  · rw [hsame, SymbolCache.keyOf?_length] at hkeyed
    simp at hkeyed
  · rw [hstart, SymbolCache.keyOf?_start, Option.some.injEq] at hkeyed
    exact hkeyed ▸ ⟨hresolves, hentry, hmark⟩

/-! ## §3 Asking the provider -/

/-- The event polls an unfinished lookup for the key, and the provider gives the reply. -/
structure Consults (session : Session) (event : SessionEvent) (ticket : Nat) (key : LookupKey)
    (reply : ProviderReply) : Prop where
  awaited : session.awaited? event = some ticket
  unfinished : session.cache.outcome? ticket = none
  keyed : (session.step event).1.cache.keyOf? ticket = some key
  replied : (session.script key.document).reply = reply

namespace Consults

variable {key : LookupKey} {reply : ProviderReply} (h : session.Consults event ticket key reply)

include h

/-- The lookup goes on with the reply. -/
theorem exists_poll :
    ∃ begun, session.Waits event ticket begun ∧ begun.keyOf? ticket = some key ∧
      begun.outcome? ticket = none ∧
      (session.step event).1.cache = (begun.poll ticket reply).1 ∧
      ∀ symbols, session.Completes event symbols ↔
        (begun.poll ticket reply).2 = some symbols := by
  obtain ⟨begun, hwaits⟩ := waits_of_awaited? h.awaited
  have hkey : begun.keyOf? ticket = some key := by rw [← hwaits.keyOf?_eq, h.keyed]
  have hreply : session.replyTo (begun.keyOf? ticket) = reply := by
    rw [hkey, ← h.replied]
    rfl
  have hstep := hwaits.step_eq.1
  have hcompletes := @hwaits.completes_iff
  rw [hreply] at hstep hcompletes
  exact ⟨begun, hwaits, hkey, by rw [hwaits.outcome?_eq, h.unfinished], hstep,
    fun symbols => hcompletes⟩

/-- The caller gets what the reply makes of the lookup. -/
theorem completes_iff {symbols : List DeclarationSymbol} :
    session.Completes event symbols ↔ reply.outcome? = some symbols := by
  obtain ⟨begun, _, hkey, hrunning, _, hcompletes⟩ := h.exists_poll
  rw [hcompletes, SymbolCache.poll_outcome? hkey hrunning]

theorem outcome?_eq : (session.step event).1.cache.outcome? ticket = reply.outcome? := by
  obtain ⟨begun, _, hkey, hrunning, hstep, _⟩ := h.exists_poll
  rw [hstep, (SymbolCache.poll_isPoll _ _ _).2, SymbolCache.poll_outcome? hkey hrunning]

/-- A lookup that finishes takes no mark away but its own. -/
theorem inFlight_eq (hfinal : reply.outcome? ≠ none) :
    (session.step event).1.cache.inFlight =
      session.cache.inFlight.filter fun mark => mark != ⟨key, ticket⟩ := by
  obtain ⟨begun, hwaits, hkey, hrunning, hstep, _⟩ := h.exists_poll
  have hpoll := (begun.poll_isPoll ticket reply).1
  rw [← hstep] at hpoll
  have hbegun : begun.inFlight.filter (fun mark => mark != ⟨key, ticket⟩) =
      session.cache.inFlight.filter fun mark => mark != ⟨key, ticket⟩ := by
    cases hwaits with
    | still | joins => rfl
    | starts =>
      -- the new mark is the lookup's own
      rw [SymbolCache.keyOf?_start, Option.some.injEq] at hkey
      subst hkey
      simp [SymbolCache.start]
  rcases hpoll.marks with ⟨_, hsame⟩ | ⟨found, hfound, _, htaken⟩
  · rw [h.outcome?_eq, hrunning] at hsame
    exact absurd hsame hfinal
  · obtain rfl : key = found := Option.some.inj (hkey.symm.trans hfound)
    rw [htaken, hbegun]

end Consults

/-- Only an event that waits for a lookup can finish it, with what the provider says. -/
theorem consults_of_finishes {symbols : List DeclarationSymbol}
    (hbefore : session.cache.outcome? ticket = none)
    (hafter : (session.step event).1.cache.outcome? ticket = some symbols) :
    ∃ key reply, session.Consults event ticket key reply ∧ reply.outcome? = some symbols := by
  rcases session.rests_or_waits event with ⟨hrests, -⟩ | ⟨polled, begun, hwaits⟩
  · generalize (session.step event).1.cache = next at hrests hafter
    have hsame : next.outcome? ticket = session.cache.outcome? ticket := by cases hrests <;> rfl
    rw [hsame, hbefore] at hafter
    simp at hafter
  · have hpoll := (begun.poll_isPoll polled (session.replyTo (begun.keyOf? polled))).1
    rw [← hwaits.step_eq.1] at hpoll
    rcases hpoll.outcomes ticket with hsame | ⟨rfl, _⟩
    · rw [hsame, hwaits.outcome?_eq, hbefore] at hafter
      simp at hafter
    · obtain ⟨lookup, hlookup, _⟩ := Option.bind_eq_some_iff.mp hafter
      have hconsults : session.Consults event ticket lookup.key _ :=
        ⟨hwaits.awaited?_eq, hbefore, by rw [SymbolCache.keyOf?, hlookup, Option.map_some], rfl⟩
      exact ⟨_, _, hconsults, by rw [← hconsults.outcome?_eq, hafter]⟩

/-- An event that waits for a finished lookup completes with its outcome. -/
theorem completes_of_finished {symbols found : List DeclarationSymbol}
    (hawaits : session.awaited? event = some ticket)
    (houtcome : session.cache.outcome? ticket = some symbols) :
    session.Completes event found ↔ found = symbols := by
  obtain ⟨begun, hwaits⟩ := waits_of_awaited? hawaits
  rw [← hwaits.outcome?_eq] at houtcome
  rw [hwaits.completes_iff, SymbolCache.poll_of_finished houtcome]
  simp [eq_comm]

/-- The caller of a lookup gets its outcome, or what the provider makes of it now. -/
theorem completes_iff_of_awaited? {key : LookupKey}
    (hawaits : session.awaited? event = some ticket)
    (hkey : session.cache.keyOf? ticket = some key) {symbols : List DeclarationSymbol} :
    session.Completes event symbols ↔
      (session.cache.outcome? ticket).or (session.script key.document).reply.outcome? =
        some symbols := by
  cases houtcome : session.cache.outcome? ticket with
  | some found => simp [completes_of_finished hawaits houtcome, eq_comm]
  | none =>
    have hconsults : session.Consults event ticket key (session.script key.document).reply :=
      ⟨hawaits, houtcome, keyOf?_step_of_some hkey event, rfl⟩
    simp [hconsults.completes_iff]

/-- An event that waits for a lookup without a mark leaves the entries and the marks alone. -/
theorem step_of_unmarked {key : LookupKey} (hawaits : session.awaited? event = some ticket)
    (hkey : session.cache.keyOf? ticket = some key)
    (hmark : ⟨key, ticket⟩ ∉ session.cache.inFlight) :
    (session.step event).1.cache.entries = session.cache.entries ∧
      (session.step event).1.cache.inFlight = session.cache.inFlight := by
  obtain ⟨begun, hwaits⟩ := waits_of_awaited? hawaits
  have hbegun : begun.inFlight = session.cache.inFlight := by
    cases hwaits with
    | still | joins => rfl
    | starts =>
      rw [SymbolCache.keyOf?_length] at hkey
      simp at hkey
  have hknown := hwaits.keyOf?_of_some hkey
  rw [hwaits.step_eq.1, ← hwaits.entries_eq, ← hbegun]
  rw [← hbegun] at hmark
  constructor
  · rcases begun.entries_poll ticket (session.replyTo (begun.keyOf? ticket)) with
      hsame | ⟨document, version, value, hfound, _, _, hcurrent, _⟩
    · exact hsame
    · obtain rfl := Option.some.inj (hknown.symm.trans hfound)
      exact absurd hcurrent hmark
  · rcases (begun.poll_isPoll ticket (session.replyTo (begun.keyOf? ticket))).1.marks with
      ⟨hsame, _⟩ | ⟨found, hfound, _, htaken⟩
    · exact hsame
    · obtain rfl := Option.some.inj (hknown.symm.trans hfound)
      rw [htaken, List.filter_eq_self]
      intro mark hmem
      rw [bne_iff_ne]
      rintro rfl
      exact hmark hmem

end Session

end DeclDocs
