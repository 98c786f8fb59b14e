import DeclDocs.Proofs.Cache.Provenance

/-!
# The cache is transparent

When the provider's answer is a function of the document and the open version, and it never fails,
no caller can tell from its outline whether it was kept, shared or looked up: every request completes
with the answer for the version that was open when it began, whatever happened in between.

* `Session.AnswersBy`: runs with such a provider.
* `Session.AwaitsSince`: a caller that has waited since its request.
* `Session.transparent`: what requests complete with.
-/

namespace DeclDocs

namespace Session

variable {session : Session} {answer : LookupKey → Json} {events : List SessionEvent} {ticket : Nat}

/-! ## §1 Runs with an answer for each key -/

/-- In the run the provider answers every lookup with the value for its key, if it does not stay
silent. -/
def AnswersBy (session : Session) (answer : LookupKey → Json) (events : List SessionEvent) : Prop :=
  session.Throughout (fun session event => ∀ ticket key reply,
    session.Consults event ticket key reply →
      reply = .pending ∨ reply = .answered (answer key)) events

/-- Every lookup has the outcome for its key. -/
theorem AnswersBy.outcome?_eq (h : session.AnswersBy answer events)
    (hnew : session.cache.outcome? ticket = none) {key : LookupKey}
    (hkey : (session.after events).cache.keyOf? ticket = some key)
    {symbols : List DeclarationSymbol}
    (houtcome : (session.after events).cache.outcome? ticket = some symbols) :
    symbols = normalize (answer key) := by
  obtain ⟨earlier, event, later, found, reply, rfl, hconsults, hreply⟩ :=
    exists_consults hnew houtcome
  rw [after_append_cons] at hkey
  obtain rfl := Option.some.inj ((keyOf?_after hconsults.keyed later).symm.trans hkey)
  rcases h.at_split ticket found reply hconsults with rfl | rfl
  · simp [ProviderReply.outcome?] at hreply
  · simpa [ProviderReply.outcome?, eq_comm] using hreply

/-- Every entry has the outline for its document and version. -/
theorem AnswersBy.symbols_eq (h : session.AnswersBy answer events) {entry : CacheEntry}
    (hnew : entry ∉ session.cache.entries)
    (hmem : entry ∈ (session.after events).cache.entries) :
    entry.symbols = normalize (answer entry.key) := by
  obtain ⟨ticket, earlier, event, later, rfl, ⟨⟨value, hconsults, hsymbols⟩, _⟩, _⟩ :=
    exists_produced hnew hmem
  rcases h.at_split ticket entry.key _ hconsults with hreply | hreply
  · simp at hreply
  · rw [hsymbols, ProviderReply.answered.inj hreply]

/-! ## §2 Callers that wait -/

theorem lookup_forget (session : Session) (caller other : Nat) :
    (session.forget other).waiting.lookup caller =
      if caller = other then none else session.waiting.lookup caller := by
  rw [forget]
  induction session.waiting with
  | nil => simp
  | cons waiter waiting ih =>
    obtain ⟨number, ticket⟩ := waiter
    by_cases hcaller : caller = number
    · by_cases hnumber : number = other
      · simpa [hcaller, hnumber] using ih
      · simp [hcaller, hnumber]
    · have hbeq : (caller == number) = false := by simp [hcaller]
      by_cases hnumber : number = other
      · subst hnumber
        simpa [List.lookup_cons, hbeq] using ih
      · simpa [List.lookup_cons, hbeq, hnumber] using ih

/-- The event puts an end to what the caller waits for: the caller gives up, or waits for a new
request. -/
def Replaces (session : Session) (event : SessionEvent) (caller : Nat) : Prop :=
  event = .abandon caller ∨
    ∃ document, event = .request caller document ∧ (session.step event).2.reply = .pending

/-- The caller has waited since the request that it made after `earlier`, over the events of
`later`. -/
def AwaitsSince (session : Session) (earlier : List SessionEvent) (caller : Nat)
    (document : DocumentId) (later : List SessionEvent) : Prop :=
  ((session.after earlier).step (.request caller document)).2.reply = .pending ∧
    ((session.after earlier).step (.request caller document)).1.Throughout
      (fun session event => ¬ session.Replaces event caller) later

private theorem waiting_ask (session : Session) (document : DocumentId) :
    (session.ask document).1.waiting = session.waiting := by
  rcases session.resolve_waits (.request 0 document) rfl with
    ⟨entry, _, hresolve⟩ | ⟨ticket, begun, _, hresolve⟩
  · rw [ask_hit hresolve]
  · rw [ask_awaits hresolve]

private theorem waiting_pollLookup (session : Session) (ticket : Nat) :
    (session.pollLookup ticket).1.waiting = session.waiting := by
  rw [pollLookup_eq]

/-- A caller begins to wait only by a request of its own. -/
theorem waiting_of_step {event : SessionEvent} {caller : Nat} (h : ¬ session.Replaces event caller)
    (hwaits : (session.step event).1.waiting.lookup caller = some ticket) :
    session.waiting.lookup caller = some ticket := by
  cases event with
  | request other document =>
    have hsame := session.waiting_ask document
    rcases hask : session.ask document with ⟨next, found | symbols, calls⟩
    · -- the request is left pending, so it is another caller's
      have hne : caller ≠ other := by
        rintro rfl
        exact h (Or.inr ⟨document, rfl, by simp [step, hask]⟩)
      have hbeq : (caller == other) = false := by simp [hne]
      simp only [hask] at hsame
      simpa [step, hask, List.lookup_cons, hbeq, lookup_forget, hne, hsame] using hwaits
    · simp only [hask] at hsame
      simpa [step, hask, hsame] using hwaits
  | poll other =>
    cases hother : session.waiting.lookup other with
    | none => simpa [step, hother] using hwaits
    | some polled =>
      have hsame := session.waiting_pollLookup polled
      rcases hpoll : session.pollLookup polled with ⟨next, _ | symbols, calls⟩
      · simp only [hpoll] at hsame
        simpa [step, hother, hpoll, hsame] using hwaits
      · simp only [hpoll] at hsame
        by_cases hne : caller = other
        · simp [step, hother, hpoll, lookup_forget, hne] at hwaits
        · simpa [step, hother, hpoll, lookup_forget, hne, hsame] using hwaits
  | parse document text =>
    have hsame := session.waiting_ask document
    rcases hask : session.ask document with ⟨next, found | symbols, calls⟩ <;>
      simp only [hask] at hsame <;> simpa [step, hask, hsame] using hwaits
  | abandon other =>
    have hne : caller ≠ other := fun heq => h (Or.inl (by rw [heq]))
    simpa [step, lookup_forget, hne] using hwaits
  | setVersion | setAnswer | setFailure | setGate | setRevisions | invalidate | invalidateAll =>
    exact hwaits

/-- A caller whose request is left pending waits for a lookup for the key of the request. -/
theorem key_of_pending (hmarked : session.cache.IsMarked) {caller : Nat} {document : DocumentId}
    (hpending : (session.step (.request caller document)).2.reply = .pending)
    (hwaits : (session.step (.request caller document)).1.waiting.lookup caller = some ticket) :
    (session.step (.request caller document)).1.cache.keyOf? ticket =
      some (session.keyFor document) := by
  rcases session.resolve_waits (.request caller document) rfl with
    ⟨entry, _, hresolve⟩ | ⟨found, begun, hbegun, hresolve⟩
  · simp [step, ask_hit hresolve] at hpending
  · obtain ⟨hkey, _⟩ := hbegun.request_key hmarked rfl
    have hfound : found = ticket := by
      cases hresult : (begun.poll found (session.replyTo (begun.keyOf? found))).2 with
      | none => simpa [step, ask_awaits hresolve, hresult] using hwaits
      | some symbols => simp [step, ask_awaits hresolve, hresult] at hpending
    rw [hbegun.keyOf?_eq, ← hfound, hkey]

/-- A caller that has waited since its request waits for a lookup for the key of the request. -/
theorem AwaitsSince.keyOf?_eq {earlier later : List SessionEvent} {caller : Nat}
    {document : DocumentId} (h : session.AwaitsSince earlier caller document later)
    (hmarked : (session.after earlier).cache.IsMarked)
    (hwaits : (session.after (earlier ++ .request caller document :: later)).waiting.lookup caller =
      some ticket) :
    (session.after (earlier ++ .request caller document :: later)).cache.keyOf? ticket =
      some ((session.after earlier).keyFor document) := by
  rw [after_append_cons] at hwaits ⊢
  refine Throughout.invariant (fun now => ∀ ticket, now.waiting.lookup caller = some ticket →
    now.cache.keyOf? ticket = some ((session.after earlier).keyFor document)) ?_ h.2 ?_
    ticket hwaits
  · intro now event hkeys hkept ticket hwaits
    exact keyOf?_step_of_some (hkeys ticket (waiting_of_step hkept hwaits)) event
  · intro ticket hwaits
    exact key_of_pending hmarked h.1 hwaits

/-! ## §3 What requests complete with -/

section Completion

variable {event : SessionEvent} {document : DocumentId}

/-- A request that finds an entry completes with it. -/
theorem completes_of_hit {cache : SymbolCache} {found symbols : List DeclarationSymbol}
    (hasks : event.asks? = some document)
    (hresolve : session.cache.resolve document (session.script document).version =
      (cache, .hit found)) :
    session.Completes event symbols ↔ symbols = found := by
  cases event with
  | request caller other | parse other text =>
    obtain rfl := Option.some.inj hasks
    simp [Completes, step, ask_hit hresolve, eq_comm]
  | _ => simp [SessionEvent.asks?] at hasks

/-- A caller that waits for a lookup completes unless the provider stays silent. -/
theorem exists_completes_of_awaited? {key : LookupKey}
    (hawaits : session.awaited? event = some ticket)
    (hkey : session.cache.keyOf? ticket = some key)
    (hreply : (session.script key.document).reply ≠ .pending) :
    ∃ symbols, session.Completes event symbols := by
  have hsome : (session.cache.outcome? ticket).or (session.script key.document).reply.outcome? ≠
      none := by
    rw [ne_eq, Option.or_eq_none_iff, ProviderReply.outcome?_eq_none]
    exact fun hnone => hreply hnone.2
  obtain ⟨symbols, hsymbols⟩ := Option.ne_none_iff_exists'.mp hsome
  exact ⟨symbols, (completes_iff_of_awaited? hawaits hkey).mpr hsymbols⟩

/-- A request completes at once unless the provider stays silent. -/
theorem exists_completes (hmarked : session.cache.IsMarked) (hasks : event.asks? = some document)
    (hreply : (session.script document).reply ≠ .pending) :
    ∃ symbols, session.Completes event symbols := by
  rcases session.resolve_waits event hasks with
    ⟨entry, _, hresolve⟩ | ⟨ticket, begun, hwaits, _⟩
  · exact ⟨entry.symbols, (completes_of_hit hasks hresolve).mpr rfl⟩
  · obtain ⟨hkey, hrunning⟩ := hwaits.request_key hmarked hasks
    rw [← hwaits.keyOf?_eq] at hkey
    have hconsults : session.Consults event ticket _ (session.script document).reply :=
      ⟨hwaits.awaited?_eq, hrunning, hkey, rfl⟩
    obtain ⟨symbols, hsymbols⟩ :=
      Option.ne_none_iff_exists'.mp (mt ProviderReply.outcome?_eq_none.mp hreply)
    exact ⟨symbols, hconsults.completes_iff.mpr hsymbols⟩

end Completion

section Transparent

variable {capacity : Nat} {earlier later : List SessionEvent} {event : SessionEvent}
  (h : (session.emptied capacity).AnswersBy answer (earlier ++ event :: later))

include h

/-- Whoever waits for a lookup completes with the outline for its key. -/
theorem AnswersBy.completes_eq {key : LookupKey}
    (hawaits : ((session.emptied capacity).after earlier).awaited? event = some ticket)
    (hkey : (((session.emptied capacity).after earlier).step event).1.cache.keyOf? ticket =
      some key) {symbols : List DeclarationSymbol}
    (hcompletes : ((session.emptied capacity).after earlier).Completes event symbols) :
    symbols = normalize (answer key) := by
  have houtcome := outcome?_of_completes hawaits hcompletes
  have hwhole : (session.emptied capacity).AnswersBy answer ((earlier ++ [event]) ++ later) := by
    simpa using h
  rw [← after_concat] at hkey houtcome
  exact AnswersBy.outcome?_eq hwhole.front rfl hkey houtcome

/-- A request that completes at once does so with the outline for its key. -/
theorem AnswersBy.request_eq {document : DocumentId} (hasks : event.asks? = some document)
    {symbols : List DeclarationSymbol}
    (hcompletes : ((session.emptied capacity).after earlier).Completes event symbols) :
    symbols = normalize (answer (((session.emptied capacity).after earlier).keyFor document)) := by
  rcases resolve_waits _ event hasks with ⟨entry, hentry, hresolve⟩ | ⟨ticket, begun, hwaits, _⟩
  · obtain ⟨hmem, hkey⟩ := SymbolCache.mem_of_cached? hentry
    rw [(completes_of_hit hasks hresolve).mp hcompletes, hkey]
    exact AnswersBy.symbols_eq h.front (by simp [emptied, SymbolCache.ofCapacity]) hmem
  · obtain ⟨hkey, _⟩ := hwaits.request_key (isMarked_after session capacity earlier) hasks
    rw [← hwaits.keyOf?_eq] at hkey
    exact h.completes_eq hwaits.awaited?_eq hkey hcompletes

end Transparent

/-- With a provider that answers each lookup with a value for its key and never fails: a request
that completes, at once or when its caller is polled later, gives the outline for the version that
was open when it began; and it completes as soon as the provider does not stay silent. -/
theorem transparent (session : Session) (capacity : Nat) (events : List SessionEvent)
    (answer : LookupKey → Json) (h : (session.emptied capacity).AnswersBy answer events) :
    let start := session.emptied capacity
    (∀ earlier event later document, events = earlier ++ event :: later →
      event.asks? = some document →
      let began := start.after earlier
      (∀ symbols, began.Completes event symbols →
        symbols = normalize (answer (began.keyFor document))) ∧
      ((began.script document).reply ≠ .pending → ∃ symbols, began.Completes event symbols)) ∧
    (∀ earlier caller document middle later,
      events = earlier ++ .request caller document :: (middle ++ .poll caller :: later) →
      start.AwaitsSince earlier caller document middle →
      let began := start.after earlier
      let now := start.after (earlier ++ .request caller document :: middle)
      (∀ symbols, now.Completes (.poll caller) symbols →
        symbols = normalize (answer (began.keyFor document))) ∧
      ((now.waiting.lookup caller).isSome = true → (now.script document).reply ≠ .pending →
        ∃ symbols, now.Completes (.poll caller) symbols)) := by
  intro start
  refine ⟨?_, ?_⟩
  · rintro earlier event later document rfl hasks began
    exact ⟨fun symbols hcompletes => h.request_eq hasks hcompletes,
      exists_completes (isMarked_after session capacity earlier) hasks⟩
  · rintro earlier caller document middle later rfl hsince began now
    have hmarked : began.cache.IsMarked := isMarked_after session capacity earlier
    have hkey : ∀ ticket, now.waiting.lookup caller = some ticket →
        now.cache.keyOf? ticket = some (began.keyFor document) :=
      fun ticket hwaits => hsince.keyOf?_eq hmarked hwaits
    refine ⟨fun symbols hcompletes => ?_, fun hwaits hreply => ?_⟩
    · cases hwaits : now.waiting.lookup caller with
      | none => simp [Completes, step, hwaits] at hcompletes
      | some ticket =>
        have hwhole : start.AnswersBy answer
            ((earlier ++ .request caller document :: middle) ++ .poll caller :: later) := by
          simpa using h
        exact hwhole.completes_eq hwaits (keyOf?_step_of_some (hkey ticket hwaits) _) hcompletes
    · obtain ⟨ticket, hticket⟩ := Option.isSome_iff_exists.mp hwaits
      exact exists_completes_of_awaited? hticket (hkey ticket hticket) hreply

/-- A caller that began when version 1 was open gets the outline of version 1, though version 2 is
open when the provider answers. -/
theorem transparent_new_version :
    let document : DocumentId := ⟨"A".toList⟩
    let place : Json := .obj [("line".toList, .int 1), ("character".toList, .int 0)]
    let range : Json := .obj [("start".toList, place), ("end".toList, place)]
    let outline : Json := .arr [.obj [("name".toList, .str "f".toList), ("kind".toList, .int 6),
      ("location".toList, .obj [("range".toList, range)])]]
    let answer : LookupKey → Json := fun key => if key.version = some 1 then outline else .null
    let session : Session := { cache := .ofCapacity 1, documents :=
      [(document, { version := some 1, answer := outline, gateClosed := true })] }
    let middle := [.setVersion document (some 2), .setGate document false]
    let now := (session.emptied 1).after (.request 1 document :: middle)
    (session.emptied 1).AnswersBy answer (.request 1 document :: (middle ++ [.poll 1])) ∧
      (session.emptied 1).AwaitsSince [] 1 document middle ∧
      (normalize outline).length = 1 ∧ now.Completes (.poll 1) (normalize outline) := by
  intro document place range outline answer session middle now
  have hanswers :
      (session.emptied 1).AnswersBy answer (.request 1 document :: (middle ++ [.poll 1])) := by
    refine ⟨?_, ?_, ?_, ?_, trivial⟩
    · intro ticket key reply hconsults
      have hticket : some 0 = some ticket := hconsults.awaited
      obtain rfl := Option.some.inj hticket
      have hkey : some (session.keyFor document) = some key := hconsults.keyed
      obtain rfl := Option.some.inj hkey
      exact Or.inl hconsults.replied.symm
    · intro ticket key reply hconsults
      cases hconsults.awaited
    · intro ticket key reply hconsults
      cases hconsults.awaited
    · intro ticket key reply hconsults
      have hticket : some 0 = some ticket := hconsults.awaited
      obtain rfl := Option.some.inj hticket
      have hkey : some (session.keyFor document) = some key := hconsults.keyed
      obtain rfl := Option.some.inj hkey
      exact Or.inr hconsults.replied.symm
  have hsince : (session.emptied 1).AwaitsSince [] 1 document middle :=
    ⟨rfl, by simp [Replaces], by simp [Replaces], trivial⟩
  refine ⟨hanswers, hsince, rfl, ?_⟩
  have hpoll := (transparent session 1 _ answer hanswers).2 [] 1 document middle [] rfl hsince
  obtain ⟨symbols, hcompletes⟩ := hpoll.2 rfl fun hsilent => by cases hsilent
  rw [hpoll.1 symbols hcompletes] at hcompletes
  exact hcompletes

end Session

end DeclDocs
