import DeclDocs.Cache.Session
import Mathlib.Data.List.Nodup

/-!
# What an event does to the cache

An event of a session waits for a lookup and polls it, or it rests.  It comes to wait because its
caller waits already, because its request joins a lookup or because it starts one; it rests when it
leaves the cache alone, finds an outline or invalidates.  What holds after every run is derived from
these moves.

* `SymbolCache.IsPoll`: what a poll changes.
* `Session.Waits`, `Session.Rests`: how an event comes to wait for a lookup, and what others do.
* `Session.Moves`: the moves of a session, with the provider calls they make.
* `Session.step_moves`: every event makes one of them.
* `Session.outcome?_step`: the outcome of a lookup never changes.
-/

namespace DeclDocs

/-! ## §1 Lookups -/

/-- The outline of a finished lookup. -/
def LookupPhase.outcome? : LookupPhase → Option (List DeclarationSymbol)
  | finished symbols => some symbols
  | _ => none

namespace SymbolCache

/-- The key of the lookup of that number. -/
def keyOf? (cache : SymbolCache) (ticket : Nat) : Option LookupKey :=
  cache.lookups[ticket]?.map Lookup.key

/-- The outline of the lookup of that number, if it has finished. -/
def outcome? (cache : SymbolCache) (ticket : Nat) : Option (List DeclarationSymbol) :=
  cache.lookups[ticket]?.bind fun lookup => lookup.phase.outcome?

/-- The provider calls that a poll of the lookup makes. -/
def callsOf (cache : SymbolCache) (ticket : Nat) : List DocumentId :=
  if cache.isFresh ticket then (cache.keyOf? ticket).toList.map LookupKey.document else []

theorem keyOf?_congr {cache next : SymbolCache}
    (h : next.lookups.map Lookup.key = cache.lookups.map Lookup.key) (ticket : Nat) :
    next.keyOf? ticket = cache.keyOf? ticket := by
  rw [keyOf?, keyOf?, ← List.getElem?_map, ← List.getElem?_map, h]

theorem keyOf?_length (cache : SymbolCache) : cache.keyOf? cache.lookups.length = none := by
  simp [keyOf?]

/-! ## §2 Polls -/

/-- The next cache comes from a poll of the lookup `ticket`. -/
structure IsPoll (cache : SymbolCache) (ticket : Nat) (next : SymbolCache) : Prop where
  keys : next.lookups.map Lookup.key = cache.lookups.map Lookup.key
  /-- A finished lookup keeps its outcome, and only the polled one may finish. -/
  outcomes : ∀ other, next.outcome? other = cache.outcome? other ∨
    (other = ticket ∧ cache.outcome? other = none)
  fresh : ∀ other, next.isFresh other = (cache.isFresh other && other != ticket)
  /-- A lookup that finishes takes its own mark away. -/
  marks : next.inFlight = cache.inFlight ∧ next.outcome? ticket = cache.outcome? ticket ∨
    ∃ key, cache.keyOf? ticket = some key ∧ (next.outcome? ticket).isSome = true ∧
      next.inFlight = cache.inFlight.filter fun mark => mark != ⟨key, ticket⟩
  stats : next.stats = { cache.stats with
    externalCalls := cache.stats.externalCalls + if cache.isFresh ticket then 1 else 0 }

theorem isFresh_iff {cache : SymbolCache} {ticket : Nat} :
    cache.isFresh ticket = true ↔ ∃ lookup, cache.lookups[ticket]? = some lookup ∧
      lookup.phase = .fresh := by
  unfold isFresh
  split
  case h_1 _ key hlookup => simp [hlookup]
  case h_2 _ hne =>
    simp only [Bool.false_eq_true, false_iff, not_exists, not_and]
    rintro ⟨key, phase⟩ hlookup rfl
    exact hne key hlookup

/-- A poll that finds nothing to do. -/
theorem IsPoll.refl {cache : SymbolCache} {ticket : Nat} (h : cache.isFresh ticket = false) :
    cache.IsPoll ticket cache where
  keys := rfl
  outcomes := fun _ => Or.inl rfl
  fresh := by
    intro other
    by_cases hother : other = ticket
    · simp [hother, h]
    · simp [hother]
  marks := Or.inl ⟨rfl, rfl⟩
  stats := by simp [h]

/-- A poll that takes a lookup on to another phase. -/
theorem isPoll_of_modify {cache next : SymbolCache} {ticket : Nat} {lookup : Lookup}
    (hlookup : cache.lookups[ticket]? = some lookup) (hrunning : lookup.phase.outcome? = none)
    (phase : LookupPhase) (hphase : phase ≠ .fresh)
    (hlookups : next.lookups = cache.lookups.modify ticket fun lookup => { lookup with phase })
    (hmarks : next.inFlight = cache.inFlight ∧ phase.outcome? = none ∨
      phase.outcome?.isSome = true ∧
        next.inFlight = cache.inFlight.filter fun mark => mark != ⟨lookup.key, ticket⟩)
    (hstats : next.stats = { cache.stats with
      externalCalls := cache.stats.externalCalls + if cache.isFresh ticket then 1 else 0 }) :
    cache.IsPoll ticket next ∧ next.outcome? ticket = phase.outcome? := by
  -- the polled lookup is in its new phase, and the others are as they were
  have hself : next.lookups[ticket]? = some { lookup with phase } := by
    simp [hlookups, hlookup]
  have hother : ∀ other, other ≠ ticket → next.lookups[other]? = cache.lookups[other]? := by
    intro other hne
    simp [hlookups, Ne.symm hne]
  have hbefore : cache.outcome? ticket = none := by
    rw [outcome?, hlookup, Option.bind_some, hrunning]
  have hafter : next.outcome? ticket = phase.outcome? := by
    rw [outcome?, hself, Option.bind_some]
  refine ⟨⟨?_, ?_, ?_, ?_, hstats⟩, hafter⟩
  · -- a new phase leaves the key
    rw [hlookups]
    refine List.ext_getElem? fun index => ?_
    rw [List.getElem?_map, List.getElem?_map, List.getElem?_modify]
    cases cache.lookups[index]? with
    | none => rfl
    | some other => by_cases h : ticket = index <;> simp [h]
  · intro other
    by_cases hne : other = ticket
    · exact Or.inr ⟨hne, by rw [hne, hbefore]⟩
    · exact Or.inl (by rw [outcome?, hother other hne, outcome?])
  · intro other
    rw [Bool.eq_iff_iff, Bool.and_eq_true, isFresh_iff, isFresh_iff, bne_iff_ne]
    by_cases hne : other = ticket
    · subst hne
      simp [hself, hphase]
    · rw [hother other hne]
      simp [hne]
  · rw [hafter, hbefore]
    refine hmarks.imp_right fun ⟨hfinished, htaken⟩ => ⟨lookup.key, ?_, hfinished, htaken⟩
    rw [keyOf?, hlookup, Option.map_some]

theorem countCall_eq (cache : SymbolCache) (ticket : Nat) :
    cache.countCall ticket = { cache with stats := { cache.stats with
      externalCalls := cache.stats.externalCalls + if cache.isFresh ticket then 1 else 0 } } := by
  unfold countCall
  split <;> simp [*]

/-- Finishing a lookup touches nothing but the entries, the lookup and its mark. -/
theorem finish_eq (cache : SymbolCache) (key : LookupKey) (ticket : Nat)
    (symbols : List DeclarationSymbol) :
    ∃ entries, cache.finish key ticket symbols =
      { (cache.takeMark key ticket).setPhase ticket (.finished symbols) with entries } := by
  unfold finish
  dsimp only
  split
  · split
    · exact ⟨_, rfl⟩
    · exact ⟨_, rfl⟩
  · exact ⟨_, rfl⟩

/-- What a poll does, and what it gives. -/
theorem poll_isPoll (cache : SymbolCache) (ticket : Nat) (reply : ProviderReply) :
    cache.IsPoll ticket (cache.poll ticket reply).1 ∧
      (cache.poll ticket reply).1.outcome? ticket = (cache.poll ticket reply).2 := by
  unfold poll
  split
  -- no such lookup, a finished one, or one that goes on with what the provider says
  case h_1 hnone =>
    have hfresh : cache.isFresh ticket = false := by simp [isFresh, hnone]
    exact ⟨.refl hfresh, by simp [outcome?, hnone]⟩
  case h_2 key symbols hlookup =>
    have hfresh : cache.isFresh ticket = false := by simp [isFresh, hlookup]
    exact ⟨.refl hfresh, by simp [outcome?, hlookup, LookupPhase.outcome?]⟩
  case h_3 key phase hrunning hlookup =>
    have hphase : phase.outcome? = none := by
      cases phase with
      | fresh => rfl
      | asked => rfl
      | finished symbols => exact absurd rfl (hrunning symbols)
    dsimp only
    rw [countCall_eq]
    cases reply with
    | pending =>
      exact isPoll_of_modify hlookup hphase .asked (by simp) rfl (Or.inl ⟨rfl, rfl⟩) rfl
    | answered value =>
      obtain ⟨entries, hfinish⟩ := finish_eq { cache with stats := { cache.stats with
        externalCalls := cache.stats.externalCalls + if cache.isFresh ticket then 1 else 0 } }
        key ticket (normalize value)
      dsimp only
      rw [hfinish]
      exact isPoll_of_modify hlookup hphase (.finished (normalize value)) (by simp) rfl
        (Or.inr ⟨rfl, rfl⟩) rfl
    | failed =>
      exact isPoll_of_modify hlookup hphase (.finished []) (by simp) rfl
        (Or.inr ⟨rfl, rfl⟩) rfl

private theorem IsPoll.outcome_eq {cache next : SymbolCache} {ticket other : Nat}
    (h : cache.IsPoll ticket next) {symbols : List DeclarationSymbol}
    (hfinished : cache.outcome? other = some symbols) : next.outcome? other = some symbols := by
  rcases h.outcomes other with hsame | ⟨_, hnone⟩
  · rw [hsame, hfinished]
  · simp [hfinished] at hnone

/-! ## §3 New lookups -/

section Start

variable (cache : SymbolCache) (key : LookupKey)

theorem lookups_start : (cache.start key).lookups = cache.lookups ++ [⟨key, .fresh⟩] := rfl

theorem outcome?_start (ticket : Nat) :
    (cache.start key).outcome? ticket = cache.outcome? ticket := by
  rw [outcome?, outcome?, lookups_start, List.getElem?_append]
  split
  case isTrue => rfl
  case isFalse h =>
    -- the new lookup has not finished, and behind it there is none
    rw [List.getElem?_eq_none (Nat.le_of_not_lt h)]
    cases hindex : ticket - cache.lookups.length <;> rfl

theorem isFresh_start (ticket : Nat) :
    (cache.start key).isFresh ticket =
      (cache.isFresh ticket || ticket == cache.lookups.length) := by
  rw [Bool.eq_iff_iff, Bool.or_eq_true, isFresh_iff, isFresh_iff, beq_iff_eq, lookups_start]
  rcases Nat.lt_trichotomy ticket cache.lookups.length with hlt | rfl | hgt
  · rw [List.getElem?_append_left hlt]
    simp [Nat.ne_of_lt hlt]
  · simp
  · have hnew : ¬ ticket < (cache.lookups ++ [(⟨key, .fresh⟩ : Lookup)]).length := by
      simp
      omega
    simp [List.getElem?_eq_none (Nat.le_of_not_lt hnew), List.getElem?_eq_none (Nat.le_of_lt hgt),
      Nat.ne_of_gt hgt]

theorem keyOf?_start : (cache.start key).keyOf? cache.lookups.length = some key := by
  simp [keyOf?, lookups_start]

theorem keyOf?_start_of_some {ticket : Nat} {other : LookupKey}
    (h : cache.keyOf? ticket = some other) : (cache.start key).keyOf? ticket = some other := by
  obtain ⟨lookup, hlookup, rfl⟩ := Option.map_eq_some_iff.mp h
  have hlt : ticket < cache.lookups.length := (List.getElem?_eq_some_iff.mp hlookup).1
  rw [keyOf?, lookups_start, List.getElem?_append_left hlt, hlookup, Option.map_some]

/-- The first poll of a new lookup calls the provider. -/
theorem callsOf_start : (cache.start key).callsOf cache.lookups.length = [key.document] := by
  rw [callsOf, isFresh_start, keyOf?_start]
  simp

end Start

/-- The cache with one more request counted that joined a lookup. -/
def countJoin (cache : SymbolCache) : SymbolCache :=
  { cache with stats := { cache.stats with coalesced := cache.stats.coalesced + 1 } }

@[simp] theorem lookups_countJoin (cache : SymbolCache) : cache.countJoin.lookups = cache.lookups :=
  rfl

@[simp] theorem isFresh_countJoin (cache : SymbolCache) (ticket : Nat) :
    cache.countJoin.isFresh ticket = cache.isFresh ticket := rfl

/-- The three ways in which a request is met. -/
theorem resolve_cases (cache : SymbolCache) (document : DocumentId) (version : Option Int) :
    (∃ entry, cache.cached? ⟨document, version⟩ = some entry ∧ cache.resolve document version =
      ({ cache.touch entry with stats := { cache.stats with hits := cache.stats.hits + 1 } },
        .hit entry.symbols)) ∨
    (cache.cached? ⟨document, version⟩ = none ∧
      ∃ mark, cache.mark? ⟨document, version⟩ = some mark ∧
        cache.resolve document version = (cache.countJoin, .awaits mark.ticket)) ∨
    (cache.cached? ⟨document, version⟩ = none ∧ cache.mark? ⟨document, version⟩ = none ∧
      cache.resolve document version =
        (cache.start ⟨document, version⟩, .awaits cache.lookups.length)) := by
  unfold resolve
  dsimp only
  cases hentry : cache.cached? ⟨document, version⟩ with
  | some entry => exact Or.inl ⟨entry, rfl, rfl⟩
  | none =>
    cases hmark : cache.mark? ⟨document, version⟩ with
    | some mark => exact Or.inr (Or.inl ⟨rfl, mark, rfl, rfl⟩)
    | none => exact Or.inr (Or.inr ⟨rfl, rfl, rfl⟩)

end SymbolCache

/-! ## §4 Events -/

namespace SessionEvent

/-- The document whose outline the event asks for. -/
def asks? : SessionEvent → Option DocumentId
  | request _ document => some document
  | parse document _ => some document
  | _ => none

/-- The event invalidates the lookups of the document. -/
def forgets (event : SessionEvent) (document : DocumentId) : Bool :=
  match event with
  | invalidate other => other == document
  | invalidateAll => true
  | _ => false

theorem forgets_of_asks? {event : SessionEvent} {document : DocumentId}
    (h : event.asks? = some document) (other : DocumentId) : event.forgets other = false := by
  cases event <;> simp_all [asks?, forgets]

end SessionEvent

namespace Session

/-- What a request for the document is for: the version is the one that is open now. -/
def keyFor (session : Session) (document : DocumentId) : LookupKey :=
  ⟨document, (session.script document).version⟩

/-- What the provider says now to a lookup for the key. -/
def replyTo (session : Session) (key : Option LookupKey) : ProviderReply :=
  key.elim .pending fun key => (session.script key.document).reply

/-- How an event comes to wait for a lookup: its caller waits already, or its request joins or
starts the lookup.  The lookup is polled in the cache that is given last. -/
inductive Waits (session : Session) : SessionEvent → Nat → SymbolCache → Prop where
  | still {caller ticket : Nat} (hwaits : session.waiting.lookup caller = some ticket) :
      Waits session (.poll caller) ticket session.cache
  | joins {event : SessionEvent} {document : DocumentId} {mark : InFlight}
      (hasks : event.asks? = some document)
      (hentry : session.cache.cached? (session.keyFor document) = none)
      (hmark : session.cache.mark? (session.keyFor document) = some mark) :
      Waits session event mark.ticket session.cache.countJoin
  | starts {event : SessionEvent} {document : DocumentId} (hasks : event.asks? = some document)
      (hentry : session.cache.cached? (session.keyFor document) = none)
      (hmark : session.cache.mark? (session.keyFor document) = none) :
      Waits session event session.cache.lookups.length
        (session.cache.start (session.keyFor document))

/-- What an event that waits for no lookup leaves of the cache. -/
inductive Rests (session : Session) : SessionEvent → SymbolCache → Prop where
  | quiet {event : SessionEvent} (hasks : event.asks? = none)
      (hforgets : ∀ document, event.forgets document = false) :
      Rests session event session.cache
  | hits {event : SessionEvent} {document : DocumentId} {entry : CacheEntry}
      (hasks : event.asks? = some document)
      (hentry : session.cache.cached? (session.keyFor document) = some entry) :
      Rests session event { session.cache.touch entry with
        stats := { session.cache.stats with hits := session.cache.stats.hits + 1 } }
  | forgets (document : DocumentId) :
      Rests session (.invalidate document) (session.cache.invalidate document)
  | forgetsAll : Rests session .invalidateAll session.cache.invalidateAll

/-- What an event can do to the cache, with the provider calls that it makes: it polls the lookup
that it waits for, or there is none and no call. -/
inductive Moves (session : Session) : SessionEvent → SymbolCache → List DocumentId → Prop where
  | rests {event : SessionEvent} {next : SymbolCache} (hrests : session.Rests event next) :
      Moves session event next []
  | polls {event : SessionEvent} {ticket : Nat} {begun : SymbolCache}
      (hwaits : session.Waits event ticket begun) :
      Moves session event (begun.poll ticket (session.replyTo (begun.keyOf? ticket))).1
        (begun.callsOf ticket)

variable {session : Session} {event : SessionEvent} {ticket : Nat} {begun : SymbolCache}

theorem pollLookup_eq (session : Session) (ticket : Nat) :
    session.pollLookup ticket =
      ({ session with
        cache := (session.cache.poll ticket
          (session.replyTo (session.cache.keyOf? ticket))).1 },
        (session.cache.poll ticket (session.replyTo (session.cache.keyOf? ticket))).2,
        session.cache.callsOf ticket) := by
  unfold pollLookup
  cases hlookup : session.cache.lookups[ticket]? with
  | none => simp [SymbolCache.poll, SymbolCache.callsOf, SymbolCache.isFresh, hlookup]
  | some lookup => simp [SymbolCache.callsOf, SymbolCache.keyOf?, hlookup, replyTo]

theorem ask_hit {document : DocumentId} {cache : SymbolCache} {symbols : List DeclarationSymbol}
    (h : session.cache.resolve document (session.script document).version =
      (cache, .hit symbols)) :
    session.ask document = ({ session with cache }, .ok symbols, []) := by
  rw [ask, h]

/-- A request that finds an outline makes no call. -/
theorem step_hit {document : DocumentId} {cache : SymbolCache} {symbols : List DeclarationSymbol}
    (hasks : event.asks? = some document)
    (h : session.cache.resolve document (session.script document).version =
      (cache, .hit symbols)) :
    (session.step event).1.cache = cache ∧ (session.step event).2.calls = [] := by
  cases event with
  | request caller other | parse other text =>
    obtain rfl : other = document := Option.some.inj hasks
    rw [step, ask_hit h]
    exact ⟨rfl, rfl⟩
  | _ => simp [SessionEvent.asks?] at hasks

/-- A request that waits for a lookup polls it with what the provider says now. -/
theorem ask_awaits {document : DocumentId}
    (h : session.cache.resolve document (session.script document).version =
      (begun, .awaits ticket)) :
    session.ask document =
      ({ session with
        cache := (begun.poll ticket (session.replyTo (begun.keyOf? ticket))).1 },
        (begun.poll ticket (session.replyTo (begun.keyOf? ticket))).2.elim (.error ticket) .ok,
        begun.callsOf ticket) := by
  have hpoll := pollLookup_eq { session with cache := begun } ticket
  have hreply : ∀ key, replyTo { session with cache := begun } key = session.replyTo key :=
    fun _ => rfl
  unfold ask
  rw [h]
  dsimp only at hpoll ⊢
  rw [hpoll, hreply]
  cases (begun.poll ticket (session.replyTo (begun.keyOf? ticket))).2 <;> rfl

/-- A request finds an outline or waits for a lookup. -/
theorem resolve_waits (session : Session) (event : SessionEvent) {document : DocumentId}
    (hasks : event.asks? = some document) :
    (∃ entry, session.cache.cached? (session.keyFor document) = some entry ∧
      session.cache.resolve document (session.script document).version =
        ({ session.cache.touch entry with
          stats := { session.cache.stats with hits := session.cache.stats.hits + 1 } },
          .hit entry.symbols)) ∨
    ∃ ticket begun, session.Waits event ticket begun ∧
      session.cache.resolve document (session.script document).version =
        (begun, .awaits ticket) := by
  rcases session.cache.resolve_cases document (session.script document).version with
    hhit | ⟨hentry, mark, hmark, hresolve⟩ | ⟨hentry, hmark, hresolve⟩
  · exact Or.inl hhit
  · exact Or.inr ⟨_, _, .joins hasks hentry hmark, hresolve⟩
  · exact Or.inr ⟨_, _, .starts hasks hentry hmark, hresolve⟩

namespace Waits

variable (h : session.Waits event ticket begun)

include h

theorem resolve_eq {document : DocumentId} (hasks : event.asks? = some document) :
    session.cache.resolve document (session.script document).version =
      (begun, .awaits ticket) := by
  cases h with
  | still => simp [SessionEvent.asks?] at hasks
  | joins hother hentry hmark =>
    obtain rfl := Option.some.inj (hother.symm.trans hasks)
    simp only [keyFor] at hentry hmark
    simp [SymbolCache.resolve, hentry, hmark, SymbolCache.countJoin]
  | starts hother hentry hmark =>
    obtain rfl := Option.some.inj (hother.symm.trans hasks)
    simp only [keyFor] at hentry hmark
    simp [SymbolCache.resolve, hentry, hmark, keyFor]

/-- An event that waits for a lookup asks for an outline or is the poll of a caller. -/
theorem event_cases : (∃ document, event.asks? = some document) ∨
    ∃ caller, event = .poll caller ∧ begun = session.cache ∧
      session.waiting.lookup caller = some ticket := by
  cases h with
  | still hwaits => exact Or.inr ⟨_, rfl, rfl, hwaits⟩
  | joins hasks | starts hasks => exact Or.inl ⟨_, hasks⟩

/-- The event polls the lookup. -/
theorem step_eq :
    (session.step event).1.cache =
        (begun.poll ticket (session.replyTo (begun.keyOf? ticket))).1 ∧
      (session.step event).2.calls = begun.callsOf ticket := by
  rcases h.event_cases with ⟨document, hasks⟩ | ⟨caller, rfl, rfl, hwaits⟩
  · have hask := ask_awaits (h.resolve_eq hasks)
    cases event with
    | request caller other | parse other text =>
      obtain rfl : other = document := Option.some.inj hasks
      simp only [step, hask]
      cases (begun.poll ticket (session.replyTo (begun.keyOf? ticket))).2 <;> exact ⟨rfl, rfl⟩
    | _ => simp [SessionEvent.asks?] at hasks
  · simp only [step, hwaits, session.pollLookup_eq ticket]
    cases (session.cache.poll ticket (session.replyTo (session.cache.keyOf? ticket))).2 <;>
      exact ⟨rfl, rfl⟩

theorem entries_eq : begun.entries = session.cache.entries := by
  cases h <;> rfl

theorem outcome?_eq (other : Nat) : begun.outcome? other = session.cache.outcome? other := by
  cases h with
  | still | joins => rfl
  | starts => exact SymbolCache.outcome?_start _ _ _

theorem keyOf?_of_some {other : Nat} {key : LookupKey}
    (hkey : session.cache.keyOf? other = some key) : begun.keyOf? other = some key := by
  cases h with
  | still | joins => exact hkey
  | starts => exact SymbolCache.keyOf?_start_of_some _ _ hkey

/-- The keys are those of the cache in which the lookup is polled. -/
theorem keyOf?_eq (other : Nat) :
    (session.step event).1.cache.keyOf? other = begun.keyOf? other := by
  rw [h.step_eq.1]
  exact SymbolCache.keyOf?_congr (SymbolCache.poll_isPoll _ _ _).1.keys other

theorem forgets_eq (document : DocumentId) : event.forgets document = false := by
  cases h with
  | still => rfl
  | joins hasks | starts hasks => exact SessionEvent.forgets_of_asks? hasks _

end Waits

/-- Every event waits for a lookup or rests. -/
theorem rests_or_waits (session : Session) (event : SessionEvent) :
    (session.Rests event (session.step event).1.cache ∧ (session.step event).2.calls = []) ∨
      ∃ ticket begun, session.Waits event ticket begun := by
  cases hasks : event.asks? with
  | some document =>
    rcases session.resolve_waits event hasks with
      ⟨entry, hentry, hresolve⟩ | ⟨ticket, begun, hwaits, _⟩
    · obtain ⟨hcache, hcalls⟩ := step_hit hasks hresolve
      rw [hcache]
      exact Or.inl ⟨.hits hasks hentry, hcalls⟩
    · exact Or.inr ⟨ticket, begun, hwaits⟩
  | none =>
    cases event with
    | request | parse => simp [SessionEvent.asks?] at hasks
    | poll caller =>
      cases hwaits : session.waiting.lookup caller with
      | none =>
        rw [step, hwaits]
        exact Or.inl ⟨.quiet rfl fun _ => rfl, rfl⟩
      | some ticket => exact Or.inr ⟨ticket, _, .still hwaits⟩
    | invalidate document => exact Or.inl ⟨.forgets document, rfl⟩
    | invalidateAll => exact Or.inl ⟨.forgetsAll, rfl⟩
    | setVersion | setAnswer | setFailure | setGate | setRevisions | abandon =>
      exact Or.inl ⟨.quiet rfl fun _ => rfl, rfl⟩

/-- Every event makes one of the moves. -/
theorem step_moves (session : Session) (event : SessionEvent) :
    session.Moves event (session.step event).1.cache (session.step event).2.calls := by
  rcases session.rests_or_waits event with ⟨hrests, hcalls⟩ | ⟨ticket, begun, hwaits⟩
  · rw [hcalls]
    exact .rests hrests
  · rw [hwaits.step_eq.1, hwaits.step_eq.2]
    exact .polls hwaits

/-- The outcome of a lookup never changes. -/
theorem outcome?_step {symbols : List DeclarationSymbol}
    (h : session.cache.outcome? ticket = some symbols) (event : SessionEvent) :
    (session.step event).1.cache.outcome? ticket = some symbols := by
  have hmoves := session.step_moves event
  generalize (session.step event).1.cache = next, (session.step event).2.calls = calls at hmoves
  cases hmoves with
  | rests hrests => cases hrests <;> exact h
  | polls hwaits =>
    refine (SymbolCache.poll_isPoll _ _ _).1.outcome_eq ?_
    rw [hwaits.outcome?_eq, h]

end Session

end DeclDocs
