import DeclDocs.Proofs.Cache.Moves
import Mathlib.Data.List.Induction

/-!
# Requests that share a lookup

A lookup is live from its start until it finishes or is invalidated.  The cache has a mark for
exactly the live lookups, whatever callers do in between, and from this follows when the provider is
called: once for each new lookup, and never for a request that finds an outline or a live lookup.

* `Session.after`, `Session.IsLive`: runs, and the lookups that are live after a run.
* `Session.mem_inFlight_iff`: the marks are those of the live lookups.
* `Session.calls_run`: the provider is called once for each lookup.
* `Session.coalescing`: how requests are met after every run.
-/

namespace DeclDocs

namespace SymbolCache

/-! ## §1 Marks -/

/-- At most one mark stands for each key, and every mark belongs to an unfinished lookup for its
key. -/
structure IsMarked (cache : SymbolCache) : Prop where
  distinct : (cache.inFlight.map InFlight.key).Nodup
  marked : ∀ mark ∈ cache.inFlight,
    cache.keyOf? mark.ticket = some mark.key ∧ cache.outcome? mark.ticket = none

namespace IsMarked

variable {cache next : SymbolCache} {ticket : Nat}

/-- A poll keeps the marks of the lookups that it leaves unfinished. -/
theorem mem_poll (h : cache.IsMarked) (hpoll : cache.IsPoll ticket next) {mark : InFlight} :
    mark ∈ next.inFlight ↔ mark ∈ cache.inFlight ∧ next.outcome? mark.ticket = none := by
  have hother : mark.ticket ≠ ticket → next.outcome? mark.ticket = cache.outcome? mark.ticket :=
    fun hne => (hpoll.outcomes mark.ticket).resolve_right fun ⟨heq, _⟩ => hne heq
  rcases hpoll.marks with ⟨hsame, hrunning⟩ | ⟨key, hkey, hfinished, htaken⟩
  · -- nothing finishes
    have houtcome : next.outcome? mark.ticket = cache.outcome? mark.ticket := by
      by_cases hne : mark.ticket = ticket
      · rw [hne, hrunning]
      · exact hother hne
    rw [hsame, houtcome]
    exact ⟨fun hmem => ⟨hmem, (h.marked mark hmem).2⟩, And.left⟩
  · -- the polled lookup finishes, and exactly its mark goes
    rw [htaken, List.mem_filter, bne_iff_ne]
    refine and_congr_right fun hmem => ⟨fun hne => ?_, fun houtcome heq => ?_⟩
    · have hticket : mark.ticket ≠ ticket := by
        -- the lookup of the mark has the key of the mark
        rintro rfl
        have hmark := (h.marked mark hmem).1
        rw [hkey, Option.some.injEq] at hmark
        exact hne (by rw [hmark])
      rw [hother hticket]
      exact (h.marked mark hmem).2
    · have hticket : mark.ticket = ticket := by rw [heq]
      rw [hticket] at houtcome
      simp [houtcome] at hfinished

theorem poll (h : cache.IsMarked) (hpoll : cache.IsPoll ticket next) : next.IsMarked where
  distinct := by
    have hsub : List.Sublist next.inFlight cache.inFlight := by
      rcases hpoll.marks with ⟨hsame, _⟩ | ⟨key, _, _, htaken⟩
      · rw [hsame]
      · rw [htaken]
        exact List.filter_sublist
    exact h.distinct.sublist (hsub.map InFlight.key)
  marked := by
    intro mark hmem
    obtain ⟨hbefore, houtcome⟩ := (h.mem_poll hpoll).mp hmem
    rw [keyOf?_congr hpoll.keys]
    exact ⟨(h.marked mark hbefore).1, houtcome⟩

/-- The mark for a key is the one that stands for it. -/
theorem mark?_eq_some (h : cache.IsMarked) {mark : InFlight} (hmem : mark ∈ cache.inFlight) :
    cache.mark? mark.key = some mark := by
  have hfound : (cache.mark? mark.key).isSome = true :=
    List.find?_isSome.mpr ⟨mark, hmem, by simp⟩
  obtain ⟨found, hsome⟩ := Option.isSome_iff_exists.mp hfound
  have hkey : found.key = mark.key := by simpa using List.find?_some hsome
  rw [hsome, List.inj_on_of_nodup_map h.distinct (List.mem_of_find?_eq_some hsome) hmem hkey]

theorem start (h : cache.IsMarked) {key : LookupKey} (hnone : cache.mark? key = none) :
    (cache.start key).IsMarked where
  distinct := by
    -- a lookup starts only where there is no mark for its key
    have hkey : key ∉ cache.inFlight.map InFlight.key := by
      intro hmem
      obtain ⟨mark, hmark, rfl⟩ := List.mem_map.mp hmem
      rw [h.mark?_eq_some hmark] at hnone
      exact absurd hnone (by simp)
    change ((cache.inFlight ++ [(⟨key, cache.lookups.length⟩ : InFlight)]).map InFlight.key).Nodup
    rw [List.map_append, List.map_singleton, List.nodup_append_comm, List.singleton_append,
      List.nodup_cons]
    exact ⟨hkey, h.distinct⟩
  marked := by
    intro mark hmem
    rw [outcome?_start]
    rcases List.mem_append.mp hmem with hold | hnew
    · obtain ⟨hkey, houtcome⟩ := h.marked mark hold
      exact ⟨keyOf?_start_of_some cache key hkey, houtcome⟩
    · rw [List.mem_singleton.mp hnew]
      exact ⟨keyOf?_start cache key, by simp [outcome?]⟩

end IsMarked

end SymbolCache

/-! ## §2 One event -/

namespace Session

variable {session : Session}

private theorem Waits.isMarked {event : SessionEvent} {ticket : Nat} {begun : SymbolCache}
    (hwaits : session.Waits event ticket begun) (h : session.cache.IsMarked) : begun.IsMarked := by
  cases hwaits with
  | still => exact h
  | joins => exact ⟨h.distinct, h.marked⟩
  | starts _ _ hmark => exact h.start hmark

/-- Marks stay distinct and belong to unfinished lookups. -/
theorem isMarked_step (h : session.cache.IsMarked) (event : SessionEvent) :
    (session.step event).1.cache.IsMarked := by
  have hmoves := session.step_moves event
  generalize (session.step event).1.cache = next, (session.step event).2.calls = calls at hmoves
  cases hmoves with
  | rests hrests =>
    cases hrests with
    | quiet | hits => exact ⟨h.distinct, h.marked⟩
    | forgets document =>
      exact ⟨h.distinct.sublist (List.filter_sublist.map InFlight.key),
        fun mark hmem => h.marked mark (List.mem_of_mem_filter hmem)⟩
    | forgetsAll => exact ⟨List.nodup_nil, by simp [SymbolCache.invalidateAll]⟩
  | polls hwaits => exact (hwaits.isMarked h).poll (SymbolCache.poll_isPoll _ _ _).1

/-- Every lookup has entered the provider once the event that started it is over. -/
theorem isFresh_step (h : ∀ ticket, session.cache.isFresh ticket = false) (event : SessionEvent)
    (ticket : Nat) : (session.step event).1.cache.isFresh ticket = false := by
  have hmoves := session.step_moves event
  generalize (session.step event).1.cache = next, (session.step event).2.calls = calls at hmoves
  cases hmoves with
  | rests hrests => cases hrests <;> exact h ticket
  | polls hwaits =>
    rw [(SymbolCache.poll_isPoll _ _ _).1.fresh]
    cases hwaits with
    | still => rw [h ticket, Bool.false_and]
    | joins => rw [SymbolCache.isFresh_countJoin, h ticket, Bool.false_and]
    | starts =>
      -- only the new lookup was fresh, and it is polled
      rw [SymbolCache.isFresh_start, h ticket, Bool.false_or, Bool.and_eq_false_iff]
      by_cases hnew : ticket = session.cache.lookups.length
      · exact Or.inr (by simp [hnew])
      · exact Or.inl (by simp [hnew])

/-- Where a lookup is polled, the marks are those that were there and that of a new lookup. -/
theorem Waits.mem_inFlight_iff {event : SessionEvent} {ticket : Nat} {begun : SymbolCache}
    (hwaits : session.Waits event ticket begun) {mark : InFlight} :
    mark ∈ begun.inFlight ↔ mark ∈ session.cache.inFlight ∨
      (session.cache.lookups.length = mark.ticket ∧ begun.keyOf? mark.ticket = some mark.key) := by
  cases hwaits with
  | still | joins =>
    refine (or_iff_left ?_).symm
    rintro ⟨hticket, hkey⟩
    have hnone := SymbolCache.keyOf?_length session.cache
    rw [hticket] at hnone
    exact Option.some_ne_none _ (hkey.symm.trans hnone)
  | @starts _ document =>
    change mark ∈ session.cache.inFlight ++ [⟨session.keyFor document, _⟩] ↔ _
    rw [List.mem_append, List.mem_singleton]
    -- the new mark is the one for the number and the key of the new lookup
    refine or_congr_right ⟨?_, ?_⟩
    · rintro rfl
      exact ⟨rfl, SymbolCache.keyOf?_start _ _⟩
    · rintro ⟨hticket, hsome⟩
      rw [← hticket, SymbolCache.keyOf?_start, Option.some.injEq] at hsome
      rw [hsome, hticket]

/-- Where no lookup starts, the marks are those that were there and are still called for. -/
theorem mem_inFlight_of_not_started {event : SessionEvent} {next : SymbolCache} {mark : InFlight}
    (hkey : next.keyOf? session.cache.lookups.length = none)
    (h : mark ∈ next.inFlight ↔ (mark ∈ session.cache.inFlight ∧
      event.forgets mark.key.document = false) ∧ next.outcome? mark.ticket = none) :
    mark ∈ next.inFlight ↔
      ((mark ∈ session.cache.inFlight ∧ event.forgets mark.key.document = false) ∨
        (session.cache.lookups.length = mark.ticket ∧ next.keyOf? mark.ticket = some mark.key)) ∧
      next.outcome? mark.ticket = none := by
  have hstarted : ¬(session.cache.lookups.length = mark.ticket ∧
      next.keyOf? mark.ticket = some mark.key) := by
    rintro ⟨hticket, hsome⟩
    rw [← hticket, hkey] at hsome
    simp at hsome
  rw [h, or_iff_left hstarted]

/-- A mark is kept while its lookup is neither invalidated nor finished, and a lookup that an event
starts has one unless it finishes at once. -/
theorem mem_inFlight_step (h : session.cache.IsMarked) (event : SessionEvent) {mark : InFlight} :
    mark ∈ (session.step event).1.cache.inFlight ↔
      ((mark ∈ session.cache.inFlight ∧ event.forgets mark.key.document = false) ∨
        (session.cache.lookups.length = mark.ticket ∧
          (session.step event).1.cache.keyOf? mark.ticket = some mark.key)) ∧
      (session.step event).1.cache.outcome? mark.ticket = none := by
  have hunfinished : mark ∈ session.cache.inFlight → session.cache.outcome? mark.ticket = none :=
    fun hmem => (h.marked mark hmem).2
  have hmoves := session.step_moves event
  generalize (session.step event).1.cache = next, (session.step event).2.calls = calls at hmoves
  cases hmoves with
  | rests hrests =>
    refine mem_inFlight_of_not_started ?_ ?_
    · cases hrests <;> exact SymbolCache.keyOf?_length session.cache
    cases hrests with
    | quiet _ hforgets => simpa [hforgets] using hunfinished
    | hits hasks =>
      rw [SessionEvent.forgets_of_asks? hasks]
      exact ⟨fun hmem => ⟨⟨hmem, rfl⟩, hunfinished hmem⟩, fun hmem => hmem.1.1⟩
    | forgets document =>
      change mark ∈ session.cache.inFlight.filter _ ↔ _
      rw [List.mem_filter, bne_iff_ne, SessionEvent.forgets, beq_eq_false_iff_ne, ne_comm]
      exact ⟨fun hmem => ⟨hmem, hunfinished hmem.1⟩, And.left⟩
    | forgetsAll => simp [SymbolCache.invalidateAll, SessionEvent.forgets]
  | @polls ticket begun hwaits =>
    have hpoll := (begun.poll_isPoll ticket (session.replyTo (begun.keyOf? ticket))).1
    rw [(hwaits.isMarked h).mem_poll hpoll, SymbolCache.keyOf?_congr hpoll.keys,
      hwaits.forgets_eq, and_iff_left rfl]
    exact and_congr_left fun _ => hwaits.mem_inFlight_iff

/-- How an event is counted, and the provider calls that it makes: a request is a hit, a join or a
miss, and only a miss calls the provider, once. -/
inductive Counted (event : SessionEvent) (before : CacheStats) :
    CacheStats → List DocumentId → Prop where
  | other (hasks : event.asks? = none) : Counted event before before []
  | hit {document : DocumentId} (hasks : event.asks? = some document) :
      Counted event before { before with hits := before.hits + 1 } []
  | join {document : DocumentId} (hasks : event.asks? = some document) :
      Counted event before { before with coalesced := before.coalesced + 1 } []
  | miss {document : DocumentId} (hasks : event.asks? = some document) :
      Counted event before { before with
        misses := before.misses + 1, externalCalls := before.externalCalls + 1 } [document]

private theorem callsOf_of_asked {cache : SymbolCache} (h : ∀ ticket, cache.isFresh ticket = false)
    (ticket : Nat) : cache.callsOf ticket = [] := by
  rw [SymbolCache.callsOf, h ticket]
  rfl

/-- A poll of a lookup that has entered the provider is not counted. -/
theorem stats_poll_of_asked {cache : SymbolCache} (h : ∀ ticket, cache.isFresh ticket = false)
    (ticket : Nat) (reply : ProviderReply) : (cache.poll ticket reply).1.stats = cache.stats := by
  rw [(cache.poll_isPoll ticket reply).1.stats, h ticket]
  rfl

theorem counted_step (h : ∀ ticket, session.cache.isFresh ticket = false) (event : SessionEvent) :
    Counted event session.cache.stats (session.step event).1.cache.stats
      (session.step event).2.calls := by
  have hmoves := session.step_moves event
  generalize (session.step event).1.cache = next, (session.step event).2.calls = calls at hmoves
  cases hmoves with
  | rests hrests =>
    cases hrests with
    | quiet hasks => exact .other hasks
    | hits hasks => exact .hit hasks
    | forgets | forgetsAll => exact .other rfl
  | polls hwaits =>
    cases hwaits with
    | still =>
      rw [stats_poll_of_asked h, callsOf_of_asked h]
      exact .other rfl
    | joins hasks =>
      have hjoined : ∀ ticket, session.cache.countJoin.isFresh ticket = false := h
      rw [stats_poll_of_asked hjoined, callsOf_of_asked hjoined]
      exact .join hasks
    | @starts _ document hasks =>
      have hfresh := session.cache.isFresh_start (session.keyFor document)
        session.cache.lookups.length
      rw [beq_self_eq_true, Bool.or_true] at hfresh
      rw [(SymbolCache.poll_isPoll _ _ _).1.stats, hfresh, SymbolCache.callsOf_start]
      exact .miss hasks

/-- Each provider call is the start of a lookup. -/
theorem keys_step (h : ∀ ticket, session.cache.isFresh ticket = false) (event : SessionEvent) :
    (session.step event).1.cache.lookups.map (·.key.document) =
      session.cache.lookups.map (·.key.document) ++ (session.step event).2.calls := by
  have hpoll : ∀ (cache : SymbolCache) (ticket : Nat) (reply : ProviderReply),
      (cache.poll ticket reply).1.lookups.map (·.key.document) =
        cache.lookups.map (·.key.document) := by
    intro cache ticket reply
    have hkeys := congrArg (List.map LookupKey.document) (cache.poll_isPoll ticket reply).1.keys
    rw [List.map_map, List.map_map] at hkeys
    exact hkeys
  have hmoves := session.step_moves event
  generalize (session.step event).1.cache = next, (session.step event).2.calls = calls at hmoves
  cases hmoves with
  | rests hrests => cases hrests <;> exact (List.append_nil _).symm
  | polls hwaits =>
    rw [hpoll]
    cases hwaits with
    | still => rw [callsOf_of_asked h, List.append_nil]
    | joins => rw [callsOf_of_asked (by exact h), List.append_nil, SymbolCache.lookups_countJoin]
    | starts =>
      rw [SymbolCache.callsOf_start, SymbolCache.lookups_start, List.map_append]
      rfl

/-! ## §3 Runs -/

/-- The session after a sequence of events. -/
def after (session : Session) (events : List SessionEvent) : Session :=
  events.foldl (fun session event => (session.step event).1) session

theorem after_concat (session : Session) (events : List SessionEvent) (event : SessionEvent) :
    session.after (events ++ [event]) = ((session.after events).step event).1 := by
  simp [after]

theorem run_concat (session : Session) (events : List SessionEvent) (event : SessionEvent) :
    session.run (events ++ [event]) =
      session.run events ++ [(session.after events).step event] := by
  induction events generalizing session with
  | nil => rfl
  | cons first events ih =>
    rw [List.cons_append, run, run, ih]
    rfl

/-- The session with an empty cache and without callers. -/
def emptied (session : Session) (capacity : Nat) : Session :=
  { session with cache := .ofCapacity capacity, waiting := [] }

/-- The lookup is live after the events: one of them started it for the key, no later one
invalidated it, and it has not finished. -/
structure IsLive (session : Session) (events : List SessionEvent) (key : LookupKey)
    (ticket : Nat) : Prop where
  started : ∃ earlier event later, events = earlier ++ event :: later ∧
    (session.after earlier).cache.lookups.length = ticket ∧
    ((session.after earlier).step event).1.cache.keyOf? ticket = some key ∧
    ∀ other ∈ later, other.forgets key.document = false
  unfinished : (session.after events).cache.outcome? ticket = none

private theorem isLive_concat {events : List SessionEvent} {event : SessionEvent} {key : LookupKey}
    {ticket : Nat} :
    session.IsLive (events ++ [event]) key ticket ↔
      ((session.IsLive events key ticket ∧ event.forgets key.document = false) ∨
        ((session.after events).cache.lookups.length = ticket ∧
          ((session.after events).step event).1.cache.keyOf? ticket = some key)) ∧
      ((session.after events).step event).1.cache.outcome? ticket = none := by
  constructor
  · rintro ⟨⟨earlier, first, later, hevents, hlength, hkey, hlater⟩, hunfinished⟩
    rw [after_concat] at hunfinished
    refine ⟨?_, hunfinished⟩
    rcases List.eq_nil_or_concat' later with rfl | ⟨middle, last, rfl⟩
    · -- the last event started the lookup
      obtain ⟨rfl, hfirst⟩ := List.append_inj' hevents rfl
      cases hfirst
      exact Or.inr ⟨hlength, hkey⟩
    · have hsplit : events ++ [event] = (earlier ++ first :: middle) ++ [last] := by
        rw [hevents]
        simp
      obtain ⟨rfl, hlast⟩ := List.append_inj' hsplit rfl
      cases hlast
      refine Or.inl ⟨⟨⟨earlier, first, middle, rfl, hlength, hkey, fun other hmem =>
        hlater other (List.mem_append_left _ hmem)⟩, ?_⟩, hlater event (by simp)⟩
      -- an outcome before the last event would have stayed
      cases houtcome : (session.after (earlier ++ first :: middle)).cache.outcome? ticket with
      | none => rfl
      | some symbols =>
        rw [outcome?_step houtcome] at hunfinished
        simp at hunfinished
  · rintro ⟨⟨⟨⟨earlier, first, later, rfl, hlength, hkey, hlater⟩, _⟩, hforgets⟩ | ⟨hlength, hkey⟩,
      hunfinished⟩
    · refine ⟨⟨earlier, first, later ++ [event], by simp, hlength, hkey, ?_⟩, ?_⟩
      · intro other hmem
        rcases List.mem_append.mp hmem with h | h
        · exact hlater other h
        · rw [List.mem_singleton.mp h]
          exact hforgets
      · rw [after_concat]
        exact hunfinished
    · refine ⟨⟨events, event, [], rfl, hlength, hkey, by simp⟩, ?_⟩
      rw [after_concat]
      exact hunfinished

section Runs

variable (session : Session) (capacity : Nat) (events : List SessionEvent)

theorem isMarked_after : ((session.emptied capacity).after events).cache.IsMarked := by
  induction events using List.reverseRecOn with
  | nil => exact ⟨List.nodup_nil, by simp [after, emptied, SymbolCache.ofCapacity]⟩
  | append_singleton events event ih =>
    rw [after_concat]
    exact isMarked_step ih event

theorem isFresh_after (ticket : Nat) :
    ((session.emptied capacity).after events).cache.isFresh ticket = false := by
  induction events using List.reverseRecOn generalizing ticket with
  | nil => rfl
  | append_singleton events event ih =>
    rw [after_concat]
    exact isFresh_step ih event ticket

/-- **The marks are those of the live lookups.** -/
theorem mem_inFlight_iff {key : LookupKey} {ticket : Nat} :
    ⟨key, ticket⟩ ∈ ((session.emptied capacity).after events).cache.inFlight ↔
      (session.emptied capacity).IsLive events key ticket := by
  induction events using List.reverseRecOn with
  | nil =>
    constructor
    · intro hmem
      simp [after, emptied, SymbolCache.ofCapacity] at hmem
    · rintro ⟨⟨earlier, event, later, hnil, _⟩, _⟩
      simp at hnil
  | append_singleton events event ih =>
    -- an event does to the marks what it does to the live lookups
    rw [isLive_concat, ← ih, after_concat,
      mem_inFlight_step (isMarked_after session capacity events) event]

/-- **The provider is called once for each lookup, in the order in which they are started.** -/
theorem calls_run :
    ((session.emptied capacity).run events).flatMap (·.2.calls) =
      ((session.emptied capacity).after events).cache.lookups.map (·.key.document) := by
  induction events using List.reverseRecOn with
  | nil => rfl
  | append_singleton events event ih =>
    rw [run_concat, List.flatMap_append, ih, after_concat,
      keys_step (isFresh_after session capacity events) event]
    simp

/-- Every request is counted once, and every miss is a provider call. -/
theorem stats_after :
    let stats := ((session.emptied capacity).after events).cache.stats
    stats.hits + stats.misses + stats.coalesced =
        events.countP (fun event => event.asks?.isSome) ∧
      stats.misses = (((session.emptied capacity).run events).flatMap (·.2.calls)).length ∧
      stats.externalCalls = stats.misses := by
  induction events using List.reverseRecOn with
  | nil => exact ⟨rfl, rfl, rfl⟩
  | append_singleton events event ih =>
    obtain ⟨hsum, hmisses, hexternal⟩ := ih
    have hcounted := counted_step (isFresh_after session capacity events) event
    rw [after_concat, run_concat, List.flatMap_append, List.length_append, List.countP_append,
      ← hsum, ← hmisses, List.flatMap_singleton]
    generalize (((session.emptied capacity).after events).step event).1.cache.stats = next,
      (((session.emptied capacity).after events).step event).2.calls = calls at hcounted ⊢
    cases hcounted with
    | other hasks =>
      have hnone : [event].countP (fun event => event.asks?.isSome) = 0 := by simp [hasks]
      rw [hnone]
      exact ⟨rfl, rfl, hexternal⟩
    | hit hasks | join hasks | miss hasks =>
      have hone : [event].countP (fun event => event.asks?.isSome) = 1 := by simp [hasks]
      rw [hone]
      dsimp only [List.length_nil, List.length_singleton]
      exact ⟨by omega, by omega, by omega⟩

end Runs

/-! ## §4 Callers -/

/-- The lookup that the event waits for. -/
def awaited? (session : Session) : SessionEvent → Option Nat
  | .request _ document | .parse document _ =>
    match (session.cache.resolve document (session.script document).version).2 with
    | .hit _ => none
    | .awaits ticket => some ticket
  | .poll caller => session.waiting.lookup caller
  | _ => none

/-- The event completes a request with the outline; a model is built from it. -/
def Completes (session : Session) (event : SessionEvent) (symbols : List DeclarationSymbol) :
    Prop :=
  match event with
  | .parse document _ => (session.ask document).2.1 = .ok symbols
  | _ => (session.step event).2.reply = .ready symbols

namespace Waits

variable {event : SessionEvent} {ticket : Nat} {begun : SymbolCache}
  (h : session.Waits event ticket begun)

include h

theorem awaited?_eq : session.awaited? event = some ticket := by
  rcases h.event_cases with ⟨document, hasks⟩ | ⟨caller, rfl, -, hwaits⟩
  · cases event with
    | request caller other | parse other text =>
      obtain rfl : other = document := Option.some.inj hasks
      simp [awaited?, h.resolve_eq rfl]
    | _ => simp [SessionEvent.asks?] at hasks
  · exact hwaits

/-- The event completes with what the poll of the lookup gives. -/
theorem completes_iff {symbols : List DeclarationSymbol} :
    session.Completes event symbols ↔
      (begun.poll ticket (session.replyTo (begun.keyOf? ticket))).2 = some symbols := by
  rcases h.event_cases with ⟨document, hasks⟩ | ⟨caller, rfl, rfl, hwaits⟩
  · have hask := ask_awaits (h.resolve_eq hasks)
    cases event with
    | request caller other | parse other text =>
      obtain rfl : other = document := Option.some.inj hasks
      unfold Completes
      simp only [step, hask]
      cases (begun.poll ticket (session.replyTo (begun.keyOf? ticket))).2 <;> simp
    | _ => simp [SessionEvent.asks?] at hasks
  · unfold Completes
    simp only [step, hwaits, session.pollLookup_eq ticket]
    cases (session.cache.poll ticket (session.replyTo (session.cache.keyOf? ticket))).2 <;> simp

end Waits

/-- A request that finds an outline waits for no lookup. -/
private theorem awaited?_hit {event : SessionEvent} {document : DocumentId} {cache : SymbolCache}
    {symbols : List DeclarationSymbol} (hasks : event.asks? = some document)
    (h : session.cache.resolve document (session.script document).version =
      (cache, .hit symbols)) : session.awaited? event = none := by
  cases event with
  | request caller other | parse other text =>
    obtain rfl : other = document := Option.some.inj hasks
    simp [awaited?, h]
  | _ => simp [SessionEvent.asks?] at hasks

theorem waits_of_awaited? {event : SessionEvent} {ticket : Nat}
    (h : session.awaited? event = some ticket) :
    ∃ begun, session.Waits event ticket begun := by
  cases hasks : event.asks? with
  | some document =>
    rcases session.resolve_waits event hasks with
      ⟨entry, _, hresolve⟩ | ⟨found, begun, hwaits, _⟩
    · rw [awaited?_hit hasks hresolve] at h
      cases h
    · obtain rfl : found = ticket := Option.some.inj (hwaits.awaited?_eq.symm.trans h)
      exact ⟨begun, hwaits⟩
  | none =>
    cases event with
    | poll caller => exact ⟨_, .still h⟩
    | request | parse => simp [SessionEvent.asks?] at hasks
    | _ => simp [awaited?] at h

/-- A request that a lookup completes gets the outcome of the lookup. -/
theorem outcome?_of_completes {event : SessionEvent} {ticket : Nat}
    {symbols : List DeclarationSymbol} (hawaits : session.awaited? event = some ticket)
    (hcompletes : session.Completes event symbols) :
    (session.step event).1.cache.outcome? ticket = some symbols := by
  obtain ⟨begun, hwaits⟩ := waits_of_awaited? hawaits
  rw [hwaits.step_eq.1, (SymbolCache.poll_isPoll _ _ _).2]
  exact hwaits.completes_iff.mp hcompletes

theorem outcome?_after {ticket : Nat} {symbols : List DeclarationSymbol}
    (h : session.cache.outcome? ticket = some symbols) (events : List SessionEvent) :
    (session.after events).cache.outcome? ticket = some symbols := by
  induction events using List.reverseRecOn with
  | nil => exact h
  | append_singleton events event ih =>
    rw [after_concat]
    exact outcome?_step ih event

/-- **Requests that share a lookup get the same outline**, whatever happens in between. -/
theorem completes_eq {first second : SessionEvent} {events : List SessionEvent} {ticket : Nat}
    {found other : List DeclarationSymbol} (hfirst : session.awaited? first = some ticket)
    (hfound : session.Completes first found)
    (hsecond : ((session.step first).1.after events).awaited? second = some ticket)
    (hother : ((session.step first).1.after events).Completes second other) : found = other := by
  -- the outcome that the first one got is there when the second one completes
  have hbefore := outcome?_after (outcome?_of_completes hfirst hfound) events
  have hkept := outcome?_step hbefore second
  rw [outcome?_of_completes hsecond hother] at hkept
  exact (Option.some.inj hkept).symm

private theorem calls_of_mark (h : ∀ ticket, session.cache.isFresh ticket = false)
    {event : SessionEvent} {document : DocumentId} {mark : InFlight}
    (hasks : event.asks? = some document)
    (hmark : session.cache.mark? (session.keyFor document) = some mark) :
    (session.step event).2.calls = [] := by
  have hmoves := session.step_moves event
  generalize (session.step event).1.cache = next, (session.step event).2.calls = calls at hmoves
  cases hmoves with
  | rests => rfl
  | polls hwaits =>
    cases hwaits with
    | still | joins => exact callsOf_of_asked h _
    | starts hother _ hnone =>
      -- the request would not have missed the mark
      obtain rfl := Option.some.inj (hother.symm.trans hasks)
      exact absurd (hmark.symm.trans hnone) (by simp)

/-- After every run from an empty cache: a request that finds no outline but a live lookup joins it
without a call; the provider is called once for each miss and otherwise not; every request is a hit,
a miss or a join; a key has at most one live lookup; and all requests that one lookup completes get
one outline. -/
theorem coalescing (session : Session) (capacity : Nat) (events : List SessionEvent) :
    let start := session.emptied capacity
    let now := start.after events
    let stats := now.cache.stats
    (∀ event document ticket, event.asks? = some document →
      now.cache.cached? (now.keyFor document) = none →
      start.IsLive events (now.keyFor document) ticket →
      (now.step event).2.calls = [] ∧ now.awaited? event = some ticket) ∧
    (∀ event, Counted event stats (now.step event).1.cache.stats (now.step event).2.calls) ∧
    (start.run events).flatMap (·.2.calls) = now.cache.lookups.map (·.key.document) ∧
    stats.misses = now.cache.lookups.length ∧ stats.externalCalls = stats.misses ∧
    stats.hits + stats.misses + stats.coalesced =
      events.countP (fun event => event.asks?.isSome) ∧
    (∀ key a b, start.IsLive events key a → start.IsLive events key b → a = b) ∧
    (∀ first later second ticket found other,
      now.awaited? first = some ticket → now.Completes first found →
      ((now.step first).1.after later).awaited? second = some ticket →
      ((now.step first).1.after later).Completes second other → found = other) := by
  have hmarked := isMarked_after session capacity events
  have hasked := isFresh_after session capacity events
  have hcalls := calls_run session capacity events
  obtain ⟨hsum, hmisses, hexternal⟩ := stats_after session capacity events
  -- the mark that a request for the key meets is that of the live lookup
  have hmark : ∀ key ticket, (session.emptied capacity).IsLive events key ticket →
      ((session.emptied capacity).after events).cache.mark? key = some ⟨key, ticket⟩ :=
    fun key ticket hlive =>
      hmarked.mark?_eq_some ((mem_inFlight_iff session capacity events).mpr hlive)
  refine ⟨?_, counted_step hasked, hcalls, ?_, hexternal, hsum, ?_, ?_⟩
  · intro event document ticket hasks hentry hlive
    have hfound := hmark _ ticket hlive
    exact ⟨calls_of_mark hasked hasks hfound, (Waits.joins hasks hentry hfound).awaited?_eq⟩
  · rw [hmisses, hcalls, List.length_map]
  · intro key a b ha hb
    have heq := (hmark key a ha).symm.trans (hmark key b hb)
    simpa using heq
  · intro first later second ticket found other hfirst hfound hsecond hother
    exact completes_eq hfirst hfound hsecond hother

/-- A lookup whose only caller gave up while the provider was silent is joined by the next
request. -/
theorem coalescing_abandoned :
    let document : DocumentId := ⟨"A".toList⟩
    let start := Session.emptied { cache := .ofCapacity 1 } 1
    let events := [.setGate document true, .request 1 document, .abandon 1]
    start.IsLive events ⟨document, none⟩ 0 ∧
      ((start.after events).step (.request 2 document)).2.calls = [] ∧
      (start.after events).awaited? (.request 2 document) = some 0 := by
  intro document start events
  have hlive : start.IsLive events ⟨document, none⟩ 0 :=
    ⟨⟨[.setGate document true], .request 1 document, [.abandon 1], rfl, rfl, by decide,
      fun other hmem => by rw [List.mem_singleton.mp hmem]; rfl⟩, rfl⟩
  exact ⟨hlive, (coalescing { cache := .ofCapacity 1 } 1 events).1 (.request 2 document) document 0
    rfl rfl hlive⟩

end Session

end DeclDocs
