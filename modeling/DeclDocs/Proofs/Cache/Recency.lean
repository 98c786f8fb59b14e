import DeclDocs.Proofs.Cache.Representation
import Mathlib.Data.Finset.Card

/-!
# The least recently used entry goes first

A key is touched when a request finds its outline or when a lookup puts its outline in place.  The
entries stand in the order of their last touches: in front of an entry stand only keys that were
touched after it, and, while nothing is invalidated, all of them.  Hence a key is kept exactly as
long as fewer other keys are touched than the cache has room for.

* `SymbolCache.touched?`, `SymbolCache.touches`: the keys that an event and a run touch.
* `SymbolCache.IsNear`, `SymbolCache.IsFar`: what stands in front of a key.
* `SymbolCache.evicts_least_recent`: when a request is a hit.
-/

namespace DeclDocs

/-! ## §1 Touches -/

/-- The event makes the cache forget the outlines of the document. -/
def CacheEvent.forgets (event : CacheEvent) (document : DocumentId) : Bool :=
  match event with
  | invalidate other => other == document
  | invalidateAll => true
  | _ => false

/-- The caller is given an outline from the cache. -/
def Resolution.isHit : Resolution → Bool
  | hit _ => true
  | awaits _ => false

namespace SymbolCache

/-- The key that an event touches: a request finds its outline, or a lookup for it puts an outline
in place where there was none. -/
def touched? (cache : SymbolCache) : CacheEvent → Option LookupKey
  | .resolve document version =>
    if (cache.resolve document version).2.isHit then some ⟨document, version⟩ else none
  | .poll ticket reply => (cache.keyOf? ticket).filter fun key =>
    (cache.cached? key).isNone && ((cache.poll ticket reply).1.cached? key).isSome
  | _ => none

/-- The keys that the events touch, in their order. -/
def touches (cache : SymbolCache) : List CacheEvent → List LookupKey
  | [] => []
  | event :: events => (cache.touched? event).toList ++ (cache.step event).touches events

/-- The keys after a touch of the key: it comes to the front, and what is beyond the capacity
goes. -/
def promoted (limit : Nat) (keys : List LookupKey) (key : LookupKey) : List LookupKey :=
  (key :: keys.filter fun other => other != key).take limit

variable {cache : SymbolCache} {event : CacheEvent} {key : LookupKey}

private theorem isHit_resolve :
    (cache.resolve key.document key.version).2.isHit = true ↔ key ∈ cache.keys := by
  rw [← not_iff_not, ← cached?_eq_none_iff_notMem]
  rcases cache.resolve_cases key.document key.version with
    ⟨entry, hentry, hresolve⟩ | ⟨hentry, mark, _, hresolve⟩ | ⟨hentry, _, hresolve⟩ <;>
    rw [hresolve, hentry] <;> simp [Resolution.isHit]

private theorem keys_resolve_of_hit (h : key ∈ cache.keys) :
    (cache.resolve key.document key.version).1.keys = promoted cache.capacity cache.keys key := by
  have hsome : cache.cached? key ≠ none := fun hnone => cached?_eq_none_iff_notMem.mp hnone h
  rcases cache.resolve_cases key.document key.version with
    ⟨entry, hentry, hresolve⟩ | ⟨hentry, _⟩ | ⟨hentry, _⟩
  · obtain rfl : key = entry.key := (mem_of_cached? hentry).2
    rw [hresolve]
    exact keys_touch cache entry
  · exact absurd hentry hsome
  · exact absurd hentry hsome

private theorem keys_resolve_of_not_hit (h : key ∉ cache.keys) :
    (cache.resolve key.document key.version).1.keys = cache.keys := by
  have hnone : cache.cached? key = none := cached?_eq_none_iff_notMem.mpr h
  rcases cache.resolve_cases key.document key.version with
    ⟨entry, hentry, _⟩ | ⟨_, mark, _, hresolve⟩ | ⟨_, _, hresolve⟩
  · exact absurd (hnone.symm.trans hentry) (by simp)
  · rw [hresolve]; rfl
  · rw [hresolve]; rfl

/-- A lookup touches its key where there was no outline for it and there is one now. -/
theorem touched?_poll {ticket : Nat} {reply : ProviderReply} :
    cache.touched? (.poll ticket reply) = some key ↔ cache.keyOf? ticket = some key ∧
      key ∉ cache.keys ∧ key ∈ (cache.poll ticket reply).1.keys := by
  rw [touched?, Option.filter_eq_some_iff, Bool.and_eq_true, Option.isNone_iff_eq_none,
    cached?_eq_none_iff_notMem, Option.isSome_iff_ne_none, ne_eq, cached?_eq_none_iff_notMem,
    not_not]

private theorem keys_poll (h : cache.IsTidy) (ticket : Nat) (reply : ProviderReply) :
    (cache.poll ticket reply).1.keys = cache.keys ∨
      ∃ key, cache.keyOf? ticket = some key ∧ key ∉ cache.keys ∧
        (cache.poll ticket reply).1.keys = promoted cache.capacity cache.keys key := by
  rcases h.entries_poll ticket reply with hsame | ⟨entry, hmark, hnew, _, hstored⟩
  · exact Or.inl (by rw [keys, hsame, keys])
  · refine Or.inr ⟨entry.key, (h.marked _ hmark).1, hnew, ?_⟩
    rw [keys, hstored]
    exact keys_touch cache entry

/-- A touch brings the key to the front. -/
theorem keys_of_touched (h : cache.IsTidy) (htouch : cache.touched? event = some key) :
    (cache.step event).keys = promoted cache.capacity cache.keys key := by
  cases event with
  | resolve document version =>
    rw [touched?] at htouch
    split at htouch
    case isTrue hhit =>
      obtain rfl : (⟨document, version⟩ : LookupKey) = key := Option.some.inj htouch
      have hmem : (⟨document, version⟩ : LookupKey) ∈ cache.keys := isHit_resolve.mp hhit
      exact keys_resolve_of_hit hmem
    case isFalse => simp at htouch
  | poll ticket reply =>
    obtain ⟨hkey, hbefore, hafter⟩ := touched?_poll.mp htouch
    rw [step]
    rcases keys_poll h ticket reply with hsame | ⟨other, hother, _, hpromoted⟩
    · exact absurd (hsame ▸ hafter) hbefore
    · rw [hkey, Option.some.injEq] at hother
      rw [hpromoted, hother]
  | invalidate document => simp [touched?] at htouch
  | invalidateAll => simp [touched?] at htouch

/-- Without a touch the order stays, and only what the event forgets goes. -/
theorem keys_of_untouched (h : cache.IsTidy) (hroom : 0 < cache.capacity)
    (htouch : cache.touched? event = none) :
    (cache.step event).keys = cache.keys.filter fun key => !event.forgets key.document := by
  cases event with
  | resolve document version =>
    rw [touched?, ite_eq_right_iff] at htouch
    have hmem : (⟨document, version⟩ : LookupKey) ∉ cache.keys :=
      fun hmem => absurd (htouch (isHit_resolve.mpr hmem)) (by simp)
    have hkeys : (cache.resolve document version).1.keys = cache.keys :=
      keys_resolve_of_not_hit hmem
    simp [step, hkeys, CacheEvent.forgets]
  | poll ticket reply =>
    rcases keys_poll h ticket reply with hsame | ⟨key, hkey, hnew, hpromoted⟩
    · simp [step, hsame, CacheEvent.forgets]
    · -- there is room for the key that comes to the front
      have hfront : key ∈ (cache.poll ticket reply).1.keys := by
        rw [hpromoted, promoted, ← Nat.succ_pred_eq_of_pos hroom, List.take_succ_cons]
        exact List.mem_cons_self
      rw [touched?_poll.mpr ⟨hkey, hnew, hfront⟩] at htouch
      simp at htouch
  | invalidate document =>
    have hother : (fun entry : CacheEntry => entry.document != document) =
        (fun key => !(CacheEvent.invalidate document).forgets key.document) ∘ CacheEntry.key := by
      funext entry
      simp [CacheEvent.forgets, CacheEntry.key, bne, BEq.comm]
    rw [step, keys, invalidate, hother, keys, List.filter_map]
  | invalidateAll => simp [step, keys, SymbolCache.invalidateAll, CacheEvent.forgets]

/-! ## §2 What stands in front of a key -/

/-- Nothing but seen keys stands in front of the key, as long as the cache has room for them. -/
def IsNear (cache : SymbolCache) (key : LookupKey) (seen : Finset LookupKey) : Prop :=
  seen.card < cache.capacity →
    ∃ front rest, cache.keys = front ++ key :: rest ∧ ∀ other ∈ front, other ∈ seen

/-- All seen keys stand in front of the key, if it is there. -/
def IsFar (cache : SymbolCache) (key : LookupKey) (seen : Finset LookupKey) : Prop :=
  ∀ front rest, cache.keys = front ++ key :: rest → ∀ other ∈ seen, other ∈ front

/-- A touch of another key moves a key back by one place at most. -/
theorem promoted_append {limit : Nat} {front : List LookupKey} {other : LookupKey}
    (rest : List LookupKey) (hne : key ≠ other)
    (hroom : (other :: front.filter fun key => key != other).length < limit) :
    ∃ kept, promoted limit (front ++ key :: rest) other =
      (other :: front.filter fun key => key != other) ++ key :: kept := by
  have hfilter : (front ++ key :: rest).filter (fun key => key != other) =
      front.filter (fun key => key != other) ++
        key :: rest.filter fun key => key != other := by
    rw [List.filter_append, List.filter_cons_of_pos (by simpa using hne)]
  rw [promoted, hfilter, ← List.cons_append, List.take_append,
    List.take_of_length_le (Nat.le_of_lt hroom)]
  obtain ⟨more, hmore⟩ := Nat.exists_eq_add_of_lt hroom
  refine ⟨(rest.filter fun key => key != other).take more, congrArg _ ?_⟩
  rw [hmore, Nat.add_assoc, Nat.add_sub_cancel_left, List.take_succ_cons]

/-- A key that is still there after a touch of another key was there before. -/
theorem exists_of_promoted {limit : Nat} {keys front rest : List LookupKey} {other : LookupKey}
    (hne : key ≠ other) (h : promoted limit keys other = front ++ key :: rest) :
    ∃ before behind, keys = before ++ key :: behind ∧
      front = other :: before.filter fun key => key != other := by
  obtain ⟨gone, hgone⟩ : promoted limit keys other <+:
      other :: keys.filter fun key => key != other := List.take_prefix _ _
  rw [h, List.append_assoc, List.cons_append] at hgone
  cases front with
  | nil => exact absurd (List.cons.inj hgone).1 hne
  | cons head front =>
    obtain ⟨rfl, hfilter⟩ := List.cons.inj hgone
    obtain ⟨before, behind, rfl, rfl, hbehind⟩ := List.filter_eq_append_iff.mp hfilter.symm
    obtain ⟨dropped, behind, rfl, hdropped, _, _⟩ := List.filter_eq_cons_iff.mp hbehind
    refine ⟨before ++ dropped, behind, by rw [List.append_assoc], ?_⟩
    rw [List.filter_append, List.filter_eq_nil_iff.mpr hdropped, List.append_nil]

/-! ## §3 One event -/

section Step

variable {seen : Finset LookupKey} (h : cache.IsTidy)

include h

/-- What stands in front of a key that is touched from now on is in the keys that are seen. -/
theorem IsNear.touched {other : LookupKey} (hnear : cache.IsNear key seen) (hne : key ≠ other)
    (htouch : cache.touched? event = some other) :
    (cache.step event).IsNear key (insert other seen) := by
  intro hroom
  rw [capacity_step] at hroom
  obtain ⟨front, rest, hkeys, hfront⟩ :=
    hnear (Nat.lt_of_le_of_lt (Finset.card_le_card (Finset.subset_insert _ _)) hroom)
  -- the keys in front are different ones, so there are at most as many as are seen
  have hnodup : (other :: front.filter fun key => key != other).Nodup := by
    have hkeyed := h.keyed
    rw [hkeys] at hkeyed
    refine List.nodup_cons.mpr ⟨by simp, ?_⟩
    exact (List.Nodup.of_append_left hkeyed).filter _
  have hseen : ∀ ahead ∈ other :: front.filter (fun key => key != other),
      ahead ∈ insert other seen := by
    intro ahead hahead
    rcases List.mem_cons.mp hahead with rfl | hmem
    · exact Finset.mem_insert_self _ _
    · exact Finset.mem_insert_of_mem (hfront ahead (List.mem_of_mem_filter hmem))
  have hlength : (other :: front.filter fun key => key != other).length < cache.capacity := by
    rw [← List.toFinset_card_of_nodup hnodup]
    refine Nat.lt_of_le_of_lt (Finset.card_le_card fun ahead hahead => ?_) hroom
    exact hseen ahead (List.mem_toFinset.mp hahead)
  obtain ⟨kept, hkept⟩ := promoted_append rest hne hlength
  refine ⟨_, kept, ?_, hseen⟩
  rw [keys_of_touched h htouch, hkeys, hkept]

theorem IsNear.untouched (hnear : cache.IsNear key seen) (hroom : 0 < cache.capacity)
    (hkept : event.forgets key.document = false) (htouch : cache.touched? event = none) :
    (cache.step event).IsNear key seen := by
  intro hcard
  rw [capacity_step] at hcard
  obtain ⟨front, rest, hkeys, hfront⟩ := hnear hcard
  refine ⟨front.filter fun key => !event.forgets key.document,
    rest.filter fun key => !event.forgets key.document, ?_,
    fun other hmem => hfront other (List.mem_of_mem_filter hmem)⟩
  rw [keys_of_untouched h hroom htouch, hkeys, List.filter_append,
    List.filter_cons_of_pos (by simpa using hkept)]

theorem IsFar.touched {other : LookupKey} (hfar : cache.IsFar key seen) (hne : key ≠ other)
    (htouch : cache.touched? event = some other) :
    (cache.step event).IsFar key (insert other seen) := by
  intro front rest hkeys ahead hahead
  rw [keys_of_touched h htouch] at hkeys
  obtain ⟨before, behind, hbefore, rfl⟩ := exists_of_promoted hne hkeys
  by_cases hother : ahead = other
  · simp [hother]
  · have hseen : ahead ∈ seen := (Finset.mem_insert.mp hahead).resolve_left hother
    simp [hother, hfar before behind hbefore ahead hseen]

theorem IsFar.untouched (hfar : cache.IsFar key seen) (hroom : 0 < cache.capacity)
    (hkept : ∀ document, event.forgets document = false) (htouch : cache.touched? event = none) :
    (cache.step event).IsFar key seen := by
  intro front rest hkeys
  rw [keys_of_untouched h hroom htouch] at hkeys
  exact hfar front rest (by simpa [hkept] using hkeys)

end Step

/-! ## §4 Runs -/

/-- What touches of other keys carry over to one more seen key, and other events of a kind leave
alone, holds with all touched keys seen after a run of events of that kind. -/
theorem after_touches (kept : SymbolCache → Finset LookupKey → Prop)
    (allowed : CacheEvent → Prop)
    (htouched : ∀ {cache event seen other}, cache.IsTidy → kept cache seen → key ≠ other →
      cache.touched? event = some other → kept (cache.step event) (insert other seen))
    (huntouched : ∀ {cache event seen}, cache.IsTidy → kept cache seen → 0 < cache.capacity →
      allowed event → cache.touched? event = none → kept (cache.step event) seen)
    {seen : Finset LookupKey} {events : List CacheEvent} (h : cache.IsTidy)
    (hroom : 0 < cache.capacity) (hkept : kept cache seen) (hlast : key ∉ cache.touches events)
    (hallowed : ∀ event ∈ events, allowed event) :
    kept (cache.after events) (seen ∪ (cache.touches events).toFinset) := by
  induction events generalizing cache seen with
  | nil => simpa [touches, after] using hkept
  | cons event events ih =>
    have hroom' : 0 < (cache.step event).capacity := by rwa [capacity_step]
    rw [touches, List.mem_append, not_or] at hlast
    rw [after_cons, touches, List.toFinset_append, ← Finset.union_assoc]
    refine ih (h.step event) hroom' ?_ hlast.2 fun other hmem =>
      hallowed other (List.mem_cons_of_mem event hmem)
    cases htouch : cache.touched? event with
    | none => simpa using huntouched h hkept hroom (hallowed event List.mem_cons_self) htouch
    | some other =>
      have hne : key ≠ other := by simpa [htouch] using hlast.1
      simpa [Finset.union_comm seen, ← Finset.insert_eq] using htouched h hkept hne htouch

/-- The key that was touched last stands in front. -/
theorem keys_of_touched_cons (h : cache.IsTidy) (hroom : 0 < cache.capacity)
    (htouch : cache.touched? event = some key) :
    ∃ rest, (cache.step event).keys = key :: rest := by
  rw [keys_of_touched h htouch, promoted, ← Nat.succ_pred_eq_of_pos hroom, List.take_succ_cons]
  exact ⟨_, rfl⟩

private theorem IsNear.mem_keys {seen : Finset LookupKey} (hnear : cache.IsNear key seen)
    (hcard : seen.card < cache.capacity) : key ∈ cache.keys := by
  obtain ⟨front, rest, hkeys, _⟩ := hnear hcard
  simp [hkeys]

private theorem IsFar.notMem_keys {seen : Finset LookupKey} (h : cache.IsTidy)
    (hfar : cache.IsFar key seen) (hcard : cache.capacity ≤ seen.card) : key ∉ cache.keys := by
  intro hmem
  obtain ⟨front, rest, hkeys⟩ := List.append_of_mem hmem
  have hseen : seen.card ≤ front.length := by
    refine Nat.le_trans (Finset.card_le_card fun other hother => ?_) front.toFinset_card_le
    exact List.mem_toFinset.mpr (hfar front rest hkeys other hother)
  have hlength : cache.keys.length ≤ cache.capacity := by
    rw [keys, List.length_map]
    exact h.bounded
  rw [hkeys, List.length_append, List.length_cons] at hlength
  omega

/-- A request for a key that was touched and not invalidated since is a hit while fewer other keys
than the cache has room for were touched since, and it is none once as many were touched and nothing
was invalidated. -/
theorem evicts_least_recent (capacity : Nat) (earlier : List CacheEvent) (touch : CacheEvent)
    (later : List CacheEvent) (key : LookupKey) (others : List LookupKey)
    (htouch : ((ofCapacity capacity).after earlier).touched? touch = some key)
    (hothers : (((ofCapacity capacity).after earlier).step touch).touches later = others)
    (hlast : key ∉ others) (hkept : ∀ event ∈ later, event.forgets key.document = false) :
    (others.toFinset.card < max 1 capacity →
      (((ofCapacity capacity).after (earlier ++ touch :: later)).resolve
        key.document key.version).2.isHit = true) ∧
    (max 1 capacity ≤ others.toFinset.card →
      (∀ event ∈ later, ∀ document, event.forgets document = false) →
      (((ofCapacity capacity).after (earlier ++ touch :: later)).resolve
        key.document key.version).2.isHit = false) := by
  subst hothers
  have hcapacity := capacity_after capacity earlier
  have hend := capacity_after capacity (earlier ++ touch :: later)
  have htidy := (IsTidy.ofCapacity capacity).after earlier
  rw [after_append, after_cons] at hend ⊢
  -- of the run before the touch only the invariant matters
  generalize (ofCapacity capacity).after earlier = before at *
  have hroom : 0 < before.capacity := by omega
  have hroom' : 0 < (before.step touch).capacity := by rwa [capacity_step]
  obtain ⟨rest, hfront⟩ := keys_of_touched_cons htidy hroom htouch
  constructor
  · intro hcard
    have hnear : (before.step touch).IsNear key ∅ := fun _ => ⟨[], rest, hfront, by simp⟩
    have hafter := after_touches (fun cache seen => cache.IsNear key seen)
      (fun event => event.forgets key.document = false) (fun h hnear => hnear.touched h)
      (fun h hnear => hnear.untouched h) (htidy.step touch) hroom' hnear hlast hkept
    rw [Finset.empty_union] at hafter
    exact isHit_resolve.mpr (hafter.mem_keys (by rwa [hend]))
  · intro hcard hnone
    have hfar : (before.step touch).IsFar key ∅ := by simp [IsFar]
    have hafter := after_touches (fun cache seen => cache.IsFar key seen)
      (fun event => ∀ document, event.forgets document = false) (fun h hfar => hfar.touched h)
      (fun h hfar => hfar.untouched h) (htidy.step touch) hroom' hfar hlast hnone
    rw [Finset.empty_union] at hafter
    have hmem := hafter.notMem_keys ((htidy.step touch).after later) (by rwa [hend])
    rw [← isHit_resolve] at hmem
    simpa using hmem

/-- In a cache with room for two outlines, `A` is asked for again before the outline of `C` is put
in place: `A` is still a hit, and `B` had to go. -/
theorem evicts_least_recent_third :
    let keyA : LookupKey := ⟨⟨"A".toList⟩, some 1⟩
    let keyB : LookupKey := ⟨⟨"B".toList⟩, some 1⟩
    let keyC : LookupKey := ⟨⟨"C".toList⟩, some 1⟩
    let filled := (ofCapacity 2).after [.resolve keyA.document (some 1), .poll 0 (.answered (.arr [])),
      .resolve keyB.document (some 1), .poll 1 (.answered (.arr []))]
    let later := [.resolve keyA.document (some 1), .resolve keyC.document (some 1),
      .poll 2 (.answered (.arr []))]
    filled.touches later = [keyA, keyC] ∧
      ((filled.after later).resolve keyA.document (some 1)).2.isHit = true ∧
      ((filled.after later).resolve keyB.document (some 1)).2.isHit = false := by
  refine ⟨by decide +kernel, ?_, ?_⟩
  · exact (evicts_least_recent 2 [.resolve ⟨"A".toList⟩ (some 1), .poll 0 (.answered (.arr [])),
      .resolve ⟨"B".toList⟩ (some 1), .poll 1 (.answered (.arr []))]
      (.resolve ⟨"A".toList⟩ (some 1))
      [.resolve ⟨"C".toList⟩ (some 1), .poll 2 (.answered (.arr []))] ⟨⟨"A".toList⟩, some 1⟩
      [⟨⟨"C".toList⟩, some 1⟩] (by decide +kernel) (by decide +kernel) (by decide +kernel)
      (by simp [CacheEvent.forgets])).1 (by decide +kernel)
  · exact (evicts_least_recent 2 [.resolve ⟨"A".toList⟩ (some 1), .poll 0 (.answered (.arr [])),
      .resolve ⟨"B".toList⟩ (some 1)] (.poll 1 (.answered (.arr [])))
      [.resolve ⟨"A".toList⟩ (some 1), .resolve ⟨"C".toList⟩ (some 1),
        .poll 2 (.answered (.arr []))] ⟨⟨"B".toList⟩, some 1⟩
      [⟨⟨"A".toList⟩, some 1⟩, ⟨⟨"C".toList⟩, some 1⟩] (by decide +kernel) (by decide +kernel)
      (by decide +kernel) (by simp [CacheEvent.forgets])).2 (by decide +kernel)
      (by simp [CacheEvent.forgets])

end SymbolCache

end DeclDocs
