import DeclDocs.Proofs.Cache.Entries

/-!
# Where outlines come from

What a session holds after a run and did not hold before goes back to an event of the run: a lookup
to the request that started it, the outcome of a lookup to what the provider said to it, and an
entry to the answer that was stored and has stood since.

* `Session.Throughout`: what holds at every event of a run.
* `Session.exists_starts`, `Session.exists_consults`: the origin of lookups and of their outcomes.
* `Session.Produced`, `Session.exists_produced`: the origin of entries.
-/

namespace DeclDocs

namespace Session

variable {session : Session} {events : List SessionEvent} {ticket : Nat}

/-! ## §1 Runs -/

theorem after_append_cons (session : Session) (earlier : List SessionEvent) (event : SessionEvent)
    (later : List SessionEvent) :
    session.after (earlier ++ event :: later) =
      ((session.after earlier).step event).1.after later := by
  simp [after]

/-- The property holds of every event of the run and the session in which it happens. -/
def Throughout (property : Session → SessionEvent → Prop) : Session → List SessionEvent → Prop
  | _, [] => True
  | session, event :: events =>
    property session event ∧ Throughout property (session.step event).1 events

namespace Throughout

variable {property : Session → SessionEvent → Prop}

theorem front {later : List SessionEvent} (h : session.Throughout property (events ++ later)) :
    session.Throughout property events := by
  induction events generalizing session with
  | nil => trivial
  | cons event events ih => exact ⟨h.1, ih h.2⟩

theorem at_split {earlier later : List SessionEvent} {event : SessionEvent}
    (h : session.Throughout property (earlier ++ event :: later)) :
    property (session.after earlier) event := by
  induction earlier generalizing session with
  | nil => exact h.1
  | cons first earlier ih => exact ih h.2

/-- What the events of the run keep holds after the run. -/
theorem invariant (kept : Session → Prop)
    (hstep : ∀ session event, kept session → property session event →
      kept (session.step event).1)
    (hevents : session.Throughout property events) (h : kept session) :
    kept (session.after events) := by
  induction events generalizing session with
  | nil => exact h
  | cons event events ih => exact ih hevents.2 (hstep session event h hevents.1)

end Throughout

/-- What every event keeps holds after every run. -/
theorem invariant_after (kept : Session → Prop)
    (hstep : ∀ session event, kept session → kept (session.step event).1) (h : kept session)
    (events : List SessionEvent) : kept (session.after events) := by
  induction events generalizing session with
  | nil => exact h
  | cons event events ih => exact ih (hstep session event h)

theorem keyOf?_after {key : LookupKey} (h : session.cache.keyOf? ticket = some key)
    (events : List SessionEvent) : (session.after events).cache.keyOf? ticket = some key :=
  invariant_after (fun now => now.cache.keyOf? ticket = some key)
    (fun _ event hkey => keyOf?_step_of_some hkey event) h events

/-! ## §2 Origins -/

/-- A new lookup was started by an event of the run. -/
theorem exists_starts {key : LookupKey} (hnew : session.cache.keyOf? ticket = none)
    (h : (session.after events).cache.keyOf? ticket = some key) :
    ∃ earlier event later, events = earlier ++ event :: later ∧
      (session.after earlier).Starts event ticket key := by
  induction events using List.reverseRecOn with
  | nil =>
    rw [after, List.foldl_nil, hnew] at h
    simp at h
  | append_singleton events event ih =>
    rw [after_concat] at h
    rcases keyOf?_or_starts h with hbefore | hstarts
    · obtain ⟨earlier, first, later, rfl, hstarts⟩ := ih hbefore
      exact ⟨earlier, first, later ++ [event], by simp, hstarts⟩
    · exact ⟨events, event, [], rfl, hstarts⟩

/-- A new outcome is what the provider said in an event of the run. -/
theorem exists_consults {symbols : List DeclarationSymbol}
    (hnew : session.cache.outcome? ticket = none)
    (h : (session.after events).cache.outcome? ticket = some symbols) :
    ∃ earlier event later key reply, events = earlier ++ event :: later ∧
      (session.after earlier).Consults event ticket key reply ∧ reply.outcome? = some symbols := by
  induction events using List.reverseRecOn with
  | nil =>
    rw [after, List.foldl_nil, hnew] at h
    simp at h
  | append_singleton events event ih =>
    rw [after_concat] at h
    cases hbefore : (session.after events).cache.outcome? ticket with
    | some found =>
      -- the lookup had finished already
      rw [outcome?_step hbefore] at h
      obtain ⟨earlier, first, later, key, reply, rfl, hconsults, hreply⟩ := ih (hbefore.trans h)
      exact ⟨earlier, first, later ++ [event], key, reply, by simp, hconsults, hreply⟩
    | none =>
      obtain ⟨key, reply, hconsults, hreply⟩ := consults_of_finishes hbefore h
      exact ⟨events, event, [], key, reply, rfl, hconsults, hreply⟩

/-- The entry comes from the lookup: an event of the run stored it when the provider had answered
the lookup, and it has stood since. -/
def Produced (session : Session) (events : List SessionEvent) (ticket : Nat) (entry : CacheEntry) :
    Prop :=
  ∃ earlier event later, events = earlier ++ event :: later ∧
    (session.after earlier).Stores event ticket entry ∧
    ∀ middle rest, later = middle ++ rest →
      entry ∈ (session.after (earlier ++ event :: middle)).cache.entries

theorem Produced.keyOf?_eq {entry : CacheEntry} (h : session.Produced events ticket entry) :
    (session.after events).cache.keyOf? ticket = some entry.key := by
  obtain ⟨earlier, event, later, rfl, ⟨⟨value, hconsults, _⟩, _⟩, _⟩ := h
  rw [after_append_cons]
  exact keyOf?_after hconsults.keyed later

/-- **A new entry comes from a lookup that the provider answered.** -/
theorem exists_produced {entry : CacheEntry} (hnew : entry ∉ session.cache.entries)
    (h : entry ∈ (session.after events).cache.entries) :
    ∃ ticket, session.Produced events ticket entry := by
  induction events using List.reverseRecOn with
  | nil => exact absurd h hnew
  | append_singleton events event ih =>
    have hnow := h
    rw [after_concat] at h
    rcases mem_entries_step h with ⟨hbefore, _⟩ | ⟨ticket, hstores⟩
    · -- the entry stood before, and the event has left it
      obtain ⟨ticket, earlier, first, later, rfl, hstores, hstands⟩ := ih hbefore
      refine ⟨ticket, earlier, first, later ++ [event], by simp, hstores, ?_⟩
      intro middle rest hsplit
      rcases List.eq_nil_or_concat' rest with rfl | ⟨front, last, rfl⟩
      · rw [List.append_nil] at hsplit
        rw [← hsplit]
        simpa using hnow
      · rw [← List.append_assoc] at hsplit
        exact hstands middle front (List.append_inj' hsplit rfl).1
    · refine ⟨ticket, events, event, [], rfl, hstores, ?_⟩
      intro middle rest hsplit
      obtain ⟨rfl, _⟩ := List.append_eq_nil_iff.mp hsplit.symm
      exact hnow

end Session

end DeclDocs
