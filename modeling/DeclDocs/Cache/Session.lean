import DeclDocs.Cache.Basic
import DeclDocs.Model.Build

/-!
# Sessions

A session is a cache with its surroundings: the documents that are open, what the provider of
symbols would answer for each of them, what version control knows, and the callers that wait for
outlines.  Nothing happens between events; an event lets at most one caller go on.

* `SessionEvent`, `SessionReply`: what can happen and what comes of it.
* `Session.step`, `Session.run`: one event and a sequence of them.
-/

namespace DeclDocs

/-! ## §1 Surroundings -/

/-- How a provider can fail. -/
inductive ProviderError where
  | unavailable (message : Text)
  | lookupFailed (document : DocumentId) (message : Text)
  | io (message : Text)
  | json (message : Text)
deriving DecidableEq, Repr

namespace ProviderError

/-- The error in words. -/
def message : ProviderError → Text
  | unavailable message => "Provider unavailable: " ++ message
  | lookupFailed document message => "Lookup failed for " ++ document.value ++ ": " ++ message
  | io message => ("IO error: " : Text) ++ message
  | json message => "JSON error: " ++ message

end ProviderError

/-- What the surroundings know about a document. -/
structure DocumentScript where
  /-- The version that is open. -/
  version : Option Int := none
  /-- The provider's answer. -/
  answer : Json := .arr []
  /-- The provider fails instead of answering. -/
  failure : Option ProviderError := none
  /-- The provider does not answer while the gate is closed. -/
  gateClosed : Bool := false

/-- What the provider says about the document now. -/
def DocumentScript.reply (script : DocumentScript) : ProviderReply :=
  if script.gateClosed then .pending
  else if script.failure.isSome then .failed
  else .answered script.answer

/-- A question put to version control. -/
inductive RevisionCall where
  | check (path : Text)
  | blame (path : Text) (line : UInt32)
deriving DecidableEq, Repr

/-- What version control answers. -/
structure RevisionScript where
  /-- Whether files are under version control; absent when the question fails. -/
  controlled : Option Bool := none
  /-- Who wrote a line, if known; an error when the question fails. -/
  authorship : Except Text (Option Authorship) := .ok none

/-- Who wrote the declaration on a line, and the questions asked to find out.  A failed question
counts as not known. -/
def RevisionScript.authorshipOf (script : RevisionScript) (path : Text) (line : UInt32) :
    Option Authorship × List RevisionCall :=
  if script.controlled = some true then
    let known := match script.authorship with
      | .ok authorship => authorship
      | .error _ => none
    (known, [.check path, .blame path line])
  else (none, [.check path])

/-! ## §2 Events -/

/-- What can happen in a session. -/
inductive SessionEvent where
  | setVersion (document : DocumentId) (version : Option Int)
  /-- The provider has a new answer and no longer fails. -/
  | setAnswer (document : DocumentId) (answer : Json)
  | setFailure (document : DocumentId) (error : ProviderError)
  | setGate (document : DocumentId) (closed : Bool)
  | setRevisions (script : RevisionScript)
  /-- A caller asks for an outline and is polled once. -/
  | request (caller : Nat) (document : DocumentId)
  /-- A waiting caller is polled. -/
  | poll (caller : Nat)
  /-- A waiting caller gives up. -/
  | abandon (caller : Nat)
  /-- The model of a document is asked for, polled once and given up if it is not there. -/
  | parse (document : DocumentId) (text : Text)
  | invalidate (document : DocumentId)
  | invalidateAll

/-- What comes of an event. -/
inductive SessionReply where
  | done
  | ready (symbols : List DeclarationSymbol)
  | pending
  /-- No caller of that number waits. -/
  | notWaiting
  /-- Whether a caller of that number waited. -/
  | abandoned (waited : Bool)
  | model (model : DocumentModel)

/-- What comes of an event, and the questions asked on the way. -/
structure SessionOutcome where
  reply : SessionReply := .done
  /-- The documents for which the provider was entered. -/
  calls : List DocumentId := []
  revisionCalls : List RevisionCall := []

/-! ## §3 The session -/

/-- A cache with its surroundings. -/
structure Session where
  cache : SymbolCache
  options : ModelOptions := {}
  /-- Version control is asked for authorship. -/
  asksRevisions : Bool := false
  revisions : RevisionScript := {}
  documents : List (DocumentId × DocumentScript) := []
  /-- The waiting callers with the numbers of their lookups. -/
  waiting : List (Nat × Nat) := []

namespace Session

/-- What the surroundings know about a document. -/
def script (session : Session) (document : DocumentId) : DocumentScript :=
  (session.documents.lookup document).getD {}

/-- Changes what the surroundings know about a document. -/
def setScript (session : Session) (document : DocumentId)
    (change : DocumentScript → DocumentScript) : Session :=
  { session with documents := (document, change (session.script document)) :: session.documents }

/-- The session without the waiting caller of that number. -/
def forget (session : Session) (caller : Nat) : Session :=
  { session with waiting := session.waiting.filter fun waiter => waiter.1 != caller }

/-- Polls a lookup with what the provider says about its document now: the outline if it is there,
and the document if the provider was entered. -/
def pollLookup (session : Session) (ticket : Nat) :
    Session × Option (List DeclarationSymbol) × List DocumentId :=
  match session.cache.lookups[ticket]? with
  | none => (session, none, [])
  | some lookup =>
    let document := lookup.key.document
    let calls := if session.cache.isFresh ticket then [document] else []
    let (cache, symbols) := session.cache.poll ticket (session.script document).reply
    ({ session with cache }, symbols, calls)

/-- Asks for the outline of a document and polls the lookup once.  The number is that of the
lookup to wait for when the outline is not there. -/
def ask (session : Session) (document : DocumentId) :
    Session × Except Nat (List DeclarationSymbol) × List DocumentId :=
  match session.cache.resolve document (session.script document).version with
  | (cache, .hit symbols) => ({ session with cache }, .ok symbols, [])
  | (cache, .awaits ticket) =>
    match pollLookup { session with cache } ticket with
    | (session, some symbols, calls) => (session, .ok symbols, calls)
    | (session, none, calls) => (session, .error ticket, calls)

/-- The model of a document with the given outline, and the questions put to version control. -/
def model (session : Session) (document : DocumentId) (text : Text)
    (symbols : List DeclarationSymbol) : DocumentModel × List RevisionCall :=
  let model := buildModel document text symbols session.options
  match model.containerLine with
  | some line =>
    if session.asksRevisions then
      let (authorship, calls) := session.revisions.authorshipOf document.path line
      ({ model with authorship }, calls)
    else (model, [])
  | none => (model, [])

/-- One event. -/
def step (session : Session) : SessionEvent → Session × SessionOutcome
  | .setVersion document version =>
    (session.setScript document fun script => { script with version }, {})
  | .setAnswer document answer =>
    (session.setScript document fun script => { script with answer, failure := none }, {})
  | .setFailure document error =>
    (session.setScript document fun script => { script with failure := some error }, {})
  | .setGate document closed =>
    (session.setScript document fun script => { script with gateClosed := closed }, {})
  | .setRevisions script => ({ session with revisions := script }, {})
  | .request caller document =>
    match session.ask document with
    | (session, .ok symbols, calls) => (session, { reply := .ready symbols, calls })
    | (session, .error ticket, calls) =>
      let session := session.forget caller
      ({ session with waiting := (caller, ticket) :: session.waiting },
        { reply := .pending, calls })
  | .poll caller =>
    match session.waiting.lookup caller with
    | none => (session, { reply := .notWaiting })
    | some ticket =>
      match session.pollLookup ticket with
      | (session, some symbols, calls) =>
        (session.forget caller, { reply := .ready symbols, calls })
      | (session, none, calls) => (session, { reply := .pending, calls })
  | .abandon caller =>
    (session.forget caller, { reply := .abandoned (session.waiting.lookup caller).isSome })
  | .parse document text =>
    match session.ask document with
    | (session, .ok symbols, calls) =>
      let (model, revisionCalls) := session.model document text symbols
      (session, { reply := .model model, calls, revisionCalls })
    | (session, .error _, calls) => (session, { reply := .pending, calls })
  | .invalidate document => ({ session with cache := session.cache.invalidate document }, {})
  | .invalidateAll => ({ session with cache := session.cache.invalidateAll }, {})

/-- The sessions after each event of a sequence, with what came of the event. -/
def run (session : Session) : List SessionEvent → List (Session × SessionOutcome)
  | [] => []
  | event :: events =>
    let result := session.step event
    result :: run result.1 events

end Session

end DeclDocs
