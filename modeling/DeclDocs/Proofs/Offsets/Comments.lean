import DeclDocs.Comment.Doc
import DeclDocs.Proofs.Comment.Location
import DeclDocs.Proofs.Offsets.Declarations

/-!
# Comments found by index and offset

The search for the comment of a declaration is a machine whose states hold indices of lines.  It
looks lines up by these indices, takes ranges of lines between them and cuts lines at offsets of
delimiters.  Every state that it reaches fits the document, each step takes it closer to its end,
and the comment that remains to be found stays the same.

* `Offsets.gapIsTransparent_eq`: the gap between a comment and its declaration.
* `Offsets.Search.step_eq`: one step of the machine.
* `Offsets.Search.run_eq`: the whole search.
* `Offsets.locateComment_eq`, `Offsets.parseComment_eq`: the comment of a declaration.
-/

namespace DeclDocs

namespace Offsets

/-! ## §1 The gap -/

/-- A group that does not close in the glyphs has more parentheses open than are closed in them. -/
theorem countCode_le_of_untilClose {nested : Nat} {gs : List Glyph}
    (h : untilClose '(' ')' nested gs = none) :
    countCode ')' gs ≤ nested + countCode '(' gs := by
  induction gs generalizing nested with
  | nil => exact Nat.zero_le _
  | cons g gs ih =>
    simp only [countCode, List.countP_cons, beq_iff_eq] at ih ⊢
    by_cases hopen : g.shown = '('
    · rw [untilClose_opening hopen, Option.map_eq_none_iff] at h
      have hrest := ih h
      rw [hopen, if_pos rfl, if_neg (by decide)]
      omega
    · by_cases hclose : g.shown = ')'
      · cases nested with
        | zero =>
          rw [untilClose_last hopen hclose] at h
          simp at h
        | succ outer =>
          rw [untilClose_closing hopen hclose, Option.map_eq_none_iff] at h
          have hrest := ih h
          rw [hclose, if_pos rfl, if_neg (by decide)]
          omega
      · rw [untilClose_other hopen hclose, Option.map_eq_none_iff] at h
        have hrest := ih h
        rw [if_neg hopen, if_neg hclose]
        omega

/-- The parentheses left open by a text and its skeleton, if the text is blanks and annotations
only. -/
def annotationDepth (code skeleton : Text) : Checked (Option Int) :=
  let code := code.trim
  if code.isEmpty then pure (some 0)
  else if !code.startsWith "@" || code.startsWith "@interface" then pure none
  else do
    let rest ← stripAnnotations code
    return if rest.isEmpty then some (max (parenBalance skeleton.utf8) 0) else none

/-- The number of parentheses open after a line of the gap; `none` when the line breaks the gap. -/
def gapDepth (depth : Int) (line : Text) (scanned : ScannedLine) : Checked (Option Int) :=
  if 0 < depth then
    match closingParen depth 0 scanned.skeleton.utf8 with
    | some close => do
      let code ← scanned.code.fromByte (close + 1)
      let skeleton ← scanned.skeleton.fromByte (close + 1)
      annotationDepth code skeleton
    | none => pure (some (depth + scanned.parenDelta))
  else if line.isBlankText then pure (some depth)
  else if scanned.code.isBlankText then pure none
  else annotationDepth scanned.code scanned.skeleton

/-- The lines continue a gap that has `depth` parentheses open. -/
def gapContinues : ScanState → (depth : Int) → List Text → Checked Bool
  | _, _, [] => pure true
  | state, depth, line :: lines => do
    let scanned := state.scan line
    match ← gapDepth depth line scanned with
    | some depth => gapContinues scanned.state depth lines
    | none => pure false

/-- Every line is blank or belongs to an annotation. -/
def gapIsTransparent (lines : List Text) : Checked Bool :=
  gapContinues {} 0 lines

theorem annotationDepth_eq (gs : List Glyph) :
    annotationDepth (codeOf gs) (skeletonOf gs) =
      pure ((annotationsOpen? gs).map ((↑) : Nat → Int)) := by
  simp only [annotationDepth, annotationsOpen?]
  split
  · rfl
  · split
    · rfl
    · rw [stripAnnotations_eq, pure_bind]
      split
      · have hdepth : max (parenBalance (skeletonOf gs).utf8) 0 =
            ((countCode '(' gs - countCode ')' gs : Nat) : Int) := by
          rw [parenBalance_eq]
          omega
        rw [hdepth]
        rfl
      · rfl

/-- **Code and skeleton of a line are both cut at a character boundary** behind the parenthesis that
closes an argument list. -/
theorem fromByte_behindClose {nested : Nat} {gs inside rest : List Glyph}
    (h : untilClose '(' ')' nested gs = some (inside, rest)) :
    (codeOf gs).fromByte ((codeOf inside).byteLength + 1) = pure (codeOf rest) ∧
      (skeletonOf gs).fromByte ((codeOf inside).byteLength + 1) = pure (skeletonOf rest) := by
  constructor
  · rw [codeOf_untilClose (by decide) h]
    exact Text.fromByte_behind (by decide) _ _
  · rw [untilClose_eq_some (by decide) h, skeletonOf_append, ← byteLength_skeletonOf]
    exact Text.fromByte_behind (by decide) _ _

theorem gapDepth_eq (depth : Nat) (line : Text) (scanned : ScannedLine) :
    gapDepth depth line scanned =
      pure ((gapDepth? depth line scanned).map ((↑) : Nat → Int)) := by
  cases depth with
  | zero =>
    rw [gapDepth, if_neg (by decide), gapDepth?]
    split
    · rfl
    · split
      · rfl
      · exact annotationDepth_eq scanned.glyphs
  | succ nested =>
    have hclosing := closingParen_eq nested 0 scanned.glyphs
    rw [← Int.natCast_succ, ← ScannedLine.skeleton] at hclosing
    rw [gapDepth, if_pos (by omega), hclosing, gapDepth?]
    cases hclose : untilClose '(' ')' nested scanned.glyphs with
    | none =>
      -- the group stays open, so that the difference of the counts is that of natural numbers
      have hcount := countCode_le_of_untilClose hclose
      have hdepth : ((nested + 1 : Nat) : Int) + scanned.parenDelta =
          ((nested + 1 + scanned.openParens - scanned.closeParens : Nat) : Int) := by
        rw [ScannedLine.parenDelta, ScannedLine.openParens, ScannedLine.closeParens]
        omega
      simp only [Option.map_none, hdepth, Option.map_some]
    | some parts =>
      obtain ⟨inside, rest⟩ := parts
      obtain ⟨hcode, hskeleton⟩ := fromByte_behindClose hclose
      rw [← ScannedLine.code] at hcode
      rw [← ScannedLine.skeleton] at hskeleton
      simp only [Option.map_some, Nat.zero_add, hcode, hskeleton, pure_bind, annotationDepth_eq]

theorem gapContinues_eq (state : ScanState) (depth : Nat) (lines : List Text) :
    gapContinues state depth lines = pure (continuesGap state depth lines) := by
  induction lines generalizing state depth with
  | nil => rfl
  | cons line lines ih =>
    rw [gapContinues, gapDepth_eq, pure_bind, continuesGap]
    cases gapDepth? depth line (state.scan line) with
    | none => rfl
    | some next => exact ih _ next

theorem gapIsTransparent_eq (lines : List Text) :
    gapIsTransparent lines = pure (isTransparentGap lines) :=
  gapContinues_eq {} 0 lines

/-! ## §2 The states of the search -/

/-- Where the search for a comment stands. -/
inductive Search where
  /-- A line that ends in `*/` is sought on the lines below this number. -/
  | seekingClose (below : Nat)
  /-- The lines between this one and the declaration are to be checked. -/
  | verifyingGap (close : Nat)
  /-- The opening of the comment that closes on this line is sought. -/
  | seekingOpen (close : Nat)
  | found (start close : Nat)
  | exhausted
deriving DecidableEq, Repr

/-- Looks upward for a line that ends in `*/`. -/
def seekClose (lines : List Text) : (below : Nat) → Checked Search
  | 0 => pure .exhausted
  | index + 1 => do
    let line ← Checked.item lines index
    if closesComment line then return .verifyingGap index else seekClose lines index

/-- The verdict on line `opened`, which has `/*` at offset `start`. -/
def openedAt (lines : List Text) (opened start close : Nat) : Checked Search := do
  let line ← Checked.item lines opened
  let before ← line.upToByte start
  return if before.isBlankText then .found opened close else .seekingClose opened

/-- Looks upward for the opening of the comment that closes on line `close`. -/
def seekOpenAbove (lines : List Text) (close : Nat) : (below : Nat) → Checked Search
  | 0 => pure .exhausted
  | index + 1 => do
    let line ← Checked.item lines index
    if line.has "*/" then return .seekingClose (index + 1)
    match line.findMark "/*" with
    | some start => openedAt lines index start close
    | none => seekOpenAbove lines close index

/-- Looks for the opening of the comment that closes at the end of line `close`. -/
def seekOpen (lines : List Text) (close : Nat) : Checked Search := do
  let closeLine := (← Checked.item lines close).trimEnd
  let inside ← closeLine.upToByte (← Checked.minus closeLine.byteLength 2)
  match inside.findMark "/*" with
  | some start => openedAt lines close start close
  | none => seekOpenAbove lines close close

namespace Search

/-- One step of the search. -/
def step (lines : List Text) (declaration : Nat) : Search → Checked Search
  | seekingClose below => seekClose lines below
  | verifyingGap close => do
    let gap ← Checked.items lines (close + 1) declaration
    return if ← gapIsTransparent gap then seekingOpen close else seekingClose close
  | seekingOpen close => seekOpen lines close
  | found start close => pure (found start close)
  | exhausted => pure exhausted

/-- Takes steps until the search ends. -/
def run (lines : List Text) (declaration : Nat) :
    (fuel : Nat) → Search → Checked (Option (Nat × Nat))
  | _, found start close => pure (some (start, close))
  | _, exhausted => pure none
  | 0, _ => throw .endless
  | fuel + 1, state => do run lines declaration fuel (← step lines declaration state)

/-- The indices of a state are in the range that its next step needs. -/
def Fits (lines : List Text) (declaration : Nat) : Search → Prop
  | seekingClose below => below ≤ declaration
  | verifyingGap close => close < declaration ∧ closesComment (lineAt lines close) = true
  | seekingOpen close => close < declaration ∧ closesComment (lineAt lines close) = true
  | found start close => start ≤ close ∧ close < declaration
  | exhausted => True

/-- A bound on the steps that remain. -/
def remaining : Search → Nat
  | seekingClose below => 3 * below + 1
  | verifyingGap close => 3 * close + 3
  | seekingOpen close => 3 * close + 2
  | found _ _ => 0
  | exhausted => 0

/-- The comment that is found from a state on. -/
def answer (lines : List Text) (declaration : Nat) : Search → Option (Nat × Nat)
  | seekingClose below => searchComment lines declaration below below
  | verifyingGap close => searchComment lines declaration (close + 1) (close + 1)
  | seekingOpen close =>
    match openingOf lines close with
    | .at start => some (start, close)
    | .resume limit => searchComment lines declaration limit limit
    | .missing => none
  | found start close => some (start, close)
  | exhausted => none

/-- The state behind a search for the opening of the comment that closes on line `close`. -/
def ofOpening (close : Nat) : Opening → Search
  | .at start => found start close
  | .resume below => seekingClose below
  | .missing => exhausted

/-- What a step does: the next state fits the document as well, it is closer to the end, and the
same comment is found from it. -/
structure Leads (lines : List Text) (declaration : Nat) (state next : Search) : Prop where
  fits : next.Fits lines declaration
  closer : next.remaining < state.remaining
  answer_eq : next.answer lines declaration = state.answer lines declaration

end Search

/-! ## §3 Searching the lines -/

/-- The lines that an opening names are not below line `close`. -/
def IsWithin (close : Nat) : Opening → Prop
  | .at line => line ≤ close
  | .resume below => below ≤ close
  | .missing => True

section Lines

variable {lines : List Text} {declaration : Nat}

private theorem item_lineAt {index : Nat} (h : index < lines.length) :
    Checked.item lines index = pure (lineAt lines index) := by
  apply Checked.item_eq
  rw [lineAt, List.getD_eq_getElem?_getD, List.getElem?_eq_getElem h]
  rfl

private theorem isWithin_openingAfter (before : Text) {line close : Nat} (h : line ≤ close) :
    IsWithin close (openingAfter before line) := by
  rw [openingAfter]
  split
  · exact h
  · exact h

private theorem isWithin_openingAbove {below close : Nat} (h : below ≤ close) :
    IsWithin close (openingAbove lines below) := by
  induction below with
  | zero => trivial
  | succ line ih =>
    rw [openingAbove]
    split
    · exact h
    · split
      · exact isWithin_openingAfter _ (by omega)
      · exact ih (by omega)

theorem isWithin_openingOf (lines : List Text) (close : Nat) :
    IsWithin close (openingOf lines close) := by
  rw [openingOf]
  split
  · exact isWithin_openingAfter _ (Nat.le_refl close)
  · exact isWithin_openingAbove (Nat.le_refl close)

/-- Lines from the limit on are no candidates, and a limit further down changes nothing. -/
theorem searchComment_eq_min (below limit : Nat) :
    searchComment lines declaration below limit =
      searchComment lines declaration (min below limit) (min below limit) := by
  induction below generalizing limit with
  | zero => rw [Nat.zero_min, searchComment, searchComment]
  | succ line ih =>
    by_cases hline : line < limit
    · rw [Nat.min_eq_left hline, searchComment, searchComment, ih limit, ih (line + 1),
        Nat.min_eq_left hline.le, Nat.min_eq_left line.le_succ]
      simp only [hline, Nat.lt_succ_self]
    · have hlimit : limit ≤ line := Nat.le_of_not_lt hline
      rw [searchComment, ih limit, Nat.min_eq_right hlimit, Nat.min_eq_right (by omega)]
      simp [hline]

/-- The nearest line is a candidate, or the search goes on above it. -/
theorem searchComment_candidate (line : Nat) :
    searchComment lines declaration (line + 1) (line + 1) =
      if closesComment (lineAt lines line) = true ∧
          isTransparentGap ((lines.take declaration).drop (line + 1)) = true then
        (Search.seekingOpen line).answer lines declaration
      else searchComment lines declaration line line := by
  have hwithin := isWithin_openingOf lines line
  rw [searchComment, searchComment_eq_min line (line + 1), Nat.min_eq_left line.le_succ]
  simp only [Nat.lt_succ_self, decide_true, Bool.true_and, Bool.and_eq_true, Search.answer]
  split
  · cases hopening : openingOf lines line with
    | «at» start => rfl
    | resume limit =>
      have hlimit : limit ≤ line := by rwa [hopening] at hwithin
      show searchComment lines declaration line limit = searchComment lines declaration limit limit
      rw [searchComment_eq_min line, Nat.min_eq_right hlimit]
    | missing => rfl
  · rfl

theorem openedAt_eq {opened : Nat} (h : opened < lines.length) {before : Text}
    (hbefore : before <+: lineAt lines opened) (close : Nat) :
    openedAt lines opened before.byteLength close =
      pure (Search.ofOpening close (openingAfter before opened)) := by
  obtain ⟨rest, hline⟩ := hbefore
  rw [openedAt, item_lineAt h, pure_bind, ← hline, Text.upToByte_append, pure_bind, openingAfter]
  split <;> rfl

theorem seekOpenAbove_eq (close : Nat) {below : Nat} (h : below ≤ lines.length) :
    seekOpenAbove lines close below =
      pure (Search.ofOpening close (openingAbove lines below)) := by
  induction below with
  | zero => rfl
  | succ line ih =>
    rw [seekOpenAbove, item_lineAt h, pure_bind, openingAbove]
    split
    · rfl
    · rw [Text.findMark_eq]
      cases hcut : (lineAt lines line).cut? "/*" with
      | none => exact ih (by omega)
      | some parts =>
        obtain ⟨before, rest⟩ := parts
        exact openedAt_eq h ⟨_, (Text.cut?_eq_some hcut).symm⟩ close

/-- **The closing line is cut in front of its `*/`**, and the line of the opening in front of its
`/*`. -/
theorem seekOpen_eq {close : Nat} (h : close < lines.length)
    (hcloses : closesComment (lineAt lines close) = true) :
    seekOpen lines close = pure (Search.ofOpening close (openingOf lines close)) := by
  obtain ⟨inside, hinside⟩ := Option.isSome_iff_exists.mp hcloses
  have hend : (lineAt lines close).trimEnd = inside ++ "*/".toList :=
    Text.before?_eq_some_iff.mp hinside
  -- the line is at least as long as the mark it ends in
  have hminus : Checked.minus (Text.byteLength (inside ++ "*/".toList)) 2 =
      pure inside.byteLength := by
    rw [Text.byteLength_append]
    exact Checked.minus_add _ 2
  simp only [seekOpen, item_lineAt h, pure_bind, hend, hminus, Text.upToByte_append,
    Text.findMark_eq]
  rw [openingOf, hinside, Option.getD_some]
  cases hcut : inside.cut? "/*" with
  | none => exact seekOpenAbove_eq close h.le
  | some parts =>
    obtain ⟨before, rest⟩ := parts
    -- an offset inside the comment is also one of the line, which goes on behind it
    have hbefore : before <+: inside := ⟨_, (Text.cut?_eq_some hcut).symm⟩
    have hline : inside <+: lineAt lines close :=
      (List.prefix_append inside _).trans (hend ▸ Text.trimEnd_isPrefix (lineAt lines close))
    exact openedAt_eq h (hbefore.trans hline) close

/-! ## §4 The search -/

/-- Lines that do not end in `*/` are passed over. -/
theorem seekClose_leads (hdeclaration : declaration ≤ lines.length) {below : Nat}
    (h : below ≤ declaration) :
    ∃ next, seekClose lines below = pure next ∧
      Search.Leads lines declaration (.seekingClose below) next := by
  induction below with
  | zero => exact ⟨.exhausted, rfl, trivial, Nat.one_pos, rfl⟩
  | succ line ih =>
    rw [seekClose, item_lineAt (by omega), pure_bind]
    by_cases hcloses : closesComment (lineAt lines line) = true
    · rw [if_pos hcloses]
      refine ⟨.verifyingGap line, rfl, ⟨h, hcloses⟩, ?_, rfl⟩
      simp only [Search.remaining]
      omega
    · rw [if_neg hcloses]
      obtain ⟨next, hnext, hfits, hcloser, hanswer⟩ := ih (by omega)
      have habove : (Search.seekingClose (line + 1)).answer lines declaration =
          (Search.seekingClose line).answer lines declaration := by
        rw [Search.answer, searchComment_candidate, if_neg fun h => hcloses h.1]
        rfl
      refine ⟨next, hnext, hfits, ?_, hanswer.trans habove.symm⟩
      simp only [Search.remaining] at hcloser ⊢
      omega

private theorem leads_ofOpening {close : Nat} (h : close < declaration) :
    Search.Leads lines declaration (.seekingOpen close)
      (Search.ofOpening close (openingOf lines close)) := by
  have hwithin := isWithin_openingOf lines close
  have hanswer : (Search.seekingOpen close).answer lines declaration =
      (Search.ofOpening close (openingOf lines close)).answer lines declaration := by
    rw [Search.answer]
    cases openingOf lines close <;> rfl
  cases hopening : openingOf lines close with
  | «at» start =>
    rw [hopening] at hwithin hanswer
    exact ⟨⟨hwithin, h⟩, Nat.succ_pos _, hanswer.symm⟩
  | resume below =>
    rw [hopening] at hwithin hanswer
    have hbelow : below ≤ close := hwithin
    refine ⟨hbelow.trans h.le, ?_, hanswer.symm⟩
    simp only [Search.ofOpening, Search.remaining]
    omega
  | missing =>
    rw [hopening] at hanswer
    exact ⟨trivial, Nat.succ_pos _, hanswer.symm⟩

namespace Search

/-- **A step of the search has its lines, ranges and offsets in the document**, and leads on. -/
theorem step_eq (hdeclaration : declaration ≤ lines.length) {state : Search}
    (hfits : state.Fits lines declaration) (hlive : 0 < state.remaining) :
    ∃ next, state.step lines declaration = pure next ∧ Leads lines declaration state next := by
  cases state with
  | seekingClose below => exact seekClose_leads hdeclaration hfits
  | verifyingGap close =>
    obtain ⟨hclose, hcloses⟩ := hfits
    rw [step, Checked.items_eq hclose hdeclaration, pure_bind, gapIsTransparent_eq, pure_bind]
    have hcandidate := @searchComment_candidate lines declaration close
    by_cases hgap : isTransparentGap ((lines.take declaration).drop (close + 1)) = true
    · rw [if_pos ⟨hcloses, hgap⟩] at hcandidate
      rw [if_pos hgap]
      exact ⟨_, rfl, ⟨hclose, hcloses⟩, Nat.lt_succ_self _, hcandidate.symm⟩
    · rw [if_neg fun h => hgap h.2] at hcandidate
      rw [if_neg hgap]
      refine ⟨_, rfl, hclose.le, ?_, hcandidate.symm⟩
      simp only [remaining]
      omega
  | seekingOpen close =>
    obtain ⟨hclose, hcloses⟩ := hfits
    exact ⟨_, seekOpen_eq (by omega) hcloses, leads_ofOpening hclose⟩
  | found start close => exact absurd hlive (Nat.lt_irrefl 0)
  | exhausted => exact absurd hlive (Nat.lt_irrefl 0)

private theorem run_of_ended (fuel : Nat) {state : Search} (h : state.remaining = 0) :
    run lines declaration fuel state = pure (state.answer lines declaration) := by
  cases state with
  | found start close => rw [run, answer]
  | exhausted => rw [run, answer]
  | seekingClose below => exact absurd h (Nat.succ_ne_zero _)
  | verifyingGap close => exact absurd h (Nat.succ_ne_zero _)
  | seekingOpen close => exact absurd h (Nat.succ_ne_zero _)

theorem run_succ (fuel : Nat) {state : Search} (h : 0 < state.remaining) :
    run lines declaration (fuel + 1) state =
      (do run lines declaration fuel (← state.step lines declaration)) := by
  cases state with
  | found start close => exact absurd h (Nat.lt_irrefl 0)
  | exhausted => exact absurd h (Nat.lt_irrefl 0)
  | seekingClose below => rfl
  | verifyingGap close => rfl
  | seekingOpen close => rfl

/-- **The search ends with the comment that is found from its state on.** -/
theorem run_eq (hdeclaration : declaration ≤ lines.length) {fuel : Nat} {state : Search}
    (hfits : state.Fits lines declaration) (hfuel : state.remaining ≤ fuel) :
    run lines declaration fuel state = pure (state.answer lines declaration) := by
  induction fuel generalizing state with
  | zero => exact run_of_ended 0 (Nat.le_zero.mp hfuel)
  | succ fuel ih =>
    rcases Nat.eq_zero_or_pos state.remaining with hended | hlive
    · exact run_of_ended _ hended
    · obtain ⟨next, hstep, hleads⟩ := step_eq hdeclaration hfits hlive
      have hcloser := hleads.closer
      rw [run_succ fuel hlive, hstep, pure_bind, ih hleads.fits (by omega), hleads.answer_eq]

/-- What is found is a range of lines above the declaration. -/
theorem answer_bounds (hdeclaration : declaration ≤ lines.length) {state : Search}
    (hfits : state.Fits lines declaration) {start close : Nat}
    (h : state.answer lines declaration = some (start, close)) :
    start ≤ close ∧ close < declaration := by
  induction hn : state.remaining using Nat.strong_induction_on generalizing state with
  | _ n ih =>
    rcases Nat.eq_zero_or_pos state.remaining with hended | hlive
    · cases state with
      | found first last =>
        cases h
        exact hfits
      | exhausted => simp [answer] at h
      | seekingClose below => exact absurd hended (Nat.succ_ne_zero _)
      | verifyingGap close => exact absurd hended (Nat.succ_ne_zero _)
      | seekingOpen close => exact absurd hended (Nat.succ_ne_zero _)
    · obtain ⟨next, hstep, hleads⟩ := step_eq hdeclaration hfits hlive
      exact ih next.remaining (hn ▸ hleads.closer) hleads.fits (hleads.answer_eq.trans h) rfl

end Search

end Lines

/-! ## §5 The text of a comment -/

/-- A line up to its last `*/`. -/
def cutClose (line : Text) : Checked Text :=
  match line.findLastMark "*/" with
  | some stop => line.upToByte (stop + 2)
  | none => pure line

/-- A line from its first `/*` on. -/
def cutOpen (line : Text) : Checked Text :=
  match line.findMark "/*" with
  | some start => line.fromByte start
  | none => pure line

/-- The lines from number `index` on, the one numbered `last` cut behind its last `*/` and the first
one in front of its first `/*`. -/
def cutLines (last : Nat) : (index : Nat) → List Text → Checked (List Text)
  | _, [] => pure []
  | index, line :: lines => do
    let line ← (if index = last then cutClose line else pure line)
    let line ← (if index = 0 then cutOpen line else pure line)
    return line :: (← cutLines last (index + 1) lines)

/-- The text of the comment on the given lines. -/
def blockText (lines : List Text) : Checked Text := do
  let last ← Checked.minus lines.length 1
  return Text.join ['\n'] (← cutLines last 0 lines)

/-- The comment of the declaration at line `declaration`. -/
def locateComment (lines : List Text) (declaration : Nat) : Checked (Option CommentBlock) := do
  let declaration := min declaration lines.length
  let search := Search.seekingClose declaration
  match ← search.run lines declaration search.remaining with
  | some (start, close) => do
    let block ← Checked.items lines start (close + 1)
    return some ⟨start, close, ← blockText block⟩
  | none => return none

theorem cutClose_eq (line : Text) : cutClose line = pure (upToClose line) := by
  rw [cutClose, upToClose, Text.findLastMark_eq]
  cases hcut : line.cutLast? "*/" with
  | none => rfl
  | some parts =>
    obtain ⟨before, rest⟩ := parts
    have hline : line = before ++ "*/".toList ++ rest := by
      rw [List.append_assoc]
      exact Text.cutLast?_eq_some hcut
    have hstop : before.byteLength + 2 = Text.byteLength (before ++ "*/".toList) := by
      rw [Text.byteLength_append]
      rfl
    show line.upToByte (before.byteLength + 2) = pure (before ++ "*/".toList)
    rw [hstop, hline]
    exact Text.upToByte_append _ rest

theorem cutOpen_eq (line : Text) : cutOpen line = pure (fromOpen line) := by
  rw [cutOpen, fromOpen, Text.findMark_eq]
  cases hcut : line.cut? "/*" with
  | none => rfl
  | some parts =>
    obtain ⟨before, rest⟩ := parts
    rw [Text.cut?_eq_some hcut]
    exact Text.fromByte_append before _

/-- Only the first line and the last one are cut. -/
theorem cutLines_eq {last index : Nat} {lines : List Text}
    (h : index + lines.length = last + 1) :
    cutLines last index lines =
      pure (if index = 0 then cutAtOpen (cutAtClose lines) else cutAtClose lines) := by
  induction lines generalizing index with
  | nil =>
    rw [cutLines]
    split <;> rfl
  | cons line lines ih =>
    rw [List.length_cons] at h
    rw [cutLines, ih (by omega), if_neg (Nat.succ_ne_zero index)]
    cases lines with
    | nil =>
      have hlast : index = last := by simpa using h
      rw [if_pos hlast, cutClose_eq, pure_bind]
      split
      · rw [cutOpen_eq]
        rfl
      · rfl
    | cons next lines =>
      have hlast : index ≠ last := by
        rw [List.length_cons] at h
        omega
      rw [if_neg hlast, pure_bind]
      split
      · rw [cutOpen_eq]
        rfl
      · rfl

theorem blockText_eq {lines : List Text} (h : lines ≠ []) :
    blockText lines = pure (DeclDocs.blockText lines) := by
  have hpos : 1 ≤ lines.length := List.length_pos_iff.mpr h
  rw [blockText, Checked.minus_eq hpos, pure_bind, cutLines_eq (by omega), if_pos rfl]
  rfl

/-- **Comments found by index and offset are those of the lines.** -/
theorem locateComment_eq (lines : List Text) (declaration : Nat) :
    locateComment lines declaration = pure (DeclDocs.locateComment lines declaration) := by
  have hdeclaration : min declaration lines.length ≤ lines.length := Nat.min_le_right _ _
  have hfits : (Search.seekingClose (min declaration lines.length)).Fits lines
      (min declaration lines.length) := Nat.le_refl _
  have hbounds := @Search.answer_bounds lines _ hdeclaration _ hfits
  simp only [locateComment, Search.run_eq hdeclaration hfits (Nat.le_refl _), pure_bind,
    DeclDocs.locateComment]
  simp only [Search.answer] at hbounds ⊢
  cases hfound : searchComment lines (min declaration lines.length)
      (min declaration lines.length) (min declaration lines.length) with
  | none => rfl
  | some range =>
    obtain ⟨start, close⟩ := range
    obtain ⟨hstart, hclose⟩ := hbounds hfound
    have hblock : (lines.take (close + 1)).drop start ≠ [] := by
      rw [← List.length_pos_iff, List.length_drop, List.length_take]
      omega
    simp only [Checked.items_eq (by omega : start ≤ close + 1)
      (by omega : close + 1 ≤ lines.length), pure_bind, blockText_eq hblock, Option.map_some]

/-! ## §6 Tags of a comment -/

/-- Reads a comment from its text, delimiters included. -/
def parseComment (text : Text) : Checked DocComment := do
  let body := text.lines.map DocComment.undecorate
  let tagsAt := body.findIdx DocComment.startsTag
  let description ← Checked.items body 0 tagsAt
  let tags ← Checked.items body tagsAt body.length
  return {
    description := Text.trim (Text.join ['\n'] description)
    tagSection := Text.join ['\n'] tags
    raw := text }

theorem parseComment_eq (text : Text) : parseComment text = pure (DocComment.parse text) := by
  simp only [parseComment, Checked.items_eq (Nat.zero_le _) List.findIdx_le_length,
    Checked.items_eq List.findIdx_le_length (Nat.le_refl _), pure_bind, List.drop_zero,
    List.take_length, DocComment.parse, List.takeWhile_eq_take_findIdx_not,
    List.dropWhile_eq_drop_findIdx_not, Bool.not_not]

end Offsets

end DeclDocs
