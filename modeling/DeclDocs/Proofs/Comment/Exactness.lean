import DeclDocs.Proofs.Offsets.Comments

/-!
# The search for a comment is exact

Which lines hold the comment of a declaration can be said without the search: the comment ends its
last line, nothing but annotations stands between it and the declaration, and going up from its end
no other delimiter is met before an opening that begins a line.  Of all such lines the search finds
those nearest to the declaration.  When it gives up a candidate it goes on above it, sometimes many
lines above; no line that it leaves out ends a comment.

* `OpensAt`, `IsCommentAbove`, `IsNearestAbove`: the comments above a declaration.
* `closesComment_of_limit_le`: what the search passes over when it gives a candidate up.
* `isNearestAbove_searchComment`: the search on line numbers.
* `locateComment_exact`: the search gives the nearest comment and its text, and always ends.
-/

namespace DeclDocs

/-! ## §1 Comments above a declaration -/

/-- What stands in front of the `*/` at the end of a line. -/
def beforeClose (line : Text) : Text :=
  (line.trimEnd.before? "*/").getD []

/-- The text has a `/*`, and only blanks stand in front of the first one. -/
def BeginsComment (text : Text) : Prop :=
  ∃ before rest, text.cut? "/*" = some (before, rest) ∧ before.isBlankText = true

/-- The comment that closes at the end of line `last` opens on line `first`: on the same line, or on
the nearest line above it that has a delimiter. -/
def OpensAt (lines : List Text) (first last : Nat) : Prop :=
  first = last ∧ BeginsComment (beforeClose (lineAt lines last)) ∨
    first < last ∧ (beforeClose (lineAt lines last)).has "/*" = false ∧
      (∀ line, first < line → line < last →
        (lineAt lines line).has "*/" = false ∧ (lineAt lines line).has "/*" = false) ∧
      (lineAt lines first).has "*/" = false ∧ BeginsComment (lineAt lines first)

/-- Lines `first` to `last` hold a comment of the declaration at line `declaration`. -/
structure IsCommentAbove (lines : List Text) (declaration first last : Nat) : Prop where
  ordered : first ≤ last
  above : last < declaration
  closes : closesComment (lineAt lines last) = true
  gap : isTransparentGap ((lines.take declaration).drop (last + 1)) = true
  opens : OpensAt lines first last

/-- The comment of the declaration that ends furthest down among those that end above line
`below`; `none` if there is none. -/
def IsNearestAbove (lines : List Text) (declaration below : Nat) : Option (Nat × Nat) → Prop
  | none => ∀ first last, IsCommentAbove lines declaration first last → below ≤ last
  | some (first, last) => IsCommentAbove lines declaration first last ∧ last < below ∧
      ∀ other otherLast, IsCommentAbove lines declaration other otherLast → otherLast < below →
        otherLast ≤ last

/-- The text of lines `first` to `last` from the first `/*` of the one through the last `*/` of the
other. -/
def IsTextOf (lines : List Text) (first last : Nat) (text : Text) : Prop :=
  ∃ before opened inside after, (lineAt lines first).cut? "/*" = some (before, opened) ∧
    (lineAt lines last).cutLast? "*/" = some (inside, after) ∧
      Text.join ['\n'] ((lines.take (last + 1)).drop first) = before ++ (text ++ after)

theorem OpensAt.le {lines : List Text} {first last : Nat} (h : OpensAt lines first last) :
    first ≤ last := by
  rcases h with ⟨heq, _⟩ | ⟨hlt, _⟩
  · exact heq.le
  · exact hlt.le

/-! ## §2 Where the search for an opening ends -/

section Opening

variable {lines : List Text} {declaration first last close : Nat}

private theorem openingAfter_eq_at_iff {before : Text} :
    openingAfter before close = .at first ↔ first = close ∧ before.isBlankText = true := by
  unfold openingAfter
  split
  case isTrue hblank => simp [hblank, eq_comm]
  case isFalse hblank => simp [hblank]

/-- The opening that is found is the one that the comment has. -/
theorem openingOf_eq_at_iff : openingOf lines last = .at first ↔ OpensAt lines first last := by
  rw [openingOf, ← beforeClose, OpensAt]
  cases hcut : (beforeClose (lineAt lines last)).cut? "/*" with
  | some parts =>
    -- the last line has an opening of its own, which decides
    obtain ⟨before, rest⟩ := parts
    dsimp only
    rw [openingAfter_eq_at_iff]
    constructor
    · rintro ⟨rfl, hblank⟩
      exact Or.inl ⟨rfl, before, rest, hcut, hblank⟩
    · rintro (⟨rfl, before', rest', hcut', hblank⟩ | ⟨_, hnone, _⟩)
      · rw [hcut] at hcut'
        cases hcut'
        exact ⟨rfl, hblank⟩
      · rw [Text.has, hcut] at hnone
        exact Bool.noConfusion hnone
  | none =>
    have hnone : (beforeClose (lineAt lines last)).has "/*" = false := by
      rw [Text.has, hcut]
      rfl
    dsimp only
    rw [openingAbove_eq_at_iff]
    constructor
    · rintro ⟨hlt, hbetween, hclose, hbegins⟩
      exact Or.inr ⟨hlt, hnone, hbetween, hclose, hbegins⟩
    · rintro (⟨_, before, rest, hcut', _⟩ | ⟨hlt, _, hrest⟩)
      · rw [hcut] at hcut'
        cases hcut'
      · exact ⟨hlt, hrest⟩

/-- An opening is unique. -/
theorem OpensAt.unique {other : Nat} (h : OpensAt lines first last)
    (hother : OpensAt lines other last) : first = other := by
  have hfirst := openingOf_eq_at_iff.mpr h
  rw [openingOf_eq_at_iff.mpr hother] at hfirst
  injection hfirst with heq
  exact heq.symm

/-- The line from which on downwards the search has met no `*/` on its way to the opening. -/
def Opening.limit : Opening → Nat
  | .at line => line
  | .resume below => below
  | .missing => 0

/-- On the way up the search goes on only past lines without `*/`. -/
theorem has_of_limit_openingAbove {below line : Nat}
    (hlimit : (openingAbove lines below).limit ≤ line) (hline : line < below) :
    (lineAt lines line).has "*/" = false := by
  induction below with
  | zero => omega
  | succ next ih =>
    rw [openingAbove] at hlimit
    split at hlimit
    case isTrue => exact absurd hline (Nat.not_lt.mpr hlimit)
    case isFalse hclose =>
      rcases Nat.lt_succ_iff_lt_or_eq.mp hline with hlow | rfl
      · split at hlimit
        case h_1 before rest hcut =>
          -- the search ends on line `next`, above which it has not looked
          have hnext : (openingAfter before next).limit = next := by
            unfold openingAfter
            split <;> rfl
          omega
        case h_2 => exact ih hlimit hlow
      · simpa using hclose

/-- **No line that the search passes over ends a comment.** -/
theorem closesComment_of_limit_le {line : Nat} (hlimit : (openingOf lines close).limit ≤ line)
    (hline : line < close) : closesComment (lineAt lines line) = false := by
  apply closesComment_eq_false
  rw [openingOf] at hlimit
  split at hlimit
  case h_1 before rest hcut =>
    have hclose : (openingAfter before close).limit = close := by
      unfold openingAfter
      split <;> rfl
    omega
  case h_2 => exact has_of_limit_openingAbove hlimit hline

/-- A comment that ends at a candidate given up, or above it, ends above the line from which the
search goes on. -/
theorem IsCommentAbove.lt_limit (h : IsCommentAbove lines declaration first last)
    (hclose : last ≤ close) (hgiven : ∀ line, openingOf lines close ≠ .at line) :
    last < (openingOf lines close).limit := by
  by_contra hlimit
  rcases Nat.lt_or_eq_of_le hclose with hlt | rfl
  · have hcloses := closesComment_of_limit_le (Nat.le_of_not_lt hlimit) hlt
    rw [h.closes] at hcloses
    exact Bool.noConfusion hcloses
  · exact hgiven first (openingOf_eq_at_iff.mpr h.opens)

end Opening

/-! ## §3 The search on line numbers -/

section Search

variable {lines : List Text} {declaration : Nat}

/-- Only the comments that end above a line matter for which of them is the nearest. -/
theorem IsNearestAbove.congr {below limit : Nat} {found : Option (Nat × Nat)}
    (h : IsNearestAbove lines declaration limit found)
    (hsame : ∀ first last, IsCommentAbove lines declaration first last →
      (last < below ↔ last < limit)) :
    IsNearestAbove lines declaration below found := by
  match found with
  | none =>
    intro first last hcomment
    rw [← Nat.not_lt, hsame first last hcomment, Nat.not_lt]
    exact h first last hcomment
  | some (first, last) =>
    obtain ⟨hcomment, hlast, hnearest⟩ := h
    refine ⟨hcomment, (hsame first last hcomment).mpr hlast, fun other otherLast hother hlt => ?_⟩
    exact hnearest other otherLast hother ((hsame other otherLast hother).mp hlt)

/-- There is at most one nearest comment. -/
theorem IsNearestAbove.unique {below : Nat} {found other : Option (Nat × Nat)}
    (h : IsNearestAbove lines declaration below found)
    (hother : IsNearestAbove lines declaration below other) : found = other := by
  match found, other with
  | none, none => rfl
  | none, some (first, last) =>
    exact absurd hother.2.1 (Nat.not_lt.mpr (h first last hother.1))
  | some (first, last), none =>
    exact absurd h.2.1 (Nat.not_lt.mpr (hother first last h.1))
  | some (first, last), some (first', last') =>
    obtain ⟨hcomment, hlast, hnearest⟩ := h
    obtain ⟨hcomment', hlast', hnearest'⟩ := hother
    obtain rfl : last = last' :=
      Nat.le_antisymm (hnearest' first last hcomment hlast) (hnearest first' last' hcomment' hlast')
    rw [hcomment.opens.unique hcomment'.opens]

/-- **The search finds the nearest comment.** -/
theorem isNearestAbove_searchComment {below : Nat} (hbelow : below ≤ declaration) :
    IsNearestAbove lines declaration below (searchComment lines declaration below below) := by
  -- on the line number, since a candidate given up sends the search up by more than one line
  induction below using Nat.strongRecOn with
  | ind below ih =>
    cases below with
    | zero => exact fun _ last _ => Nat.zero_le last
    | succ line =>
      rw [Offsets.searchComment_candidate]
      split
      case isFalse hno =>
        -- line `line` is no candidate
        refine (ih line line.lt_succ_self (by omega)).congr fun first last hcomment => ?_
        have hne : last ≠ line := by
          rintro rfl
          exact hno ⟨hcomment.closes, hcomment.gap⟩
        omega
      case isTrue hcandidate =>
        have hwithin := Offsets.isWithin_openingOf lines line
        have hpassed := fun first last => @IsCommentAbove.lt_limit lines declaration first last line
        simp only [Offsets.Search.answer]
        cases hopening : openingOf lines line with
        | «at» start =>
          have hopens := openingOf_eq_at_iff.mp hopening
          refine ⟨⟨hopens.le, hbelow, hcandidate.1, hcandidate.2, hopens⟩, line.lt_succ_self, ?_⟩
          exact fun other otherLast _ hlt => Nat.le_of_lt_succ hlt
        | resume limit =>
          rw [hopening] at hwithin hpassed
          have hlimit : limit ≤ line := hwithin
          refine (ih limit (by omega) (by omega)).congr fun first last hcomment => ?_
          have hlast := hpassed first last hcomment
          simp only [Opening.limit, reduceCtorEq, ne_eq, not_false_eq_true, implies_true,
            forall_const] at hlast
          omega
        | missing =>
          rw [hopening] at hpassed
          intro first last hcomment
          by_contra hlast
          have hlimit := hpassed first last hcomment (by omega) (by simp)
          exact Nat.not_lt_zero last hlimit

end Search

/-! ## §4 The text of a comment -/

/-- A line that ends a comment, taken apart. -/
theorem exists_of_closesComment {line : Text} (h : closesComment line = true) :
    ∃ blanks : Text, (∀ c ∈ blanks, isBlank c = true) ∧
      line = beforeClose line ++ ("*/".toList ++ blanks) := by
  obtain ⟨inside, hinside⟩ := Option.isSome_iff_exists.mp h
  obtain ⟨blanks, hline, hblanks⟩ := Text.exists_trimEnd_append line
  refine ⟨blanks, hblanks, ?_⟩
  rw [beforeClose, hinside, Option.getD_some, ← List.append_assoc,
    ← Text.before?_eq_some_iff.mp hinside]
  exact hline

private theorem BeginsComment.exists_opening {text : Text} (h : BeginsComment text) :
    ∃ indent opened : Text, (∀ c ∈ indent, isBlank c = true) ∧
      text = indent ++ ("/*".toList ++ opened) := by
  obtain ⟨before, rest, hcut, hblank⟩ := h
  exact ⟨before, rest, List.all_eq_true.mp hblank, Text.cut?_eq_some hcut⟩

private theorem take_drop_singleton {lines : List Text} {line : Nat} (h : line < lines.length) :
    (lines.take (line + 1)).drop line = [lineAt lines line] := by
  rw [lineAt_eq_getElem h, List.drop_take, Nat.add_sub_cancel_left, List.drop_eq_getElem_cons h,
    List.take_succ_cons, List.take_zero]

/-- Lines `first` to `last` with those between them. -/
theorem take_drop_eq_append {lines : List Text} {first last : Nat} (hlt : first < last)
    (hlast : last < lines.length) :
    (lines.take (last + 1)).drop first =
      lineAt lines first :: ((lines.take last).drop (first + 1) ++ [lineAt lines last]) := by
  have hfirst : first < (lines.take last).length := by
    rw [List.length_take]
    omega
  rw [lineAt_eq_getElem hlast, List.take_succ_eq_append_getElem hlast,
    List.drop_append_of_le_length hfirst.le, List.drop_eq_getElem_cons hfirst,
    List.getElem_take, lineAt_eq_getElem (by omega), List.cons_append]

/-- The text that is cut out of the lines of a comment. -/
theorem isTextOf_blockText {lines : List Text} {declaration first last : Nat}
    (h : IsCommentAbove lines declaration first last) (hdeclaration : declaration ≤ lines.length) :
    IsTextOf lines first last (blockText ((lines.take (last + 1)).drop first)) := by
  have hlength : last < lines.length := by
    have := h.above
    omega
  obtain ⟨blanks, hblanks, hclose⟩ := exists_of_closesComment h.closes
  have hcutLast := cutLast?_closing (beforeClose (lineAt lines last)) hblanks
  have hupTo := upToClose_closing (beforeClose (lineAt lines last)) hblanks
  rw [← hclose] at hcutLast hupTo
  rcases h.opens with ⟨rfl, hbegins⟩ | ⟨hlt, _, _, _, hbegins⟩
  · -- on one line
    obtain ⟨indent, opened, hindent, hinside⟩ := hbegins.exists_opening
    have hcut := cut?_opening hindent (opened ++ ("*/".toList ++ blanks))
    have hline : lineAt lines first =
        indent ++ ("/*".toList ++ (opened ++ ("*/".toList ++ blanks))) := by
      rw [hclose, hinside]
      simp
    rw [← hline] at hcut
    refine ⟨_, _, _, _, hcut, hcutLast, ?_⟩
    have hblock : blockText [lineAt lines first] = "/*".toList ++ (opened ++ "*/".toList) := by
      rw [blockText, cutAtClose, hupTo, cutAtOpen, hinside, List.append_assoc, List.append_assoc,
        fromOpen_opening hindent, Text.join_singleton]
    rw [take_drop_singleton hlength, hblock, Text.join_singleton, hline]
    simp
  · -- on several lines
    obtain ⟨indent, opened, hindent, hfirst⟩ := hbegins.exists_opening
    have hcut := cut?_opening hindent opened
    rw [← hfirst] at hcut
    refine ⟨_, _, _, _, hcut, hcutLast, ?_⟩
    rw [take_drop_eq_append hlt hlength]
    generalize (lines.take last).drop (first + 1) = middle
    have hopen : fromOpen (lineAt lines first) = "/*".toList ++ opened := by
      rw [hfirst, fromOpen_opening hindent]
    have hblock : blockText (lineAt lines first :: (middle ++ [lineAt lines last])) =
        Text.join ['\n'] (("/*".toList ++ opened) ::
          (middle ++ [beforeClose (lineAt lines last) ++ "*/".toList])) := by
      rw [blockText, ← List.cons_append, cutAtClose_append, hupTo, List.cons_append, cutAtOpen,
        hopen]
    have hjoin : Text.join ['\n'] (("/*".toList ++ opened) :: (middle ++ [lineAt lines last])) =
        Text.join ['\n'] (("/*".toList ++ opened) ::
          (middle ++ [beforeClose (lineAt lines last) ++ "*/".toList])) ++ blanks := by
      have hsplit : lineAt lines last =
          (beforeClose (lineAt lines last) ++ "*/".toList) ++ blanks := by
        rw [List.append_assoc]
        exact hclose
      conv_lhs => rw [hsplit]
      rw [← List.cons_append, Text.join_append_last, List.cons_append]
    rw [hblock, ← hjoin]
    conv_lhs => rw [hfirst]
    exact Text.join_prepend ..

/-- The text between two delimiters is determined. -/
theorem IsTextOf.unique {lines : List Text} {first last : Nat} {text other : Text}
    (h : IsTextOf lines first last text) (hother : IsTextOf lines first last other) :
    text = other := by
  obtain ⟨before, opened, inside, after, hcut, hcutLast, hjoin⟩ := h
  obtain ⟨before', opened', inside', after', hcut', hcutLast', hjoin'⟩ := hother
  rw [hcut] at hcut'
  rw [hcutLast] at hcutLast'
  cases hcut'
  cases hcutLast'
  rw [hjoin'] at hjoin
  exact (List.append_cancel_right (List.append_cancel_left hjoin)).symm

/-! ## §5 The comment of a declaration -/

/-- **The search for a comment is exact.**  It gives the comment that ends furthest down among those
above the declaration, with its text from the opening to the closing delimiter, and nothing if there
is none.  A candidate that it gives up sends it above that candidate, and no comment ends on the
lines it leaves out.  The machine that does this ends within three steps for each line. -/
theorem locateComment_exact (lines : List Text) (declaration : Nat) :
    let limit := min declaration lines.length
    (∀ block, locateComment lines declaration = some block ↔
        IsNearestAbove lines limit limit (some (block.startLine, block.endLine)) ∧
          IsTextOf lines block.startLine block.endLine block.text) ∧
      (locateComment lines declaration = none ↔
        ∀ first last, ¬ IsCommentAbove lines limit first last) ∧
      (∀ close below, openingOf lines close = .resume below → below ≤ close ∧
        ∀ first last, IsCommentAbove lines limit first last → last ≤ close → last < below) ∧
      (Offsets.Search.seekingClose limit).run lines limit (3 * limit + 1) =
        pure ((locateComment lines declaration).map fun block =>
          (block.startLine, block.endLine)) := by
  intro limit
  have hlimit : limit ≤ lines.length := Nat.min_le_right ..
  have hnearest : IsNearestAbove lines limit limit (searchComment lines limit limit limit) :=
    isNearestAbove_searchComment (Nat.le_refl limit)
  have hlocate : locateComment lines declaration =
      (searchComment lines limit limit limit).map fun found =>
        ⟨found.1, found.2, blockText ((lines.take (found.2 + 1)).drop found.1)⟩ := rfl
  refine ⟨fun block => ?_, ?_, fun close below hresume => ⟨?_, ?_⟩, ?_⟩
  · rw [hlocate, Option.map_eq_some_iff]
    constructor
    · rintro ⟨⟨start, close⟩, hfound, rfl⟩
      rw [hfound] at hnearest
      exact ⟨hnearest, isTextOf_blockText hnearest.1 hlimit⟩
    · rintro ⟨hblock, htext⟩
      refine ⟨_, hnearest.unique hblock, ?_⟩
      obtain ⟨start, close, text⟩ := block
      dsimp only at hblock htext ⊢
      rw [(isTextOf_blockText hblock.1 hlimit).unique htext]
  · rw [hlocate, Option.map_eq_none_iff]
    constructor
    · intro hnone first last hcomment
      rw [hnone] at hnearest
      exact absurd hcomment.above (Nat.not_lt.mpr (hnearest first last hcomment))
    · intro hno
      exact hnearest.unique fun first last hcomment => absurd hcomment (hno first last)
  · have hwithin := Offsets.isWithin_openingOf lines close
    rwa [hresume] at hwithin
  · intro first last hcomment hle
    have hlast := hcomment.lt_limit hle (by simp [hresume])
    rwa [hresume] at hlast
  · have hfits : (Offsets.Search.seekingClose limit).Fits lines limit := Nat.le_refl limit
    have hfuel : (Offsets.Search.seekingClose limit).remaining ≤ 3 * limit + 1 := Nat.le_refl _
    rw [Offsets.Search.run_eq hlimit hfits hfuel, hlocate, Option.map_map]
    exact congrArg pure Option.map_id'.symm

end DeclDocs
