import DeclDocs.Comment.Search
import DeclDocs.Proofs.Text.Marks

/-!
# Which comments are found whole

A comment that begins its first line, ends its last one and stands directly above a declaration is
read forward from its opening to the first `*/`.  The search for it goes backward and takes the
nearest `/*` for the opening.  The two agree on every comment that stands on one line.  On a longer
one they agree exactly when no further `/*` stands behind its first line and the opening is not
followed by a slash, which would make a `*/` of its star.

* `commentBody?`: the comment that some lines hold, read forward.
* `opensOnce`: nothing in the comment can be taken for another opening.
* `locateComment_eq_iff`: the search finds the comment exactly then.
-/

namespace DeclDocs

/-! ## §1 Comments read forward -/

/-- The texts up to the first `*/`, which stands in the last of them with only blanks behind it. -/
def upToFirstClose? : List Text → Option (List Text)
  | [] => none
  | text :: texts =>
    match text.cut? "*/" with
    | some (inside, rest) => if texts.isEmpty && rest.isBlankText then some [inside] else none
    | none => (upToFirstClose? texts).map (text :: ·)

/-- What the comment on the lines holds between its delimiters, line by line: `/*` is the first
thing on the first line, and the first `*/` behind it the last thing on the last line. -/
def commentBody? : List Text → Option (List Text)
  | [] => none
  | first :: rest =>
    (first.trimStart.after? "/*").bind fun opened => upToFirstClose? (opened :: rest)

/-- The text of a comment with its delimiters. -/
def commentText (body : List Text) : Text :=
  "/*" ++ (Text.join ['\n'] body ++ "*/")

/-- Nothing in the comment can be taken for another delimiter by a search from its end: it stands on
one line, or no `/*` stands on its later lines and no slash right behind its opening. -/
def opensOnce : List Text → Bool
  | [] => false
  | [_] => true
  | first :: rest => !Text.beginsWith (· == '/') first && rest.all fun text => !text.has "/*"

/-- The first `*/` of some texts, found in the last of them. -/
theorem exists_of_upToFirstClose? {texts body : List Text} (h : upToFirstClose? texts = some body) :
    ∃ (front : List Text) (inside blanks : Text),
      texts = front ++ [inside ++ ("*/".toList ++ blanks)] ∧ body = front ++ [inside] ∧
        (∀ text ∈ front, text.has "*/" = false) ∧ ∀ c ∈ blanks, isBlank c = true := by
  induction texts generalizing body with
  | nil => simp [upToFirstClose?] at h
  | cons text texts ih =>
    rw [upToFirstClose?] at h
    split at h
    case h_1 inside rest hcut =>
      split at h
      case isFalse => simp at h
      case isTrue hlast =>
        rw [Bool.and_eq_true, List.isEmpty_iff, Text.isBlankText, List.all_eq_true] at hlast
        obtain ⟨rfl, hblank⟩ := hlast
        cases h
        exact ⟨[], inside, rest, by rw [Text.cut?_eq_some hcut]; rfl, rfl, by simp, hblank⟩
    case h_2 hcut =>
      obtain ⟨body, hrest, rfl⟩ := Option.map_eq_some_iff.mp h
      obtain ⟨front, inside, blanks, rfl, rfl, hfront, hblank⟩ := ih hrest
      refine ⟨text :: front, inside, blanks, rfl, rfl, ?_, hblank⟩
      rintro other (_ | ⟨_, hmem⟩)
      · rw [Text.has, hcut]
        rfl
      · exact hfront other hmem

/-- The two forms of a comment: on one line, or on several. -/
theorem exists_of_commentBody? {comment body : List Text} (h : commentBody? comment = some body) :
    ∃ (indent inside blanks : Text), (∀ c ∈ indent, isBlank c = true) ∧
      (∀ c ∈ blanks, isBlank c = true) ∧
      ((comment = [indent ++ ("/*".toList ++ (inside ++ ("*/".toList ++ blanks)))] ∧
          body = [inside]) ∨
        ∃ (opened : Text) (middle : List Text),
          comment = (indent ++ ("/*".toList ++ opened)) ::
            (middle ++ [inside ++ ("*/".toList ++ blanks)]) ∧
          body = opened :: (middle ++ [inside]) ∧
          ∀ text ∈ opened :: middle, text.has "*/" = false) := by
  cases comment with
  | nil => simp [commentBody?] at h
  | cons first rest =>
    obtain ⟨opened, hafter, hclose⟩ := Option.bind_eq_some_iff.mp h
    -- the first line splits into its blanks, the opening and the rest
    have hindent : ∀ c ∈ first.takeWhile isBlank, isBlank c = true := fun c hc =>
      List.mem_takeWhile_imp hc
    have hfirst : first = first.takeWhile isBlank ++ ("/*".toList ++ opened) := by
      rw [← Text.after?_eq_some_iff.mp hafter]
      exact (List.takeWhile_append_dropWhile).symm
    obtain ⟨front, inside, blanks, htexts, hbody, hfront, hblank⟩ :=
      exists_of_upToFirstClose? hclose
    refine ⟨first.takeWhile isBlank, inside, blanks, hindent, hblank, ?_⟩
    cases front with
    | nil =>
      simp only [List.nil_append, List.cons.injEq] at htexts
      obtain ⟨hopened, rfl⟩ := htexts
      rw [hopened] at hfirst
      exact Or.inl ⟨by rw [← hfirst], hbody⟩
    | cons text middle =>
      simp only [List.cons_append, List.cons.injEq] at htexts
      obtain ⟨rfl, rfl⟩ := htexts
      exact Or.inr ⟨opened, middle, by rw [← hfirst], hbody, hfront⟩

/-! ## §2 Delimiters on a line -/

section Delimiters

variable {indent blanks : Text} (inside : Text)

private theorem trimEnd_closing (hblanks : ∀ c ∈ blanks, isBlank c = true) :
    Text.trimEnd (inside ++ ("*/".toList ++ blanks)) = inside ++ "*/".toList := by
  rw [← List.append_assoc]
  exact Text.trimEnd_append_blank (Text.endsIn_append (by decide) _) hblanks

private theorem closesComment_closing (hblanks : ∀ c ∈ blanks, isBlank c = true) :
    closesComment (inside ++ ("*/".toList ++ blanks)) = true := by
  rw [closesComment, trimEnd_closing inside hblanks, Text.endsWith, Text.before?_append]
  rfl

/-- The last `*/` of a line is the one at its end. -/
theorem cutLast?_closing (hblanks : ∀ c ∈ blanks, isBlank c = true) :
    Text.cutLast? (inside ++ ("*/".toList ++ blanks)) "*/" = some (inside, blanks) := by
  -- behind the star of that one no other begins
  have hnone : Text.cutLast? ('/' :: blanks) "*/" = none := by
    refine Text.cutLast?_eq_none (Text.has_eq_false_of_not_mem (m := '*') (by decide) ?_)
    intro hmem
    rcases List.mem_cons.mp hmem with h | h
    · exact absurd h (by decide)
    · exact Text.ne_of_class (hblanks _ h) (by decide) rfl
  have hlast : Text.cutLast? ("*/".toList ++ blanks) "*/" = some ([], blanks) := by
    change Text.cutLast? ('*' :: '/' :: blanks) "*/" = _
    rw [Text.cutLast?, hnone]
    exact congrArg (Option.map _) (Text.after?_append "*/".toList blanks)
  simpa using Text.cutLast?_front hlast inside

theorem upToClose_closing (hblanks : ∀ c ∈ blanks, isBlank c = true) :
    upToClose (inside ++ ("*/".toList ++ blanks)) = inside ++ "*/".toList := by
  rw [upToClose, cutLast?_closing inside hblanks]

theorem cut?_opening (hindent : ∀ c ∈ indent, isBlank c = true) (opened : Text) :
    Text.cut? (indent ++ ("/*".toList ++ opened)) "/*" = some (indent, opened) :=
  Text.cut?_append (fun c hc => Text.ne_of_class (hindent c hc) (by decide)) opened ['*']

theorem fromOpen_opening (hindent : ∀ c ∈ indent, isBlank c = true) (opened : Text) :
    fromOpen (indent ++ ("/*".toList ++ opened)) = "/*".toList ++ opened := by
  rw [fromOpen, cut?_opening hindent]

/-- An opening with a slash behind it holds a `*/`. -/
theorem has_close_opening (hindent : ∀ c ∈ indent, isBlank c = true) (opened : Text) :
    Text.has (indent ++ ("/*".toList ++ opened)) "*/" =
      (Text.beginsWith (· == '/') opened || Text.has opened "*/") := by
  have hfront := Text.has_front (m := '*')
    (fun c hc => Text.ne_of_class (hindent c hc) (by decide)) ("/*".toList ++ opened) ['/']
  have hslash : Text.has ("/*".toList ++ opened) "*/" = Text.has ('*' :: opened) "*/" :=
    Text.has_front (by decide : ∀ c ∈ ['/'], c ≠ '*') ('*' :: opened) ['/']
  have hstar : Text.startsWith ('*' :: opened) "*/" = Text.beginsWith (· == '/') opened := by
    cases opened with
    | nil => rfl
    | cons c cs =>
      by_cases hc : c = '/' <;> simp [Text.startsWith, Text.after?, hc]
  exact hfront.trans (hslash.trans (by rw [Text.has_cons, hstar]))

/-- A line without `*/` closes no comment. -/
theorem closesComment_eq_false {line : Text} (h : line.has "*/" = false) :
    closesComment line = false := by
  rw [← Bool.not_eq_true]
  intro hcloses
  obtain ⟨front, hbefore⟩ := Option.isSome_iff_exists.mp hcloses
  have hend : Text.has line.trimEnd "*/" = true := by
    rw [Text.has_iff_isInfix, Text.before?_eq_some_iff.mp hbefore]
    exact ⟨front, [], by simp⟩
  rw [Text.has_eq_false_of_isInfix (Text.trimEnd_isPrefix line).isInfix h] at hend
  exact Bool.noConfusion hend

end Delimiters

/-! ## §3 The search -/

section Search

variable {lines : List Text} {declaration close : Nat}

/-- Lines that do not end in `*/` are passed over. -/
theorem searchComment_skip {below limit : Nat} (hclose : close < below)
    (h : ∀ line, close < line → line < below → closesComment (lineAt lines line) = false) :
    searchComment lines declaration below limit =
      searchComment lines declaration (close + 1) limit := by
  induction below with
  | zero => omega
  | succ line ih =>
    by_cases hline : line = close
    · rw [hline]
    · have hskip := h line (by omega) (by omega)
      rw [searchComment, hskip, Bool.and_false, Bool.false_and]
      exact ih (by omega) fun other hlow hhigh => h other hlow (by omega)

/-- What is found ends above the lines that have been looked at. -/
theorem searchComment_lt {below limit start last : Nat}
    (h : searchComment lines declaration below limit = some (start, last)) : last < below := by
  induction below generalizing limit with
  | zero => simp [searchComment] at h
  | succ line ih =>
    rw [searchComment] at h
    split at h
    · split at h
      · cases h
        exact Nat.lt_succ_self _
      · exact Nat.lt_succ_of_lt (ih h)
      · simp at h
    · exact Nat.lt_succ_of_lt (ih h)

/-- The candidate directly above a declaration is found where its opening is. -/
theorem searchComment_eq_iff (hclose : close < declaration)
    (hskip : ∀ line, close < line → line < declaration →
      closesComment (lineAt lines line) = false)
    (hcloses : closesComment (lineAt lines close) = true)
    (hgap : isTransparentGap ((lines.take declaration).drop (close + 1)) = true) (start : Nat) :
    searchComment lines declaration declaration declaration = some (start, close) ↔
      openingOf lines close = .at start := by
  rw [searchComment_skip hclose hskip, searchComment, hcloses, hgap]
  simp only [hclose, decide_true, Bool.and_self, if_true]
  cases hopening : openingOf lines close with
  | «at» line => simp
  | resume limit =>
    -- whatever the search finds then ends above this candidate
    simp only [reduceCtorEq, iff_false]
    exact fun hfound => Nat.lt_irrefl close (searchComment_lt hfound)
  | missing => simp

/-- A line opens the comment when nothing but blanks stands in front of its first `/*`, it has no
`*/`, and no line below it has either. -/
theorem openingAbove_eq_at_iff {below start : Nat} :
    openingAbove lines below = .at start ↔ start < below ∧
      (∀ line, start < line → line < below →
        (lineAt lines line).has "*/" = false ∧ (lineAt lines line).has "/*" = false) ∧
      (lineAt lines start).has "*/" = false ∧
      ∃ before rest, (lineAt lines start).cut? "/*" = some (before, rest) ∧
        before.isBlankText = true := by
  induction below with
  | zero => simp [openingAbove]
  | succ line ih =>
    rw [openingAbove]
    split
    case isTrue hclose =>
      -- another `*/` stands in the way
      refine ⟨fun h => by simp at h, fun ⟨hlt, hbetween, hstart, _⟩ => ?_⟩
      have hnone : (lineAt lines line).has "*/" = false := by
        rcases Nat.lt_succ_iff_lt_or_eq.mp hlt with hlow | rfl
        · exact (hbetween line hlow (Nat.lt_succ_self _)).1
        · exact hstart
      rw [hnone] at hclose
      exact Bool.noConfusion hclose
    case isFalse hclose =>
      have hnone : (lineAt lines line).has "*/" = false := by simpa using hclose
      split
      case h_1 before rest hcut =>
        -- the line has a `/*`, and the search ends here either way
        constructor
        · intro h
          unfold openingAfter at h
          split at h
          case isFalse => simp at h
          case isTrue hblank =>
            cases h
            exact ⟨Nat.lt_succ_self _, fun other hlow hhigh => by omega, hnone, before, rest, hcut,
              hblank⟩
        · rintro ⟨hlt, hbetween, hstart, before', rest', hcut', hblank⟩
          rcases Nat.lt_succ_iff_lt_or_eq.mp hlt with hlow | rfl
          · -- the nearest `/*` counts, and this one stands below
            have hhas := (hbetween line hlow (Nat.lt_succ_self _)).2
            rw [Text.has, hcut] at hhas
            simp at hhas
          · rw [hcut] at hcut'
            cases hcut'
            rw [openingAfter, if_pos hblank]
      case h_2 hcut =>
        -- neither delimiter: the search goes on above
        have hopen : (lineAt lines line).has "/*" = false := by
          rw [Text.has, hcut]
          rfl
        rw [ih]
        constructor
        · rintro ⟨hlt, hbetween, hrest⟩
          refine ⟨Nat.lt_succ_of_lt hlt, fun other hlow hhigh => ?_, hrest⟩
          rcases Nat.lt_succ_iff_lt_or_eq.mp hhigh with hless | rfl
          · exact hbetween other hlow hless
          · exact ⟨hnone, hopen⟩
        · rintro ⟨hlt, hbetween, hstart, before, rest, hcut', hblank⟩
          rcases Nat.lt_succ_iff_lt_or_eq.mp hlt with hlow | rfl
          · exact ⟨hlow, fun other hlow hhigh => hbetween other hlow (Nat.lt_succ_of_lt hhigh),
              hstart, before, rest, hcut', hblank⟩
          · rw [hcut] at hcut'
            cases hcut'

end Search

/-! ## §4 The comment on its lines -/

theorem cutAtClose_append (front : List Text) (last : Text) :
    cutAtClose (front ++ [last]) = front ++ [upToClose last] := by
  induction front with
  | nil => rfl
  | cons text front ih =>
    cases front with
    | nil => rfl
    | cons next front =>
      change text :: cutAtClose (next :: front ++ [last]) = _
      rw [ih]
      rfl

/-- The lines of a comment give its text. -/
theorem blockText_eq_commentText {comment body : List Text} (h : commentBody? comment = some body) :
    blockText comment = commentText body := by
  obtain ⟨indent, inside, blanks, hindent, hblanks, ⟨rfl, rfl⟩ | ⟨opened, middle, rfl, rfl, _⟩⟩ :=
    exists_of_commentBody? h
  · have hline : indent ++ ("/*".toList ++ (inside ++ ("*/".toList ++ blanks))) =
        (indent ++ ("/*".toList ++ inside)) ++ ("*/".toList ++ blanks) := by simp
    rw [blockText, cutAtClose, hline, upToClose_closing _ hblanks, cutAtOpen, List.append_assoc,
      List.append_assoc, fromOpen_opening hindent]
    simp [Text.join, commentText]
  · rw [blockText, ← List.cons_append, cutAtClose_append, upToClose_closing _ hblanks,
      List.cons_append, cutAtOpen, fromOpen_opening hindent, Text.join_prepend, ← List.cons_append,
      Text.join_append_last]
    rfl

/-! ## §5 Backward and forward agree -/

theorem lineAt_append (above rest : List Text) (index : Nat) :
    lineAt (above ++ rest) (above.length + index) = lineAt rest index := by
  simp [lineAt, List.getD_eq_getElem?_getD, List.getElem?_append_right]

private theorem lineAt_append_left {front : List Text} {index : Nat} (h : index < front.length)
    (rest : List Text) : lineAt (front ++ rest) index = lineAt front index := by
  simp [lineAt, List.getD_eq_getElem?_getD, List.getElem?_append_left h]

theorem lineAt_eq_getElem {lines : List Text} {index : Nat} (h : index < lines.length) :
    lineAt lines index = lines[index] := by
  simp [lineAt, h]

/-- A run of lines, by number and by membership. -/
theorem forall_lineAt_iff (above middle rest : List Text) (p : Text → Prop) :
    (∀ line, above.length ≤ line → line < above.length + middle.length →
      p (lineAt (above ++ (middle ++ rest)) line)) ↔ ∀ text ∈ middle, p text := by
  constructor
  · intro h text hmem
    obtain ⟨index, hindex, rfl⟩ := List.mem_iff_getElem.mp hmem
    have hline := h (above.length + index) (by omega) (by omega)
    rwa [lineAt_append, lineAt_append_left hindex, lineAt_eq_getElem hindex] at hline
  · intro h line hlow hhigh
    obtain ⟨index, rfl⟩ := Nat.exists_eq_add_of_le hlow
    have hindex : index < middle.length := by omega
    rw [lineAt_append, lineAt_append_left hindex, lineAt_eq_getElem hindex]
    exact h _ (List.getElem_mem hindex)

theorem opensOnce_cons {rest : List Text} (h : rest ≠ []) (first : Text) :
    opensOnce (first :: rest) =
      (!Text.beginsWith (· == '/') first && rest.all fun text => !text.has "/*") := by
  cases rest with
  | nil => exact absurd rfl h
  | cons => rfl

/-- The opening of a comment on one line is found on that line. -/
theorem openingOf_singleton {indent inside blanks : Text} (hindent : ∀ c ∈ indent, isBlank c = true)
    (hblanks : ∀ c ∈ blanks, isBlank c = true) {lines : List Text} {close : Nat}
    (hline : lineAt lines close =
      indent ++ ("/*".toList ++ (inside ++ ("*/".toList ++ blanks)))) :
    openingOf lines close = .at close := by
  have hassoc : indent ++ ("/*".toList ++ (inside ++ ("*/".toList ++ blanks))) =
      (indent ++ ("/*".toList ++ inside)) ++ ("*/".toList ++ blanks) := by simp
  have hblank : Text.isBlankText indent = true := List.all_eq_true.mpr hindent
  unfold openingOf
  dsimp only
  rw [hline, hassoc, trimEnd_closing _ hblanks, Text.before?_append, Option.getD_some,
    cut?_opening hindent]
  dsimp only
  rw [openingAfter, if_pos hblank]

/-- Where the opening of a comment on several lines is found. -/
theorem openingOf_multiline_iff {indent opened blanks : Text} {middle : List Text} (inside : Text)
    (hindent : ∀ c ∈ indent, isBlank c = true) (hblanks : ∀ c ∈ blanks, isBlank c = true)
    (hclose : ∀ text ∈ opened :: middle, text.has "*/" = false) (above rest : List Text) :
    openingOf (above ++ ((indent ++ ("/*".toList ++ opened)) ::
        (middle ++ (inside ++ ("*/".toList ++ blanks)) :: rest)))
        (above.length + 1 + middle.length) = .at above.length ↔
      opensOnce (opened :: (middle ++ [inside])) = true := by
  -- from here on only the first line, the last one and those between them matter
  generalize hlines : above ++ ((indent ++ ("/*".toList ++ opened)) ::
    (middle ++ (inside ++ ("*/".toList ++ blanks)) :: rest)) = lines
  have hfirst : lineAt lines above.length = indent ++ ("/*".toList ++ opened) := by
    rw [← hlines]
    exact lineAt_append _ _ 0
  have hlast : lineAt lines (above.length + 1 + middle.length) =
      inside ++ ("*/".toList ++ blanks) := by
    have hsplit : lines = (above ++ (indent ++ ("/*".toList ++ opened)) :: middle) ++
        (inside ++ ("*/".toList ++ blanks)) :: rest := by
      rw [← hlines]
      simp
    have hlength : (above ++ (indent ++ ("/*".toList ++ opened)) :: middle).length =
        above.length + 1 + middle.length := by
      rw [List.length_append, List.length_cons]
      omega
    rw [hsplit, ← hlength]
    exact lineAt_append _ _ 0
  have hmiddle : ∀ p : Text → Prop, (∀ line, above.length < line →
      line < above.length + 1 + middle.length → p (lineAt lines line)) ↔
        ∀ text ∈ middle, p text := by
    intro p
    have hbetween := forall_lineAt_iff (above ++ [indent ++ ("/*".toList ++ opened)]) middle
      ((inside ++ ("*/".toList ++ blanks)) :: rest) p
    rw [List.length_append, List.length_singleton, List.append_assoc, List.singleton_append, hlines]
      at hbetween
    exact hbetween
  have hblank : Text.isBlankText indent = true := List.all_eq_true.mpr hindent
  rw [opensOnce_cons (by simp), openingOf, hlast, trimEnd_closing _ hblanks, Text.before?_append]
  dsimp only [Option.getD_some]
  cases hcut : Text.cut? inside "/*" with
  | some found =>
    -- the last line has an opening of its own
    have hhas : Text.has inside "/*" = true := by
      rw [Text.has, hcut]
      rfl
    have hne : ∀ before, openingAfter before (above.length + 1 + middle.length) ≠
        .at above.length := by
      intro before
      unfold openingAfter
      split
      · intro heq
        injection heq with hline
        omega
      · simp
    refine ⟨fun h => absurd h (hne found.1), fun h => ?_⟩
    rw [Bool.and_eq_true, List.all_eq_true] at h
    have := h.2 inside (by simp)
    rw [hhas] at this
    exact Bool.noConfusion this
  | none =>
    -- the search goes up from the last line
    have hinside : Text.has inside "/*" = false := by
      rw [Text.has, hcut]
      rfl
    have hopened : Text.has opened "*/" = false := hclose opened (List.mem_cons_self ..)
    dsimp only
    rw [openingAbove_eq_at_iff, hmiddle fun text => text.has "*/" = false ∧ text.has "/*" = false,
      hfirst, has_close_opening hindent, hopened, Bool.or_false, cut?_opening hindent,
      Bool.and_eq_true, Bool.not_eq_true', List.all_eq_true]
    constructor
    · rintro ⟨_, hopens, hslash, _⟩
      refine ⟨hslash, fun text hmem => ?_⟩
      rcases List.mem_append.mp hmem with h | h
      · rw [(hopens text h).2]
        rfl
      · rw [List.mem_singleton.mp h, hinside]
        rfl
    · rintro ⟨hslash, hall⟩
      refine ⟨by omega, fun text hmem => ⟨hclose text (List.mem_cons_of_mem _ hmem), ?_⟩, hslash,
        indent, opened, rfl, hblank⟩
      rw [← Bool.not_eq_true']
      exact hall text (List.mem_append_left _ hmem)

/-- The search from the end of a comment meets its opening first. -/
theorem openingOf_comment_iff {comment body : List Text} (h : commentBody? comment = some body)
    (above rest : List Text) :
    openingOf (above ++ (comment ++ rest)) (above.length + (comment.length - 1)) =
        .at above.length ↔ opensOnce body = true := by
  obtain ⟨indent, inside, blanks, hindent, hblanks,
    ⟨rfl, rfl⟩ | ⟨opened, middle, rfl, rfl, hclose⟩⟩ := exists_of_commentBody? h
  · have hopening := openingOf_singleton hindent hblanks (lineAt_append above
      ([indent ++ ("/*".toList ++ (inside ++ ("*/".toList ++ blanks)))] ++ rest) 0)
    exact ⟨fun _ => rfl, fun _ => hopening⟩
  · have hiff := openingOf_multiline_iff inside hindent hblanks hclose above rest
    have hline : above.length + ((indent ++ ("/*".toList ++ opened)) ::
        (middle ++ [inside ++ ("*/".toList ++ blanks)])).length - 1 =
          above.length + 1 + middle.length := by
      simp only [List.length_cons, List.length_append, List.length_nil]
      omega
    rw [← hiff, ← hline]
    simp

private theorem exists_last_of_commentBody? {comment body : List Text}
    (h : commentBody? comment = some body) :
    ∃ (front : List Text) (last : Text), comment = front ++ [last] ∧ closesComment last = true := by
  obtain ⟨indent, inside, blanks, _, hblanks, ⟨rfl, _⟩ | ⟨opened, middle, rfl, _, _⟩⟩ :=
    exists_of_commentBody? h
  · refine ⟨[], _, rfl, ?_⟩
    have := closesComment_closing (indent ++ ("/*".toList ++ inside)) hblanks
    simpa using this
  · exact ⟨_, _, (List.cons_append ..).symm, closesComment_closing inside hblanks⟩

/-- **A comment directly above a declaration is found whole exactly when nothing in it can be taken
for another delimiter.** -/
theorem locateComment_eq_iff {comment body : List Text} (hbody : commentBody? comment = some body)
    {gap : List Text} (hclose : ∀ line ∈ gap, closesComment line = false)
    (hgap : isTransparentGap gap = true) (above below : List Text) :
    locateComment (above ++ (comment ++ (gap ++ below)))
        (above.length + comment.length + gap.length) =
      some ⟨above.length, above.length + (comment.length - 1), commentText body⟩ ↔
        opensOnce body = true := by
  obtain ⟨front, last, hcomment, hlast⟩ := exists_last_of_commentBody? hbody
  have hlength : comment.length = front.length + 1 := by simp [hcomment]
  -- the comment and the gap by their line numbers
  generalize hlines : above ++ (comment ++ (gap ++ below)) = lines
  have hmin : min (above.length + comment.length + gap.length) lines.length =
      above.length + comment.length + gap.length := by
    rw [← hlines, List.length_append, List.length_append, List.length_append]
    omega
  have hnext : above.length + (comment.length - 1) + 1 = above.length + comment.length := by omega
  have htake : (lines.take (above.length + comment.length + gap.length)).drop
      (above.length + (comment.length - 1) + 1) = gap := by
    have hsplit : lines = ((above ++ comment) ++ gap) ++ below := by
      rw [← hlines]
      simp
    rw [hnext, hsplit, List.take_left' (by rw [List.length_append, List.length_append]),
      List.drop_left' (by rw [List.length_append])]
  have hown : (lines.take (above.length + (comment.length - 1) + 1)).drop above.length =
      comment := by
    have hsplit : lines = (above ++ comment) ++ (gap ++ below) := by
      rw [← hlines]
      simp
    rw [hnext, hsplit, List.take_left' (by simp), List.drop_left' rfl]
  have hskip : ∀ line, above.length + (comment.length - 1) < line →
      line < above.length + comment.length + gap.length →
        closesComment (lineAt lines line) = false := by
    have hall := (forall_lineAt_iff (above ++ comment) gap below
      fun text => closesComment text = false).mpr hclose
    rw [List.length_append, List.append_assoc, hlines] at hall
    exact fun line hlow hhigh => hall line (by omega) hhigh
  have hcloses : closesComment (lineAt lines (above.length + (comment.length - 1))) = true := by
    have hline : lineAt lines (above.length + (comment.length - 1)) = last := by
      have hindex : comment.length - 1 = front.length + 0 := by omega
      rw [← hlines, lineAt_append, lineAt_append_left (by omega), hindex, hcomment, lineAt_append]
      rfl
    rw [hline, hlast]
  -- the last line of the comment is the first candidate, so its opening decides
  have hsearch := searchComment_eq_iff
    (show above.length + (comment.length - 1) < above.length + comment.length + gap.length by omega)
    hskip hcloses (by rw [htake]; exact hgap) above.length
  rw [← openingOf_comment_iff hbody above (gap ++ below), hlines, ← hsearch, locateComment, hmin,
    Option.map_eq_some_iff]
  constructor
  · rintro ⟨⟨start, close⟩, hfound, heq⟩
    injection heq with hstart hend
    rw [hfound, hstart, hend]
  · intro hfound
    refine ⟨_, hfound, ?_⟩
    dsimp only
    rw [hown, blockText_eq_commentText hbody]

end DeclDocs
