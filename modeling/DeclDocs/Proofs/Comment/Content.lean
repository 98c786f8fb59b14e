import DeclDocs.Proofs.Tag.Tokens

/-!
# The content of a documentation comment

A documentation comment written from its content: a line that opens it, a line with a star in front
for each line of the description and of the tags, and a line that closes it.  Reading the comment
takes delimiters and stars off again, finds where the tags begin and gives the content back, whatever
characters are in it, as long as nothing in it closes the comment.

* `DocContent`: a description and tags, with `DocContent.text` for the comment.
* `IsTextLine`: the lines of the content; `undecorate_star` takes off their decoration.
* `DocContent.parse_eq_content`: reading the comment gives its description and its tags.
-/

namespace DeclDocs

open Text (isSolid beginsWith endsIn)

/-! ## §1 Comments and their content -/

/-- The description and the tags of a comment.  Nothing in them closes the comment, and no line of
the description looks like decoration or like a tag. -/
structure DocContent where
  description : List Text
  /-- A text whose blocks are the tags of the comment. -/
  tagText : Text
  oneLine : ∀ line ∈ description, '\n' ∉ line
  trimmed : ∀ line ∈ description, line.trim = line
  unstarred : ∀ line ∈ description, beginsWith (· == '*') line = false
  untagged : ∀ line ∈ description, DocComment.startsTag line = false
  firstNonempty : description.head? ≠ some []
  lastNonempty : description.getLast? ≠ some []
  unclosed : ∀ line ∈ description, line.has "*/" = false
  blocksUnclosed : ∀ block ∈ TagBlock.ofSection tagText, block.content.has "*/" = false

namespace DocContent

variable (doc : DocContent)

/-- The tag blocks. -/
def blocks : List TagBlock :=
  TagBlock.ofSection doc.tagText

/-- The lines of the tags. -/
def tagLines : List Text :=
  doc.blocks.flatMap fun block => block.toSource.lines

/-- The lines of the comment, each with its decoration. -/
def lines : List Text :=
  "/**".toList :: ((doc.description ++ doc.tagLines).map (" * ".toList ++ ·) ++ [" */".toList])

/-- The comment. -/
def text : Text :=
  Text.join ['\n'] doc.lines

end DocContent

/-! ## §2 Lines of the content -/

/-- A line of the content: it has no decoration and does not close the comment. -/
structure IsTextLine (line : Text) : Prop where
  oneLine : '\n' ∉ line
  bare : beginsWith isDecoration line = false
  trimmed : line.trimEnd = line
  unclosed : line.has "*/" = false

theorem IsTextLine.ends {line : Text} (h : IsTextLine line) (hne : line ≠ []) :
    endsIn isSolid line = true := by
  rw [← h.trimmed] at hne ⊢
  exact Text.endsIn_trimEnd hne

/-- A line behind a star comes back from a document as it is written. -/
theorem IsTextLine.isLine_star {line : Text} (h : IsTextLine line) :
    Text.IsLine (" * ".toList ++ line) := by
  refine ⟨?_, ?_⟩
  · rw [List.mem_append, not_or]
    exact ⟨by decide, h.oneLine⟩
  · by_cases hne : line = []
    · rw [hne]
      decide
    · exact Text.endsIn_append (Text.IsLine.of_solid h.oneLine (h.ends hne)).ends _

private theorem isTextLine_of_mem_description (doc : DocContent) {line : Text}
    (h : line ∈ doc.description) : IsTextLine line := by
  have hsolid := Text.solid_of_trim_eq (doc.trimmed line h)
  have hstar := doc.unstarred line h
  refine ⟨doc.oneLine line h, ?_, ?_, doc.unclosed line h⟩
  · cases line with
    | nil => rfl
    | cons c cs =>
      have hblank := (hsolid (List.cons_ne_nil c cs)).1
      simp only [Text.beginsWith_cons, isSolid, Bool.not_eq_true'] at hblank hstar
      rw [Text.beginsWith_cons, isDecoration, hblank, hstar]
      rfl
  · by_cases hne : line = []
    · rw [hne]
      rfl
    · exact Text.trimEnd_eq_self (hsolid hne).2

/-- A delimiter that the content of a block does not have is on no line of its text: the tag itself
has neither slash nor star. -/
theorem has_of_mem_sourceLines {block : TagBlock} (hread : block.IsRead) {m : Char}
    (hm : m = '/' ∨ m = '*') {mark : Text} (hcontent : block.content.has (m :: mark) = false)
    {line : Text} (h : line ∈ block.toSource.lines) : line.has (m :: mark) = false := by
  obtain ⟨tail, rest, hsource⟩ := TagBlock.exists_sourceLines hread
  -- every line stands in the content
  have hpiece : ∀ piece ∈ tail.trim :: rest, piece.has (m :: mark) = false := by
    intro piece hmem
    refine Text.has_eq_false_of_isInfix ?_ hcontent
    rw [hsource.content]
    exact Text.isInfix_join hmem _
  have hfront : ∀ c ∈ '@' :: (block.kind.name ++ [' ']), c ≠ m := by
    obtain ⟨_, _, hchars⟩ := TagBlock.kind_name block.kind
    intro c hc
    simp only [List.mem_cons, List.mem_append, List.not_mem_nil, or_false] at hc
    rcases hc with rfl | hmem | rfl
    · rcases hm with rfl | rfl <;> decide
    · rcases hm with rfl | rfl
      · exact (hchars c hmem).2.1
      · exact (hchars c hmem).2.2.1
    · rcases hm with rfl | rfl <;> decide
  rw [hsource.lines] at h
  rcases List.mem_cons.mp h with rfl | hmem
  · rcases hsource.header with ⟨rfl, _⟩ | ⟨first, rfl, hfirst⟩
    · -- the tag alone
      rw [← List.cons_append]
      refine (Text.has_front (fun c hc => hfront c ?_) [] mark).trans rfl
      rcases List.mem_cons.mp hc with rfl | hmem <;> simp [*]
    · have htrim : Text.trim (' ' :: first) = first :=
        Text.trim_eq_self hfirst.begins hfirst.ends
      have hhas := hpiece _ (List.mem_cons_self ..)
      rw [htrim, ← Text.has_front hfront first mark] at hhas
      simpa using hhas
  · exact hpiece line (List.mem_cons_of_mem _ hmem)

private theorem isTextLine_of_mem_sourceLines {block : TagBlock} (hread : block.IsRead)
    (hcontent : block.content.has "*/" = false) {line : Text} (h : line ∈ block.toSource.lines) :
    IsTextLine line := by
  have hunclosed : line.has "*/" = false := has_of_mem_sourceLines hread (Or.inr rfl) hcontent h
  obtain ⟨tail, rest, hsource⟩ := TagBlock.exists_sourceLines hread
  obtain ⟨hline, hends⟩ := hsource.line_ends h
  refine ⟨hline, ?_, Text.trimEnd_eq_self hends, hunclosed⟩
  rw [hsource.lines] at h
  rcases List.mem_cons.mp h with rfl | hmem
  · rfl
  · exact (hsource.continued line hmem).bare

/-- Every line of the content of a comment. -/
theorem DocContent.isTextLine (doc : DocContent) {line : Text}
    (h : line ∈ doc.description ++ doc.tagLines) : IsTextLine line := by
  rcases List.mem_append.mp h with hmem | hmem
  · exact isTextLine_of_mem_description doc hmem
  · obtain ⟨block, hblock, hline⟩ := List.mem_flatMap.mp hmem
    exact isTextLine_of_mem_sourceLines (TagBlock.isRead_of_mem_ofSection hblock)
      (doc.blocksUnclosed block hblock) hline

/-! ## §3 Decoration -/

/-- What stands in front of the text of a line: blanks up to the star. -/
theorem exists_blanks_of_indented {line indented : Text}
    (h : Indented (" * ".toList ++ line) indented) :
    ∃ blanks, (∀ c ∈ blanks, isBlank c = true ∧ c ≠ '\n') ∧
      indented = blanks ++ ('*' :: ' ' :: line) := by
  obtain ⟨blanks, hblanks, rfl⟩ := h
  refine ⟨blanks ++ [' '], fun c hc => ?_, by simp⟩
  rcases List.mem_append.mp hc with h | h
  · exact hblanks c h
  · rw [List.mem_singleton.mp h]
    decide

/-- The star in front of a line is part of no closing delimiter. -/
theorem has_close_star (line : Text) :
    Text.has ('*' :: ' ' :: line) "*/" = Text.has line "*/" := by
  have hstar : Text.startsWith ('*' :: ' ' :: line) "*/" = false := rfl
  rw [Text.has_cons, hstar, Bool.false_or]
  exact Text.has_front (by decide : ∀ c ∈ [' '], c ≠ '*') line ['/']

/-- The decoration of a line of text comes off. -/
theorem undecorate_star {line indented : Text} (hline : IsTextLine line)
    (h : Indented (" * ".toList ++ line) indented) : DocComment.undecorate indented = line := by
  obtain ⟨blanks, hblanks, rfl⟩ := exists_blanks_of_indented h
  have hbefore : ∀ c ∈ blanks, isBlank c = true := fun c hc => (hblanks c hc).1
  by_cases hne : line = []
  · -- the star alone is left of the line, and it is decoration
    have htrim : Text.trim (blanks ++ (['*'] ++ [' '])) = ['*'] :=
      Text.trim_surrounded hbefore (by decide) (by decide) (by decide)
    subst hne
    rw [DocComment.undecorate]
    change Text.trimEnd ((DocComment.dropClosing (DocComment.dropOpening
      (Text.trim (blanks ++ (['*'] ++ [' ']))))).dropWhile isDecoration) = _
    rw [htrim]
    decide
  · have hends := hline.ends hne
    have htrim : Text.trim (blanks ++ ('*' :: ' ' :: line)) = '*' :: ' ' :: line := by
      have hnil : ∀ c ∈ ([] : Text), isBlank c = true := by simp
      have := Text.trim_surrounded hbefore (by rfl) (Text.endsIn_append hends ['*', ' ']) hnil
      simpa using this
    have hopening : DocComment.dropOpening ('*' :: ' ' :: line) = '*' :: ' ' :: line := rfl
    -- nothing is taken off as a closing delimiter
    have hclosing : DocComment.dropClosing ('*' :: ' ' :: line) = '*' :: ' ' :: line := by
      have hnone : Text.before? ('*' :: ' ' :: line) "*/" = none := by
        rw [Option.eq_none_iff_forall_ne_some]
        intro front hfront
        have hhas : Text.has ('*' :: ' ' :: line) "*/" = true := by
          rw [Text.has_iff_isInfix, Text.before?_eq_some_iff.mp hfront]
          exact ⟨front, [], by simp⟩
        rw [has_close_star, hline.unclosed] at hhas
        exact Bool.noConfusion hhas
      rw [DocComment.dropClosing, hnone]
      rfl
    have hdrop : ('*' :: ' ' :: line).dropWhile isDecoration = line :=
      Text.dropWhile_append_of_begins
        (by decide : ∀ c ∈ ['*', ' '], isDecoration c = true) hline.bare
    rw [DocComment.undecorate, htrim, hopening, hclosing, hdrop, hline.trimmed]

theorem undecorate_open : DocComment.undecorate "/**".toList = [] := by
  decide

theorem undecorate_close {blanks : Text} (hblanks : ∀ c ∈ blanks, isBlank c = true) :
    DocComment.undecorate (blanks ++ "*/".toList) = [] := by
  have htrim : Text.trim (blanks ++ ("*/".toList ++ [])) = "*/".toList :=
    Text.trim_surrounded hblanks (by decide) (by decide) (by simp)
  rw [List.append_nil] at htrim
  rw [DocComment.undecorate, htrim]
  decide

/-! ## §4 Reading a comment -/

namespace DocContent

variable (doc : DocContent)

/-- The tags begin with a tag line, if there are any. -/
theorem tagLines_cases : (doc.tagLines = [] ∧ doc.blocks = []) ∨
    ∃ line rest, doc.tagLines = line :: rest ∧ DocComment.startsTag line = true := by
  unfold tagLines
  cases hblocks : doc.blocks with
  | nil => exact Or.inl ⟨rfl, rfl⟩
  | cons block blocks =>
    have hmem : block ∈ TagBlock.ofSection doc.tagText := by
      change block ∈ doc.blocks
      simp [hblocks]
    obtain ⟨tail, rest, hsource⟩ :=
      TagBlock.exists_sourceLines (TagBlock.isRead_of_mem_ofSection hmem)
    refine Or.inr ⟨_, _, by rw [List.flatMap_cons, hsource.lines]; rfl, ?_⟩
    obtain ⟨_, hletters, _⟩ := TagBlock.kind_name block.kind
    cases hname : block.kind.name with
    | nil => simp [hname] at hletters
    | cons c cs =>
      rw [hname] at hletters
      exact hletters

private theorem isLine_of_mem_tagLines {line : Text} (h : line ∈ doc.tagLines) :
    Text.IsLine line := by
  obtain ⟨block, hblock, hline⟩ := List.mem_flatMap.mp h
  obtain ⟨tail, rest, hsource⟩ :=
    TagBlock.exists_sourceLines (TagBlock.isRead_of_mem_ofSection hblock)
  obtain ⟨honeLine, hends⟩ := hsource.line_ends hline
  exact .of_solid honeLine hends

/-- The tags are read back from their lines. -/
theorem ofSection_tagLines :
    TagBlock.ofSection (Text.join ['\n'] (doc.tagLines ++ [[]])) = doc.blocks := by
  have hlines := (Text.lines_join_of_isLine fun _ => doc.isLine_of_mem_tagLines).2
  rw [TagBlock.ofSection, hlines]
  exact TagBlock.ofLines_toSource fun _ => TagBlock.isRead_of_mem_ofSection

/-- The description begins and ends with its first and its last line. -/
theorem description_solid (hne : doc.description ≠ []) :
    beginsWith isSolid (Text.join ['\n'] doc.description) = true ∧
      endsIn isSolid (Text.join ['\n'] doc.description) = true := by
  have hline : ∀ line ∈ doc.description, line ≠ [] →
      beginsWith isSolid line = true ∧ endsIn isSolid line = true := fun line hmem =>
    Text.solid_of_trim_eq (doc.trimmed line hmem)
  constructor
  · have hfirst := doc.firstNonempty
    cases hdescription : doc.description with
    | nil => exact absurd hdescription hne
    | cons first rest =>
      rw [hdescription] at hline hfirst
      have hbegins := (hline first (List.mem_cons_self ..) (by simpa using hfirst)).1
      -- the first line comes off the join in front
      have := Text.beginsWith_append hbegins (Text.join ['\n'] ([] :: rest))
      rwa [← Text.join_prepend, List.append_nil] at this
  · have hlast := doc.lastNonempty
    rcases List.eq_nil_or_concat' doc.description with hnil | ⟨front, last, hdescription⟩
    · exact absurd hnil hne
    · rw [hdescription] at hline hlast ⊢
      have hends := (hline last (by simp) (by simpa using hlast)).2
      have := Text.endsIn_append hends (Text.join ['\n'] (front ++ [[]]))
      rwa [← Text.join_append_last, List.nil_append] at this

/-- The description stands between line feeds. -/
theorem trim_description {closing : List Text} (hclosing : closing = [] ∨ closing = [[]]) :
    Text.trim (Text.join ['\n'] ([] :: (doc.description ++ closing))) =
      Text.join ['\n'] doc.description := by
  by_cases hne : doc.description = []
  · rw [hne]
    rcases hclosing with rfl | rfl <;> decide
  · obtain ⟨hbegins, hends⟩ := doc.description_solid hne
    have hafter : ∃ after, (∀ c ∈ after, isBlank c = true) ∧
        Text.join ['\n'] (doc.description ++ closing) =
          Text.join ['\n'] doc.description ++ after := by
      rcases hclosing with rfl | rfl
      · exact ⟨[], by simp, by simp⟩
      · exact ⟨['\n'], by decide, by rw [Text.join_append_singleton hne, List.append_nil]⟩
    obtain ⟨after, hblank, hjoin⟩ := hafter
    rw [Text.join_cons (by simp [hne]), List.nil_append, hjoin]
    exact Text.trim_surrounded (by decide) hbegins hends hblank

/-- A text whose lines are those of the content once their decoration is gone. -/
theorem parse_undecorated {text : Text} (h : text.lines.map DocComment.undecorate =
      [] :: (doc.description ++ doc.tagLines ++ [[]])) :
    (DocComment.parse text).description = Text.join ['\n'] doc.description ∧
      TagBlock.ofSection (DocComment.parse text).tagSection = doc.blocks := by
  have huntagged : ∀ line ∈ [] :: doc.description, (!DocComment.startsTag line) = true := by
    rintro line (_ | ⟨_, hmem⟩)
    · rfl
    · rw [doc.untagged line hmem]
      rfl
  have hbody : text.lines.map DocComment.undecorate =
      ([] :: doc.description) ++ (doc.tagLines ++ [[]]) := by
    rw [h]
    simp
  unfold DocComment.parse
  dsimp only
  rw [hbody, List.takeWhile_append_of_pos huntagged, List.dropWhile_append_of_pos huntagged]
  rcases doc.tagLines_cases with ⟨hlines, hblocks⟩ | ⟨line, rest, hlines, htag⟩
  · -- without tags the closing line counts as description
    rw [hlines, hblocks]
    exact ⟨doc.trim_description (Or.inr rfl), rfl⟩
  · -- the tag section begins with the first tag line
    have htake : (doc.tagLines ++ [[]]).takeWhile (fun line => !DocComment.startsTag line) =
        [] := by
      simp [hlines, htag]
    have hdrop : (doc.tagLines ++ [[]]).dropWhile (fun line => !DocComment.startsTag line) =
        doc.tagLines ++ [[]] := by
      simp [hlines, htag]
    rw [htake, hdrop, doc.ofSection_tagLines]
    exact ⟨doc.trim_description (Or.inl rfl), rfl⟩

/-- Every line of the comment comes back from it as it is written. -/
theorem isLine {line : Text} (h : line ∈ doc.lines) : Text.IsLine line := by
  rcases List.mem_cons.mp h with rfl | h
  · exact ⟨by decide, by decide⟩
  · rcases List.mem_append.mp h with h | h
    · obtain ⟨text, hmem, rfl⟩ := List.mem_map.mp h
      exact (doc.isTextLine hmem).isLine_star
    · rw [List.mem_singleton.mp h]
      exact ⟨by decide, by decide⟩

private theorem undecorate_lines : doc.text.lines.map DocComment.undecorate =
    [] :: (doc.description ++ doc.tagLines ++ [[]]) := by
  have hbody : ((doc.description ++ doc.tagLines).map (" * ".toList ++ ·)).map
      DocComment.undecorate = doc.description ++ doc.tagLines := by
    rw [List.map_map]
    refine (List.map_congr_left fun line hmem => ?_).trans (List.map_id _)
    exact undecorate_star (doc.isTextLine hmem) ⟨[], by simp, rfl⟩
  have hclose : DocComment.undecorate " */".toList = [] := by decide
  rw [text, (Text.lines_join_of_isLine fun _ => doc.isLine).1, lines, List.map_cons,
    undecorate_open, List.map_append, hbody, List.map_singleton, hclose]

/-- Reading the comment gives back its description, line by line, and a tag section with just its
blocks. -/
theorem parse_eq_content :
    (DocComment.parse doc.text).description = Text.join ['\n'] doc.description ∧
      TagBlock.ofSection (DocComment.parse doc.text).tagSection = doc.blocks :=
  doc.parse_undecorated doc.undecorate_lines

/-- A content with delimiters and tags in unusual places. -/
def strayMarks : DocContent where
  description := ["/* a".toList, [], "b * / @param".toList]
  tagText := "@param x /\n@custom * y\n@see".toList
  oneLine := by decide
  trimmed := by decide
  unstarred := by decide
  untagged := by decide
  firstNonempty := by decide
  lastNonempty := by decide
  unclosed := by decide
  blocksUnclosed := by decide

theorem parse_strayMarks :
    strayMarks.text =
      "/**\n * /* a\n * \n * b * / @param\n * @param x /\n * @custom * y\n * @see\n */".toList ∧
    (DocComment.parse strayMarks.text).description = "/* a\n\nb * / @param".toList ∧
    TagBlock.ofSection (DocComment.parse strayMarks.text).tagSection =
      [⟨.param, "x /\n@custom * y".toList⟩, ⟨.see, []⟩] := by
  have hblocks : strayMarks.blocks = [⟨.param, "x /\n@custom * y".toList⟩, ⟨.see, []⟩] := by decide
  obtain ⟨hdescription, htags⟩ := strayMarks.parse_eq_content
  exact ⟨by decide, hdescription, htags.trans hblocks⟩

end DocContent

end DeclDocs
