import DeclDocs.Proofs.Comment.Content
import DeclDocs.Proofs.Comment.Location

/-!
# Documentation comments as they are written

A comment written line by line, with a star in front of each line of text and any blanks in front of
the star: its description, then its tag blocks.  Reading it takes the decoration off again and gives
back the description and the blocks.

* `WrittenDoc`: the text of a comment, and `WrittenDoc.lines` for its lines.
* `WrittenDoc.commentBody?_lines`: its lines hold one comment that opens once.
* `WrittenDoc.parse_comment`: reading it gives its description and its blocks.
-/

namespace DeclDocs

open Text (isSolid beginsWith endsIn)

/-! ## §1 Written comments -/

/-- Neither `/*` nor `*/` stands in the text. -/
def Undelimited (text : Text) : Prop :=
  text.has "/*" = false ∧ text.has "*/" = false

instance (text : Text) : Decidable (Undelimited text) :=
  inferInstanceAs (Decidable (_ ∧ _))

/-- A line of a comment once its decoration is gone. -/
structure IsBareLine (line : Text) : Prop where
  oneLine : '\n' ∉ line
  bare : beginsWith isDecoration line = false
  trimmed : line.trimEnd = line
  undelimited : Undelimited line

/-- The description and the tags of a comment. -/
structure WrittenDoc where
  description : List Text
  /-- A text whose blocks are the tags of the comment. -/
  tagText : Text
  oneLine : ∀ line ∈ description, '\n' ∉ line
  trimmed : ∀ line ∈ description, line.trim = line
  unstarred : ∀ line ∈ description, beginsWith (· == '*') line = false
  untagged : ∀ line ∈ description, DocComment.startsTag line = false
  firstNonempty : description.head? ≠ some []
  lastNonempty : description.getLast? ≠ some []
  undelimited : ∀ line ∈ description, Undelimited line
  blocksUndelimited : ∀ block ∈ TagBlock.ofSection tagText, Undelimited block.content

namespace WrittenDoc

variable (doc : WrittenDoc)

/-- The tag blocks. -/
def blocks : List TagBlock :=
  TagBlock.ofSection doc.tagText

/-- The lines of the tags. -/
def tagLines : List Text :=
  doc.blocks.flatMap fun block => block.toSource.lines

/-- The lines of the comment, each with its decoration. -/
def lines : List Text :=
  "/**".toList :: ((doc.description ++ doc.tagLines).map (" * ".toList ++ ·) ++ [" */".toList])

/-- The description and the tags as the content of a comment: nothing in them closes it. -/
def content : DocContent where
  description := doc.description
  tagText := doc.tagText
  oneLine := doc.oneLine
  trimmed := doc.trimmed
  unstarred := doc.unstarred
  untagged := doc.untagged
  firstNonempty := doc.firstNonempty
  lastNonempty := doc.lastNonempty
  unclosed := fun line hmem => (doc.undelimited line hmem).2
  blocksUnclosed := fun block hmem => (doc.blocksUndelimited block hmem).2

end WrittenDoc

/-! ## §2 Lines of text -/

theorem Undelimited.front {rest : Text} (hrest : Undelimited rest) {front : Text}
    (h : ∀ c ∈ front, c ≠ '/' ∧ c ≠ '*') : Undelimited (front ++ rest) :=
  ⟨(Text.has_front (fun c hc => (h c hc).1) rest ['*']).trans hrest.1,
    (Text.has_front (fun c hc => (h c hc).2) rest ['/']).trans hrest.2⟩

theorem IsBareLine.isTextLine {line : Text} (h : IsBareLine line) : IsTextLine line :=
  ⟨h.oneLine, h.bare, h.trimmed, h.undelimited.2⟩

/-- Every line of text of a written comment is bare. -/
theorem WrittenDoc.isBareLine (doc : WrittenDoc) {line : Text}
    (h : line ∈ doc.description ++ doc.tagLines) : IsBareLine line := by
  obtain ⟨honeLine, hbare, htrimmed, hunclosed⟩ := doc.content.isTextLine h
  refine ⟨honeLine, hbare, htrimmed, ?_, hunclosed⟩
  rcases List.mem_append.mp h with hmem | hmem
  · exact (doc.undelimited line hmem).1
  · obtain ⟨block, hblock, hline⟩ := List.mem_flatMap.mp hmem
    exact has_of_mem_sourceLines (TagBlock.isRead_of_mem_ofSection hblock) (Or.inl rfl)
      (doc.blocksUndelimited block hblock).1 hline

/-! ## §3 Decoration -/

theorem undelimited_star {line indented : Text} (hline : Undelimited line)
    (h : Indented (" * ".toList ++ line) indented) : Undelimited indented := by
  obtain ⟨blanks, hblanks, rfl⟩ := exists_blanks_of_indented h
  -- the star is followed by a space, so it is part of no delimiter
  have hstar : Text.has ('*' :: ' ' :: line) "*/" = false := by
    rw [has_close_star]
    exact hline.2
  have hslash : Text.has ('*' :: ' ' :: line) "/*" = false :=
    (Text.has_front (by decide : ∀ c ∈ ['*', ' '], c ≠ '/') line ['*']).trans hline.1
  exact Undelimited.front ⟨hslash, hstar⟩ fun c hc =>
    ⟨Text.ne_of_class (hblanks c hc).1 (by decide), Text.ne_of_class (hblanks c hc).1 (by decide)⟩

/-! ## §4 The lines of a comment -/

theorem exists_append_of_forall₂ {α β : Type} {r : α → β → Prop} {front back : List α}
    {all : List β} (h : List.Forall₂ r (front ++ back) all) :
    ∃ front' back', all = front' ++ back' ∧ List.Forall₂ r front front' ∧
      List.Forall₂ r back back' := by
  induction front generalizing all with
  | nil => exact ⟨[], all, rfl, .nil, h⟩
  | cons a front ih =>
    obtain ⟨b, rest, hab, hrest, rfl⟩ := List.forall₂_cons_left_iff.mp h
    obtain ⟨front', back', rfl, hfront, hback⟩ := ih hrest
    exact ⟨b :: front', back', rfl, .cons hab hfront, hback⟩

theorem upToFirstClose?_append {front : List Text} (hfront : ∀ text ∈ front, text.has "*/" = false)
    {last inside : Text} (hlast : last.cut? "*/" = some (inside, [])) :
    upToFirstClose? (front ++ [last]) = some (front ++ [inside]) := by
  induction front with
  | nil =>
    rw [List.nil_append, upToFirstClose?, hlast]
    rfl
  | cons text front ih =>
    have hnone : Text.cut? text "*/" = none := by
      simpa [Text.has] using hfront text (List.mem_cons_self ..)
    rw [List.cons_append, upToFirstClose?, hnone]
    dsimp only
    rw [ih fun other hmem => hfront other (List.mem_cons_of_mem _ hmem)]
    rfl

/-- Every line of a written comment comes back from a document as it is written. -/
theorem WrittenDoc.isLine (doc : WrittenDoc) {line : Text} (h : line ∈ doc.lines) :
    Text.IsLine line :=
  doc.content.isLine h

/-- The lines of text with their decoration, as they stand in the document. -/
structure DecoratedLines (texts decorated : List Text) : Prop where
  undecorated : decorated.map DocComment.undecorate = texts
  undelimited : ∀ line ∈ decorated, Undelimited line
  isLine : ∀ line ∈ decorated, Text.IsLine line

private theorem DecoratedLines.of_forall₂ {texts decorated : List Text}
    (htexts : ∀ line ∈ texts, IsBareLine line)
    (h : List.Forall₂ (fun line indented => Indented (" * ".toList ++ line) indented) texts
      decorated) : DecoratedLines texts decorated := by
  induction h with
  | nil => exact ⟨rfl, by simp, by simp⟩
  | @cons line indented texts decorated hline hrest ih =>
    have hbare := htexts line (List.mem_cons_self ..)
    have hlines := ih fun other hmem => htexts other (List.mem_cons_of_mem _ hmem)
    refine ⟨?_, ?_, ?_⟩
    · rw [List.map_cons, undecorate_star hbare.isTextLine hline, hlines.undecorated]
    · rintro other (_ | ⟨_, hmem⟩)
      · exact undelimited_star hbare.undelimited hline
      · exact hlines.undelimited other hmem
    · rintro other (_ | ⟨_, hmem⟩)
      · exact hline.isLine hbare.isTextLine.isLine_star
      · exact hlines.isLine other hmem

/-- The lines of a written comment hold one comment that opens once, and without decoration they are
its description and its tags. -/
theorem WrittenDoc.commentBody?_lines {doc : WrittenDoc} {comment : List Text}
    (h : List.Forall₂ Indented doc.lines comment) :
    ∃ body, commentBody? comment = some body ∧ opensOnce body = true ∧
      (commentText body).lines.map DocComment.undecorate =
        [] :: (doc.description ++ doc.tagLines ++ [[]]) := by
  -- the document's lines in the same three parts: the opening, the lines of text, the closing
  obtain ⟨first, rest, hfirst, hrest, rfl⟩ := List.forall₂_cons_left_iff.mp h
  obtain ⟨middle, closing, rfl, hmiddle, hclosing⟩ := exists_append_of_forall₂ hrest
  obtain ⟨last, tail, hlast, hnil, rfl⟩ := List.forall₂_cons_left_iff.mp hclosing
  obtain rfl := List.forall₂_nil_left_iff.mp hnil
  rw [List.forall₂_map_left_iff] at hmiddle
  have hlines := DecoratedLines.of_forall₂ (fun line => doc.isBareLine) hmiddle
  obtain ⟨indent, hindent, rfl⟩ := hfirst
  obtain ⟨blanks, hblanks, rfl⟩ := hlast
  have hspace : ∀ c ∈ blanks ++ [' '], isBlank c = true ∧ c ≠ '\n' := by
    intro c hc
    rcases List.mem_append.mp hc with h | h
    · exact hblanks c h
    · rw [List.mem_singleton.mp h]
      decide
  have hlast : blanks ++ " */".toList = (blanks ++ [' ']) ++ "*/".toList := by simp
  refine ⟨['*'] :: (middle ++ [blanks ++ [' ']]), ?_, ?_, ?_⟩
  · -- the first `*/` is the one on the closing line
    have hopen : Text.after? (Text.trimStart (indent ++ "/**".toList)) "/*" = some ['*'] := by
      rw [Text.trimStart_append_of_blank fun c hc => (hindent c hc).1]
      decide
    have hcut : Text.cut? (blanks ++ " */".toList) "*/" = some (blanks ++ [' '], []) := by
      rw [hlast]
      exact Text.cut?_append (fun c hc => Text.ne_of_class (hspace c hc).1 (by decide)) [] ['/']
    rw [commentBody?, hopen, Option.bind_some, ← List.cons_append]
    refine upToFirstClose?_append ?_ hcut
    rintro text (_ | ⟨_, hmem⟩)
    · decide
    · exact (hlines.undelimited text hmem).2
  · -- no further `/*`, neither in the text nor in the decoration
    rw [opensOnce_cons (by simp), Bool.and_eq_true, List.all_eq_true]
    refine ⟨rfl, fun text hmem => ?_⟩
    rw [Bool.not_eq_true']
    rcases List.mem_append.mp hmem with h | h
    · exact (hlines.undelimited text h).1
    · rw [List.mem_singleton.mp h]
      exact Text.has_eq_false_of_not_mem (m := '/') (by decide) fun hc =>
        Text.ne_of_class (hspace _ hc).1 (by decide) rfl
  · -- the delimiters go back to the lines they stand on
    have htext : commentText (['*'] :: (middle ++ [blanks ++ [' ']])) =
        Text.join ['\n'] ("/**".toList :: (middle ++ [(blanks ++ [' ']) ++ "*/".toList])) := by
      have hopen : "/**".toList = "/*".toList ++ ['*'] := by decide
      have hclose := Text.join_append_last ['\n'] (['*'] :: middle) (blanks ++ [' ']) "*/".toList
      rw [hopen, Text.join_prepend]
      exact congrArg ("/*".toList ++ ·) hclose.symm
    have hpieces : ∀ line ∈ "/**".toList :: (middle ++ [(blanks ++ [' ']) ++ "*/".toList]),
        Text.IsLine line := by
      intro line hmem
      rcases List.mem_cons.mp hmem with rfl | hmem
      · exact ⟨by decide, by decide⟩
      · rcases List.mem_append.mp hmem with h | h
        · exact hlines.isLine line h
        · rw [List.mem_singleton.mp h]
          refine ⟨fun hc => ?_, Text.endsIn_append (by decide) _⟩
          rcases List.mem_append.mp hc with h | h
          · exact (hspace _ h).2 rfl
          · exact absurd h (by decide)
    rw [htext, (Text.lines_join_of_isLine hpieces).1, List.map_cons, undecorate_open,
      List.map_append, hlines.undecorated, List.map_singleton,
      undecorate_close fun c hc => (hspace c hc).1]

/-- **Reading a written comment gives its description and its tags.** -/
theorem WrittenDoc.parse_comment (doc : WrittenDoc) {text : Text}
    (h : text.lines.map DocComment.undecorate =
      [] :: (doc.description ++ doc.tagLines ++ [[]])) :
    (DocComment.parse text).description = Text.join ['\n'] doc.description ∧
      TagBlock.ofSection (DocComment.parse text).tagSection = doc.blocks :=
  doc.content.parse_undecorated h

end DeclDocs
