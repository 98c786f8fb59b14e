import DeclDocs.Proofs.Tag.Tokens
import DeclDocs.Tag.Table

/-!
# Tag sections and their decoration

Reading a tag section takes no notice of the stars and blanks in front of a line and of the blanks
behind it: not where a line opens a block, and not where it continues one.  So the blocks of a
section can be written out, decorated line by line in any way and read again.

* `Decorated`: a line between decoration and blanks.
* `TagBlock.ofLines_decorated`: decoration does not change the blocks of lines.
* `TagBlock.ofSection_eq`: how the lines end does not matter either.
* `TagBlock.ofSection_decorated`: written out, decorated and read again, blocks stay what they are.
-/

namespace DeclDocs

open Text (beginsWith)

/-! ## §1 Decorated lines -/

/-- The second line is the first one with stars and blanks in front of it and blanks behind it. -/
def Decorated (line decorated : Text) : Prop :=
  ∃ before after : Text, (∀ c ∈ before, isDecoration c = true ∧ c ≠ '\n') ∧
    (∀ c ∈ after, isBlank c = true ∧ c ≠ '\n') ∧ decorated = before ++ (line ++ after)

namespace Decorated

variable {line decorated : Text}

theorem oneLine (h : Decorated line decorated) (hline : '\n' ∉ line) : '\n' ∉ decorated := by
  obtain ⟨before, after, hbefore, hafter, rfl⟩ := h
  simp only [List.mem_append, not_or]
  exact ⟨fun hc => (hbefore _ hc).2 rfl, hline, fun hc => (hafter _ hc).2 rfl⟩

/-- Without the decoration in front, blanks at the end are all that is left of it. -/
theorem exists_dropWhile (h : Decorated line decorated) :
    ∃ blanks, (∀ c ∈ blanks, isBlank c = true) ∧ (line.dropWhile isDecoration = [] → blanks = []) ∧
      decorated.dropWhile isDecoration = line.dropWhile isDecoration ++ blanks := by
  obtain ⟨before, after, hbefore, hafter, rfl⟩ := h
  rw [List.dropWhile_append_of_pos fun c hc => (hbefore c hc).1, List.dropWhile_append]
  split
  case isTrue hnil =>
    -- the line is decoration throughout, and the blanks behind it count as decoration too
    have hdecoration : ∀ c ∈ after, isDecoration c = true := by
      intro c hc
      simp [isDecoration, (hafter c hc).1]
    refine ⟨[], by simp, fun _ => rfl, ?_⟩
    rw [List.isEmpty_iff.mp hnil, List.dropWhile_eq_nil_iff.mpr hdecoration]
    rfl
  case isFalse hne =>
    exact ⟨after, fun c hc => (hafter c hc).1, fun hnil => absurd (by simp [hnil]) hne, rfl⟩

/-- Decoration does not hide a tag. -/
theorem ofLine?_eq (h : Decorated line decorated) :
    TagBlock.ofLine? decorated = TagBlock.ofLine? line := by
  obtain ⟨blanks, hblanks, hnil, hdrop⟩ := h.exists_dropWhile
  unfold TagBlock.ofLine?
  rw [hdrop]
  cases hbare : line.dropWhile isDecoration with
  | nil => rw [hnil hbare, List.append_nil]
  | cons c rest =>
    by_cases hc : c = '@'
    · subst hc
      -- the name ends at the first blank, and what follows it is trimmed
      have hbegins : beginsWith (fun c => !isBlank c) blanks = false := by
        cases blanks with
        | nil => rfl
        | cons b blanks => simp [hblanks b (List.mem_cons_self ..)]
      have hname : (rest ++ blanks).takeWhile (fun c => !isBlank c) =
          rest.takeWhile fun c => !isBlank c := Text.takeWhile_append_eq hbegins rest
      have hcontent : Text.trim ((rest ++ blanks).dropWhile fun c => !isBlank c) =
          Text.trim (rest.dropWhile fun c => !isBlank c) := by
        rw [List.dropWhile_append]
        split
        case isTrue hempty =>
          rw [Text.dropWhile_of_begins hbegins, List.isEmpty_iff.mp hempty]
          exact Text.trim_append_of_blank hblanks []
        case isFalse => exact Text.trim_append_of_blank hblanks _
      simp only [List.cons_append, hname, hcontent]
    · simp [hc]

private theorem continuation_eq (h : Decorated line decorated) :
    TagBlock.continuation decorated = TagBlock.continuation line := by
  obtain ⟨blanks, hblanks, _, hdrop⟩ := h.exists_dropWhile
  rw [TagBlock.continuation, hdrop, Text.trimEnd_append_of_blank hblanks, TagBlock.continuation]

end Decorated

/-- A carriage return at the end of a line is one of the blanks behind it. -/
theorem decorated_dropReturn (line : Text) : Decorated (Text.dropReturn line) line := by
  unfold Text.dropReturn
  cases hbefore : line.before? ['\r'] with
  | none => exact ⟨[], [], by simp, by simp, by simp⟩
  | some front =>
    refine ⟨[], ['\r'], by simp, by decide, ?_⟩
    simpa using Text.before?_eq_some_iff.mp hbefore

/-! ## §2 Reading decorated lines -/

namespace TagBlock

private theorem ofLines_cons_of_decorated {line decorated : Text} (h : Decorated line decorated)
    {lines others : List Text} (hrest : ∀ current, ofLines current others = ofLines current lines)
    (current : Option TagBlock) :
    ofLines current (decorated :: others) = ofLines current (line :: lines) := by
  rw [ofLines, ofLines, h.ofLine?_eq, h.continuation_eq]
  split
  · rw [hrest]
  · rw [hrest]

/-- Decoration does not change the blocks of lines. -/
theorem ofLines_decorated {lines decorated : List Text} (h : List.Forall₂ Decorated lines decorated)
    (current : Option TagBlock) : ofLines current decorated = ofLines current lines := by
  induction h generalizing current with
  | nil => rfl
  | cons hline _ ih => exact ofLines_cons_of_decorated hline ih current

/-- An empty line adds nothing to the open block. -/
theorem ofLines_nil_cons (current : Option TagBlock) (lines : List Text) :
    ofLines current ([] :: lines) = ofLines current lines := by
  have hextend : (fun block : TagBlock => block.extend (continuation [])) = id := rfl
  rw [ofLines]
  change ofLines (current.map fun block => block.extend (continuation [])) lines = _
  rw [hextend, Option.map_id_fun, id]

/-- How lines end does not matter: neither a carriage return nor a line feed at the very end. -/
theorem ofLines_closeLines (pieces more : List Text) (current : Option TagBlock) :
    ofLines current (Text.closeLines pieces ++ more) = ofLines current (pieces ++ more) := by
  fun_induction Text.closeLines pieces generalizing current with
  | case1 => rfl
  | case2 last hempty =>
    rw [List.isEmpty_iff.mp hempty]
    exact (ofLines_nil_cons current more).symm
  | case3 => rfl
  | case4 line rest _ ih =>
    exact (ofLines_cons_of_decorated (decorated_dropReturn line) (fun _ => (ih _).symm)
      current).symm

private theorem ofLines_append_congr {lines others : List Text}
    (h : ∀ current, ofLines current others = ofLines current lines) (front : List Text)
    (current : Option TagBlock) :
    ofLines current (front ++ others) = ofLines current (front ++ lines) := by
  induction front generalizing current with
  | nil => exact h current
  | cons line front ih =>
    exact ofLines_cons_of_decorated ⟨[], [], by simp, by simp, by simp⟩ ih current

/-- Nor does it matter how each of several texts ends its lines. -/
theorem ofLines_flatMap_lines (texts : List Text) (current : Option TagBlock) :
    ofLines current (texts.flatMap Text.lines) =
      ofLines current (texts.flatMap (Text.split (· == '\n'))) := by
  induction texts generalizing current with
  | nil => rfl
  | cons text texts ih =>
    rw [List.flatMap_cons, List.flatMap_cons, Text.lines, ofLines_closeLines]
    exact ofLines_append_congr ih _ current

/-- The blocks of a section are those of the pieces between its line feeds. -/
theorem ofSection_eq (tagText : Text) :
    ofSection tagText = ofLines none (Text.split (· == '\n') tagText) := by
  have hclose := ofLines_closeLines (Text.split (· == '\n') tagText) [] none
  rwa [List.append_nil, List.append_nil] at hclose

/-! ## §3 Blocks written out -/

/-- The text of blocks, each on lines of its own. -/
def sourceText (blocks : List TagBlock) : Text :=
  Text.join ['\n'] (blocks.map toSource)

/-- Blocks that have been read come back from their text. -/
theorem ofSection_sourceText {blocks : List TagBlock} (h : ∀ block ∈ blocks, block.IsRead) :
    ofSection (sourceText blocks) = blocks := by
  by_cases hnil : blocks = []
  · rw [hnil]
    rfl
  · have hsplit : Text.split (· == '\n') (sourceText blocks) =
        (blocks.map toSource).flatMap (Text.split (· == '\n')) := by
      rw [sourceText, Text.split_join_texts (by simpa using hnil)]
    rw [ofSection_eq, hsplit, ← ofLines_flatMap_lines, List.flatMap_map]
    exact ofLines_toSource h

/-- Blocks come back from their text with every line of it decorated. -/
theorem ofSection_join_decorated {blocks : List TagBlock} (h : ∀ block ∈ blocks, block.IsRead)
    {decorated : List Text}
    (hdecorated : List.Forall₂ Decorated (Text.split (· == '\n') (sourceText blocks)) decorated) :
    ofSection (Text.join ['\n'] decorated) = blocks := by
  have hne : decorated ≠ [] := by
    rintro rfl
    exact Text.split_ne_nil _ _ (List.forall₂_nil_right_iff.mp hdecorated)
  have honeLine : ∀ line ∈ decorated, '\n' ∉ line := by
    refine forall_of_forall₂ hdecorated fun source hsource _ hline => ?_
    exact hline.oneLine (Text.not_mem_of_mem_split (p := (· == '\n')) rfl hsource)
  rw [ofSection_eq, Text.split_join hne honeLine, ofLines_decorated hdecorated, ← ofSection_eq,
    ofSection_sourceText h]

/-- The blocks of a section, written out and read again, are the same blocks and give the same table
of tags for every signature; and so they are when every line of their text is decorated in a way of
its own. -/
theorem ofSection_decorated (tagText : Text) :
    let source := sourceText (ofSection tagText)
    (ofSection source = ofSection tagText ∧
      ∀ signature, TagTable.ofSection source signature = TagTable.ofSection tagText signature) ∧
    ∀ decorated, List.Forall₂ Decorated (Text.split (· == '\n') source) decorated →
      ofSection (Text.join ['\n'] decorated) = ofSection tagText ∧
      ∀ signature, TagTable.ofSection (Text.join ['\n'] decorated) signature =
        TagTable.ofSection tagText signature := by
  intro source
  have hread : ∀ block ∈ ofSection tagText, block.IsRead := fun _ => isRead_of_mem_ofSection
  -- a table is read from blocks, so equal blocks give equal tables
  have htable : ∀ {text : Text}, ofSection text = ofSection tagText → ∀ signature,
      TagTable.ofSection text signature = TagTable.ofSection tagText signature := by
    intro text htext signature
    rw [TagTable.ofSection, htext, TagTable.ofSection]
  have hplain : ofSection source = ofSection tagText := ofSection_sourceText hread
  refine ⟨⟨hplain, htable hplain⟩, fun decorated h => ?_⟩
  have hblocks := ofSection_join_decorated hread h
  exact ⟨hblocks, htable hblocks⟩

/-- Two blocks; the first one takes in a blank line and a tag that is not recognised, and the content
of the second one begins with a star. -/
def foldedSection : Text :=
  " * @param left the map,\n *\n *   possibly empty\n * @custom tag\n@returns * merged".toList

/-- The lines of these blocks in another decoration. -/
def foldedLines : List Text :=
  ["\t**@param left the map, \r".toList, "* possibly empty".toList, " * * @custom tag".toList,
    "@return * merged".toList]

theorem ofSection_foldedLines :
    List.Forall₂ Decorated (Text.split (· == '\n') (sourceText (ofSection foldedSection)))
      foldedLines ∧
    ofSection (Text.join ['\n'] foldedLines) = ofSection foldedSection := by
  have hsplit : Text.split (· == '\n') (sourceText (ofSection foldedSection)) =
      ["@param left the map,".toList, "possibly empty".toList, "@custom tag".toList,
        "@return * merged".toList] := by decide
  have hlines : List.Forall₂ Decorated
      (Text.split (· == '\n') (sourceText (ofSection foldedSection))) foldedLines := by
    rw [hsplit]
    refine .cons ⟨"\t**".toList, " \r".toList, ?_, ?_, rfl⟩ (.cons ⟨"* ".toList, [], ?_, ?_, rfl⟩
      (.cons ⟨" * * ".toList, [], ?_, ?_, rfl⟩ (.cons ⟨[], [], ?_, ?_, rfl⟩ .nil)))
    all_goals decide
  exact ⟨hlines, ((ofSection_decorated foldedSection).2 foldedLines hlines).1⟩

end TagBlock

end DeclDocs
