import DeclDocs.Proofs.Text.Lines
import DeclDocs.Tag.Block

/-!
# Blocks read back from their own text

The content of a block is made of clean lines: without decoration and blanks around them, and, from
the second one on, opening no block themselves.  So the text of a block opens the same block again
and its further lines continue it.

* `IsFirstLine`, `IsContinuation`, `TagBlock.IsRead`: the content of blocks that have been read.
* `TagBlock.isRead_of_mem_ofSection`: all blocks of a section are such.
* `TagBlock.ofLines_toSource`: reading the text of blocks gives the blocks back.
-/

namespace DeclDocs

open Text (isSolid beginsWith endsIn)

/-! ## §1 The content of a block -/

/-- The text behind a tag on its own line. -/
structure IsFirstLine (line : Text) : Prop where
  oneLine : '\n' ∉ line
  begins : beginsWith isSolid line = true
  ends : endsIn isSolid line = true

/-- A further line of a block. -/
structure IsContinuation (line : Text) : Prop extends IsFirstLine line where
  bare : beginsWith isDecoration line = false
  running : TagBlock.ofLine? line = none

/-- The block has been read from lines: its content is a first line and continuations. -/
def TagBlock.IsRead (block : TagBlock) : Prop :=
  block.content = [] ∨ ∃ (first : Text) (rest : List Text),
    block.content = Text.join ['\n'] (first :: rest) ∧ IsFirstLine first ∧
      ∀ line ∈ rest, IsContinuation line

private theorem isSolid_of_not_isDecoration {c : Char} (h : isDecoration c = false) :
    isSolid c = true := by
  simp only [isDecoration, Bool.or_eq_false_iff] at h
  simp [isSolid, h.2]

namespace TagBlock

/-- The text of a line that opens no block opens none either. -/
theorem ofLine?_continuation {line : Text} (hnone : ofLine? line = none) :
    ofLine? (continuation line) = none := by
  obtain ⟨blanks, htext, hblanks⟩ := Text.exists_trimEnd_append (line.dropWhile isDecoration)
  have hbegins := Text.beginsWith_dropWhile isDecoration line
  rw [continuation]
  rw [ofLine?] at hnone
  cases hbare : Text.trimEnd (line.dropWhile isDecoration) with
  | nil => rfl
  | cons c cs =>
    rw [hbare, List.cons_append] at htext
    rw [htext] at hnone hbegins
    have hdrop : (c :: cs).dropWhile isDecoration = c :: cs := Text.dropWhile_of_begins hbegins
    rw [ofLine?, hdrop]
    by_cases hc : c = '@'
    · -- the blanks that were trimmed are not part of the tag's name
      subst hc
      have hblank : beginsWith (fun c => !isBlank c) blanks = false := by
        cases blanks with
        | nil => rfl
        | cons b bs => simp [hblanks b (List.mem_cons_self ..)]
      change Option.map _ (TagKind.ofName? ((cs ++ blanks).takeWhile fun c => !isBlank c)) = _
        at hnone
      rw [Text.takeWhile_append_eq hblank, Option.map_eq_none_iff] at hnone
      change Option.map _ (TagKind.ofName? (cs.takeWhile fun c => !isBlank c)) = _
      rw [hnone]
      rfl
    · simp [hc]

private theorem begins_of_bare {text : Text} (hne : text ≠ [])
    (h : beginsWith isDecoration text = false) : beginsWith isSolid text = true := by
  cases text with
  | nil => exact absurd rfl hne
  | cons c cs => exact isSolid_of_not_isDecoration h

private theorem continuation_bare (line : Text) :
    beginsWith isDecoration (continuation line) = false := by
  rw [← Bool.not_eq_true]
  intro hbegins
  have := Text.beginsWith_trimEnd hbegins
  rw [Text.beginsWith_dropWhile] at this
  exact Bool.noConfusion this

/-- What a line that opens no block adds to the open one. -/
theorem isContinuation_continuation {line : Text} (hline : '\n' ∉ line)
    (hnone : ofLine? line = none) (hne : continuation line ≠ []) :
    IsContinuation (continuation line) where
  oneLine := fun hmem =>
    hline ((List.dropWhile_suffix _).subset ((Text.trimEnd_isPrefix _).subset hmem))
  begins := begins_of_bare hne (continuation_bare line)
  ends := Text.endsIn_trimEnd hne
  bare := continuation_bare line
  running := ofLine?_continuation hnone

/-- The text behind a tag is trimmed. -/
theorem isFirstLine_trim {text : Text} (hline : '\n' ∉ text) (hne : text.trim ≠ []) :
    IsFirstLine text.trim where
  oneLine := fun hmem =>
    hline ((List.dropWhile_suffix _).subset ((Text.trimEnd_isPrefix _).subset hmem))
  begins := Text.beginsWith_trim hne
  ends := Text.endsIn_trimEnd hne

/-! ## §2 Blocks that have been read -/

theorem isRead_of_ofLine? {line : Text} (hline : '\n' ∉ line) {block : TagBlock}
    (h : ofLine? line = some block) : block.IsRead := by
  rw [ofLine?] at h
  split at h
  case h_2 => simp at h
  case h_1 rest hbare =>
    obtain ⟨kind, _, rfl⟩ := Option.map_eq_some_iff.mp h
    by_cases hne : Text.trim (rest.dropWhile fun c => !isBlank c) = []
    · exact Or.inl hne
    · refine Or.inr ⟨_, [], (Text.join_singleton ..).symm,
        isFirstLine_trim (fun hmem => hline ?_) hne, by simp⟩
      have hrest : '\n' ∈ line.dropWhile isDecoration := by
        rw [hbare]
        exact List.mem_cons_of_mem _ ((List.dropWhile_suffix _).subset hmem)
      exact (List.dropWhile_suffix _).subset hrest

private theorem isRead_extend {block : TagBlock} (hblock : block.IsRead) {line : Text}
    (hline : '\n' ∉ line) (hnone : ofLine? line = none) :
    (block.extend (continuation line)).IsRead := by
  unfold extend
  split
  case isTrue => exact hblock
  case isFalse hempty =>
    have hne : continuation line ≠ [] := by simpa using hempty
    have hlast := isContinuation_continuation hline hnone hne
    split
    case isTrue =>
      -- the tag stands alone on its line
      exact Or.inr ⟨continuation line, [], (Text.join_singleton ..).symm, hlast.toIsFirstLine,
        by simp⟩
    case isFalse hcontent =>
      rcases hblock with hnil | ⟨first, rest, hjoin, hfirst, hrest⟩
      · simp [hnil] at hcontent
      · refine Or.inr ⟨first, rest ++ [continuation line], ?_, hfirst, ?_⟩
        · dsimp only
          rw [hjoin, ← List.cons_append, Text.join_append_singleton (by simp)]
          rfl
        · intro other hmem
          rcases List.mem_append.mp hmem with h | h
          · exact hrest other h
          · rw [List.mem_singleton.mp h]
            exact hlast

private theorem isRead_of_mem_ofLines {lines : List Text} (hlines : ∀ line ∈ lines, '\n' ∉ line)
    {current : Option TagBlock} (hcurrent : ∀ block ∈ current, block.IsRead) {block : TagBlock}
    (h : block ∈ ofLines current lines) : block.IsRead := by
  induction lines generalizing current with
  | nil => exact hcurrent block (by simpa [ofLines] using h)
  | cons line lines ih =>
    have hline := hlines line (List.mem_cons_self ..)
    have hrest : ∀ other ∈ lines, '\n' ∉ other := fun other hmem =>
      hlines other (List.mem_cons_of_mem _ hmem)
    rw [ofLines] at h
    split at h
    case h_1 opened hopened =>
      -- the open block is done, and the line opens the next one
      rcases List.mem_append.mp h with hmem | hmem
      · exact hcurrent block (by simpa using hmem)
      · refine ih hrest ?_ hmem
        rintro other ⟨⟩
        exact isRead_of_ofLine? hline hopened
    case h_2 hnone =>
      refine ih hrest ?_ h
      intro other hmem
      obtain ⟨open', hopen, rfl⟩ := Option.map_eq_some_iff.mp hmem
      exact isRead_extend (hcurrent open' hopen) hline hnone

/-- All blocks of a section have been read from its lines. -/
theorem isRead_of_mem_ofSection {tagText : Text} {block : TagBlock}
    (h : block ∈ ofSection tagText) : block.IsRead :=
  isRead_of_mem_ofLines (fun _ => Text.not_mem_of_mem_lines) (by simp) h

/-! ## §3 The text of a block -/

/-- The name of a tag is a recognised word of letters. -/
theorem kind_name (kind : TagKind) : TagKind.ofName? kind.name = some kind ∧
    beginsWith Char.isAlpha kind.name = true ∧
    ∀ c ∈ kind.name, isSolid c = true ∧ c ≠ '/' ∧ c ≠ '*' ∧ c ≠ '\n' := by
  cases kind <;> decide

/-- The line that opens a block. -/
theorem ofLine?_header (kind : TagKind) {tail : Text} (htail : beginsWith isSolid tail = false) :
    ofLine? ('@' :: (kind.name ++ tail)) = some ⟨kind, tail.trim⟩ := by
  obtain ⟨hname, _, hchars⟩ := kind_name kind
  have hsolid : ∀ c ∈ kind.name, isSolid c = true := fun c hc => (hchars c hc).1
  have htake : (kind.name ++ tail).takeWhile (fun c => !isBlank c) = kind.name :=
    Text.takeWhile_append_of_begins hsolid htail
  have hdrop : (kind.name ++ tail).dropWhile (fun c => !isBlank c) = tail :=
    Text.dropWhile_append_of_begins hsolid htail
  have hbare : ('@' :: (kind.name ++ tail)).dropWhile isDecoration = '@' :: (kind.name ++ tail) :=
    Text.dropWhile_of_begins (by rw [Text.beginsWith_cons]; decide)
  rw [ofLine?, hbare]
  change Option.map _ (TagKind.ofName? ((kind.name ++ tail).takeWhile fun c => !isBlank c)) = _
  rw [htake, hname, hdrop]
  rfl

private theorem continuation_eq_self {line : Text} (h : IsContinuation line) :
    continuation line = line := by
  rw [continuation, Text.dropWhile_of_begins h.bare, Text.trimEnd_eq_self h.ends]

private theorem foldl_extend {content : Text} (hcontent : content ≠ []) {rest : List Text}
    (hrest : ∀ line ∈ rest, line ≠ []) (kind : TagKind) :
    rest.foldl extend ⟨kind, content⟩ = ⟨kind, Text.join ['\n'] (content :: rest)⟩ := by
  induction rest generalizing content with
  | nil => simp
  | cons line rest ih =>
    have hline : line ≠ [] := hrest line (List.mem_cons_self ..)
    have hextend : extend ⟨kind, content⟩ line = ⟨kind, content ++ '\n' :: line⟩ := by
      simp [extend, hline, hcontent]
    -- the line joins the content, so the induction is over all contents
    rw [List.foldl_cons, hextend, ih (by simp) fun other hmem =>
      hrest other (List.mem_cons_of_mem _ hmem), Text.join_cons (List.cons_ne_nil line rest)]
    have hassoc : content ++ '\n' :: line = (content ++ ['\n']) ++ line := by simp
    rw [hassoc, Text.join_prepend, List.append_assoc]

/-- Further lines of a block extend it. -/
theorem ofLines_continuations {rest : List Text} (hrest : ∀ line ∈ rest, IsContinuation line)
    (block : TagBlock) (more : List Text) :
    ofLines (some block) (rest ++ more) = ofLines (some (rest.foldl extend block)) more := by
  induction rest generalizing block with
  | nil => rfl
  | cons line rest ih =>
    have hline := hrest line (List.mem_cons_self ..)
    rw [List.cons_append, ofLines, hline.running]
    dsimp only [Option.map_some]
    rw [continuation_eq_self hline]
    exact ih (fun other hmem => hrest other (List.mem_cons_of_mem _ hmem)) _

/-- The lines of a block's text: the tag with what follows it, and continuations. -/
structure SourceLines (block : TagBlock) (tail : Text) (rest : List Text) : Prop where
  lines : block.toSource.lines = ('@' :: (block.kind.name ++ tail)) :: rest
  header : (tail = [] ∧ rest = []) ∨ ∃ first, tail = ' ' :: first ∧ IsFirstLine first
  continued : ∀ line ∈ rest, IsContinuation line
  content : block.content = Text.join ['\n'] (tail.trim :: rest)

private theorem header_ends (kind : TagKind) {tail : Text}
    (h : tail = [] ∨ ∃ first, tail = ' ' :: first ∧ IsFirstLine first) :
    '\n' ∉ '@' :: (kind.name ++ tail) ∧ endsIn isSolid ('@' :: (kind.name ++ tail)) = true := by
  obtain ⟨_, hletters, hchars⟩ := kind_name kind
  have hname : '\n' ∉ '@' :: kind.name := by
    rw [List.mem_cons, not_or]
    exact ⟨by decide, fun hmem => (hchars _ hmem).2.2.2 rfl⟩
  rw [← List.cons_append]
  rcases h with rfl | ⟨first, rfl, hfirst⟩
  · rw [List.append_nil]
    exact ⟨hname, Text.endsIn_append (Text.endsIn_of_all (Text.ne_nil_of_beginsWith hletters)
      fun c hc => (hchars c hc).1) ['@']⟩
  · refine ⟨fun hmem => ?_, Text.endsIn_append (Text.endsIn_append hfirst.ends [' ']) _⟩
    rcases List.mem_append.mp hmem with h | h
    · exact hname h
    · rcases List.mem_cons.mp h with h | h
      · exact absurd h (by decide)
      · exact hfirst.oneLine h

theorem exists_sourceLines {block : TagBlock} (h : block.IsRead) :
    ∃ (tail : Text) (rest : List Text), SourceLines block tail rest := by
  obtain ⟨kind, content⟩ := block
  rcases h with hnil | ⟨first, rest, hjoin, hfirst, hrest⟩
  · -- the tag alone
    dsimp only at hnil
    subst hnil
    obtain ⟨hline, hends⟩ := @header_ends kind [] (Or.inl rfl)
    refine ⟨[], [], ?_, Or.inl ⟨rfl, rfl⟩, by simp, rfl⟩
    have hlines : Text.lines (Text.join ['\n'] ['@' :: (kind.name ++ [])]) =
        ['@' :: (kind.name ++ [])] :=
      (Text.lines_join_of_isLine (by simpa using Text.IsLine.of_solid hline hends)).1
    rw [Text.join_singleton, List.append_nil] at hlines
    rw [List.append_nil]
    exact hlines
  · dsimp only at hjoin
    subst hjoin
    obtain ⟨hline, hends⟩ := header_ends kind (Or.inr ⟨first, rfl, hfirst⟩)
    have htrim : Text.trim (' ' :: first) = first := Text.trim_eq_self hfirst.begins hfirst.ends
    -- the first line is part of the content, so the tag does not stand alone
    have hcontent : (Text.join ['\n'] (first :: rest)).isEmpty = false := by
      have hinfix := Text.isInfix_join (List.mem_cons_self (a := first) (l := rest)) ['\n']
      have hpos := List.length_pos_of_ne_nil (Text.ne_nil_of_beginsWith hfirst.begins)
      have hlength := hinfix.length_le
      rw [List.isEmpty_eq_false_iff, ← List.length_pos_iff]
      omega
    have hsource : toSource ⟨kind, Text.join ['\n'] (first :: rest)⟩ =
        Text.join ['\n'] (('@' :: (kind.name ++ ' ' :: first)) :: rest) := by
      have hheader : '@' :: (kind.name ++ ' ' :: first) =
          ('@' :: (kind.name ++ [' '])) ++ first := by simp
      rw [hheader, Text.join_prepend, toSource, hcontent]
      simp
    refine ⟨' ' :: first, rest, ?_, Or.inr ⟨first, rfl, hfirst⟩, hrest, by rw [htrim]⟩
    rw [hsource]
    refine (Text.lines_join_of_isLine ?_).1
    rintro line (_ | ⟨_, hmem⟩)
    · exact .of_solid hline hends
    · exact .of_solid (hrest line hmem).oneLine (hrest line hmem).ends

/-- A line of a block's text holds no line feed and ends in no blank. -/
theorem SourceLines.line_ends {block : TagBlock} {tail : Text} {rest : List Text}
    (h : SourceLines block tail rest) {line : Text} (hmem : line ∈ block.toSource.lines) :
    '\n' ∉ line ∧ endsIn isSolid line = true := by
  rw [h.lines] at hmem
  rcases List.mem_cons.mp hmem with rfl | hrest
  · exact header_ends block.kind (h.header.imp_left And.left)
  · exact ⟨(h.continued line hrest).oneLine, (h.continued line hrest).ends⟩

/-- The further lines extend what the tag line opens to the block. -/
theorem SourceLines.foldl_extend_eq {block : TagBlock} {tail : Text} {rest : List Text}
    (h : SourceLines block tail rest) : rest.foldl extend ⟨block.kind, tail.trim⟩ = block := by
  obtain ⟨kind, content⟩ := block
  have hcontent := h.content
  dsimp only at hcontent
  subst hcontent
  rcases h.header with ⟨rfl, rfl⟩ | ⟨first, rfl, hfirst⟩
  · rfl
  · have htrim : Text.trim (' ' :: first) = first := Text.trim_eq_self hfirst.begins hfirst.ends
    rw [htrim]
    exact foldl_extend (Text.ne_nil_of_beginsWith hfirst.begins)
      (fun line hmem => Text.ne_nil_of_beginsWith (h.continued line hmem).begins) kind

/-- The lines of a block's text open the block and close the one in front of it. -/
theorem ofLines_sourceLines {block : TagBlock} (h : block.IsRead) (current : Option TagBlock)
    (more : List Text) :
    ofLines current (block.toSource.lines ++ more) =
      current.toList ++ ofLines (some block) more := by
  obtain ⟨tail, rest, hsource⟩ := exists_sourceLines h
  have hbegins : beginsWith isSolid tail = false := by
    rcases hsource.header with ⟨rfl, _⟩ | ⟨first, rfl, _⟩
    · rfl
    · rw [Text.beginsWith_cons]
      decide
  rw [hsource.lines, List.cons_append, ofLines, ofLine?_header block.kind hbegins]
  dsimp only
  rw [ofLines_continuations hsource.continued, hsource.foldl_extend_eq]

/-- **Reading the text of blocks that have been read gives the blocks back.** -/
theorem ofLines_toSource {blocks : List TagBlock} (h : ∀ block ∈ blocks, block.IsRead) :
    ofLines none (blocks.flatMap fun block => block.toSource.lines) = blocks := by
  -- each block is given out when the next one opens, so the induction carries the open one
  have hall : ∀ current, ofLines current (blocks.flatMap fun block => block.toSource.lines) =
      current.toList ++ blocks := by
    induction blocks with
    | nil => simp [ofLines]
    | cons block blocks ih =>
      intro current
      rw [List.flatMap_cons, ofLines_sourceLines (h block (List.mem_cons_self ..)),
        ih fun other hmem => h other (List.mem_cons_of_mem _ hmem)]
      rfl
  exact hall none

end TagBlock

end DeclDocs
