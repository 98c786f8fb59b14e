import DeclDocs.Proofs.Declaration.AnnotatedLine
import DeclDocs.Proofs.Lexical.Breaks
import DeclDocs.Proofs.Offsets.Declarations

/-!
# The types of fields

The type of a field is the word in front of its name, where blanks inside type arguments do not
separate words.  Annotations and modifiers in front of the type make no difference, nor does what
follows the name: a semicolon with blanks and comments behind it, or an initialiser with any text.

* `splitTypeBlanks_append`, `typeTokens_spread`: the words of a declaration.
* `DeclaredField`, `EndsField`: fields as they are written.
* `fieldHead_append`: the part of a field that is read for its type.
* `fieldType_append`: the type of a field.
-/

namespace DeclDocs

open Text (isSolid beginsWith endsIn)

/-! ## §1 Words with type arguments -/

/-- Text that nests its angle brackets and has blanks only inside them belongs to one word. -/
theorem splitTypeBlanks_append {depth : Nat} {front : Text} {inner : Char → Bool}
    (h : nests .angles isSolid inner depth front = true) {rest token : Text} {tokens : List Text}
    (hrest : splitTypeBlanks 0 rest = token :: tokens) :
    splitTypeBlanks depth (front ++ rest) = (front ++ token) :: tokens := by
  induction front generalizing depth with
  | nil =>
    have hdepth : depth = 0 := by simpa [nests] using h
    rw [hdepth]
    exact hrest
  | cons c cs ih =>
    rw [nests] at h
    rw [List.cons_append]
    by_cases hopen : c = '<'
    · rw [if_pos (by simpa [Brackets.angles, Brackets.ofPair] using hopen)] at h
      apply Offsets.splitTypeBlanks_keep
      · simp [Offsets.typeDepth, hopen]
      · simpa [Offsets.typeDepth, hopen] using ih h
    · rw [if_neg (by simpa [Brackets.angles, Brackets.ofPair] using hopen)] at h
      by_cases hclose : c = '>'
      · rw [if_pos (by simpa [Brackets.angles, Brackets.ofPair] using hclose),
          Bool.and_eq_true] at h
        apply Offsets.splitTypeBlanks_keep
        · rw [hclose]
          exact fun hblank => absurd hblank.1 (by decide)
        · simpa [Offsets.typeDepth, hclose] using ih h.2
      · rw [if_neg (by simpa [Brackets.angles, Brackets.ofPair] using hclose),
          Bool.and_eq_true] at h
        have hkeep : Offsets.typeDepth depth c = depth := by
          simp [Offsets.typeDepth, hopen, hclose]
        apply Offsets.splitTypeBlanks_keep
        · -- a blank may stand here, but then some bracket is open
          rw [hkeep]
          intro hblank
          simp [hblank, isSolid] at h
        · rw [hkeep]
          exact ih h.2

private theorem splitTypeBlanks_cons_blank {b : Char} (hb : isBlank b = true) (rest : Text) :
    splitTypeBlanks 0 (b :: rest) = [] :: splitTypeBlanks 0 rest := by
  have hdepth : Offsets.typeDepth 0 b = 0 := by
    have hopen : b ≠ '<' := Text.ne_of_class hb (by decide)
    simp [Offsets.typeDepth, hopen]
  have hsplit := Offsets.splitTypeBlanks_blank ⟨hb, hdepth⟩ rest
  rw [hdepth] at hsplit
  exact hsplit

/-- Blanks in front of the words make no difference. -/
theorem typeTokens_blanks {blanks : Text} (h : ∀ c ∈ blanks, isBlank c = true) (rest : Text) :
    typeTokens (blanks ++ rest) = typeTokens rest := by
  induction blanks with
  | nil => rfl
  | cons b blanks ih =>
    obtain ⟨hb, hblanks⟩ := List.forall_mem_cons.mp h
    rw [List.cons_append, typeTokens, splitTypeBlanks_cons_blank hb]
    exact ih hblanks

/-- A word and the blanks behind it. -/
theorem typeTokens_append_separator {token : Text} {inner : Char → Bool} (hne : token ≠ [])
    (h : nests .angles isSolid inner 0 token = true) (separator : Separator) (rest : Text) :
    typeTokens (token ++ (separator.text ++ rest)) = token :: typeTokens rest := by
  obtain ⟨⟨blanks, hblank⟩, hblanks⟩ := separator
  cases blanks with
  | nil => exact absurd rfl hblanks
  | cons b blanks =>
    obtain ⟨hb, hmore⟩ := List.forall_mem_cons.mp hblank
    show typeTokens (token ++ b :: (blanks ++ rest)) = _
    have hsplit := splitTypeBlanks_append h (splitTypeBlanks_cons_blank hb (blanks ++ rest))
    rw [typeTokens, hsplit, List.append_nil, List.filter_cons_of_pos (by simpa using hne),
      ← typeTokens_blanks hmore rest]
    rfl

/-- A word alone. -/
theorem typeTokens_word {token : Text} {inner : Char → Bool} (hne : token ≠ [])
    (h : nests .angles isSolid inner 0 token = true) : typeTokens token = [token] := by
  have hend : splitTypeBlanks 0 [] = [[]] := rfl
  have hsplit := splitTypeBlanks_append h hend
  rw [List.append_nil] at hsplit
  rw [typeTokens, hsplit]
  simpa using hne

/-- Words in a row. -/
theorem typeTokens_spread {α : Type} {text : α → Text} {inner : Char → Bool}
    {parts : List (α × Separator)}
    (hparts : ∀ part ∈ parts, text part.1 ≠ [] ∧ nests .angles isSolid inner 0 (text part.1) = true)
    (rest : Text) :
    typeTokens (spread text parts ++ rest) = parts.map (fun part => text part.1) ++
      typeTokens rest := by
  induction parts with
  | nil => rfl
  | cons part parts ih =>
    obtain ⟨hpart, hmore⟩ := List.forall_mem_cons.mp hparts
    rw [spread_cons, List.append_assoc, List.append_assoc,
      typeTokens_append_separator hpart.1 hpart.2, ih hmore]
    rfl

/-! ## §2 Fields -/

/-- The type of a field: angle brackets are nested, and commas and spaces stand only inside them. -/
structure DeclaredType where
  text : Text
  nested : nests .angles isTypeAtom isTypeArgument 0 text = true
  named : beginsWith isIdentifierChar text = true

/-- A field in front of its semicolon or its initialiser. -/
structure DeclaredField where
  row : DecoratorRow
  modifiers : List ({word // word ∈ modifiers} × Separator)
  type : DeclaredType
  between : Separator
  name : Identifier

/-- A character of the words of a field. -/
def isFieldChar (c : Char) : Bool :=
  isModifierChar c || isTypeArgument c || isBlank c || c == '<' || c == '>'

private theorem isPlain_of_isFieldChar {c : Char} (h : isFieldChar c = true) :
    ScanState.isPlain c = true := by
  have hquote : c ≠ '"' := Text.ne_of_class h (by decide)
  have happostrophe : c ≠ '\'' := Text.ne_of_class h (by decide)
  have hslash : c ≠ '/' := Text.ne_of_class h (by decide)
  simp [ScanState.isPlain, hquote, happostrophe, hslash]

theorem DeclaredType.fieldChars (type : DeclaredType) :
    ∀ c ∈ type.text, isFieldChar c = true := by
  intro c hc
  have hmem := mem_nests type.nested hc
  simp only [Brackets.angles, Brackets.ofPair] at hmem
  rcases hmem with hopen | hclose | hatom | hargument
  · simp [isFieldChar, hopen]
  · simp [isFieldChar, hclose]
  · simp [isFieldChar, isTypeArgument, hatom]
  · simp [isFieldChar, hargument]

private theorem modifier_word {word : Text} (h : word ∈ modifiers) :
    word ≠ [] ∧ ∀ c ∈ word, isModifierChar c = true :=
  modifier_chars word (List.mem_append_left _ h)

/-- Words without blanks and angle brackets have no type arguments. -/
theorem nests_angles_of_class {p inner : Char → Bool} (hopens : p '<' = false)
    (hcloses : p '>' = false) (hsolid : ∀ c, p c = true → isSolid c = true) {text : Text}
    (h : ∀ c ∈ text, p c = true) : nests .angles isSolid inner 0 text = true := by
  apply nests_of_forall
  intro c hc
  have hopen : c ≠ '<' := Text.ne_of_class (h c hc) hopens
  have hclose : c ≠ '>' := Text.ne_of_class (h c hc) hcloses
  simp [Brackets.angles, Brackets.ofPair, hopen, hclose, hsolid c (h c hc)]

namespace DeclaredField

variable (field : DeclaredField)

/-- The modifiers, the type and the name. -/
def words : Text :=
  spread Subtype.val field.modifiers ++ (field.type.text ++ (field.between.text ++ field.name.text))

/-- The field as it is written. -/
def text : Text :=
  field.row.text ++ field.words

theorem fieldChars : ∀ c ∈ field.words, isFieldChar c = true := by
  have hblank : ∀ {c}, isBlank c = true → isFieldChar c = true := fun h => by
    simp [isFieldChar, h]
  have hmodifier : ∀ {c}, isModifierChar c = true → isFieldChar c = true := fun h => by
    simp [isFieldChar, h]
  intro c hc
  simp only [words, spread, List.mem_append, List.mem_flatMap] at hc
  rcases hc with ⟨⟨word, separator⟩, -, hword | hseparator⟩ | htype | hbetween | hname
  · exact hmodifier ((modifier_word word.property).2 c hword)
  · exact hblank (separator.blank c hseparator)
  · exact field.type.fieldChars c htype
  · exact hblank (field.between.blank c hbetween)
  · exact hmodifier (by simp [isModifierChar, field.name.chars c hname])

theorem begins : beginsWith isDeclarationStart field.words = true := by
  apply beginsWith_spread
  · intro part _
    obtain ⟨hne, hchars⟩ := modifier_word part.1.property
    exact Text.beginsWith_of_all hne fun c hc => Bool.or_eq_true_iff.mpr (Or.inl (hchars c hc))
  · apply Text.beginsWith_append
    exact Text.beginsWith_mono (fun c hc => by simp [isDeclarationStart, hc]) field.type.named

/-- The words end with the name. -/
theorem ends {p : Char → Bool} (hp : ∀ c, isIdentifierChar c = true → p c = true) :
    endsIn p field.words = true := by
  have hname : endsIn p field.name.text = true :=
    Text.endsIn_of_all field.name.nonempty fun c hc => hp c (field.name.chars c hc)
  exact Text.endsIn_append (Text.endsIn_append (Text.endsIn_append hname _) _) _

/-- **The words of a field** are its modifiers, its type and its name. -/
theorem typeTokens_words : typeTokens field.words =
    field.modifiers.map (fun part => part.1.val) ++ [field.type.text, field.name.text] := by
  have hmodifiers : ∀ part ∈ field.modifiers, part.1.val ≠ [] ∧
      nests .angles isSolid isTypeArgument 0 part.1.val = true := by
    intro part _
    obtain ⟨hne, hchars⟩ := modifier_word part.1.property
    exact ⟨hne, nests_angles_of_class rfl rfl (fun _ => isSolid_of_isModifierChar) hchars⟩
  have htype : nests .angles isSolid isTypeArgument 0 field.type.text = true :=
    nests_mono (fun _ _ => rfl) (fun _ _ => rfl) (fun _ _ => isSolid_of_isTypeAtom)
      (fun _ _ h => h) field.type.nested
  have hname : nests .angles isSolid isTypeArgument 0 field.name.text = true :=
    nests_angles_of_class rfl rfl (fun _ => isSolid_of_isIdentifierChar) field.name.chars
  rw [words, typeTokens_spread hmodifiers,
    typeTokens_append_separator (Text.ne_nil_of_beginsWith field.type.named) htype,
    typeTokens_word field.name.nonempty hname]

end DeclaredField

/-! ## §3 Behind the name -/

/-- Blanks and comments. -/
inductive IsTrailer : Text → Prop
  | nil : IsTrailer []
  | blank {c : Char} {text : Text} (hc : isBlank c = true) (more : IsTrailer text) :
      IsTrailer (c :: text)
  | lineComment (text : Text) : IsTrailer ('/' :: '/' :: text)
  | blockComment {text inside rest : Text} (closed : text.cut? "*/" = some (inside, rest))
      (more : IsTrailer rest) : IsTrailer ('/' :: '*' :: text)
  | openComment {text : Text} (unclosed : text.has "*/" = false) : IsTrailer ('/' :: '*' :: text)

/-- What may follow the name of a field. -/
inductive EndsField : Text → Prop
  | semicolon {trailer : Text} (h : IsTrailer trailer) : EndsField (';' :: trailer)
  | initialiser (gap : Padding) (value : Text) : EndsField (gap.text ++ '=' :: value)

/-- The scanner keeps only blanks of blanks and comments. -/
theorem IsTrailer.isBlank_code {trailer : Text} (h : IsTrailer trailer) :
    ∀ c ∈ (scanLine trailer).code, isBlank c = true := by
  induction h with
  | nil => simp [scanLine, ScannedLine.code, codeOf]
  | @blank c text hc _ ih =>
    have hcode : (scanLine (c :: text)).code = c :: (scanLine text).code := by
      rw [scanLine, ScanState.scan_plain (ScanState.isPlain_of_isBlank hc)]
      rfl
    rw [hcode]
    exact List.forall_mem_cons.mpr ⟨hc, ih⟩
  | lineComment text =>
    have hcode : (scanLine ('/' :: '/' :: text)).code = [] := rfl
    simp [hcode]
  | @blockComment text inside rest closed _ ih =>
    -- a closed comment leaves a space
    have hcode : (scanLine ('/' :: '*' :: text)).code = ' ' :: (scanLine rest).code := by
      show (ScanState.comment.scan text).code = _
      rw [ScanState.scan_comment_of_cut closed]
      rfl
    rw [hcode]
    exact List.forall_mem_cons.mpr ⟨rfl, ih⟩
  | @openComment text unclosed =>
    have hcode : (scanLine ('/' :: '*' :: text)).code = [] := by
      show (ScanState.comment.scan text).code = _
      rw [ScanState.scan_comment_of_not_has unclosed]
      rfl
    simp [hcode]

private theorem keptCode_semicolon {trailer : Text} (h : IsTrailer trailer) :
    keptCode (';' :: trailer) = [';'] := by
  have hread : ReadsAs [';'] [.code ';'] := .of_plain (by decide)
  rw [← List.singleton_append, hread.keptCode_append (by decide), keptCode,
    Text.trimEnd_of_blank h.isBlank_code, List.append_nil]

private theorem keptCode_initialiser (gap : Padding) (value : Text) :
    keptCode (gap.text ++ '=' :: value) = gap.text ++ '=' :: keptCode value := by
  have hread : ReadsAs (gap.text ++ ['=']) (gap.text.map Glyph.code ++ [.code '=']) :=
    gap.readsAs.append (.of_plain (by decide))
  have hsign : endsIn isSolid ['='] = true := by decide
  have hkept := hread.keptCode_append (Text.endsIn_append hsign _) value
  simpa using hkept

/-! ## §4 The type of a field -/

/-- Characters of the class at the end are dropped. -/
theorem Text.dropEndWhile_append {p : Char → Bool} {front back : Text}
    (hfront : endsIn (fun c => !p c) front = true) (hback : ∀ c ∈ back, p c = true) :
    dropEndWhile p (front ++ back) = front := by
  have hstop : beginsWith p front.reverse = false := by
    cases hrev : front.reverse with
    | nil => rfl
    | cons c cs =>
      have hlast : front.getLast? = some c := by simp [← List.head?_reverse, hrev]
      simpa [endsIn, hlast] using hfront
  have hreverse : ∀ c ∈ back.reverse, p c = true := fun c hc => hback c (List.mem_reverse.mp hc)
  rw [dropEndWhile, List.reverse_append, dropWhile_append_of_begins hreverse hstop,
    List.reverse_reverse]

namespace DeclaredField

variable (field : DeclaredField)

private theorem plain_words : ∀ c ∈ field.words, ScanState.isPlain c = true := fun c hc =>
  isPlain_of_isFieldChar (field.fieldChars c hc)

/-- No equals sign stands in front of the initialiser. -/
theorem shown_words_ne : ∀ g ∈ field.words.map Glyph.code, g.shown ≠ '=' := by
  intro g hg
  obtain ⟨c, hc, rfl⟩ := List.mem_map.mp hg
  exact Text.ne_of_class (field.fieldChars c hc) (by decide)

private theorem cutCode?_semicolon : cutCode? '=' (field.words ++ [';']) = none := by
  rw [cutCode?, maskGlyphs_plain field.plain_words, cutGlyphs?_front field.shown_words_ne]
  rfl

private theorem cutCode?_initialiser (gap : Padding) (value : Text) :
    cutCode? '=' (field.words ++ (gap.text ++ '=' :: value)) =
      some (field.words ++ gap.text, value) := by
  have hgap : ∀ g ∈ (field.words ++ gap.text).map Glyph.code, g.shown ≠ '=' := by
    rw [List.map_append]
    intro g hg
    rcases List.mem_append.mp hg with hword | hblank
    · exact field.shown_words_ne g hword
    · obtain ⟨c, hc, rfl⟩ := List.mem_map.mp hblank
      exact Text.ne_of_class (gap.blank c hc) (by decide)
  have hequals : ∀ c ∈ ['='], ScanState.isPlain c = true := by decide
  have hmask : maskGlyphs (field.words ++ (gap.text ++ '=' :: value)) =
      (field.words ++ gap.text).map Glyph.code ++ .code '=' :: maskGlyphs value := by
    rw [maskGlyphs_plain field.plain_words,
      maskGlyphs_plain fun c hc => isPlain_of_isInert (gap.inert c hc),
      ← List.singleton_append, maskGlyphs_plain hequals, List.map_append, List.append_assoc]
    rfl
  rw [cutCode?, hmask, cutGlyphs?_append hgap rfl]
  simp only [Option.map_some, codeOf_map_code, codeOf_maskGlyphs]

end DeclaredField

/-- **The part of a field that is read for its type** are its words, whatever ends it. -/
theorem fieldHead_append (field : DeclaredField) {ending : Text} (h : EndsField ending) :
    fieldHead (field.text ++ ending) = field.words := by
  have hsolid : endsIn isSolid field.words = true :=
    field.ends fun _ => isSolid_of_isIdentifierChar
  have hbegins : beginsWith isSolid field.words = true :=
    Text.beginsWith_mono (fun _ => isSolid_of_isDeclarationStart) field.begins
  -- the words themselves are not shortened with the semicolons
  have hdrop : ∀ {back : Text}, (∀ c ∈ back, (c == ';') = true) →
      Text.dropEndWhile (· == ';') (field.words ++ back) = field.words := by
    intro back hback
    refine Text.dropEndWhile_append (field.ends ?_) hback
    intro c hc
    have hne : c ≠ ';' := Text.ne_of_class hc (by decide)
    simpa using hne
  have hline : field.text ++ ending = field.row.text ++ (field.words ++ ending) := by
    simp [DeclaredField.text]
  rw [hline, fieldHead, stripAnnotations_memberCode field.row (.of_plain field.plain_words)
    field.begins hsolid ending]
  cases h with
  | @semicolon trailer htrailer =>
    have hlast : endsIn isSolid [';'] = true := by decide
    rw [keptCode_semicolon htrailer]
    simp only [field.cutCode?_semicolon]
    rw [Text.trim_eq_self (Text.beginsWith_append hbegins _) (Text.endsIn_append hlast _),
      hdrop (by simp), Text.trimEnd_eq_self hsolid]
  | initialiser gap value =>
    rw [keptCode_initialiser]
    simp only [field.cutCode?_initialiser]
    have hwords := hdrop (List.forall_mem_nil _)
    rw [List.append_nil] at hwords
    rw [Text.trim_append_of_blank gap.blank, Text.trim_eq_self hbegins hsolid, hwords,
      Text.trimEnd_eq_self hsolid]

/-- **The type of a field** is recovered as it is written, with its type arguments. -/
theorem fieldType_append (field : DeclaredField) {ending : Text} (h : EndsField ending) :
    fieldType (field.text ++ ending) = field.type.text := by
  rw [fieldType, fieldHead_append field h, field.typeTokens_words, List.reverse_append]
  rfl

/-- A field with an annotation whose arguments look like an initialiser. -/
def ratesField : DeclaredField where
  row := {
    indent := ⟨"     ", by decide⟩
    parts := [
      { name := "cfg.Key"
        isName := ⟨by decide, by decide, by decide⟩
        arguments := some (.empty,
          { text := "path = \"a;<b=\", (c > 0) = '='"
            shown := "path = \"     \", (c > 0) = ' '"
            shows := by decide
            nested := by decide })
        after := ⟨"\t", by decide⟩ }]
    apart := by decide }
  modifiers := [
    (⟨"non-sealed", by decide⟩, .space),
    (⟨"volatile", by decide⟩, ⟨⟨" \t", by decide⟩, by decide⟩)]
  type := ⟨"java.util.Map<String, List<? extends Rate[]>>", by decide, by decide⟩
  between := .space
  name := ⟨"rates", by decide, by decide⟩

theorem fieldType_append_rates :
    IsTrailer " /* = */ // <;" ∧
    fieldType (ratesField.text ++ "; /* = */ // <;") =
      "java.util.Map<String, List<? extends Rate[]>>" ∧
    fieldType (ratesField.text ++ " = a < b ? \"; c : d // = ;") =
      "java.util.Map<String, List<? extends Rate[]>>" := by
  have hcut : Text.cut? " = */ // <;" "*/" = some (" = ".toList, " // <;".toList) := by
    decide
  have htrailer : IsTrailer " /* = */ // <;" :=
    .blank (by decide) (.blockComment hcut (.blank (by decide) (.lineComment " <;")))
  exact ⟨htrailer, fieldType_append ratesField (.semicolon htrailer),
    fieldType_append ratesField (.initialiser ⟨" ", by decide⟩ " a < b ? \"; c : d // = ;")⟩

end DeclDocs
