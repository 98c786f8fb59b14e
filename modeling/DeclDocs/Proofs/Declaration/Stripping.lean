import DeclDocs.Proofs.Declaration.Grammar
import DeclDocs.Proofs.Text.Marks

/-!
# Taking annotations and words off the front of a declaration

Annotations and modifiers are taken off one at a time.  Every step shortens the text, so the removal
goes on until a step no longer applies; in front of written-out annotations or words it takes
exactly those.

* `dropAnnotation?_append`, `strip_annotations_spread`: annotations.
* `dropWord?_append`, `stripWords_spread`: words.
-/

namespace DeclDocs

open Text (isSolid beginsWith)

/-! ## §1 Annotations -/

theorem untilClose_length {opening closing : Char} {nested : Nat} {glyphs inside rest : List Glyph}
    (h : untilClose opening closing nested glyphs = some (inside, rest)) :
    rest.length < glyphs.length := by
  induction glyphs generalizing nested inside rest with
  | nil => simp [untilClose] at h
  | cons g gs ih =>
    -- a character that does not close the group joins what is inside, at whatever depth
    have hkeep : ∀ {depth : Nat},
        (untilClose opening closing depth gs).map (fun found => (g :: found.1, found.2)) =
          some (inside, rest) → rest.length < (g :: gs).length := by
      intro depth hmap
      obtain ⟨⟨inside', rest'⟩, hrec, heq⟩ := Option.map_eq_some_iff.mp hmap
      cases heq
      exact Nat.lt_succ_of_lt (ih hrec)
    unfold untilClose at h
    dsimp only at h
    split at h
    · exact hkeep h
    · split at h
      · split at h
        · cases h
          simp
        · exact hkeep h
      · exact hkeep h

/-- Taking an annotation off shortens the text. -/
theorem dropAnnotation?_shorter (text rest : Text) (h : dropAnnotation? text = some rest) :
    rest.length < text.length := by
  unfold dropAnnotation? at h
  split at h
  case h_2 => simp at h
  case h_1 _ cs =>
    have htrim : (Text.trimStart (cs.dropWhile isAnnotationChar)).length ≤ cs.length :=
      (Text.trimStart_length_le _).trans (List.dropWhile_suffix _).length_le
    split at h
    · simp at h
    · split at h
      case h_1 _ arguments heq =>
        rw [heq, List.length_cons] at htrim
        split at h
        case h_1 _ inside rest' hclose =>
          -- behind the closing parenthesis of the arguments
          cases h
          have hlen := untilClose_length hclose
          rw [length_maskGlyphs] at hlen
          have := Text.trimStart_length_le (codeOf rest')
          rw [codeOf, List.length_map] at this
          rw [List.length_cons, codeOf]
          omega
        case h_2 =>
          -- arguments that never close take the rest of the text
          cases h
          simp
      case h_2 =>
        cases h
        rw [List.length_cons]
        omega

/-- The group behind the name of an annotation ends with its argument list. -/
theorem untilClose_arguments (arguments : Arguments) {rest : Text} (hwhole : ScannedWhole rest) :
    ∃ inside, untilClose '(' ')' 0 (maskGlyphs (arguments.text ++ (')' :: rest))) =
      some (inside, maskGlyphs rest) := by
  obtain ⟨glyphs, hshown, hread⟩ :=
    ReadsAs.of_shows arguments.shows (c := ')') (by decide) (by decide)
  have hmask : maskGlyphs (arguments.text ++ (')' :: rest)) =
      glyphs ++ .code ')' :: maskGlyphs rest := by
    have := hread.maskGlyphs_append hwhole
    simpa using this
  refine ⟨glyphs, ?_⟩
  have hnested := arguments.nested
  rw [← hshown] at hnested
  rw [hmask]
  exact untilClose_append (by decide) hnested rfl _

theorem isSolid_of_isAnnotationChar {c : Char} (h : isAnnotationChar c = true) :
    isSolid c = true := by
  simp only [isAnnotationChar, Bool.or_eq_true, beq_iff_eq] at h
  rcases h with h | rfl
  · exact isSolid_of_isIdentifierChar h
  · decide

/-- No run of name characters goes on behind the name of an annotation. -/
theorem Decorator.begins_argumentText (decorator : Decorator) {rest : Text}
    (hname : beginsWith isAnnotationChar rest = false) :
    beginsWith isAnnotationChar (decorator.argumentText ++ rest) = false := by
  unfold Decorator.argumentText
  cases decorator.arguments with
  | none => exact hname
  | some arguments => rfl

/-- What follows an annotation does not turn it into the keyword `@interface`. -/
theorem Decorator.startsWith_interface (decorator : Decorator) {rest : Text}
    (hname : beginsWith isAnnotationChar rest = false) :
    Text.startsWith (decorator.name ++ (decorator.argumentText ++ rest)) "interface" = false := by
  rw [Text.startsWith_append (decorator.begins_argumentText hname) (by decide)]
  exact decorator.notInterface

/-- One annotation is taken off, with the blanks behind it. -/
theorem dropAnnotation?_append (decorator : Decorator) {rest : Text}
    (hwhole : ScannedWhole rest) (hname : beginsWith isAnnotationChar rest = false)
    (hparen : beginsWith (· == '(') rest.trimStart = false) :
    dropAnnotation? (decorator.text ++ rest) = some rest.trimStart := by
  have hbegins := decorator.begins_argumentText hname
  have hinterface := decorator.startsWith_interface hname
  have htake := Text.takeWhile_append_of_begins decorator.chars hbegins
  have hdrop := Text.dropWhile_append_of_begins decorator.chars hbegins
  have hempty : decorator.name.isEmpty = false := by simp [decorator.nonempty]
  unfold Decorator.text
  rw [List.cons_append, List.append_assoc, dropAnnotation?, hinterface, htake, hempty, hdrop]
  simp only [Bool.or_self, Bool.false_eq_true, if_false]
  unfold Decorator.argumentText
  cases decorator.arguments with
  | none =>
    -- no parenthesis in `rest` is taken for an argument list
    simp only [Option.elim_none, List.nil_append]
    split
    case h_1 _ arguments heq => simp [heq] at hparen
    case h_2 => rfl
  | some arguments =>
    have htrim : Text.trimStart ('(' :: (arguments.text ++ [')']) ++ rest) =
        '(' :: (arguments.text ++ (')' :: rest)) := by
      rw [Text.trimStart_eq_self (by rfl)]
      simp
    obtain ⟨inside, hclose⟩ := untilClose_arguments arguments hwhole
    simp only [Option.elim_some, htrim, hclose, codeOf_maskGlyphs]

/-- Annotations in a row are taken off together. -/
theorem strip_annotations_spread (annotations : List (Decorator × Separator)) {rest : Text}
    (hwhole : ScannedWhole rest) (htrim : rest.trimStart = rest)
    (hparen : beginsWith (· == '(') rest = false) :
    Text.strip dropAnnotation? (spread Decorator.text annotations ++ rest) =
      Text.strip dropAnnotation? rest := by
  induction annotations with
  | nil => rfl
  | cons part annotations ih =>
    obtain ⟨decorator, separator⟩ := part
    have htail : ScannedWhole (separator.text ++ (spread Decorator.text annotations ++ rest)) := by
      obtain ⟨glyphs, hread⟩ := exists_glyphs_spread .nil .append (·.readsAs)
        fun part (_ : part ∈ annotations) => part.1.readsAs
      exact separator.readsAs.scannedWhole_append (hread.scannedWhole_append hwhole)
    -- what follows the separator begins with the next annotation or with the rest
    have hnext : Text.trimStart (separator.text ++ (spread Decorator.text annotations ++ rest)) =
          spread Decorator.text annotations ++ rest ∧
        beginsWith (· == '(') (spread Decorator.text annotations ++ rest) = false := by
      rw [Text.trimStart_append_of_blank separator.blank]
      cases annotations with
      | nil => exact ⟨htrim, hparen⟩
      | cons => exact ⟨rfl, rfl⟩
    have hname : beginsWith isAnnotationChar
        (separator.text ++ (spread Decorator.text annotations ++ rest)) = false :=
      separator.begins_eq_false (fun c => isSolid_of_isAnnotationChar) _
    have hdrop := dropAnnotation?_append decorator htail hname (by rw [hnext.1]; exact hnext.2)
    rw [hnext.1] at hdrop
    rw [spread_cons, List.append_assoc, List.append_assoc,
      Text.strip_eq dropAnnotation?_shorter, hdrop]
    exact ih

/-- A character that a declaration begins with once its annotations are gone: of a modifier, of a
name, or the bracket of type parameters. -/
def isDeclarationStart (c : Char) : Bool :=
  isIdentifierChar c || c == '-' || c == '<'

theorem isSolid_of_isDeclarationStart {c : Char} (h : isDeclarationStart c = true) :
    isSolid c = true := by
  simp only [isDeclarationStart, Bool.or_eq_true, beq_iff_eq] at h
  rcases h with (h | rfl) | rfl
  · exact isSolid_of_isIdentifierChar h
  all_goals decide

theorem stripAnnotations_spread (annotations : List (Decorator × Separator)) {rest : Text}
    (hwhole : ScannedWhole rest) (hrest : beginsWith isDeclarationStart rest = true) :
    stripAnnotations (spread Decorator.text annotations ++ rest) = rest := by
  have htrim : rest.trimStart = rest := Text.trimStart_eq_self
    (Text.beginsWith_mono (fun _ => isSolid_of_isDeclarationStart) hrest)
  -- neither another annotation nor an argument list follows
  have hother : ∀ d, isDeclarationStart d = false → beginsWith (· == d) rest = false := by
    intro d hd
    cases rest with
    | nil => rfl
    | cons c cs =>
      rw [Text.beginsWith_cons, beq_eq_false_iff_ne]
      rintro rfl
      exact absurd hrest (by simp [hd])
  have hfront : (spread Decorator.text annotations ++ rest).trimStart =
      spread Decorator.text annotations ++ rest := by
    cases annotations with
    | nil => exact htrim
    | cons => rfl
  have hnone : dropAnnotation? rest = none := by
    unfold dropAnnotation?
    split
    case h_1 => exact absurd (hother '@' (by decide)) (by simp)
    case h_2 => rfl
  rw [stripAnnotations, hfront,
    strip_annotations_spread annotations hwhole htrim (hother '(' (by decide)),
    Text.strip_eq dropAnnotation?_shorter, hnone]

/-! ## §2 Words -/

/-- Taking a word off shortens the text. -/
theorem dropWord?_shorter (words : List Text) (text rest : Text)
    (h : dropWord? words text = some rest) : rest.length < text.length := by
  unfold dropWord? at h
  dsimp only at h
  split at h
  case isFalse => simp at h
  case isTrue hword =>
    cases h
    have hne : 0 < (text.takeWhile fun c => !isBlank c).length := by
      rw [Bool.and_eq_true, Bool.not_eq_true', List.isEmpty_eq_false_iff] at hword
      exact List.length_pos_of_ne_nil hword.1
    -- the word and what is left of the text make up its length
    have hparts := congrArg List.length
      (List.takeWhile_append_dropWhile (p := fun c => !isBlank c) (l := text))
    have htrim := Text.trimStart_length_le (text.dropWhile fun c => !isBlank c)
    rw [List.length_append] at hparts
    omega

/-- One word is taken off, with the blanks behind it. -/
theorem dropWord?_append {words : List Text} {word : Text} (hmem : word ∈ words)
    (hne : word ≠ []) (hsolid : ∀ c ∈ word, isSolid c = true) (separator : Separator)
    (rest : Text) :
    dropWord? words (word ++ (separator.text ++ rest)) = some rest.trimStart := by
  have hbegins : beginsWith isSolid (separator.text ++ rest) = false :=
    separator.begins_eq_false (fun _ h => h) rest
  have htake : (word ++ (separator.text ++ rest)).takeWhile (fun c => !isBlank c) = word :=
    Text.takeWhile_append_of_begins hsolid hbegins
  have hdrop : (word ++ (separator.text ++ rest)).dropWhile (fun c => !isBlank c) =
      separator.text ++ rest := Text.dropWhile_append_of_begins hsolid hbegins
  unfold dropWord?
  dsimp only
  rw [htake, hdrop, Text.trimStart_append_of_blank separator.blank]
  simp [hne, hmem]

/-- A character of a modifier. -/
def isModifierChar (c : Char) : Bool :=
  isIdentifierChar c || c == '-'

/-- The words that may stand in front of declarations and of parameters. -/
theorem modifier_chars : ∀ word ∈ modifiers ++ parameterModifiers,
    word ≠ [] ∧ ∀ c ∈ word, isModifierChar c = true := by
  decide

theorem isSolid_of_isModifierChar {c : Char} (h : isModifierChar c = true) :
    isSolid c = true :=
  isSolid_of_isDeclarationStart (Bool.or_eq_true_iff.mpr (Or.inl h))

private theorem dropWord?_eq_none {words : List Text} {text : Text}
    (h : text.takeWhile isSolid ∉ words) : dropWord? words text = none := by
  have hcontains : words.contains (text.takeWhile fun c => !isBlank c) = false := by
    rw [← Bool.not_eq_true, List.contains_iff_mem]
    exact h
  unfold dropWord?
  dsimp only
  rw [hcontains, Bool.and_false]
  rfl

theorem isInert_of_isModifierChar {c : Char} (h : isModifierChar c = true) : isInert c = true :=
  isInert_of_class (by decide) h

/-- Modifiers in a row are taken off together. -/
theorem stripWords_spread {words : List Text} (hwords : words ⊆ modifiers ++ parameterModifiers)
    (parts : List ({word // word ∈ words} × Separator)) {rest : Text}
    (hrest : beginsWith isSolid rest = true) (hnone : dropWord? words rest = none) :
    stripWords words (spread Subtype.val parts ++ rest) = rest := by
  have hsolid : ∀ word : {word // word ∈ words},
      word.val ≠ [] ∧ ∀ c ∈ word.val, isSolid c = true := fun word =>
    have hchars := modifier_chars word.val (hwords word.property)
    ⟨hchars.1, fun c hc => isSolid_of_isModifierChar (hchars.2 c hc)⟩
  -- no blanks are left in front, whichever words are gone
  have htrim : ∀ parts : List ({word // word ∈ words} × Separator),
      (spread Subtype.val parts ++ rest).trimStart = spread Subtype.val parts ++ rest :=
    fun parts => Text.trimStart_eq_self (beginsWith_spread
      (fun part _ => Text.beginsWith_of_all (hsolid part.1).1 (hsolid part.1).2) hrest)
  rw [stripWords, htrim]
  induction parts with
  | nil =>
    rw [spread, List.flatMap_nil, List.nil_append, Text.strip_eq (dropWord?_shorter words), hnone]
  | cons part parts ih =>
    obtain ⟨word, separator⟩ := part
    obtain ⟨hne, hword⟩ := hsolid word
    rw [spread_cons, List.append_assoc, List.append_assoc,
      Text.strip_eq (dropWord?_shorter words), dropWord?_append word.property hne hword, htrim]
    exact ih

/-- A first word with a character that no modifier has stays. -/
theorem dropWord?_eq_none_of_char {words : List Text}
    (hwords : words ⊆ modifiers ++ parameterModifiers) {front : Text}
    (hfront : ∀ c ∈ front, isSolid c = true) {c : Char} (hsolid : isSolid c = true)
    (hc : isModifierChar c = false) (rest : Text) :
    dropWord? words (front ++ c :: rest) = none := by
  apply dropWord?_eq_none
  intro hmem
  rw [List.takeWhile_append_of_pos hfront, List.takeWhile_cons_of_pos hsolid] at hmem
  have hchar := (modifier_chars _ (hwords hmem)).2 c (by simp)
  rw [hc] at hchar
  exact Bool.noConfusion hchar

/-- A type in front of blanks stays: its first word is no modifier. -/
theorem dropWord?_type {words : List Text} (hwords : words ⊆ modifiers ++ parameterModifiers)
    (type : TypeExpression) (separator : Separator) (rest : Text) :
    dropWord? words (type.text ++ (separator.text ++ rest)) = none := by
  apply dropWord?_eq_none
  rw [Text.takeWhile_append_eq (separator.begins_eq_false (fun _ h => h) rest)]
  intro hmem
  -- a modifier consists of identifier characters and hyphens
  have hchars : ∀ c ∈ type.text.takeWhile isSolid, isIdentifierChar c = true := by
    intro c hc
    have hmodifier := (modifier_chars _ (hwords hmem)).2 c hc
    simp only [isModifierChar, Bool.or_eq_true, beq_iff_eq] at hmodifier
    rcases hmodifier with h | rfl
    · exact h
    · -- no type has a hyphen
      have htype := type.mem_text ((List.takeWhile_prefix _).subset hc)
      exact absurd htype (by decide)
  -- so the first word is the identifier at the beginning of the type
  have hrest : beginsWith isIdentifierChar (type.text.dropWhile isSolid) = false := by
    cases hd : type.text.dropWhile isSolid with
    | nil => rfl
    | cons c cs =>
      have hblank : isSolid c = false := by
        simpa [hd] using List.head?_dropWhile_not isSolid type.text
      rw [Text.beginsWith_cons, ← Bool.not_eq_true]
      intro hid
      rw [isSolid_of_isIdentifierChar hid] at hblank
      exact Bool.noConfusion hblank
  have hfirst : type.text.takeWhile isIdentifierChar = type.text.takeWhile isSolid := by
    conv_lhs => rw [← List.takeWhile_append_dropWhile (p := isSolid) (l := type.text)]
    exact Text.takeWhile_append_of_begins hchars hrest
  exact type.notModifier (hfirst ▸ hwords hmem)

end DeclDocs
