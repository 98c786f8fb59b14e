import DeclDocs.Declaration.Annotation
import DeclDocs.Declaration.Modifier
import DeclDocs.Proofs.Lexical.Nesting

/-!
# The parts of a declaration

Declarations as they are written, apart from how they are read: identifiers, types with their type
arguments, annotations with their argument lists, and the blanks between them.  Each part carries
the proof that it is well formed.

* `Padding`, `Separator`: blanks between parts.
* `Identifier`, `TypeExpression`, `TypeParameters`: names and types.
* `Arguments`, `Decorator`: annotations.
* `spread`: parts in a row.
-/

namespace DeclDocs

open Text (isSolid beginsWith endsIn ne_of_class IsSqueezed)

/-! ## §1 Characters -/

/-- The code points of identifier characters. -/
theorem toNat_of_isIdentifierChar {c : Char} (h : isIdentifierChar c = true) :
    (48 ≤ c.toNat ∧ c.toNat ≤ 57) ∨ (65 ≤ c.toNat ∧ c.toNat ≤ 90) ∨
      (97 ≤ c.toNat ∧ c.toNat ≤ 122) ∨ c.toNat = 95 ∨ c.toNat = 36 := by
  have hclasses : isIdentifierChar c =
      (decide ('A'.val ≤ c.val ∧ c.val ≤ 'Z'.val)
        || decide ('a'.val ≤ c.val) && decide (c.val ≤ 'z'.val)
        || decide ('0'.val ≤ c.val) && decide (c.val ≤ '9'.val) || c == '_' || c == '$') := rfl
  simp only [hclasses, Bool.or_eq_true, Bool.and_eq_true, decide_eq_true_eq, beq_iff_eq,
    UInt32.le_iff_toNat_le] at h
  rcases h with ((((h | h) | h) | rfl) | rfl)
  · exact Or.inr (Or.inl h)
  · exact Or.inr (Or.inr (Or.inl h))
  · exact Or.inl h
  · decide
  · decide

theorem isSolid_of_isIdentifierChar {c : Char} (h : isIdentifierChar c = true) :
    isSolid c = true := by
  have := toNat_of_isIdentifierChar h
  simp only [isSolid, isBlank, Bool.not_eq_true', Bool.or_eq_false_iff, Bool.and_eq_false_iff,
    decide_eq_false_iff_not, beq_eq_false_iff_ne]
  omega

/-- Identifier characters may stand in names, which also take word characters beyond ASCII. -/
theorem isNameChar_of_isIdentifierChar {c : Char} (h : isIdentifierChar c = true) :
    isNameChar c = true := by
  have hlt : c.toNat < 128 := by
    have := toNat_of_isIdentifierChar h
    omega
  simpa [isNameChar, isWordChar, hlt, isIdentifierChar] using h

/-- A character that is neither a quote, a slash nor a bracket of any kind, neither a comma nor an
at sign: it delimits nothing. -/
def isInert (c : Char) : Bool :=
  ScanState.isPlain c && !(['(', ')', '<', '>', '{', '}', ',', '@'].contains c)

/-- A class without any of the delimiters. -/
theorem isInert_of_class {p : Char → Bool}
    (hp : ∀ d ∈ ['"', '\'', '/', '(', ')', '<', '>', '{', '}', ',', '@'], p d = false) {c : Char}
    (h : p c = true) : isInert c = true := by
  have hne : ∀ d ∈ ['"', '\'', '/', '(', ')', '<', '>', '{', '}', ',', '@'], c ≠ d := fun d hd =>
    ne_of_class h (hp d hd)
  simp only [List.forall_mem_cons] at hne
  simp [isInert, ScanState.isPlain, hne]

private theorem isInert_of_isIdentifierChar {c : Char} (h : isIdentifierChar c = true) :
    isInert c = true :=
  isInert_of_class (by decide) h

/-- A blank delimits nothing. -/
theorem isInert_of_isBlank {c : Char} (h : isBlank c = true) : isInert c = true :=
  isInert_of_class (by decide) h

/-- A character that may stand in front of a parameter list: no quote, slash, parenthesis or
brace. -/
def isHeadChar (c : Char) : Bool :=
  ScanState.isPlain c && !(['(', ')', '{'].contains c)

theorem isHeadChar_of_isInert {c : Char} (h : isInert c = true) : isHeadChar c = true := by
  simp only [isInert, isHeadChar, Bool.and_eq_true, Bool.not_eq_true', List.contains_eq_mem,
    decide_eq_false_iff_not, List.mem_cons, not_or] at h ⊢
  exact ⟨h.1, h.2.1, h.2.2.1, h.2.2.2.2.2.1, List.not_mem_nil⟩

theorem isPlain_of_isHeadChar {c : Char} (h : isHeadChar c = true) :
    ScanState.isPlain c = true := by
  rw [isHeadChar, Bool.and_eq_true] at h
  exact h.1

theorem isPlain_of_isInert {c : Char} (h : isInert c = true) : ScanState.isPlain c = true := by
  rw [isInert, Bool.and_eq_true] at h
  exact h.1

/-! ## §2 Blanks -/

/-- Blanks, possibly none. -/
structure Padding where
  text : Text
  blank : ∀ c ∈ text, isBlank c = true

/-- One or more blanks. -/
structure Separator extends Padding where
  nonempty : text ≠ []

namespace Padding

/-- No blanks. -/
def empty : Padding := ⟨[], by simp⟩

theorem inert (padding : Padding) : ∀ c ∈ padding.text, isInert c = true := fun c hc =>
  isInert_of_isBlank (padding.blank c hc)

theorem readsAs (padding : Padding) : ReadsAs padding.text (padding.text.map Glyph.code) :=
  .of_plain fun c hc => isPlain_of_isInert (padding.inert c hc)

end Padding

namespace Separator

/-- A single space. -/
def space : Separator := ⟨⟨[' '], by decide⟩, by decide⟩

theorem begins (separator : Separator) : beginsWith isBlank separator.text = true :=
  Text.beginsWith_of_all separator.nonempty separator.blank

/-- No run of other characters goes on into a separator. -/
theorem begins_eq_false (separator : Separator) {p : Char → Bool}
    (hp : ∀ c, p c = true → isSolid c = true) (rest : Text) :
    beginsWith p (separator.text ++ rest) = false := by
  have hbegins := Text.beginsWith_append separator.begins rest
  cases htext : separator.text ++ rest with
  | nil => rfl
  | cons c cs =>
    have hblank : isBlank c = true := by simpa [htext] using hbegins
    rw [Text.beginsWith_cons, ← Bool.not_eq_true]
    intro hc
    have hsolid := hp c hc
    simp [isSolid, hblank] at hsolid

/-- A separator ends with a blank. -/
theorem exists_concat (separator : Separator) :
    ∃ (blanks : Text) (b : Char), separator.text = blanks ++ [b] ∧
      (∀ c ∈ blanks, isBlank c = true) ∧ isBlank b = true := by
  rcases List.eq_nil_or_concat' separator.text with hnil | ⟨blanks, b, hlast⟩
  · exact absurd hnil separator.nonempty
  · have hblank := separator.blank
    rw [hlast] at hblank
    exact ⟨blanks, b, hlast, fun c hc => hblank c (by simp [hc]), hblank b (by simp)⟩

end Separator

/-- Parts in a row, each with the blanks that follow it. -/
def spread {α : Type} (text : α → Text) (parts : List (α × Separator)) : Text :=
  parts.flatMap fun (part, separator) => text part ++ separator.text

theorem spread_cons {α : Type} (text : α → Text) (part : α) (separator : Separator)
    (parts : List (α × Separator)) :
    spread text ((part, separator) :: parts) =
      text part ++ (separator.text ++ spread text parts) := by
  simp [spread]

theorem beginsWith_spread {α : Type} {text : α → Text} {p : Char → Bool}
    {parts : List (α × Separator)} (hparts : ∀ part ∈ parts, beginsWith p (text part.1) = true)
    {rest : Text} (hrest : beginsWith p rest = true) :
    beginsWith p (spread text parts ++ rest) = true := by
  cases parts with
  | nil => exact hrest
  | cons part parts =>
    rw [spread_cons]
    exact Text.beginsWith_append
      (Text.beginsWith_append (hparts part (List.mem_cons_self ..)) _) rest

theorem spread_append {α : Type} (text : α → Text) (front back : List (α × Separator)) :
    spread text (front ++ back) = spread text front ++ spread text back :=
  List.flatMap_append

/-! ## §3 Names and types -/

/-- One or more identifier characters. -/
structure Identifier where
  text : Text
  nonempty : text ≠ []
  chars : ∀ c ∈ text, isIdentifierChar c = true

namespace Identifier

theorem inert (name : Identifier) : ∀ c ∈ name.text, isInert c = true := fun c hc =>
  isInert_of_isIdentifierChar (name.chars c hc)

theorem begins (name : Identifier) : beginsWith isIdentifierChar name.text = true :=
  Text.beginsWith_of_all name.nonempty name.chars

theorem squeezed (name : Identifier) : IsSqueezed name.text :=
  .of_solid name.nonempty fun c hc => isSolid_of_isIdentifierChar (name.chars c hc)

end Identifier

/-- A character of a type outside type arguments: an identifier character, a dot, a question mark or
a square bracket. -/
def isTypeAtom (c : Char) : Bool :=
  isIdentifierChar c || c == '.' || c == '?' || c == '[' || c == ']'

/-- A character of type arguments: a comma and a space may stand there too. -/
def isTypeArgument (c : Char) : Bool :=
  isTypeAtom c || c == ',' || c == ' '

/-- A type: angle brackets are nested, commas and single spaces stand only inside them, and the
identifier at its beginning is no modifier. -/
structure TypeExpression where
  text : Text
  nested : nests .angles isTypeAtom isTypeArgument 0 text = true
  single : text.IsChain fun a b => a = ' ' → b ≠ ' '
  named : beginsWith isIdentifierChar text = true
  notModifier : text.takeWhile isIdentifierChar ∉ modifiers ++ parameterModifiers

theorem isInert_of_isTypeAtom {c : Char} (h : isTypeAtom c = true) : isInert c = true :=
  isInert_of_class (by decide) h

theorem isSolid_of_isTypeAtom {c : Char} (h : isTypeAtom c = true) : isSolid c = true := by
  simp only [isTypeAtom, Bool.or_eq_true, beq_iff_eq] at h
  rcases h with (((h | rfl) | rfl) | rfl) | rfl
  · exact isSolid_of_isIdentifierChar h
  all_goals decide

/-- The characters of a type. -/
theorem TypeExpression.mem_text (type : TypeExpression) {c : Char} (hc : c ∈ type.text) :
    isTypeAtom c = true ∨ c = ',' ∨ c = ' ' ∨ c = '<' ∨ c = '>' := by
  have hmem := mem_nests type.nested hc
  simp only [Brackets.angles, Brackets.ofPair, beq_iff_eq, isTypeArgument, Bool.or_eq_true] at hmem
  tauto

namespace TypeExpression

variable (type : TypeExpression)

theorem headChars : ∀ c ∈ type.text, isHeadChar c = true := by
  intro c hc
  rcases type.mem_text hc with h | rfl | rfl | rfl | rfl
  · exact isHeadChar_of_isInert (isInert_of_isTypeAtom h)
  all_goals decide

theorem eq_space_of_isBlank {c : Char} (hc : c ∈ type.text) (hblank : isBlank c = true) :
    c = ' ' := by
  rcases type.mem_text hc with h | rfl | rfl | rfl | rfl
  · have hsolid := isSolid_of_isTypeAtom h
    simp [isSolid, hblank] at hsolid
  · exact absurd hblank (by decide)
  · rfl
  · exact absurd hblank (by decide)
  · exact absurd hblank (by decide)

theorem squeezed : IsSqueezed type.text where
  begins := Text.beginsWith_mono (fun _ => isSolid_of_isIdentifierChar) type.named
  ends := by
    -- spaces stand inside type arguments, and those are closed at the end
    rcases List.eq_nil_or_concat' type.text with hnil | ⟨front, last, hlast⟩
    · exact absurd hnil (Text.ne_nil_of_beginsWith type.named)
    · have hnested := type.nested
      rw [hlast] at hnested ⊢
      apply Text.endsIn_append
      rcases nests_concat hnested with h | h
      · have : last = '>' := by simpa [Brackets.angles, Brackets.ofPair] using h
        subst this
        decide
      · exact isSolid_of_isTypeAtom h
  spaces := fun _ hc => type.eq_space_of_isBlank hc
  single := by
    refine type.single.imp_of_mem_imp fun a b ha hb hab hblank => ?_
    have hspace : a = ' ' := type.eq_space_of_isBlank ha hblank
    rw [← Bool.not_eq_true]
    exact fun hb' => hab hspace (type.eq_space_of_isBlank hb hb')

end TypeExpression

/-- A character of a section of type parameters. -/
def isBound (c : Char) : Bool :=
  isTypeArgument c || c == '&'

/-- The type parameters of a method: nested text between angle brackets, with bounds joined
by `&`. -/
structure TypeParameters where
  inside : Text
  nested : nests .angles isBound isBound 0 inside = true

/-- The section with its brackets. -/
def TypeParameters.text (parameters : TypeParameters) : Text :=
  '<' :: (parameters.inside ++ ['>'])

theorem TypeParameters.mem_inside (parameters : TypeParameters) {c : Char}
    (hc : c ∈ parameters.inside) : isHeadChar c = true := by
  have hmem := mem_nests parameters.nested hc
  simp only [Brackets.angles, Brackets.ofPair, beq_iff_eq, isBound, isTypeArgument,
    Bool.or_eq_true, or_self] at hmem
  rcases hmem with rfl | rfl | ((h | rfl) | rfl) | rfl
  · decide
  · decide
  · exact isHeadChar_of_isInert (isInert_of_isTypeAtom h)
  all_goals decide

/-! ## §4 Annotations -/

/-- The arguments of an annotation between its parentheses: comments open only in literals, literals
are closed, and parentheses outside literals are nested. -/
structure Arguments where
  text : Text
  /-- The arguments with the contents of literals blanked. -/
  shown : Text
  shows : Shows text shown
  nested : nests .parens (fun _ => true) (fun _ => true) 0 shown = true

/-- `@Name`, `@a.b.Name` or `@Name(arguments)`. -/
structure Decorator where
  name : Text
  nonempty : name ≠ []
  chars : ∀ c ∈ name, isAnnotationChar c = true
  notInterface : Text.startsWith name "interface" = false
  arguments : Option Arguments

namespace Decorator

/-- The argument list with its parentheses. -/
def argumentText (decorator : Decorator) : Text :=
  decorator.arguments.elim [] fun arguments => '(' :: (arguments.text ++ [')'])

/-- The annotation as it is written. -/
def text (decorator : Decorator) : Text :=
  '@' :: (decorator.name ++ decorator.argumentText)

/-- No angle bracket stands outside the literals of the arguments. -/
def AngleFree (decorator : Decorator) : Prop :=
  ∀ arguments ∈ decorator.arguments, ∀ c ∈ arguments.shown, c ≠ '<' ∧ c ≠ '>'

instance (decorator : Decorator) : Decidable decorator.AngleFree :=
  inferInstanceAs (Decidable (∀ arguments ∈ decorator.arguments, _))

end Decorator

theorem isInert_of_isAnnotationChar {c : Char} (h : isAnnotationChar c = true) :
    isInert c = true :=
  isInert_of_class (by decide) h

/-- The scanner reads an argument list as what it shows. -/
theorem Arguments.readsAs (arguments : Arguments) :
    ∃ glyphs, glyphs.map Glyph.shown = '(' :: (arguments.shown ++ [')']) ∧
      ReadsAs ('(' :: (arguments.text ++ [')'])) glyphs := by
  obtain ⟨glyphs, hshown, hread⟩ :=
    ReadsAs.of_shows arguments.shows (c := ')') (by decide) (by decide)
  refine ⟨.code '(' :: (glyphs ++ [.code ')']), ?_, ?_⟩
  · rw [List.map_cons, List.map_append, hshown]
    rfl
  · have hopen : ReadsAs ['('] [.code '('] := ReadsAs.of_plain (by decide)
    exact hopen.append hread

/-- Glyphs for parts in a row are put together from glyphs for the parts. -/
theorem exists_glyphs_spread {α : Type} {reads : Text → List Glyph → Prop} {text : α → Text}
    (hnil : reads [] [])
    (happend : ∀ {a b : Text} {glyphsA glyphsB : List Glyph},
      reads a glyphsA → reads b glyphsB → reads (a ++ b) (glyphsA ++ glyphsB))
    (hseparator : ∀ separator : Separator, reads separator.text (separator.text.map Glyph.code))
    {parts : List (α × Separator)}
    (hparts : ∀ part ∈ parts, ∃ glyphs, reads (text part.1) glyphs) :
    ∃ glyphs, reads (spread text parts) glyphs := by
  induction parts with
  | nil => exact ⟨[], hnil⟩
  | cons part parts ih =>
    obtain ⟨glyphs, hpart⟩ := hparts part (List.mem_cons_self ..)
    obtain ⟨rest, hrest⟩ := ih fun other hmem => hparts other (List.mem_cons_of_mem _ hmem)
    rw [spread_cons]
    exact ⟨_, happend hpart (happend (hseparator part.2) hrest)⟩

/-! ## §5 Nested pieces -/

@[simp] theorem map_shown_code (text : Text) : (text.map Glyph.code).map Glyph.shown = text := by
  simp [Function.comp_def, Glyph.code, Glyph.shown]

/-- The text reads as glyphs that nest their parentheses. -/
structure ReadsNested (text : Text) (glyphs : List Glyph) : Prop extends ReadsAs text glyphs where
  parens : nests .parens (fun _ => true) (fun _ => true) 0 (glyphs.map Glyph.shown) = true

namespace ReadsNested

theorem nil : ReadsNested [] [] :=
  ⟨.nil, rfl⟩

theorem append {a b : Text} {glyphsA glyphsB : List Glyph} (ha : ReadsNested a glyphsA)
    (hb : ReadsNested b glyphsB) : ReadsNested (a ++ b) (glyphsA ++ glyphsB) where
  toReadsAs := ha.toReadsAs.append hb.toReadsAs
  parens := by
    rw [List.map_append]
    exact nests_append ha.parens hb.parens

/-- Text without quotes, slashes and parentheses. -/
theorem of_plain {text : Text}
    (h : ∀ c ∈ text, ScanState.isPlain c = true ∧ c ≠ '(' ∧ c ≠ ')') :
    ReadsNested text (text.map Glyph.code) where
  toReadsAs := .of_plain fun c hc => (h c hc).1
  parens := by
    rw [map_shown_code]
    refine nests_of_forall fun c hc => ?_
    simp [Brackets.parens, Brackets.ofPair, (h c hc).2]

theorem of_inert {text : Text} (h : ∀ c ∈ text, isInert c = true) :
    ReadsNested text (text.map Glyph.code) :=
  of_plain fun c hc => ⟨isPlain_of_isInert (h c hc), ne_of_class (h c hc) (by decide),
    ne_of_class (h c hc) (by decide)⟩

theorem of_arguments (arguments : Arguments) :
    ∃ glyphs, glyphs.map Glyph.shown = '(' :: (arguments.shown ++ [')']) ∧
      ReadsNested ('(' :: (arguments.text ++ [')'])) glyphs := by
  obtain ⟨glyphs, hshown, hread⟩ := arguments.readsAs
  have hnested : nests .parens (fun _ => true) (fun _ => true) 0
      ('(' :: (arguments.shown ++ [')'])) = true :=
    nests_inside (fun _ h => h) (c := ')') (by decide) arguments.nested (b := []) (r := 0) rfl
  exact ⟨glyphs, hshown, hread, hshown ▸ hnested⟩

/-- The parentheses of an annotation are nested. -/
theorem of_decorator (decorator : Decorator) :
    ∃ glyphs, ReadsNested decorator.text glyphs := by
  have hname : ReadsNested ('@' :: decorator.name) (('@' :: decorator.name).map Glyph.code) := by
    refine of_plain fun c hc => ?_
    rcases List.mem_cons.mp hc with rfl | hmem
    · decide
    · have hinert := isInert_of_isAnnotationChar (decorator.chars c hmem)
      exact ⟨isPlain_of_isInert hinert, ne_of_class hinert (by decide),
        ne_of_class hinert (by decide)⟩
  unfold Decorator.text Decorator.argumentText
  cases decorator.arguments with
  | none => exact ⟨_, hname.append nil⟩
  | some arguments =>
    obtain ⟨glyphs, _, hread⟩ := of_arguments arguments
    exact ⟨_, hname.append hread⟩

end ReadsNested

theorem Decorator.readsAs (decorator : Decorator) : ∃ glyphs, ReadsAs decorator.text glyphs :=
  have ⟨glyphs, hread⟩ := ReadsNested.of_decorator decorator
  ⟨glyphs, hread.toReadsAs⟩

/-! ## §6 Pieces of a parameter list -/

/-- The glyphs also nest their groups and have commas only inside them: the text can stand between
two commas of a parameter list. -/
structure ReadsAsPiece (text : Text) (glyphs : List Glyph) : Prop
    extends ReadsNested text glyphs where
  groups : nests .groups (· != ',') (fun _ => true) 0 (glyphs.map Glyph.shown) = true

namespace ReadsAsPiece

theorem nil : ReadsAsPiece [] [] :=
  ⟨.nil, rfl⟩

theorem append {a b : Text} {glyphsA glyphsB : List Glyph} (ha : ReadsAsPiece a glyphsA)
    (hb : ReadsAsPiece b glyphsB) : ReadsAsPiece (a ++ b) (glyphsA ++ glyphsB) where
  toReadsNested := ha.toReadsNested.append hb.toReadsNested
  groups := by
    rw [List.map_append]
    exact nests_append ha.groups hb.groups

theorem of_inert {text : Text} (h : ∀ c ∈ text, isInert c = true) :
    ReadsAsPiece text (text.map Glyph.code) where
  toReadsNested := .of_inert h
  groups := by
    rw [map_shown_code]
    refine nests_of_forall fun c hc => ?_
    have hne : ∀ d, isInert d = false → c ≠ d := fun d => ne_of_class (h c hc)
    simp [Brackets.groups, hne '<' (by decide), hne '(' (by decide), hne '>' (by decide),
      hne ')' (by decide), hne ',' (by decide)]

/-- A type has commas only between its type arguments. -/
theorem of_type (type : TypeExpression) : ReadsAsPiece type.text (type.text.map Glyph.code) where
  toReadsNested := .of_plain fun c hc =>
    have hchar := type.headChars c hc
    ⟨isPlain_of_isHeadChar hchar, ne_of_class hchar (by decide),
      ne_of_class hchar (by decide)⟩
  groups := by
    rw [map_shown_code]
    have hne : ∀ c ∈ type.text, ∀ d, isHeadChar d = false → c ≠ d := fun c hc d =>
      ne_of_class (type.headChars c hc)
    refine nests_mono ?_ ?_ ?_ (fun _ _ _ => rfl) type.nested
    -- a type has no parentheses, so its groups are its angle brackets
    · intro c hc
      simp [Brackets.groups, Brackets.angles, Brackets.ofPair, hne c hc '(' (by decide)]
    · intro c hc
      simp [Brackets.groups, Brackets.angles, Brackets.ofPair, hne c hc ')' (by decide)]
    · intro c _ hatom
      have : c ≠ ',' := ne_of_class (isInert_of_isTypeAtom hatom) (by decide)
      simpa using this

/-- Commas in an argument list stand inside its parentheses. -/
theorem of_arguments {arguments : Arguments}
    (hangles : ∀ c ∈ arguments.shown, c ≠ '<' ∧ c ≠ '>') :
    ∃ glyphs, ReadsAsPiece ('(' :: (arguments.text ++ [')'])) glyphs := by
  obtain ⟨glyphs, hshown, hread⟩ := ReadsNested.of_arguments arguments
  -- without angle brackets the groups are the parentheses
  have hgroups : nests .groups (fun _ => true) (fun _ => true) 0 arguments.shown = true := by
    refine nests_mono ?_ ?_ (fun _ _ h => h) (fun _ _ h => h) arguments.nested
    · intro c hc
      simp [Brackets.groups, Brackets.parens, Brackets.ofPair, (hangles c hc).1]
    · intro c hc
      simp [Brackets.groups, Brackets.parens, Brackets.ofPair, (hangles c hc).2]
  have hinside : nests .groups (· != ',') (fun _ => true) 0
      ('(' :: (arguments.shown ++ [')'])) = true :=
    nests_inside (fun _ h => h) (c := ')') (by decide) hgroups (b := []) (r := 0) rfl
  exact ⟨glyphs, hread, hshown ▸ hinside⟩

theorem of_decorator {decorator : Decorator} (h : decorator.AngleFree) :
    ∃ glyphs, ReadsAsPiece decorator.text glyphs := by
  have hat : ReadsAsPiece ['@'] (['@'].map Glyph.code) := ⟨.of_plain (by decide), rfl⟩
  have hname := hat.append
    (of_inert fun c hc => isInert_of_isAnnotationChar (decorator.chars c hc))
  unfold Decorator.text Decorator.argumentText
  cases hargs : decorator.arguments with
  | none => exact ⟨_, hname.append nil⟩
  | some arguments =>
    obtain ⟨glyphs, hread⟩ := of_arguments (h arguments hargs)
    exact ⟨_, hname.append hread⟩

theorem of_spread {α : Type} {text : α → Text} {parts : List (α × Separator)}
    (hparts : ∀ part ∈ parts, ∃ glyphs, ReadsAsPiece (text part.1) glyphs) :
    ∃ glyphs, ReadsAsPiece (spread text parts) glyphs :=
  exists_glyphs_spread nil append (fun separator => of_inert separator.inert) hparts

end ReadsAsPiece

end DeclDocs
