import DeclDocs.Declaration.Visibility
import DeclDocs.Proofs.Declaration.AnnotatedLine
import DeclDocs.Proofs.Text.Collapse

/-!
# The words of a member

The access level and the constancy of a member are read off the words of its declaration.  Only a
few words tell them, and neither the type nor the name of a member is among those: what tells them
is the modifiers and whatever else is written in front of them or behind the name.

* `telling`: the words among others that tell an access level or constancy.
* `Visibility.ofWords`, `isConstantBy`: the level and the constancy that words tell.
* `MemberHead`: a declaration up to its name.
* `MemberHead.telling_words`, `MemberHead.telling_text`: what the words of such a declaration tell.
-/

namespace DeclDocs

open Text (beginsWith endsIn isKeywordChar)

/-! ## §1 Words that tell -/

/-- The words that an access level or constancy is read off. -/
def tellingWords : List Text :=
  ["public", "protected", "private", "static", "final"]

/-- Those of the words that tell an access level or constancy. -/
def telling (words : List Text) : List Text :=
  words.filter tellingWords.contains

theorem telling_append (front back : List Text) :
    telling (front ++ back) = telling front ++ telling back :=
  List.filter_append ..

/-- Words that are no modifiers tell nothing. -/
theorem telling_eq_nil {words : List Text} (h : ∀ word ∈ words, word ∉ modifiers) :
    telling words = [] := by
  have hsubset : ∀ word ∈ tellingWords, word ∈ modifiers := by decide
  rw [telling, List.filter_eq_nil_iff]
  intro word hword htells
  exact h word hword (hsubset word (List.contains_iff_mem.mp htells))

/-- A modifier tells what its words tell, also the one with a hyphen. -/
theorem telling_keywords_modifier :
    ∀ word ∈ modifiers, telling word.keywords = telling [word] := by
  decide +kernel

/-- The level of the first access word, or that of a declaration without one. -/
def Visibility.ofWords (words : List Text) : Visibility :=
  (words.findSome? ofWord?).getD isPackage

/-- The words hold both `static` and `final`. -/
def isConstantBy (words : List Text) : Bool :=
  words.contains "static" && words.contains "final"

private theorem Visibility.ofWord?_eq_none {word : Text} (h : word ∉ tellingWords) :
    ofWord? word = none := by
  have hne : ∀ level ∈ tellingWords, word ≠ level := fun level hlevel heq => h (heq ▸ hlevel)
  rw [ofWord?, if_neg (hne _ (by decide)), if_neg (hne _ (by decide)), if_neg (hne _ (by decide))]

/-- Only words that tell count for the access level. -/
theorem Visibility.ofWords_telling (words : List Text) :
    ofWords (telling words) = ofWords words := by
  have hfind : (telling words).findSome? ofWord? = words.findSome? ofWord? := by
    induction words with
    | nil => rfl
    | cons word words ih =>
      have hcons : telling (word :: words) =
          if tellingWords.contains word then word :: telling words else telling words :=
        List.filter_cons
      rw [hcons, List.findSome?_cons]
      split
      · rw [List.findSome?_cons, ih]
      case isFalse htells =>
        rw [ofWord?_eq_none fun hmem => htells (List.contains_iff_mem.mpr hmem), ih]
  rw [ofWords, hfind, ofWords]

/-- Only words that tell count for constancy. -/
theorem isConstantBy_telling (words : List Text) :
    isConstantBy (telling words) = isConstantBy words := by
  have hmem : ∀ word ∈ tellingWords, (telling words).contains word = words.contains word := by
    intro word hword
    rw [Bool.eq_iff_iff, List.contains_iff_mem, List.contains_iff_mem, telling, List.mem_filter]
    exact and_iff_left (List.contains_iff_mem.mpr hword)
  rw [isConstantBy, isConstantBy, hmem _ (by decide), hmem _ (by decide)]

/-! ## §2 Declarations up to the name -/

/-- Annotations, modifiers, a type and a name.  Blanks keep the name apart from a type that does not
end with a bracket.  Neither a word of the type nor the name is a modifier. -/
structure MemberHead where
  row : DecoratorRow
  modifiers : List ({word // word ∈ modifiers} × Separator)
  type : TypeExpression
  between : Padding
  apart : between.text = [] → endsIn (fun c => !isKeywordChar c) type.text = true
  name : Identifier
  plainType : ∀ word ∈ type.text.keywords, word ∉ DeclDocs.modifiers
  plainName : name.text ∉ DeclDocs.modifiers

namespace MemberHead

variable (head : MemberHead)

/-- The words behind the annotations. -/
def words : Text :=
  spread Subtype.val head.modifiers ++ (head.type.text ++ (head.between.text ++ head.name.text))

/-- The declaration up to its name as it is written. -/
def text : Text :=
  head.row.text ++ head.words

/-- The list of modifiers. -/
def modifierWords : List Text :=
  head.modifiers.map fun part => part.1.val

/-- The words of the annotations, their arguments included. -/
def annotationWords : List Text :=
  head.row.parts.flatMap fun part => part.text.keywords

end MemberHead

private theorem Padding.isKeywordChar_eq_false (padding : Padding) :
    ∀ c ∈ padding.text, isKeywordChar c = false := fun c hc =>
  Text.isKeywordChar_of_isBlank (padding.blank c hc)

/-- The words of parts in a row. -/
theorem keywords_spread_append {α : Type} (text : α → Text) (parts : List (α × Separator))
    (rest : Text) :
    Text.keywords (spread text parts ++ rest) =
      (parts.flatMap fun part => (text part.1).keywords) ++ rest.keywords := by
  induction parts with
  | nil => rfl
  | cons part parts ih =>
    rw [spread_cons, List.append_assoc, List.append_assoc,
      Text.keywords_append_gap part.2.isKeywordChar_eq_false part.2.nonempty, ih,
      List.flatMap_cons, List.append_assoc]

/-- An annotation at the end of a row ends with a character that belongs to no word. -/
theorem SpacedDecorator.ends_apart {decorator : SpacedDecorator}
    (h : decorator.arguments = none → decorator.after.text ≠ []) :
    endsIn (fun c => !isKeywordChar c) decorator.text = true := by
  obtain ⟨name, hname, arguments, after⟩ := decorator
  have hblank : ∀ c ∈ after.text, (!isKeywordChar c) = true := fun c hc => by
    simp [after.isKeywordChar_eq_false c hc]
  rw [text, ← List.cons_append, ← List.append_assoc]
  by_cases hafter : after.text = []
  · cases arguments with
    | none => exact absurd hafter (h rfl)
    | some part =>
      have hclose : endsIn (fun c => !isKeywordChar c) [')'] = true := by decide +kernel
      rw [hafter, List.append_nil, argumentText, Option.elim_some, ← List.cons_append,
        ← List.append_assoc]
      exact Text.endsIn_append (Text.endsIn_append hclose _) _
  · exact Text.endsIn_append (Text.endsIn_of_all hafter hblank) _

/-- The words of annotations in a row: an at sign begins every one of them. -/
theorem keywords_rowText_append {parts : List SpacedDecorator}
    (hapart : ∀ last ∈ parts.getLast?, last.arguments = none → last.after.text ≠ []) (rest : Text) :
    Text.keywords (rowText parts ++ rest) =
      (parts.flatMap fun part => part.text.keywords) ++ rest.keywords := by
  have hat : isKeywordChar '@' = false := by decide +kernel
  induction parts with
  | nil => rfl
  | cons part parts ih =>
    obtain ⟨hlast, halone⟩ := apart_of_cons hapart
    rw [rowText_cons, List.append_assoc, List.flatMap_cons, List.append_assoc, ← ih hlast]
    cases parts with
    | nil => exact Text.keywords_append_of_ends (SpacedDecorator.ends_apart (halone rfl)) _
    | cons next parts =>
      obtain ⟨cs, hcs⟩ : ∃ cs, rowText (next :: parts) ++ rest = '@' :: cs := ⟨_, rfl⟩
      have hnext : Text.keywords ('@' :: cs) = Text.keywords cs :=
        Text.keywords_append_cons hat [] cs
      rw [hcs, Text.keywords_append_cons hat, hnext]

private theorem isKeywordChar_of_isIdentifierChar {c : Char} (h : isIdentifierChar c = true) :
    isKeywordChar c = true := by
  have hlt : c.toNat < 128 := by
    have := toNat_of_isIdentifierChar h
    omega
  simpa [isKeywordChar, isAlphanumeric, hlt, isIdentifierChar] using h

namespace MemberHead

variable (head : MemberHead)

/-- **Of the words of a member only its modifiers tell something.** -/
theorem telling_words {gap : Text} (hgap : ∀ c ∈ gap, isKeywordChar c = false) (hne : gap ≠ [])
    (rest : Text) :
    telling (Text.keywords (head.words ++ (gap ++ rest))) =
      telling (head.modifierWords ++ rest.keywords) := by
  have hmodifiers : telling (head.modifiers.flatMap fun part => part.1.val.keywords) =
      telling head.modifierWords := by
    unfold modifierWords
    induction head.modifiers with
    | nil => rfl
    | cons part parts ih =>
      rw [List.flatMap_cons, telling_append, ih, List.map_cons,
        telling_keywords_modifier _ part.1.property, ← telling_append]
      rfl
  have hname : head.name.text.keywords = [head.name.text] :=
    Text.keywords_eq_singleton head.name.nonempty fun c hc =>
      isKeywordChar_of_isIdentifierChar (head.name.chars c hc)
  have hbetween : Text.keywords (head.type.text ++ (head.between.text ++ head.name.text)) =
      head.type.text.keywords ++ [head.name.text] := by
    by_cases hnone : head.between.text = []
    · rw [hnone, List.nil_append, Text.keywords_append_of_ends (head.apart hnone), hname]
    · rw [Text.keywords_append_gap head.between.isKeywordChar_eq_false hnone, hname]
  have hplain : telling (head.type.text.keywords ++ [head.name.text]) = [] := by
    apply telling_eq_nil
    intro word hword
    rcases List.mem_append.mp hword with htype | hname
    · exact head.plainType word htype
    · rw [List.mem_singleton.mp hname]
      exact head.plainName
  calc telling (Text.keywords (head.words ++ (gap ++ rest)))
    _ = telling ((head.modifiers.flatMap fun part => part.1.val.keywords) ++
          ((head.type.text.keywords ++ [head.name.text]) ++ rest.keywords)) := by
        rw [Text.keywords_append_gap hgap hne, words, keywords_spread_append, hbetween,
          List.append_assoc]
    _ = telling (head.modifierWords ++ rest.keywords) := by
        rw [telling_append, telling_append _ rest.keywords, hmodifiers, hplain, List.nil_append,
          ← telling_append]

/-- On a line annotations tell something too. -/
theorem telling_text {gap : Text} (hgap : ∀ c ∈ gap, isKeywordChar c = false) (hne : gap ≠ [])
    (rest : Text) :
    telling (Text.keywords (head.text ++ (gap ++ rest))) =
      telling (head.annotationWords ++ (head.modifierWords ++ rest.keywords)) := by
  rw [text, DecoratorRow.text, List.append_assoc, List.append_assoc,
    Text.keywords_gap_append head.row.indent.isKeywordChar_eq_false,
    keywords_rowText_append head.row.apart, telling_append, head.telling_words hgap hne,
    ← telling_append]
  rfl

/-! ## §3 Characters of the words -/

theorem begins_words : beginsWith isDeclarationStart head.words = true := by
  apply beginsWith_spread
  · intro part _
    have hchars := modifier_chars part.1.val (List.mem_append_left _ part.1.property)
    refine Text.beginsWith_of_all hchars.1 fun c hc => ?_
    exact Bool.or_eq_true_iff.mpr (Or.inl (hchars.2 c hc))
  · refine Text.beginsWith_append ?_ _
    exact Text.beginsWith_mono (fun c hc => by simp [isDeclarationStart, hc]) head.type.named

end MemberHead

end DeclDocs
