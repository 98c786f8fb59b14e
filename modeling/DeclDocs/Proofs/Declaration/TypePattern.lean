import DeclDocs.Declaration.TypeSearch
import DeclDocs.Proofs.Declaration.Grammar
import DeclDocs.Proofs.Text.Marks

/-!
# The pattern of type declarations

A type is declared by a keyword, one or more blanks and a name that is as long as it can be.  The
keyword stands at the beginning of the text or behind a character that belongs neither to a name nor
to a path.  The declarations of a text are looked for from the left, and the search goes on behind
the name of the one that it has found.

* `IsTypeDeclaration`, `declaredType?_eq_some_iff`: a declaration at the beginning of a text.
* `TypeMatch`, `FindsTypes`: the declarations of a text, one after the other.
* `typeMatches`, `findsTypes_iff`: the only way to find them, with their places.
* `typeNames_eq_map`: the names that are read off a line are those of its declarations.
-/

namespace DeclDocs

open Text (isSolid beginsWith)

/-! ## §1 One declaration -/

/-- The text begins with the declaration of a type with the given name, and `after` follows it. -/
structure IsTypeDeclaration (text name after : Text) : Prop where
  parts : ∃ keyword ∈ typeKeywords, ∃ gap : Separator,
    text = keyword ++ (gap.text ++ (name ++ after))
  begins : beginsWith isTypeNameStart name = true
  chars : ∀ c ∈ name, isNameChar c = true
  /-- The name does not go on. -/
  ends : beginsWith isNameChar after = false

/-- No keyword begins with another one, so the first that fits is the only one. -/
theorem dropFirst?_typeKeywords {keyword : Text} (h : keyword ∈ typeKeywords) (rest : Text) :
    dropFirst? typeKeywords (keyword ++ rest) = some rest := by
  simp only [typeKeywords, List.mem_cons, List.not_mem_nil, or_false] at h
  rcases h with rfl | rfl | rfl | rfl <;>
    simp [dropFirst?, typeKeywords, Text.after?]

private theorem exists_of_dropFirst? {marks : List Text} {text rest : Text}
    (h : dropFirst? marks text = some rest) : ∃ mark ∈ marks, text = mark ++ rest := by
  obtain ⟨mark, hmem, hafter⟩ := List.exists_of_findSome?_eq_some h
  exact ⟨mark, hmem, Text.after?_eq_some_iff.mp hafter⟩

private theorem isIdentifierChar_of_isTypeNameStart {c : Char} (h : isTypeNameStart c = true) :
    isIdentifierChar c = true := by
  simp only [isTypeNameStart, Bool.or_eq_true] at h
  simp only [isIdentifierChar, Char.isAlphanum, Bool.or_eq_true]
  tauto

/-- **A declaration is read exactly where there is one.** -/
theorem declaredType?_eq_some_iff {text name after : Text} :
    declaredType? text = some (name, after) ↔ IsTypeDeclaration text name after := by
  constructor
  · intro h
    unfold declaredType? at h
    cases hdrop : dropFirst? typeKeywords text with
    | none => simp [hdrop] at h
    | some rest =>
      obtain ⟨keyword, hkeyword, rfl⟩ := exists_of_dropFirst? hdrop
      rw [hdrop] at h
      cases rest with
      | nil => simp at h
      | cons c cs =>
        dsimp only at h
        split at h
        case isFalse => simp at h
        case isTrue hblank =>
          -- the blanks behind the keyword, and the name behind them
          have hparts : c :: cs = (c :: cs).takeWhile isBlank ++ Text.trimStart (c :: cs) :=
            List.takeWhile_append_dropWhile.symm
          split at h
          case h_1 => simp at h
          case h_2 first others htrim =>
            split at h
            case isFalse => simp at h
            case isTrue hstart =>
              obtain ⟨rfl, rfl⟩ := Prod.mk.inj (Option.some.inj h)
              refine ⟨⟨keyword, hkeyword, ⟨⟨(c :: cs).takeWhile isBlank, ?_⟩, ?_⟩, ?_⟩, hstart, ?_,
                Text.beginsWith_dropWhile _ _⟩
              · intro d hd
                exact List.mem_takeWhile_imp hd
              · simp [hblank]
              · rw [htrim] at hparts
                conv_lhs => rw [hparts]
                simp
              · intro d hd
                rcases List.mem_cons.mp hd with rfl | hmem
                · exact isNameChar_of_isIdentifierChar (isIdentifierChar_of_isTypeNameStart hstart)
                · exact List.mem_takeWhile_imp hmem
  · rintro ⟨⟨keyword, hkeyword, gap, rfl⟩, hbegins, hchars, hends⟩
    cases name with
    | nil => simp at hbegins
    | cons first others =>
      have hstart : isTypeNameStart first = true := hbegins
      have hsolid : isSolid first = true :=
        isSolid_of_isIdentifierChar (isIdentifierChar_of_isTypeNameStart hstart)
      have hothers : ∀ c ∈ others, isNameChar c = true := fun c hc =>
        hchars c (List.mem_cons_of_mem _ hc)
      have htrim : Text.trimStart (gap.text ++ (first :: others ++ after)) =
          first :: (others ++ after) := by
        rw [Text.trimStart_append_of_blank gap.blank]
        exact Text.trimStart_eq_self hsolid
      have hgap := gap.begins
      unfold declaredType?
      rw [dropFirst?_typeKeywords hkeyword]
      cases hblanks : gap.text with
      | nil => exact absurd hblanks gap.nonempty
      | cons b blanks =>
        rw [hblanks] at hgap htrim
        have hb : isBlank b = true := hgap
        rw [List.cons_append] at htrim ⊢
        dsimp only
        rw [if_pos hb, htrim]
        dsimp only
        rw [if_pos hstart, Text.takeWhile_append_of_begins hothers hends,
          Text.dropWhile_append_of_begins hothers hends]

/-- Where declarations cannot be told to begin, or none begins, none is read. -/
theorem declaredType?_eq_none {atBoundary : Bool} {text : Text}
    (h : atBoundary = true → ∀ name after, ¬IsTypeDeclaration text name after) :
    (if atBoundary then declaredType? text else none) = none := by
  split
  case isTrue hopens =>
    rw [Option.eq_none_iff_forall_ne_some]
    rintro ⟨name, after⟩ hsome
    exact h hopens name after (declaredType?_eq_some_iff.mp hsome)
  case isFalse => rfl

namespace IsTypeDeclaration

variable {text declaration name after : Text}

/-- A declaration takes up more than one character, and its last one belongs to the name. -/
theorem exists_text_eq (h : IsTypeDeclaration text name after) :
    ∃ c front last, text = c :: (front ++ [last]) ++ after ∧ isNameChar last = true := by
  obtain ⟨⟨keyword, hkeyword, gap, rfl⟩, hbegins, hchars, _⟩ := h
  rcases List.eq_nil_or_concat' name with rfl | ⟨others, last, rfl⟩
  · simp at hbegins
  · have hne : keyword ++ (gap.text ++ others) ≠ [] := by simp [gap.nonempty]
    obtain ⟨c, front, hfront⟩ := List.exists_cons_of_ne_nil hne
    refine ⟨c, front, last, ?_, hchars last (by simp)⟩
    rw [← List.cons_append, ← hfront]
    simp

private theorem exists_eq (h : IsTypeDeclaration (declaration ++ after) name after) :
    ∃ c front last, declaration = c :: (front ++ [last]) ∧ isNameChar last = true := by
  obtain ⟨c, front, last, htext, hlast⟩ := h.exists_text_eq
  exact ⟨c, front, last, List.append_cancel_right htext, hlast⟩

end IsTypeDeclaration

/-! ## §2 The declarations of a text -/

/-- A declaration that has been found. -/
structure TypeMatch where
  /-- What stands in front of its keyword. -/
  before : Text
  name : Text
deriving DecidableEq, Repr

/-- A keyword may begin behind the text. -/
def opensKeyword (before : Text) : Bool :=
  before.getLast?.all isTypeBoundary

private theorem opensKeyword_concat (before : Text) (c : Char) :
    opensKeyword (before ++ [c]) = isTypeBoundary c := by
  simp [opensKeyword]

/-- A search from the left that has passed over `before` finds these declarations in the text. -/
inductive FindsTypes : (before text : Text) → List TypeMatch → Prop where
  | done (before : Text) : FindsTypes before [] []
  /-- No declaration begins here. -/
  | pass {before rest : Text} {c : Char} {found : List TypeMatch}
      (hnone : opensKeyword before = true → ∀ name after, ¬IsTypeDeclaration (c :: rest) name after)
      (hrest : FindsTypes (before ++ [c]) rest found) : FindsTypes before (c :: rest) found
  /-- A declaration begins here, and the search goes on behind it. -/
  | found {before declaration name after : Text} {found : List TypeMatch}
      (hopens : opensKeyword before = true)
      (hdeclares : IsTypeDeclaration (declaration ++ after) name after)
      (hrest : FindsTypes (before ++ declaration) after found) :
      FindsTypes before (declaration ++ after) (⟨before, name⟩ :: found)

/-- The declarations of the text behind `before`; the first `skip` characters belong to one that has
been read. -/
def typeMatches : (skip : Nat) → (before text : Text) → List TypeMatch
  | _, _, [] => []
  | skip + 1, before, c :: cs => typeMatches skip (before ++ [c]) cs
  | 0, before, c :: cs =>
    match if opensKeyword before then declaredType? (c :: cs) else none with
    | some (name, rest) =>
      ⟨before, name⟩ :: typeMatches (cs.length - rest.length) (before ++ [c]) cs
    | none => typeMatches 0 (before ++ [c]) cs

/-- The declarations of a text. -/
def declaredTypes (text : Text) : List TypeMatch :=
  typeMatches 0 [] text

private theorem typeMatches_skip (front before text : Text) :
    typeMatches front.length before (front ++ text) = typeMatches 0 (before ++ front) text := by
  induction front generalizing before with
  | nil => simp
  | cons c front ih =>
    rw [List.cons_append, List.length_cons, typeMatches, ih, List.append_assoc]
    rfl

private theorem typeMatches_pass {before rest : Text} {c : Char}
    (h : opensKeyword before = true → ∀ name after, ¬IsTypeDeclaration (c :: rest) name after) :
    typeMatches 0 before (c :: rest) = typeMatches 0 (before ++ [c]) rest := by
  rw [typeMatches, declaredType?_eq_none h]

private theorem typeMatches_found {before declaration name after : Text}
    (hopens : opensKeyword before = true)
    (h : IsTypeDeclaration (declaration ++ after) name after) :
    typeMatches 0 before (declaration ++ after) =
      ⟨before, name⟩ :: typeMatches 0 (before ++ declaration) after := by
  obtain ⟨c, front, last, rfl, -⟩ := h.exists_eq
  have hread := declaredType?_eq_some_iff.mpr h
  have hskip : (front ++ [last] ++ after).length - after.length = (front ++ [last]).length := by
    rw [List.length_append]
    omega
  rw [List.cons_append] at hread ⊢
  rw [typeMatches, if_pos hopens, hread]
  dsimp only
  rw [hskip, typeMatches_skip, List.append_assoc]
  rfl

/-- **The search from the left has one result**, the one that is computed. -/
theorem findsTypes_iff {before text : Text} {found : List TypeMatch} :
    FindsTypes before text found ↔ found = typeMatches 0 before text := by
  constructor
  · intro h
    induction h with
    | done before => rfl
    | pass hnone _ ih => rw [typeMatches_pass hnone, ih]
    | found hopens hdeclares _ ih => rw [typeMatches_found hopens hdeclares, ih]
  · rintro rfl
    -- on the length, since a declaration is passed over in one go
    induction hlength : text.length using Nat.strongRecOn generalizing before text with
    | ind n ih =>
      subst hlength
      cases text with
      | nil => exact .done before
      | cons c rest =>
        by_cases hsome : opensKeyword before = true ∧
            ∃ name after, IsTypeDeclaration (c :: rest) name after
        · obtain ⟨hopens, name, after, h⟩ := hsome
          obtain ⟨first, front, last, htext, -⟩ := h.exists_text_eq
          rw [htext] at h ih ⊢
          rw [typeMatches_found hopens h]
          refine .found hopens h (ih after.length ?_ rfl)
          simp
          omega
        · have hnone : opensKeyword before = true →
              ∀ name after, ¬IsTypeDeclaration (c :: rest) name after :=
            fun hopens name after h => hsome ⟨hopens, name, after, h⟩
          rw [typeMatches_pass hnone]
          exact .pass hnone (ih rest.length (by simp) rfl)

/-! ## §3 Names -/

theorem typeNames_skip {front : Text} (hne : front ≠ []) (atBoundary : Bool) (text : Text) :
    typeNames front.length atBoundary (front ++ text) = typeNames 0 (opensKeyword front) text := by
  induction front generalizing atBoundary with
  | nil => exact absurd rfl hne
  | cons c front ih =>
    rw [List.cons_append, List.length_cons, typeNames]
    by_cases hnil : front = []
    · simp [hnil, opensKeyword]
    · rw [ih hnil]
      obtain ⟨d, front, rfl⟩ := List.exists_cons_of_ne_nil hnil
      simp [opensKeyword]

theorem typeNames_pass {atBoundary : Bool} {rest : Text} {c : Char}
    (h : atBoundary = true → ∀ name after, ¬IsTypeDeclaration (c :: rest) name after) :
    typeNames 0 atBoundary (c :: rest) = typeNames 0 (isTypeBoundary c) rest := by
  rw [typeNames, declaredType?_eq_none h]

/-- The search goes on behind the name, where no keyword may begin. -/
theorem typeNames_found {declaration name after : Text}
    (h : IsTypeDeclaration (declaration ++ after) name after) :
    typeNames 0 true (declaration ++ after) = name :: typeNames 0 false after := by
  obtain ⟨c, front, last, rfl, hlast⟩ := h.exists_eq
  have hread := declaredType?_eq_some_iff.mpr h
  have hskip : (front ++ [last] ++ after).length - after.length = (front ++ [last]).length := by
    rw [List.length_append]
    omega
  have hclosed : opensKeyword (front ++ [last]) = false := by
    simp [opensKeyword_concat, isTypeBoundary, hlast]
  rw [List.cons_append] at hread ⊢
  rw [typeNames, if_pos rfl, hread]
  dsimp only
  rw [hskip, typeNames_skip (by simp), hclosed]

theorem FindsTypes.typeNames_eq {before text : Text} {found : List TypeMatch}
    (h : FindsTypes before text found) :
    typeNames 0 (opensKeyword before) text = found.map TypeMatch.name := by
  induction h with
  | done before => rfl
  | pass hnone _ ih => rw [typeNames_pass hnone, ← ih, opensKeyword_concat]
  | @found before declaration name after found hopens hdeclares _ ih =>
    -- behind the declaration stands the last character of its name
    obtain ⟨c, front, last, rfl, hlast⟩ := hdeclares.exists_eq
    have hclosed : opensKeyword (before ++ c :: (front ++ [last])) = false := by
      rw [← List.cons_append, ← List.append_assoc, opensKeyword_concat]
      simp [isTypeBoundary, hlast]
    rw [hclosed] at ih
    rw [hopens, typeNames_found hdeclares, ih, List.map_cons]

/-- The names read off a text are those of its declarations. -/
theorem typeNames_eq_map (text : Text) :
    typeNames 0 true text = (declaredTypes text).map TypeMatch.name :=
  (findsTypes_iff.mpr rfl : FindsTypes [] text (declaredTypes text)).typeNames_eq

end DeclDocs
