import DeclDocs.Proofs.Declaration.TypePattern
import DeclDocs.Proofs.Lexical.Rewording
import DeclDocs.Proofs.Text.Collapse

/-!
# What comments and literals say does not matter

The main type of a document is looked for in the skeletons of its lines.  A skeleton shows how wide
a literal is and not what it says, and the width of a gap does not matter to the search: so comments
and literals can be reworded without another type being found.  A package is looked for in the code
of the lines, literals included.  At the beginning of a line code stands in front of the first
quote, unless the line begins inside a literal: there the text of the literal is taken for a package
statement.

* `typeNames_collapse`: the width of gaps does not matter to the declarations of types.
* `RewordsLines.topLevelTypes_eq`: rewording does not change the types that are found.
* `packageName?_upToQuote`: a package is named in front of the first quote.
* `findContainer_findPackage_of_rewordsLines`: rewording a document.
-/

namespace DeclDocs

open Text (isSolid beginsWith collapse)

/-! ## §1 Declarations and the width of gaps -/

theorem isSolid_of_isNameChar {c : Char} (h : isNameChar c = true) : isSolid c = true := by
  by_contra hblank
  have hname := @isNameChar_of_isBlank c (by simpa [isSolid] using hblank)
  simp [h] at hname

private theorem isTypeBoundary_of_isBlank {c : Char} (h : isBlank c = true) :
    isTypeBoundary c = true := by
  have hdot : c ≠ '.' := Text.ne_of_class h (by decide)
  simp [isTypeBoundary, isNameChar_of_isBlank h, hdot]

/-- Two texts that agree in what follows each mark. -/
theorem dropFirst?_map {marks : List Text} {text other : Text} {f : Text → Text}
    (h : ∀ mark ∈ marks, other.after? mark = (text.after? mark).map f) :
    dropFirst? marks other = (dropFirst? marks text).map f := by
  unfold dropFirst?
  induction marks with
  | nil => rfl
  | cons mark marks ih =>
    have hrest := ih fun later hlater => h later (List.mem_cons_of_mem _ hlater)
    rw [List.findSome?_cons, List.findSome?_cons, h mark (by simp)]
    cases text.after? mark with
    | none => exact hrest
    | some rest => rfl

/-- A declaration is read across gaps of any width. -/
theorem declaredType?_collapse (text : Text) :
    declaredType? (collapse false text) =
      (declaredType? text).map (Prod.map id (collapse false)) := by
  have hkeywords : ∀ keyword ∈ typeKeywords, ∀ c ∈ keyword, isSolid c = true := by decide
  unfold declaredType?
  rw [dropFirst?_map fun keyword hmem => Text.after?_collapse (hkeywords keyword hmem) text]
  cases dropFirst? typeKeywords text with
  | none => rfl
  | some rest =>
    cases rest with
    | nil => rfl
    | cons c cs =>
      have htrim := Text.trimStart_collapse (c :: cs)
      by_cases hblank : isBlank c = true
      · rw [Text.collapse_cons_of_blank hblank] at htrim
        simp only [Option.map_some, Text.collapse_cons_of_blank hblank, htrim, hblank, if_true,
          show isBlank ' ' = true from rfl]
        have hbegins : beginsWith isBlank (Text.trimStart (c :: cs)) = false :=
          Text.beginsWith_dropWhile isBlank (c :: cs)
        -- the name behind the gap
        cases hrest : Text.trimStart (c :: cs) with
        | nil => rfl
        | cons first others =>
          rw [hrest] at hbegins
          have hsolid : isSolid first = true := by simpa [isSolid] using hbegins
          rw [Text.collapse_cons_of_solid hsolid]
          dsimp only
          split
          · simp [Text.takeWhile_collapse fun _ => isSolid_of_isNameChar,
              Text.dropWhile_collapse fun _ => isSolid_of_isNameChar]
          · rfl
      · have hsolid : isSolid c = true := by simpa [isSolid] using hblank
        simp only [Option.map_some, Text.collapse_cons_of_solid hsolid]
        simp [hblank]

private theorem IsTypeDeclaration.begins_solid {text name after : Text}
    (h : IsTypeDeclaration text name after) :
    beginsWith isSolid text = true := by
  obtain ⟨keyword, hkeyword, gap, rfl⟩ := h.parts
  have hall : ∀ keyword ∈ typeKeywords, beginsWith isSolid keyword = true := by decide
  exact Text.beginsWith_append (hall keyword hkeyword) _

/-- No declaration begins with a blank. -/
theorem typeNames_cons_of_blank {c : Char} (h : isBlank c = true) (atBoundary : Bool)
    (rest : Text) :
    typeNames 0 atBoundary (c :: rest) = typeNames 0 true rest := by
  have hnone : atBoundary = true → ∀ name after, ¬IsTypeDeclaration (c :: rest) name after := by
    intro _ name after hdeclares
    have hsolid : isSolid c = true := hdeclares.begins_solid
    simp [isSolid, h] at hsolid
  rw [typeNames_pass hnone, isTypeBoundary_of_isBlank h]

theorem IsTypeDeclaration.typeNames_eq {text name after : Text}
    (h : IsTypeDeclaration text name after) :
    typeNames 0 true text = name :: typeNames 0 false after := by
  obtain ⟨c, front, last, rfl, -⟩ := h.exists_text_eq
  exact typeNames_found h

/-- **The width of gaps does not matter to the declarations of types.** -/
theorem typeNames_collapse {behindBlank atBoundary : Bool}
    (h : behindBlank = true → atBoundary = true)
    (text : Text) :
    typeNames 0 atBoundary (collapse behindBlank text) = typeNames 0 atBoundary text := by
  -- on the length, since a declaration is passed over in one go
  induction hlength : text.length using Nat.strongRecOn
    generalizing text behindBlank atBoundary with
  | ind n ih =>
    subst hlength
    cases text with
    | nil => rfl
    | cons c cs =>
      by_cases hblank : isBlank c = true
      · have hrest : typeNames 0 true (collapse true cs) = typeNames 0 true cs :=
          ih cs.length (by simp) (fun _ => rfl) cs rfl
        rw [typeNames_cons_of_blank hblank]
        cases behindBlank with
        | true =>
          obtain rfl := h rfl
          rw [Text.collapse_true_cons_of_blank hblank, hrest]
        | false =>
          rw [Text.collapse_cons_of_blank hblank, typeNames_cons_of_blank (by decide), hrest]
      · have hsolid : isSolid c = true := by simpa [isSolid] using hblank
        have hread := declaredType?_collapse (c :: cs)
        rw [Text.collapse_cons_of_solid hsolid] at hread ⊢
        by_cases hsome : atBoundary = true ∧ ∃ name after, IsTypeDeclaration (c :: cs) name after
        · obtain ⟨rfl, name, after, hdeclares⟩ := hsome
          have hcollapsed :
              IsTypeDeclaration (c :: collapse false cs) name (collapse false after) := by
            apply declaredType?_eq_some_iff.mp
            rw [hread, declaredType?_eq_some_iff.mpr hdeclares]
            rfl
          obtain ⟨first, front, last, htext, -⟩ := hdeclares.exists_text_eq
          rw [hdeclares.typeNames_eq, hcollapsed.typeNames_eq,
            ih after.length (by rw [htext]; simp; omega) (by simp) after rfl]
        · have hnone : atBoundary = true → ∀ name after, ¬IsTypeDeclaration (c :: cs) name after :=
            fun hopens name after hdeclares => hsome ⟨hopens, name, after, hdeclares⟩
          have hcollapsed : atBoundary = true →
              ∀ name after, ¬IsTypeDeclaration (c :: collapse false cs) name after := by
            intro hopens name after hdeclares
            rw [declaredType?_eq_some_iff.mpr hdeclares, eq_comm, Option.map_eq_some_iff] at hread
            obtain ⟨⟨other, rest⟩, hother, -⟩ := hread
            exact hnone hopens other rest (declaredType?_eq_some_iff.mp hother)
          rw [typeNames_pass hnone, typeNames_pass hcollapsed]
          exact ih cs.length (by simp) (by simp) cs rfl

/-! ## §2 The main type -/

/-- A skeleton is as wide as the code, and what is shown as wide as the text. -/
theorem collapse_skeletonOf (behindBlank : Bool) (glyphs : List Glyph) :
    collapse behindBlank (skeletonOf glyphs) = collapse behindBlank (glyphs.map Glyph.shown) := by
  induction glyphs generalizing behindBlank with
  | nil => rfl
  | cons glyph glyphs ih =>
    obtain ⟨c, masked⟩ := glyph
    cases masked with
    | false =>
      show collapse behindBlank (c :: skeletonOf glyphs) =
        collapse behindBlank (c :: glyphs.map Glyph.shown)
      rw [collapse, collapse, ih, ih]
    | true =>
      -- the spaces for a masked character are collapsed to one
      show collapse behindBlank (List.replicate c.utf8Size ' ' ++ skeletonOf glyphs) =
        collapse behindBlank (' ' :: glyphs.map Glyph.shown)
      have hblank : ∀ d ∈ List.replicate c.utf8Size ' ', isBlank d = true := by
        intro d hd
        rw [List.eq_of_mem_replicate hd]
        rfl
      have hne : List.replicate c.utf8Size ' ' ≠ [] := by
        have := c.utf8Size_pos
        simp
        omega
      cases behindBlank with
      | true =>
        rw [Text.collapse_true_append_of_blank hblank, Text.collapse_true_cons_of_blank rfl, ih]
      | false => rw [Text.collapse_append_of_blank hblank hne, Text.collapse_cons_of_blank rfl, ih]

private theorem typeNames_skeleton (line : ScannedLine) :
    typeNames 0 true line.skeleton = typeNames 0 true (line.glyphs.map Glyph.shown) := by
  have hwidth : ∀ text, typeNames 0 true (collapse false text) = typeNames 0 true text :=
    typeNames_collapse (by simp)
  rw [← hwidth line.skeleton, ScannedLine.skeleton, collapse_skeletonOf, hwidth]

private theorem countCode_eq_count (c : Char) (glyphs : List Glyph) :
    countCode c glyphs = (glyphs.map Glyph.shown).count c := by
  rw [countCode, List.count, List.countP_map]
  rfl

namespace ScannedLine.Alike

variable {line line' : ScannedLine} (h : line.Alike line')
include h

theorem typeNames_eq : typeNames 0 true line'.skeleton = typeNames 0 true line.skeleton := by
  rw [typeNames_skeleton, typeNames_skeleton, h.shown]

private theorem openBraces_eq : line'.openBraces = line.openBraces := by
  rw [ScannedLine.openBraces, ScannedLine.openBraces, countCode_eq_count, countCode_eq_count,
    h.shown]

private theorem closeBraces_eq : line'.closeBraces = line.closeBraces := by
  rw [ScannedLine.closeBraces, ScannedLine.closeBraces, countCode_eq_count, countCode_eq_count,
    h.shown]

end ScannedLine.Alike

/-- Rewording does not change the types that are found. -/
theorem RewordsLines.topLevelTypes_eq {state : ScanState} {lines lines' : List Text}
    (h : RewordsLines state lines lines') (depth index : Nat) :
    topLevelTypes state depth index lines' = topLevelTypes state depth index lines := by
  induction h generalizing depth index with
  | nil state => rfl
  | cons hline _ ih =>
    have halike := hline.scan_alike
    rw [topLevelTypes, topLevelTypes, halike.typeNames_eq, halike.openBraces_eq,
      halike.closeBraces_eq, halike.state, ih]

theorem RewordsLines.findContainer_eq {lines lines' : List Text} (h : RewordsLines {} lines lines')
    (baseName : Text) (preferBaseName : Bool) :
    findContainer lines' baseName preferBaseName = findContainer lines baseName preferBaseName := by
  rw [findContainer, findContainer, h.topLevelTypes_eq]

/-! ## §3 The package -/

/-- The text in front of its first quote. -/
def upToQuote (text : Text) : Text :=
  text.takeWhile fun c => !isQuote c

theorem upToQuote_cons {c : Char} (h : isQuote c = false) (cs : Text) :
    upToQuote (c :: cs) = c :: upToQuote cs := by
  simp [upToQuote, h]

private theorem upToQuote_quote {c : Char} (h : isQuote c = true) (cs : Text) :
    upToQuote (c :: cs) = [] := by
  simp [upToQuote, h]

private theorem upToQuote_cons_congr (c : Char) {text other : Text}
    (h : upToQuote text = upToQuote other) : upToQuote (c :: text) = upToQuote (c :: other) := by
  by_cases hquote : isQuote c = true
  · rw [upToQuote_quote hquote, upToQuote_quote hquote]
  · rw [upToQuote_cons (by simpa using hquote), upToQuote_cons (by simpa using hquote), h]

private theorem isQuote_of_isBlank {c : Char} (h : isBlank c = true) : isQuote c = false :=
  eq_false_of_isBlank (by decide) h

private theorem after?_upToQuote {mark : Text} (hmark : ∀ c ∈ mark, isQuote c = false)
    (text : Text) : Text.after? (upToQuote text) mark = (Text.after? text mark).map upToQuote := by
  induction mark generalizing text with
  | nil => cases text <;> simp [Text.after?, upToQuote]
  | cons m mark ih =>
    have hm : isQuote m = false := hmark m (by simp)
    cases text with
    | nil => rfl
    | cons c text =>
      by_cases hquote : isQuote c = true
      · -- no quote stands in a mark
        have hc : c ≠ m := by
          rintro rfl
          simp [hquote] at hm
        rw [upToQuote_quote hquote, Text.after?_eq_none_of_ne hc]
        rfl
      · rw [upToQuote_cons (by simpa using hquote), Text.after?, Text.after?,
          ih fun d hd => hmark d (List.mem_cons_of_mem _ hd)]
        split <;> rfl

private theorem trimStart_upToQuote (text : Text) :
    Text.trimStart (upToQuote text) = upToQuote (Text.trimStart text) := by
  induction text with
  | nil => rfl
  | cons c text ih =>
    by_cases hblank : isBlank c = true
    · rw [upToQuote_cons (isQuote_of_isBlank hblank)]
      simpa [Text.trimStart, hblank] using ih
    · have hsolid : beginsWith isSolid (c :: text) = true := by simpa [isSolid] using hblank
      rw [Text.trimStart_eq_self hsolid]
      by_cases hquote : isQuote c = true
      · rw [upToQuote_quote hquote]
        rfl
      · rw [upToQuote_cons (by simpa using hquote)]
        exact Text.trimStart_eq_self (by simpa [isSolid] using hblank)

/-- A class of characters that holds no quote. -/
theorem takeWhile_upToQuote {p : Char → Bool} (hp : ∀ c, isQuote c = true → p c = false)
    (text : Text) :
    (upToQuote text).takeWhile p = text.takeWhile p := by
  induction text with
  | nil => rfl
  | cons c text ih =>
    by_cases hquote : isQuote c = true
    · simp [upToQuote_quote hquote, hp c hquote]
    · rw [upToQuote_cons (by simpa using hquote), List.takeWhile_cons, List.takeWhile_cons, ih]

/-- **A package is named in front of the first quote.** -/
theorem packageName?_upToQuote (text : Text) :
    packageName? (upToQuote text) = packageName? text := by
  have hkeywords : ∀ keyword ∈ packageKeywords, ∀ c ∈ keyword, isQuote c = false := by decide
  have hname : ∀ c, isQuote c = true → (isWordChar c || c == '.') = false := by
    intro c hc
    rcases (by simpa [isQuote] using hc : c = '"' ∨ c = '\'') with rfl | rfl <;> decide
  unfold packageName?
  rw [trimStart_upToQuote,
    dropFirst?_map fun keyword hmem => after?_upToQuote (hkeywords keyword hmem) text.trimStart]
  cases dropFirst? packageKeywords text.trimStart with
  | none => rfl
  | some rest =>
    cases rest with
    | nil => rfl
    | cons c cs =>
      by_cases hquote : isQuote c = true
      · have hblank : isBlank c = false := by
          rw [← Bool.not_eq_true]
          intro hblank
          simp [isQuote_of_isBlank hblank] at hquote
        simp [upToQuote_quote hquote, hblank]
      · have hcons := upToQuote_cons (by simpa using hquote) cs
        have htrim := trimStart_upToQuote (c :: cs)
        rw [hcons] at htrim
        simp only [Option.map_some, hcons, htrim, takeWhile_upToQuote hname]

namespace ScanState

/-- No comment is open inside a literal. -/
def IsApart (state : ScanState) : Prop :=
  state.inBlockComment = true → (state.inString || state.inChar) = false

/-- The scanner opens no comment inside a literal and no literal inside a comment. -/
theorem IsApart.scan {state : ScanState} (h : state.IsApart) (line : Text) :
    (state.scan line).state.IsApart := by
  induction state, line using line_induction with
  | nil state => exact h
  | commentClose state rest hcomment ih =>
    rw [scan_comment_close hcomment]
    apply ih
    simp [IsApart]
  | commentStep state c rest hcomment hopen ih =>
    rw [scan_comment_step hcomment hopen]
    exact ih h
  | escapeEnd state hinside =>
    rw [hinside.scan_escapeEnd]
    exact h
  | escape state c rest hinside ih =>
    rw [hinside.scan_escape]
    exact ih h
  | closeQuote state rest hinside ih =>
    rw [hinside.scan_quote]
    exact ih (by simp [IsApart])
  | content state c rest hinside hescape hquote ih =>
    rw [hinside.scan_content hquote (fun hback => absurd hback hescape)]
    exact ih h
  | lineComment rest => exact h
  | blockComment rest ih => exact ih (by simp [IsApart, comment])
  | openQuote quote rest hquote ih =>
    rw [scan_openQuote hquote]
    apply ih
    intro hcomment
    simp [(inLiteral_ofQuote hquote).1.noComment] at hcomment
  | code c rest hquote hslash ih =>
    rw [scan_code hquote hslash]
    exact ih h

/-- Outside literals what stands in front of the first quote is code. -/
theorem upToQuote_code {state : ScanState} (h : (state.inString || state.inChar) = false)
    (line : Text) :
    upToQuote (state.scan line).code = upToQuote ((state.scan line).glyphs.map Glyph.shown) := by
  induction state, line using line_induction with
  | nil state => rfl
  | commentClose state rest hcomment ih =>
    rw [scan_comment_close hcomment]
    exact congrArg (' ' :: ·) (ih h)
  | commentStep state c rest hcomment hopen ih =>
    rw [scan_comment_step hcomment hopen]
    exact ih h
  | escapeEnd state hinside => simp [hinside.literal] at h
  | escape state c rest hinside => simp [hinside.literal] at h
  | closeQuote state rest hinside => simp [hinside.literal] at h
  | content state c rest hinside => simp [hinside.literal] at h
  | lineComment rest => rfl
  | blockComment rest ih => exact ih rfl
  | openQuote quote rest hquote =>
    have hisQuote : isQuote quote = true := by simpa [isQuote] using hquote
    rw [scan_openQuote hquote]
    exact (upToQuote_quote hisQuote _).trans (upToQuote_quote hisQuote _).symm
  | code c rest hquote hslash ih =>
    rw [scan_code hquote hslash]
    exact upToQuote_cons_congr c (ih h)

/-- Inside a literal what stands in front of the first quote is its text. -/
theorem InLiteral.upToQuote_code {state : ScanState} (h : state.InLiteral) (line : Text) :
    upToQuote (state.scan line).code = upToQuote line := by
  induction state, line using line_induction with
  | nil state => rfl
  | commentClose state rest hcomment => simp [h.noComment] at hcomment
  | commentStep state c rest hcomment => simp [h.noComment] at hcomment
  | escapeEnd state hinside =>
    rw [hinside.scan_escapeEnd]
    rfl
  | escape state c rest hinside ih =>
    rw [hinside.scan_escape]
    exact upToQuote_cons_congr '\\' (upToQuote_cons_congr c (ih h))
  | closeQuote state rest hinside =>
    have hquote : isQuote state.quote = true := by
      rcases state.quote_eq with hquote | hquote <;> rw [hquote] <;> decide
    rw [hinside.scan_quote, upToQuote_quote hquote]
    exact upToQuote_quote hquote _
  | content state c rest hinside hescape hquote ih =>
    rw [hinside.scan_content hquote (fun hback => absurd hback hescape)]
    exact upToQuote_cons_congr c (ih h)
  | lineComment rest => simpa using h.literal
  | blockComment rest => simpa using h.literal
  | openQuote quote rest => simpa using h.literal
  | code c rest => simpa using h.literal

end ScanState

/-- On every line that begins inside a literal the two texts agree up to the first quote. -/
def keepsCarried (state : ScanState) : (lines lines' : List Text) → Bool
  | line :: lines, line' :: lines' =>
    (!(state.inString || state.inChar) || upToQuote line == upToQuote line') &&
      keepsCarried (state.scan line).state lines lines'
  | _, _ => true

/-- A line and its rewording name the same package. -/
theorem Rewords.packageName?_eq {state : ScanState} {line line' : Text}
    (h : Rewords state line line')
    (hapart : state.IsApart)
    (hkeeps : (state.inString || state.inChar) = true → upToQuote line = upToQuote line') :
    packageName? (state.scan line').code = packageName? (state.scan line).code := by
  have hfront : upToQuote (state.scan line').code = upToQuote (state.scan line).code := by
    cases hliteral : (state.inString || state.inChar) with
    | false =>
      rw [ScanState.upToQuote_code hliteral, ScanState.upToQuote_code hliteral, h.scan_alike.shown]
    | true =>
      have hinside : state.InLiteral := by
        refine .of_not (fun hcomment => ?_) hliteral
        simp [hapart hcomment] at hliteral
      rw [hinside.upToQuote_code, hinside.upToQuote_code, hkeeps hliteral]
  rw [← packageName?_upToQuote, hfront, packageName?_upToQuote]

private theorem RewordsLines.findSome?_eq {state : ScanState} {lines lines' : List Text}
    (h : RewordsLines state lines lines') (hapart : state.IsApart)
    (hkeeps : keepsCarried state lines lines' = true) :
    (scanLines state lines').findSome? (fun line => packageName? line.code) =
      (scanLines state lines).findSome? fun line => packageName? line.code := by
  induction h with
  | nil state => rfl
  | @cons state line line' lines lines' hline _ ih =>
    rw [keepsCarried, Bool.and_eq_true, Bool.or_eq_true, Bool.not_eq_true', beq_iff_eq] at hkeeps
    have hcarried : (state.inString || state.inChar) = true → upToQuote line = upToQuote line' :=
      fun hliteral => hkeeps.1.resolve_left (by simp [hliteral])
    have hrest := ih (hapart.scan line) hkeeps.2
    rw [scanLines, scanLines, hline.scan_alike.state, List.findSome?_cons, List.findSome?_cons,
      hline.packageName?_eq hapart hcarried, hrest]

/-! ## §4 The document -/

/-- **Rewording comments and literals does not change the main type of a document**, nor its package
if literals are left as they are in front of the first quote of the lines that begin inside them. -/
theorem findContainer_findPackage_of_rewordsLines {lines lines' : List Text}
    (h : RewordsLines {} lines lines') :
    (∀ (baseName : Text) (preferBaseName : Bool),
      findContainer lines' baseName preferBaseName = findContainer lines baseName preferBaseName) ∧
    (keepsCarried {} lines lines' = true → findPackage lines' = findPackage lines) :=
  ⟨h.findContainer_eq, fun hkeeps => h.findSome?_eq (by simp [ScanState.IsApart]) hkeeps⟩

/-- A document with the text of declarations in its comments and in a literal. -/
def draftLines : List Text :=
  ["package shop; // class Draft \x7b".toList, "/* class Old \x7b".toList,
    "*/ class Orders \x7b".toList, "  String s = \"class Fake \x7b\";".toList, "\x7d".toList]

/-- The same document with other words there, some of them wider when they are encoded. -/
def editedLines : List Text :=
  ["package shop; // other words x".toList, "/* other text.".toList, "*/ class Orders \x7b".toList,
    "  String s = \"für jeden üb\";".toList, "\x7d".toList]

/-- The type and the package of the edited document. -/
theorem findContainer_findPackage_editedLines :
    RewordsLines {} draftLines editedLines ∧ keepsCarried {} draftLines editedLines = true ∧
      findContainer editedLines "Shop" true = ⟨"Orders", some 2⟩ ∧
      findPackage editedLines = some "shop" := by
  have hrewords : RewordsLines {} draftLines editedLines :=
    .cons (by decide +kernel) (.cons (by decide +kernel) (.cons (by decide +kernel)
      (.cons (by decide +kernel) (.cons (by decide +kernel) (.nil _)))))
  have hkeeps : keepsCarried {} draftLines editedLines = true := by decide +kernel
  have hdraft : findContainer draftLines "Shop" true = ⟨"Orders", some 2⟩ ∧
      findPackage draftLines = some "shop" := by decide +kernel
  have hsame := findContainer_findPackage_of_rewordsLines hrewords
  exact ⟨hrewords, hkeeps, (hsame.1 "Shop" true).trans hdraft.1, (hsame.2 hkeeps).trans hdraft.2⟩

/-- The text of a literal is taken for the name of a package where a line begins inside it. -/
theorem not_forall_findPackage_of_rewordsLines :
    ¬∀ lines lines' : List Text, RewordsLines {} lines lines' →
      findPackage lines' = findPackage lines := by
  intro h
  have hrewords : RewordsLines {}
      ["String s = \"\"\"".toList, "package wrong.one".toList, "\"\"\";".toList]
      ["String s = \"\"\"".toList, "the package is it".toList, "\"\"\";".toList] :=
    .cons (by decide +kernel) (.cons (by decide +kernel) (.cons (by decide +kernel) (.nil _)))
  exact absurd (h _ _ hrewords) (by decide +kernel)

end DeclDocs
