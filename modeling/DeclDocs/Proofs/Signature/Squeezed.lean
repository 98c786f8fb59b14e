import DeclDocs.Proofs.Declaration.AnnotatedLine
import DeclDocs.Proofs.Text.Collapse

/-!
# Annotations in squeezed text

The text of a signature is squeezed before its annotations are taken off, and squeezing does not
spare the literals in their arguments.  To a reader one blank is as good as many: literals begin and
end where they did, and parentheses nest as they did.  So an annotation stays an annotation, and
what is left behind the annotations is the squeezed rest of the declaration.

* `CodePlace.run_collapse`, `CodePlace.nests_shows_collapse`: a reader of code on collapsed text.
* `blankLiterals?_eq_run`: what shows of a text, read character by character.
* `Arguments.collapse`, `DecoratorRow.collapse`: annotations whose runs of blanks are collapsed.
* `stripAnnotations_squeeze`: taking annotations off squeezed text.
-/

namespace DeclDocs

open Text (isSolid beginsWith endsIn collapse)

/-! ## §1 A reader on collapsed text -/

/-- Text that nests as other text does still nests so behind the same character. -/
theorem nests_cons_congr {brackets : Brackets} {outer inner : Char → Bool} {text other : Text}
    (h : ∀ depth, nests brackets outer inner depth text = nests brackets outer inner depth other)
    (c : Char) (depth : Nat) :
    nests brackets outer inner depth (c :: text) =
      nests brackets outer inner depth (c :: other) := by
  simp only [nests, h]

/-- A blank neither opens nor closes a parenthesis. -/
theorem nests_parens_cons_of_blank {c : Char} (h : isBlank c = true) (depth : Nat) (text : Text) :
    nests .parens (fun _ => true) (fun _ => true) depth (c :: text) =
      nests .parens (fun _ => true) (fun _ => true) depth text := by
  have hopen : c ≠ '(' := Text.ne_of_class h (by decide)
  have hclose : c ≠ ')' := Text.ne_of_class h (by decide)
  simp [nests, Brackets.parens, Brackets.ofPair, hopen, hclose]

namespace CodePlace

variable {place : CodePlace} {behindBlank : Bool}

theorem run_collapse (h : behindBlank = true → place.afterBlank = place) (text : Text) :
    place.run (collapse behindBlank text) = place.run text := by
  induction text generalizing place behindBlank with
  | nil => rfl
  | cons c text ih =>
    by_cases hblank : isBlank c = true
    · rw [run_cons (place.step_blank hblank)]
      cases behindBlank with
      | true =>
        rw [Text.collapse_true_cons_of_blank hblank, h rfl]
        exact ih h
      | false =>
        rw [Text.collapse_cons_of_blank hblank, run_cons (place.step_blank (by decide))]
        exact ih fun _ => place.afterBlank_afterBlank
    · rw [Text.collapse_cons_of_solid (by simpa [isSolid] using hblank), run, run,
        List.foldlM_cons, List.foldlM_cons]
      cases place.step c with
      | none => rfl
      | some next => exact ih (by simp)

/-- Parentheses outside literals nest as they did. -/
theorem nests_shows_collapse (h : behindBlank = true → place.afterBlank = place) (depth : Nat)
    (text : Text) :
    nests .parens (fun _ => true) (fun _ => true) depth (place.shows (collapse behindBlank text)) =
      nests .parens (fun _ => true) (fun _ => true) depth (place.shows text) := by
  induction text generalizing place behindBlank depth with
  | nil => rfl
  | cons c text ih =>
    by_cases hblank : isBlank c = true
    · rw [shows_cons (place.step_blank hblank),
        nests_parens_cons_of_blank (place.isBlank_shown hblank)]
      cases behindBlank with
      | true =>
        rw [Text.collapse_true_cons_of_blank hblank, h rfl]
        exact ih h depth
      | false =>
        rw [Text.collapse_cons_of_blank hblank, shows_cons (place.step_blank (by decide)),
          nests_parens_cons_of_blank (place.isBlank_shown (by decide))]
        exact ih (fun _ => place.afterBlank_afterBlank) depth
    · rw [Text.collapse_cons_of_solid (by simpa [isSolid] using hblank), shows, shows]
      cases place.step c with
      | none => rfl
      | some next => exact nests_cons_congr (fun depth => ih (by simp) depth) _ depth

/-- The quote that closes the open literal. -/
def quote? : CodePlace → Option Char
  | code | slash => none
  | literal inString | escape inString => some (if inString then '"' else '\'')

/-- A reader that stands in front of the text where the literal with the given quote is open. -/
inductive StandsAt : CodePlace → Option Char → Text → Prop where
  | code (text : Text) : StandsAt code none text
  | slash {text : Text} (h : beginsWith makesComment text = false) : StandsAt slash none text
  | literal (inString : Bool) (text : Text) :
      StandsAt (literal inString) (some (if inString then '"' else '\'')) text

end CodePlace

/-- One character of a text that is read. -/
theorem CodePlace.map_run_cons {place next : CodePlace} {c : Char} (h : place.step c = some next)
    (cs : Text) :
    ((place.run (c :: cs)).map fun last => (place.shows (c :: cs), last.quote?)) =
      ((next.run cs).map fun last => (next.shows cs, last.quote?)).map fun found =>
        (place.shown c :: found.1, found.2) := by
  rw [run_cons h, shows_cons h, Option.map_map]
  rfl

/-- What shows of a text is what a reader shows that reads it to its end. -/
theorem blankLiterals?_eq_run {place : CodePlace} {quote : Option Char} {text : Text}
    (h : place.StandsAt quote text) :
    blankLiterals? quote text =
      (place.run text).map fun last => (place.shows text, last.quote?) := by
  fun_induction blankLiterals? quote text generalizing place with
  | case1 quote => cases h <;> rfl
  | case2 c cs hquote ih =>
    -- a literal opens
    have hnext : (CodePlace.ofCode c).StandsAt (some c) cs := by
      rcases hquote with rfl | rfl
      · exact .literal true cs
      · exact .literal false cs
    have hmark : makesComment c = false := by rcases hquote with rfl | rfl <;> decide
    have hstep : place.step c = some (CodePlace.ofCode c) ∧ place.shown c = c := by
      cases h with
      | code => exact ⟨rfl, rfl⟩
      | slash => exact ⟨by simp [CodePlace.step, hmark], rfl⟩
    rw [ih hnext, CodePlace.map_run_cons hstep.1, hstep.2]
  | case3 c cs hquote hcomment =>
    -- a comment opens, where the reader stops
    obtain ⟨rfl, hbegins⟩ := hcomment
    cases h with
    | slash hbegins => simp [makesComment] at hbegins
    | code =>
      have hnone : CodePlace.code.run ('/' :: cs) = none := by
        cases cs with
        | nil => simp at hbegins
        | cons d cs =>
          have hstep : CodePlace.code.step '/' = some .slash := rfl
          rw [CodePlace.run_cons hstep, CodePlace.run, List.foldlM_cons, CodePlace.step,
            if_pos (by simpa using hbegins)]
          rfl
      rw [hnone]
      rfl
  | case4 c cs hquote hcomment ih =>
    have hstep : place.step c = some (CodePlace.ofCode c) ∧ place.shown c = c := by
      cases h with
      | code => exact ⟨rfl, rfl⟩
      | slash hbegins => exact ⟨by simpa [CodePlace.step] using hbegins, rfl⟩
    have hnext : (CodePlace.ofCode c).StandsAt none cs := by
      rw [not_or] at hquote
      by_cases hslash : c = '/'
      · have hbegins : beginsWith makesComment cs = false := by simpa [hslash] using hcomment
        rw [CodePlace.ofCode, if_pos hslash]
        exact .slash hbegins
      · simp only [CodePlace.ofCode, hslash, hquote.1, hquote.2, if_false]
        exact .code cs
    rw [ih hnext, CodePlace.map_run_cons hstep.1, hstep.2]
  | case5 quote c cs ih =>
    -- the escaped character is content too
    cases h with
    | literal inString =>
      have hescape : (CodePlace.literal inString).step '\\' = some (.escape inString) := rfl
      have hescaped : (CodePlace.escape inString).step c = some (.literal inString) := rfl
      have hshown : (CodePlace.literal inString).shown '\\' = ' ' := by cases inString <;> rfl
      rw [ih (.literal inString cs), CodePlace.map_run_cons hescape,
        CodePlace.map_run_cons hescaped, hshown]
      cases (CodePlace.literal inString).run cs <;> rfl
  | case6 quote cs hescape ih =>
    cases h with
    | literal inString =>
      have hstep :
          (CodePlace.literal inString).step (if inString then '"' else '\'') = some .code := by
        cases inString <;> rfl
      have hshown : (CodePlace.literal inString).shown (if inString then '"' else '\'') =
          if inString then '"' else '\'' := by cases inString <;> rfl
      rw [ih (.code cs), CodePlace.map_run_cons hstep, hshown]
  | case7 quote c cs hescape hquote ih =>
    cases h with
    | literal inString =>
      have hshown : (CodePlace.literal inString).shown c = ' ' := if_neg hquote
      by_cases hback : c = '\\'
      · -- a backslash at the end escapes nothing
        subst hback
        cases cs with
        | nil => cases inString <;> rfl
        | cons d cs => exact absurd rfl (hescape d cs rfl)
      · have hstep : (CodePlace.literal inString).step c = some (.literal inString) := by
          simp [CodePlace.step, hback, hquote]
        rw [ih (.literal inString cs), CodePlace.map_run_cons hstep, hshown]

/-- Text that opens no comment and closes its literals. -/
theorem shows_iff_run {text shown : Text} :
    Shows text shown ↔ ∃ last, CodePlace.code.run text = some last ∧ last.quote? = none ∧
      CodePlace.code.shows text = shown := by
  rw [Shows, blankLiterals?_eq_run (.code text), Option.map_eq_some_iff]
  simp only [Prod.mk.injEq]
  exact exists_congr fun last => and_congr_right fun _ => and_comm

/-! ## §2 Collapsed annotations -/

/-- The arguments with their runs of blanks collapsed, in literals too. -/
def Arguments.collapse (arguments : Arguments) : Arguments where
  text := Text.collapse false arguments.text
  shown := CodePlace.code.shows (Text.collapse false arguments.text)
  shows := by
    obtain ⟨last, hrun, hquote, -⟩ := shows_iff_run.mp arguments.shows
    exact shows_iff_run.mpr ⟨last, (CodePlace.run_collapse (by simp) _).trans hrun, hquote, rfl⟩
  nested := by
    obtain ⟨last, -, -, hshown⟩ := shows_iff_run.mp arguments.shows
    rw [CodePlace.nests_shows_collapse (by simp), hshown]
    exact arguments.nested

/-- A run of blanks, collapsed. -/
def Padding.collapse (padding : Padding) : Padding where
  text := Text.collapse false padding.text
  blank := by
    intro c hc
    rcases Text.mem_collapse hc with hmem | rfl
    · exact padding.blank c hmem
    · decide

/-- A run of blanks does not vanish. -/
theorem Padding.collapse_ne_nil {padding : Padding} (h : padding.text ≠ []) :
    padding.collapse.text ≠ [] := by
  have hcollapse := Text.collapse_append_of_blank padding.blank h []
  rw [List.append_nil] at hcollapse
  simp [collapse, hcollapse]

/-- The annotation with its runs of blanks collapsed. -/
def SpacedDecorator.collapse (decorator : SpacedDecorator) : SpacedDecorator :=
  { decorator with
    arguments := decorator.arguments.map fun part => (part.1.collapse, part.2.collapse)
    after := decorator.after.collapse }

private theorem SpacedDecorator.collapse_text (decorator : SpacedDecorator) (behindBlank : Bool) :
    Text.collapse behindBlank decorator.text = decorator.collapse.text := by
  have hsolid : ∀ c ∈ '@' :: decorator.name, isSolid c = true := by
    intro c hc
    rcases List.mem_cons.mp hc with rfl | hmem
    · decide
    · exact isSolid_of_isAnnotationChar (decorator.isName.chars c hmem)
  have hname := Text.collapse_append_of_solid hsolid (by simp) behindBlank
    (decorator.argumentText ++ decorator.after.text)
  have hrest : Text.collapse false (decorator.argumentText ++ decorator.after.text) =
      decorator.collapse.argumentText ++ decorator.collapse.after.text := by
    unfold argumentText collapse
    cases decorator.arguments with
    | none => rfl
    | some part =>
      -- the parentheses stay where they are
      have hlist : Text.collapse false
          (part.1.text ++ '(' :: (part.2.text ++ ')' :: decorator.after.text)) =
            part.1.collapse.text ++ '(' :: (part.2.collapse.text ++
              ')' :: decorator.after.collapse.text) := by
        rw [Text.collapse_append_cons (by decide), Text.collapse_append_cons (by decide)]
        rfl
      simpa using hlist
  rw [hrest] at hname
  exact hname

/-- The row with its runs of blanks collapsed, without those in front. -/
def DecoratorRow.collapse (row : DecoratorRow) : DecoratorRow where
  indent := .empty
  parts := row.parts.map SpacedDecorator.collapse
  apart := by
    intro last hlast hbare
    rw [List.getLast?_map, Option.mem_def, Option.map_eq_some_iff] at hlast
    obtain ⟨part, hpart, rfl⟩ := hlast
    exact Padding.collapse_ne_nil (row.apart part hpart (Option.map_eq_none_iff.mp hbare))

theorem collapse_rowText_append {rest : Text} (hrest : beginsWith isSolid rest = true)
    (behindBlank : Bool) (parts : List SpacedDecorator) :
    collapse behindBlank (rowText parts ++ rest) =
      rowText (parts.map SpacedDecorator.collapse) ++ collapse false rest := by
  induction parts generalizing behindBlank with
  | nil => exact Text.collapse_append_of_begins hrest behindBlank []
  | cons part parts ih =>
    have hnext := beginsWith_rowText (p := isSolid) rfl hrest parts
    rw [List.map_cons, rowText_cons, rowText_cons, List.append_assoc, List.append_assoc,
      Text.collapse_append_of_begins hnext, part.collapse_text, ih]

/-! ## §3 Taking annotations off squeezed text -/

/-- A declaration behind its annotations, squeezed. -/
theorem squeeze_row_append (row : DecoratorRow) {body : Text}
    (hbegins : beginsWith isSolid body = true) (hends : endsIn isSolid body = true) :
    Text.squeeze (row.text ++ body) = row.collapse.text ++ collapse false body := by
  rw [Text.squeeze_eq_collapse (Text.endsIn_append hends _), DecoratorRow.text, List.append_assoc,
    Text.collapse_true_append_of_blank row.indent.blank, collapse_rowText_append hbegins]
  rfl

/-- **Behind the annotations of squeezed text stands the squeezed declaration.** -/
theorem stripAnnotations_squeeze (row : DecoratorRow) {body : Text}
    (hbegins : beginsWith isDeclarationStart body = true) (hends : endsIn isSolid body = true)
    (hwhole : ScannedWhole (collapse false body)) :
    stripAnnotations (Text.squeeze (row.text ++ body)) = collapse false body := by
  have hsolid := Text.beginsWith_mono (fun _ => isSolid_of_isDeclarationStart) hbegins
  have hcollapsed : beginsWith isDeclarationStart (collapse false body) = true := by
    cases body with
    | nil => simp at hbegins
    | cons c body =>
      rw [Text.collapse_cons_of_solid hsolid]
      exact hbegins
  rw [squeeze_row_append row hsolid hends]
  exact stripAnnotations_rowText row.collapse.apart hwhole hcollapsed

end DeclDocs
