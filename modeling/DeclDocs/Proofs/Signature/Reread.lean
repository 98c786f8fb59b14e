import DeclDocs.Proofs.Signature.Search
import DeclDocs.Signature.Parse

/-!
# Reading an extracted signature again

The text of a signature is put together from lines whose comments are gone, and its runs of blanks
are squeezed.  Read again as one line it opens no comment: no slash of code has come next to a slash
or a star, and literals begin and end where they did.  So the mask of the text shows its literals,
and a parenthesis counts only outside of them.

* `CodePlace`: what a reader of code remembers of the characters so far.
* `CodePlace.Fits.run_scan`: what the scanner keeps of a line opens no comment.
* `CodePlace.isSome_run_squeeze`: squeezing opens none either.
* `scannedWhole_of_extractSignature`: the scanner loses nothing of an extracted signature.
* `hasParameterList_iff_mem`: the parenthesis that makes a callable usable is code.
-/

namespace DeclDocs

open Text (isSolid beginsWith)

/-! ## §1 Reading code character by character -/

/-- Where a reader of code stands between two characters. -/
inductive CodePlace where
  | code
  /-- Behind a slash of code. -/
  | slash
  /-- In a string, or else in a character literal. -/
  | literal (inString : Bool)
  /-- Behind a backslash in a literal. -/
  | escape (inString : Bool)
deriving DecidableEq, Repr

namespace CodePlace

/-- Behind a character of code. -/
def ofCode (c : Char) : CodePlace :=
  if c = '/' then slash
  else if c = '"' then literal true
  else if c = '\'' then literal false
  else code

theorem ofCode_eq_slash_iff {c : Char} : ofCode c = slash ↔ c = '/' := by
  unfold ofCode
  split
  case isTrue hc => simp [hc]
  case isFalse hc =>
    simp only [hc, iff_false]
    split
    · simp
    · split <;> simp

/-- Reads a character; `none` where a comment opens. -/
def step : CodePlace → Char → Option CodePlace
  | code, c => some (ofCode c)
  | slash, c => if makesComment c then none else some (ofCode c)
  | literal inString, c =>
    if c = '\\' then some (escape inString)
    else if c = (if inString then '"' else '\'') then some code
    else some (literal inString)
  | escape inString, _ => some (literal inString)

/-- Reads text. -/
def run (place : CodePlace) (text : Text) : Option CodePlace :=
  text.foldlM step place

/-- Behind a blank. -/
def afterBlank : CodePlace → CodePlace
  | slash => code
  | escape inString => literal inString
  | place => place

variable {place next : CodePlace} {c : Char}

@[simp] theorem run_nil (place : CodePlace) : place.run [] = some place := rfl

theorem run_cons (h : place.step c = some next) (text : Text) :
    place.run (c :: text) = next.run text := by
  rw [run, List.foldlM_cons, h]
  rfl

theorem run_append (place : CodePlace) (front back : Text) :
    place.run (front ++ back) = (place.run front).bind (·.run back) :=
  List.foldlM_append

theorem isSome_run_of_append {front back : Text} (h : (place.run (front ++ back)).isSome = true) :
    (place.run front).isSome = true := by
  rw [run_append] at h
  exact Option.isSome_of_isSome_bind h

theorem afterBlank_afterBlank (place : CodePlace) :
    place.afterBlank.afterBlank = place.afterBlank := by
  cases place <;> rfl

theorem step_blank (place : CodePlace) (h : isBlank c = true) :
    place.step c = some place.afterBlank := by
  have hslash : c ≠ '/' := Text.ne_of_class h (by decide)
  have hstar : c ≠ '*' := Text.ne_of_class h (by decide)
  have hstring : c ≠ '"' := Text.ne_of_class h (by decide)
  have hchar : c ≠ '\'' := Text.ne_of_class h (by decide)
  have hescape : c ≠ '\\' := Text.ne_of_class h (by decide)
  cases place with
  | code => simp [step, ofCode, afterBlank, hslash, hstring, hchar]
  | slash => simp [step, ofCode, afterBlank, makesComment, hslash, hstar, hstring, hchar]
  | literal inString => cases inString <;> simp [step, afterBlank, hescape, hstring, hchar]
  | escape inString => rfl

/-- Squeezing opens no comment: to a reader one blank is as good as many. -/
theorem isSome_run_squeeze {text : Text} (hplace : place.afterBlank = place)
    (h : (place.run text).isSome = true) : (place.run text.squeeze).isSome = true := by
  induction text using Text.word_induction generalizing place with
  | word word hword =>
    rw [Text.squeeze_word hword]
    exact h
  | blank word b rest hword hb ih =>
    rw [run_append] at h
    obtain ⟨last, hlast⟩ := Option.isSome_iff_exists.mp h
    obtain ⟨between, hbetween, hrest⟩ := Option.bind_eq_some_iff.mp hlast
    rw [run_cons (between.step_blank hb)] at hrest
    have htail := ih between.afterBlank_afterBlank (Option.isSome_of_eq_some hrest)
    by_cases hne : word = []
    · -- blanks at the beginning are dropped, and there the reader stands as behind a blank
      subst hne
      obtain rfl : place = between := Option.some.inj hbetween
      rw [List.nil_append, Text.squeeze_cons_blank hb]
      rwa [hplace] at htail
    · rw [Text.squeeze_append_cons hne hword hb]
      split
      case isTrue =>
        -- blanks at the end are dropped
        exact Option.isSome_of_eq_some hbetween
      case isFalse =>
        rw [run_append, hbetween, Option.bind_some, run_cons (between.step_blank (by decide))]
        exact htail

/-! ## §2 The reader and the scanner -/

/-- Where the scanner stands as a reader of code; a comment is not part of the code. -/
def ofState (state : ScanState) : CodePlace :=
  if state.inString then literal true else if state.inChar then literal false else code

private theorem ofState_of_inLiteral {state : ScanState} (h : state.InLiteral) :
    ofState state = literal state.inString := by
  have hliteral := h.literal
  cases hstring : state.inString with
  | true => simp [ofState, hstring]
  | false =>
    have hchar : state.inChar = true := by simpa [hstring] using hliteral
    simp [ofState, hstring, hchar]

theorem ofState_ne_slash (state : ScanState) : ofState state ≠ slash := by
  unfold ofState
  split
  · simp
  · split <;> simp

theorem afterBlank_ofState (state : ScanState) : (ofState state).afterBlank = ofState state := by
  unfold ofState
  split
  · rfl
  · split <;> rfl

/-- The reader stands where the scanner does, or behind a slash that the scanner has read. -/
def Fits (place : CodePlace) (state : ScanState) : Prop :=
  place = ofState state ∨ place = slash ∧ state = {}

namespace Fits

variable {state : ScanState} {cs : Text}

theorem eq_ofState (h : place.Fits state) (hcomment : state.inBlockComment = true) :
    place = ofState state := by
  rcases h with rfl | ⟨_, rfl⟩
  · rfl
  · exact absurd hcomment (by decide)

theorem eq_literal (h : place.Fits state) (hinside : state.InLiteral) :
    place = literal state.inString := by
  rcases h with rfl | ⟨_, rfl⟩
  · exact ofState_of_inLiteral hinside
  · exact absurd hinside.literal (by decide)

theorem step_escape (h : place.Fits state) (hinside : state.InLiteral) :
    place.step '\\' = some (escape state.inString) := by
  rw [h.eq_literal hinside]
  rfl

theorem step_quote (h : place.Fits state) (hinside : state.InLiteral) :
    place.step state.quote = some code := by
  rw [h.eq_literal hinside, ScanState.quote]
  cases state.inString <;> rfl

theorem step_content (h : place.Fits state) (hinside : state.InLiteral) (hescape : c ≠ '\\')
    (hquote : c ≠ state.quote) : place.step c = some (literal state.inString) := by
  rw [h.eq_literal hinside]
  exact (if_neg hescape).trans (if_neg hquote)

theorem step_code (h : place.Fits {}) (hc : place = slash → makesComment c = false) :
    place.step c = some (ofCode c) := by
  rcases h with rfl | ⟨rfl, _⟩
  · rfl
  · simp [step, hc rfl]

private theorem run_code (h : place.Fits {}) (hrun : (place.run (c :: cs)).isSome = true) :
    ((CodePlace.ofCode c).run cs).isSome = true := by
  have hstep : place.step c = some (CodePlace.ofCode c) := by
    refine h.step_code fun hslash => ?_
    subst hslash
    by_contra hcomment
    have hnone : slash.run (c :: cs) = none := by
      rw [run, List.foldlM_cons, step, if_pos (by simpa using hcomment)]
      rfl
    simp [hnone] at hrun
  rwa [run_cons hstep] at hrun

theorem literal (hinside : state.InLiteral) : (CodePlace.literal state.inString).Fits state :=
  Or.inl (ofState_of_inLiteral hinside).symm

/-- Behind a character of code that opens no literal. -/
theorem ofCode (hstring : c ≠ '"') (hchar : c ≠ '\'') : (CodePlace.ofCode c).Fits {} := by
  by_cases hslash : c = '/'
  · exact Or.inr ⟨by simp [CodePlace.ofCode, hslash], rfl⟩
  · exact Or.inl (by simp [CodePlace.ofCode, hslash, hstring, hchar, ofState])

end Fits

/-- A glyph that the reader takes in one step. -/
theorem exists_run_push {last : CodePlace → Prop} {glyph : Glyph} {line : ScannedLine}
    (hstep : place.step glyph.char = some next)
    (h : ∃ place, next.run line.code = some place ∧ last place) :
    ∃ after, place.run (line.push glyph).code = some after ∧ last after := by
  obtain ⟨after, hrun, hlast⟩ := h
  exact ⟨after, (run_cons hstep line.code).trans hrun, hlast⟩

/-- **What the scanner keeps of a line opens no comment**, and the reader ends where the scanner
does. -/
theorem Fits.run_scan {state : ScanState} {text : Text} (h : place.Fits state)
    (hslash : place = slash → beginsWith makesComment text = false) :
    ∃ last, place.run (state.scan text).code = some last ∧
      last.afterBlank = ofState (state.scan text).state := by
  fun_induction ScanState.scan state text generalizing place with
  | case1 state =>
    refine ⟨place, rfl, ?_⟩
    rcases h with rfl | ⟨rfl, rfl⟩
    · exact afterBlank_ofState state
    · rfl
  | case2 state hcomment rest ih =>
    -- a comment that closes leaves a space
    obtain rfl := h.eq_ofState hcomment
    refine exists_run_push (step_blank _ (by decide)) ?_
    rw [afterBlank_ofState]
    exact ih (Or.inl rfl) fun hslash => absurd hslash (ofState_ne_slash state)
  | case3 state c hcomment rest hclose ih =>
    obtain rfl := h.eq_ofState hcomment
    exact ih (Or.inl rfl) fun hslash => absurd hslash (ofState_ne_slash state)
  | case4 state hcomment hliteral =>
    -- the backslash at the end of the line takes the space behind the line with it
    have hinside : state.InLiteral := .of_not hcomment hliteral
    exact ⟨_, run_cons (h.step_escape hinside) [], (ofState_of_inLiteral hinside).symm⟩
  | case5 state hcomment hliteral escaped rest ih =>
    have hinside : state.InLiteral := .of_not hcomment hliteral
    exact exists_run_push (h.step_escape hinside)
      (exists_run_push rfl (ih (.literal hinside) (by simp)))
  | case6 state rest hcomment hliteral _ ih =>
    have hinside : state.InLiteral := .of_not hcomment hliteral
    exact exists_run_push (h.step_quote hinside) (ih (Or.inl rfl) (by simp))
  | case7 state c rest hcomment hliteral hescape hquote ih =>
    have hinside : state.InLiteral := .of_not hcomment hliteral
    exact exists_run_push (h.step_content hinside hescape hquote) (ih (.literal hinside) (by simp))
  | case8 state hcomment hliteral rest =>
    -- a line comment, which does not begin behind a slash
    rcases h with rfl | ⟨rfl, rfl⟩
    · exact ⟨_, rfl, afterBlank_ofState state⟩
    · exact absurd (hslash rfl) (by simp [makesComment])
  | case9 state hcomment hliteral rest ih =>
    rcases h with rfl | ⟨rfl, rfl⟩
    · exact ih (Or.inl rfl) fun hslash => absurd hslash (ofState_ne_slash state)
    · exact absurd (hslash rfl) (by simp [makesComment])
  | case10 state hcomment hliteral rest ih =>
    obtain rfl := ScanState.eq_default hcomment hliteral
    exact exists_run_push (h.step_code hslash)
      (ih (Or.inl rfl) fun hquote => absurd (ofCode_eq_slash_iff.mp hquote) (by decide))
  | case11 state hcomment hliteral rest ih =>
    obtain rfl := ScanState.eq_default hcomment hliteral
    exact exists_run_push (h.step_code hslash)
      (ih (Or.inl rfl) fun hquote => absurd (ofCode_eq_slash_iff.mp hquote) (by decide))
  | case12 state hcomment hliteral c rest hline hblock hstring hchar ih =>
    obtain rfl := ScanState.eq_default hcomment hliteral
    refine exists_run_push (h.step_code hslash) (ih (.ofCode hstring hchar) fun hnext => ?_)
    -- behind a slash of code stands neither a slash nor a star
    have hc : c = '/' := ofCode_eq_slash_iff.mp hnext
    cases rest with
    | nil => rfl
    | cons d rest =>
      simp only [Text.beginsWith_cons, makesComment, Bool.or_eq_false_iff, beq_eq_false_iff_ne]
      exact ⟨fun hd => hline rest hc (by rw [hd]), fun hd => hblock rest hc (by rw [hd])⟩

/-- The scanner loses nothing of text that opens no comment. -/
theorem Fits.length_glyphs {state : ScanState} {text : Text} (h : place.Fits state)
    (hcomment : state.inBlockComment = false) (hrun : (place.run text).isSome = true) :
    (state.scan text).glyphs.length = text.length := by
  fun_induction ScanState.scan state text generalizing place with
  | case1 => rfl
  | case2 state hopen => simp [hopen] at hcomment
  | case3 state _ hopen => simp [hopen] at hcomment
  | case4 => rfl
  | case5 state _ hliteral escaped rest ih =>
    have hinside : state.InLiteral := ⟨hcomment, hliteral⟩
    rw [run_cons (h.step_escape hinside), run_cons rfl] at hrun
    exact congrArg (· + 2) (ih (.literal hinside) hcomment hrun)
  | case6 state rest _ hliteral _ ih =>
    have hinside : state.InLiteral := ⟨hcomment, hliteral⟩
    rw [run_cons (h.step_quote hinside)] at hrun
    exact congrArg (· + 1) (ih (Or.inl rfl) hcomment hrun)
  | case7 state c rest _ hliteral hescape hquote ih =>
    have hinside : state.InLiteral := ⟨hcomment, hliteral⟩
    rw [run_cons (h.step_content hinside hescape hquote)] at hrun
    exact congrArg (· + 1) (ih (.literal hinside) hcomment hrun)
  | case8 state hopen hliteral rest =>
    -- the second slash would open a comment
    obtain rfl := ScanState.eq_default hopen hliteral
    exact absurd (h.run_code hrun) Bool.false_ne_true
  | case9 state hopen hliteral rest ih =>
    obtain rfl := ScanState.eq_default hopen hliteral
    exact absurd (h.run_code hrun) Bool.false_ne_true
  | case10 state hopen hliteral rest ih =>
    obtain rfl := ScanState.eq_default hopen hliteral
    exact congrArg (· + 1) (ih (Or.inl rfl) rfl (h.run_code hrun))
  | case11 state hopen hliteral rest ih =>
    obtain rfl := ScanState.eq_default hopen hliteral
    exact congrArg (· + 1) (ih (Or.inl rfl) rfl (h.run_code hrun))
  | case12 state hopen hliteral c rest _ _ hstring hchar ih =>
    obtain rfl := ScanState.eq_default hopen hliteral
    exact congrArg (· + 1) (ih (.ofCode hstring hchar) rfl (h.run_code hrun))

end CodePlace

/-! ## §3 Extracted signatures -/

theorem isSome_run_signatureParts (watch : ParenWatch) (state : ScanState) (lines : List Text) :
    ((CodePlace.ofState state).run (Text.join [' '] (signatureParts watch state lines))).isSome =
      true := by
  induction lines generalizing watch state with
  | nil => rfl
  | cons line lines ih =>
    have hfits : (CodePlace.ofState state).Fits state := Or.inl rfl
    obtain ⟨last, hlast, hstate⟩ := @CodePlace.Fits.run_scan _ _ line hfits
      fun hslash => absurd hslash (CodePlace.ofState_ne_slash state)
    cases hread : (watch.readLine (state.scan line).glyphs).2 with
    | none =>
      -- only the beginning of the last line is kept
      obtain ⟨rest, hrest⟩ := watch.readLine_isPrefix (state.scan line).glyphs
      rw [signatureParts_cons_of_none hread, Text.join_singleton]
      apply CodePlace.isSome_run_of_append
      rw [← codeOf_append, hrest]
      exact Option.isSome_of_eq_some hlast
    | some next =>
      rw [signatureParts_cons_of_some hread]
      by_cases hnil : signatureParts next (state.scan line).state lines = []
      · rw [hnil, Text.join_singleton]
        exact Option.isSome_of_eq_some hlast
      · -- the space between two lines takes the reader where the scanner begins the next one
        rw [Text.join_cons hnil, CodePlace.run_append, hlast, Option.bind_some,
          List.singleton_append, CodePlace.run_cons (last.step_blank (by decide)), hstate]
        exact ih next _

/-- An extracted signature is the squeezed code of lines that are there. -/
theorem eq_of_extractSignature {lines : List Text} {start maxLines : Nat} {text : Text}
    (h : extractSignature lines start maxLines = .ok text) :
    start < lines.length ∧ text = Text.squeeze
      (Text.join [' '] (signatureParts {} {} ((lines.drop start).take (max 1 maxLines)))) := by
  rw [extractSignature] at h
  split at h
  case isTrue => cases h
  case isFalse hstart => exact ⟨Nat.lt_of_not_le hstart, (Except.ok.inj h).symm⟩

/-- **The scanner loses nothing of an extracted signature.** -/
theorem scannedWhole_of_extractSignature {lines : List Text} {start maxLines : Nat} {text : Text}
    (h : extractSignature lines start maxLines = .ok text) : ScannedWhole text := by
  obtain ⟨-, rfl⟩ := eq_of_extractSignature h
  have hparts := isSome_run_signatureParts {} {} ((lines.drop start).take (max 1 maxLines))
  exact CodePlace.Fits.length_glyphs (Or.inl rfl) rfl (CodePlace.isSome_run_squeeze rfl hparts)

theorem isSome_cutGlyphs?_iff {c : Char} (glyphs : List Glyph) :
    (cutGlyphs? c glyphs).isSome = true ↔ ∃ glyph ∈ glyphs, glyph.shown = c := by
  induction glyphs with
  | nil => simp [cutGlyphs?]
  | cons glyph glyphs ih =>
    rw [cutGlyphs?]
    split <;> simp_all

/-- An extracted signature has a parameter list if the scanner reads a parenthesis of code in
it. -/
theorem hasParameterList_iff_mem {lines : List Text} {start maxLines : Nat} {text : Text}
    (h : extractSignature lines start maxLines = .ok text) :
    (Signature.parse text).hasParameterList = true ↔ Glyph.code '(' ∈ (scanLine text).glyphs := by
  have hmask := (scannedWhole_of_extractSignature h).maskGlyphs_eq
  have hshown : ∀ glyph : Glyph, glyph.shown = '(' ↔ glyph = .code '(' :=
    fun _ => Glyph.shown_eq_iff (by decide)
  change (cutCode? '(' text).isSome = true ↔ _
  rw [cutCode?, Option.isSome_map, isSome_cutGlyphs?_iff, hmask]
  simp [hshown]

end DeclDocs
