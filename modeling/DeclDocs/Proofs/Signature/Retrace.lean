import DeclDocs.Proofs.Signature.Layout
import DeclDocs.Proofs.Signature.Reread

/-!
# The search on an extracted signature

A search that ends at the parenthesis closing the parameter list has read lines; the signature is
one text with single spaces.  On that text the search can be repeated if it may pass over blanks:
where two lines meet there is a space now that it has never read.  So repeated it ends with the last
character of the signature.

* `CodePlace.shows`: what the mask of a text shows, read off character by character.
* `CodePlace.Fits.shows_scan`: the scanner shows what a reader of the kept code shows.
* `ParenWatch.Ends`: a search that may pass over blanks ends with the last character.
* `ParenWatch.Ends.squeeze`: squeezing keeps it so.
* `ends_of_extractSignature`: the search on an extracted signature.
-/

namespace DeclDocs

open Text (beginsWith)

/-! ## §1 What a reader of code shows -/

namespace CodePlace

/-- The character if it is code, and a space if it is content of a literal. -/
def shown : CodePlace → Char → Char
  | literal inString, c => if c = (if inString then '"' else '\'') then c else ' '
  | escape _, _ => ' '
  | _, c => c

/-- The text with the contents of literals blanked, one space for each character; it ends where a
comment opens. -/
def shows (place : CodePlace) : Text → Text
  | [] => []
  | c :: cs => place.shown c :: (place.step c).elim [] fun next => next.shows cs

variable {place next : CodePlace} {c : Char}

theorem shows_cons (h : place.step c = some next) (cs : Text) :
    place.shows (c :: cs) = place.shown c :: next.shows cs := by
  rw [shows, h, Option.elim_some]

/-- A reader that reads a text takes a first step. -/
theorem exists_step_of_run {text : Text} {last : CodePlace}
    (h : place.run (c :: text) = some last) :
    ∃ next, place.step c = some next ∧ next.run text = some last := by
  rw [run, List.foldlM_cons] at h
  exact Option.bind_eq_some_iff.mp h

theorem shows_append {front : Text} (h : place.run front = some next) (back : Text) :
    place.shows (front ++ back) = place.shows front ++ next.shows back := by
  induction front generalizing place with
  | nil =>
    obtain rfl : place = next := Option.some.inj h
    rfl
  | cons c front ih =>
    obtain ⟨between, hstep, hrest⟩ := exists_step_of_run h
    rw [List.cons_append, shows_cons hstep, shows_cons hstep, ih hrest, List.cons_append]

theorem length_shows {text : Text} {last : CodePlace} (h : place.run text = some last) :
    (place.shows text).length = text.length := by
  induction text generalizing place with
  | nil => rfl
  | cons c text ih =>
    obtain ⟨next, hstep, hrest⟩ := exists_step_of_run h
    rw [shows_cons hstep, List.length_cons, ih hrest, List.length_cons]

theorem isBlank_shown (place : CodePlace) (h : isBlank c = true) :
    isBlank (place.shown c) = true := by
  cases place with
  | code | slash => exact h
  | literal inString =>
    by_cases hc : c = (if inString then '"' else '\'')
    · rwa [shown, if_pos hc]
    · rw [shown, if_neg hc]
      rfl
  | escape => rfl

private theorem shown_space (place : CodePlace) : place.shown ' ' = ' ' := by
  cases place with
  | literal inString => cases inString <;> rfl
  | code | slash | escape => rfl

private theorem shown_of_fits (h : place.Fits {}) (c : Char) : place.shown c = c := by
  rcases h with rfl | ⟨rfl, _⟩ <;> rfl

namespace Fits

variable {state : ScanState} (h : place.Fits state) (hinside : state.InLiteral)

include h hinside

private theorem shown_escape : place.shown '\\' = ' ' := by
  rw [h.eq_literal hinside]
  cases state.inString <;> rfl

private theorem shown_quote : place.shown state.quote = state.quote := by
  rw [h.eq_literal hinside, ScanState.quote]
  cases state.inString <;> rfl

private theorem shown_content (hquote : c ≠ state.quote) : place.shown c = ' ' := by
  rw [h.eq_literal hinside]
  exact if_neg hquote

end Fits

/-- A glyph that the reader takes in one step. -/
theorem shows_push {glyph : Glyph} {line : ScannedLine} (hstep : place.step glyph.char = some next)
    (hshown : place.shown glyph.char = glyph.shown)
    (h : next.shows line.code = line.glyphs.map Glyph.shown) :
    place.shows (line.push glyph).code = (line.push glyph).glyphs.map Glyph.shown := by
  change place.shows (glyph.char :: line.code) = glyph.shown :: line.glyphs.map Glyph.shown
  rw [shows_cons hstep, hshown, h]

/-- **The scanner shows what a reader of the kept code shows.** -/
theorem Fits.shows_scan {state : ScanState} {text : Text} (h : place.Fits state)
    (hslash : place = slash → beginsWith makesComment text = false) :
    place.shows (state.scan text).code = (state.scan text).glyphs.map Glyph.shown := by
  -- the place follows the state of the scanner, but for a slash of code, which the scanner forgets
  fun_induction ScanState.scan state text generalizing place with
  | case1 state => rfl
  | case2 state hcomment rest ih =>
    -- a comment that closes leaves a space
    obtain rfl := h.eq_ofState hcomment
    refine shows_push (step_blank _ (by decide)) (shown_space _) ?_
    rw [afterBlank_ofState]
    exact ih (Or.inl rfl) fun hslash => absurd hslash (ofState_ne_slash state)
  | case3 state c hcomment rest hclose ih =>
    obtain rfl := h.eq_ofState hcomment
    exact ih (Or.inl rfl) fun hslash => absurd hslash (ofState_ne_slash state)
  | case4 state hcomment hliteral =>
    have hinside : state.InLiteral := .of_not hcomment hliteral
    exact @shows_push _ _ (.literal '\\') ⟨[], state⟩ (h.step_escape hinside)
      (h.shown_escape hinside) rfl
  | case5 state hcomment hliteral escaped rest ih =>
    have hinside : state.InLiteral := .of_not hcomment hliteral
    exact shows_push (h.step_escape hinside) (h.shown_escape hinside)
      (shows_push rfl rfl (ih (.literal hinside) (by simp)))
  | case6 state rest hcomment hliteral _ ih =>
    have hinside : state.InLiteral := .of_not hcomment hliteral
    exact shows_push (h.step_quote hinside) (h.shown_quote hinside) (ih (Or.inl rfl) (by simp))
  | case7 state c rest hcomment hliteral hescape hquote ih =>
    have hinside : state.InLiteral := .of_not hcomment hliteral
    exact shows_push (h.step_content hinside hescape hquote) (h.shown_content hinside hquote)
      (ih (.literal hinside) (by simp))
  | case8 state hcomment hliteral rest => rfl
  | case9 state hcomment hliteral rest ih =>
    rcases h with rfl | ⟨rfl, rfl⟩
    · exact ih (Or.inl rfl) fun hslash => absurd hslash (ofState_ne_slash state)
    · exact absurd (hslash rfl) (by simp [makesComment])
  | case10 state hcomment hliteral rest ih =>
    obtain rfl := ScanState.eq_default hcomment hliteral
    exact shows_push (h.step_code hslash) (shown_of_fits h _)
      (ih (Or.inl rfl) fun hquote => absurd (ofCode_eq_slash_iff.mp hquote) (by decide))
  | case11 state hcomment hliteral rest ih =>
    obtain rfl := ScanState.eq_default hcomment hliteral
    exact shows_push (h.step_code hslash) (shown_of_fits h _)
      (ih (Or.inl rfl) fun hquote => absurd (ofCode_eq_slash_iff.mp hquote) (by decide))
  | case12 state hcomment hliteral c rest hline hblock hstring hchar ih =>
    obtain rfl := ScanState.eq_default hcomment hliteral
    refine shows_push (h.step_code hslash) (shown_of_fits h _)
      (ih (.ofCode hstring hchar) fun hnext => ?_)
    -- behind a slash of code stands neither a slash nor a star
    have hc : c = '/' := ofCode_eq_slash_iff.mp hnext
    cases rest with
    | nil => rfl
    | cons d rest =>
      simp only [Text.beginsWith_cons, makesComment, Bool.or_eq_false_iff, beq_eq_false_iff_ne]
      exact ⟨fun hd => hline rest hc (by rw [hd]), fun hd => hblock rest hc (by rw [hd])⟩

/-- The scanner loses nothing of text that opens no comment, and the mask shows what the reader
shows. -/
theorem shown_maskGlyphs {text : Text} (h : (code.run text).isSome = true) :
    ScannedWhole text ∧ (maskGlyphs text).map Glyph.shown = code.shows text := by
  have hfits : code.Fits {} := Or.inl rfl
  have hwhole : ScannedWhole text := hfits.length_glyphs rfl h
  have hcode : (scanLine text).code = text := by
    rw [ScannedLine.code, ← hwhole.maskGlyphs_eq, codeOf_maskGlyphs]
  have hshows := @Fits.shows_scan _ _ text hfits (by simp)
  change code.shows (scanLine text).code = _ at hshows
  rw [hcode] at hshows
  exact ⟨hwhole, by rw [hwhole.maskGlyphs_eq, hshows]; rfl⟩

end CodePlace

/-! ## §2 Searching again -/

namespace ParenWatch

/-- The search ends with the last character of the text if it passes over some of the blanks. -/
inductive Ends : ParenWatch → Text → Prop where
  | close {watch : ParenWatch} {c : Char} (hstep : watch.step c = none) : Ends watch [c]
  | read {watch next : ParenWatch} {c : Char} {rest : Text} (hstep : watch.step c = some next)
      (h : Ends next rest) : Ends watch (c :: rest)
  | skip {watch : ParenWatch} {c : Char} {rest : Text} (hblank : isBlank c = true)
      (h : Ends watch rest) : Ends watch (c :: rest)

variable {watch next : ParenWatch}

theorem step_of_blank (watch : ParenWatch) {c : Char} (h : isBlank c = true) :
    watch.step c = some watch.afterSpace := by
  have hopen : c ≠ '(' := Text.ne_of_class h (by decide)
  have hclose : c ≠ ')' := Text.ne_of_class h (by decide)
  have hname : isAnnotationChar c = false := by
    by_contra hchar
    have hsolid := isSolid_of_isAnnotationChar (by simpa using hchar)
    simp [Text.isSolid, h] at hsolid
  obtain ⟨place, depth, opened⟩ := watch
  cases place with
  | outside => exact @step_outside_of_blank ⟨.outside, depth, opened⟩ c h
  | name =>
    rw [@step_name_of_not_char ⟨.name, depth, opened⟩ c hname]
    exact @step_afterName_of_blank ⟨.name, depth, opened⟩ c h
  | afterName => exact @step_afterName_of_blank ⟨.afterName, depth, opened⟩ c h
  | arguments nested => exact @step_arguments_of_ne ⟨.outside, depth, opened⟩ c nested hopen hclose

theorem not_ends_nil : ¬ watch.Ends [] := nofun

/-- A character that does not end the search is read, or it is a blank and passed over. -/
theorem Ends.of_cons {c : Char} {rest : Text} (h : watch.Ends (c :: rest))
    (hstep : watch.step c = some next) : next.Ends rest ∨ isBlank c = true ∧ watch.Ends rest := by
  cases h with
  | close hnone => simp [hstep] at hnone
  | read hother h =>
    obtain rfl := Option.some.inj (hstep.symm.trans hother)
    exact Or.inl h
  | skip hblank h => exact Or.inr ⟨hblank, h⟩

/-- A blank is read or passed over. -/
theorem ends_cons_of_blank {c : Char} (hblank : isBlank c = true) {rest : Text} :
    watch.Ends (c :: rest) ↔ watch.Ends rest ∨ watch.afterSpace.Ends rest := by
  constructor
  · intro h
    exact (h.of_cons (watch.step_of_blank hblank)).symm.imp_left And.right
  · rintro (h | h)
    · exact .skip hblank h
    · exact .read (watch.step_of_blank hblank) h

/-- Another character is read. -/
theorem ends_cons_of_solid {c : Char} (hsolid : isBlank c = false)
    (hstep : watch.step c = some next) {rest : Text} :
    watch.Ends (c :: rest) ↔ next.Ends rest := by
  constructor
  · intro h
    exact (h.of_cons hstep).resolve_right (by simp [hsolid])
  · exact .read hstep

/-- The end of the text may be replaced. -/
theorem Ends.append_mono {front back other : Text} (h : watch.Ends (front ++ back))
    (hne : back ≠ []) (hback : ∀ watch : ParenWatch, watch.Ends back → watch.Ends other) :
    watch.Ends (front ++ other) := by
  induction front generalizing watch with
  | nil => exact hback watch h
  | cons c front ih =>
    rw [List.cons_append] at h ⊢
    cases hrest : front ++ back with
    | nil => exact absurd (List.append_eq_nil_iff.mp hrest).2 hne
    | cons d rest =>
      rw [hrest] at h ih
      cases h with
      | read hstep h => exact .read hstep (ih h)
      | skip hblank h => exact .skip hblank (ih h)

/-- A search that ends in the glyphs. -/
theorem ends_of_readLine_none {glyphs : List Glyph} (h : (watch.readLine glyphs).2 = none) :
    watch.Ends ((watch.readLine glyphs).1.map Glyph.shown) := by
  induction glyphs generalizing watch with
  | nil => simp [readLine] at h
  | cons glyph glyphs ih =>
    cases hstep : watch.step glyph.shown with
    | none =>
      rw [readLine_cons_of_none hstep]
      exact .close hstep
    | some next =>
      rw [readLine_cons hstep] at h ⊢
      exact .read hstep (ih h)

/-- A search that goes on behind the glyphs. -/
theorem ends_of_readLine_some {glyphs : List Glyph} (h : (watch.readLine glyphs).2 = some next)
    {rest : Text} (hrest : next.Ends rest) :
    watch.Ends (glyphs.map Glyph.shown ++ rest) := by
  induction glyphs generalizing watch with
  | nil =>
    obtain rfl : watch = next := Option.some.inj h
    exact hrest
  | cons glyph glyphs ih =>
    cases hstep : watch.step glyph.shown with
    | none =>
      rw [readLine_cons_of_none hstep] at h
      cases h
    | some between =>
      rw [readLine_cons hstep] at h
      exact .read hstep (ih h)

/-- Squeezing keeps the end of the search; blanks at the beginning may have been read. -/
theorem Ends.squeeze {place : CodePlace} {text : Text} (hplace : place.afterBlank = place)
    (hrun : (place.run text).isSome = true) (h : watch.Ends (place.shows text)) :
    watch.Ends (place.shows text.squeeze) ∨ watch.afterSpace.Ends (place.shows text.squeeze) := by
  -- a word stays as it is, and the blanks behind it become one space or go
  induction text using Text.word_induction generalizing place watch with
  | word word hword =>
    rw [Text.squeeze_word hword]
    exact Or.inl h
  | blank word b rest hword hb ih =>
    rw [CodePlace.run_append] at hrun
    obtain ⟨last, hlast⟩ := Option.isSome_iff_exists.mp hrun
    obtain ⟨between, hbetween, hrest⟩ := Option.bind_eq_some_iff.mp hlast
    rw [CodePlace.run_cons (between.step_blank hb)] at hrest
    have htail := fun watch => @ih watch _ between.afterBlank_afterBlank
      (Option.isSome_of_eq_some hrest)
    rw [CodePlace.shows_append hbetween, CodePlace.shows_cons (between.step_blank hb)] at h
    -- the blank and those behind it are read or passed over together
    have hblank : ∀ watch : ParenWatch,
        watch.Ends (between.shown b :: between.afterBlank.shows rest) →
          watch.Ends (between.afterBlank.shows rest.squeeze) ∨
            watch.afterSpace.Ends (between.afterBlank.shows rest.squeeze) := by
      intro watch hends
      rcases (ends_cons_of_blank (between.isBlank_shown hb)).mp hends with hskip | hread
      · exact htail watch hskip
      · have hafter := htail watch.afterSpace hread
        rw [afterSpace_afterSpace, or_self] at hafter
        exact Or.inr hafter
    by_cases hne : word = []
    · -- blanks at the beginning are dropped
      subst hne
      obtain rfl : place = between := Option.some.inj hbetween
      rw [List.nil_append, Text.squeeze_cons_blank hb]
      rw [hplace] at hblank h
      exact hblank watch h
    · left
      rw [Text.squeeze_append_cons hne hword hb]
      split
      case isTrue hnone =>
        -- blanks at the end do not end a search
        have hempty : rest.squeeze = [] := by rw [Text.squeeze, hnone]; rfl
        rw [hempty] at hblank
        rw [← List.append_nil (place.shows word)]
        exact h.append_mono (by simp) fun watch hends =>
          absurd (hblank watch hends) (by simp [CodePlace.shows, not_ends_nil])
      case isFalse =>
        rw [CodePlace.shows_append hbetween, CodePlace.shows_cons (between.step_blank (by decide)),
          between.shown_space]
        exact h.append_mono (by simp) fun watch hends =>
          (ends_cons_of_blank (by decide)).mpr (hblank watch hends)

end ParenWatch

/-! ## §3 Extracted signatures -/

/-- The search on the joined lines passes over the spaces between them. -/
theorem ends_signatureParts {watch : ParenWatch} {state : ScanState} {lines : List Text}
    (h : watch.readLines state lines = none) :
    watch.Ends ((CodePlace.ofState state).shows
      (Text.join [' '] (signatureParts watch state lines))) := by
  induction lines generalizing watch state with
  | nil => simp [ParenWatch.readLines] at h
  | cons line lines ih =>
    have hfits : (CodePlace.ofState state).Fits state := Or.inl rfl
    have hslash : CodePlace.ofState state = .slash → beginsWith makesComment line = false :=
      fun hslash => absurd hslash (CodePlace.ofState_ne_slash state)
    obtain ⟨last, hlast, hstate⟩ := hfits.run_scan hslash
    have hshows := hfits.shows_scan hslash
    cases hread : (watch.readLine (state.scan line).glyphs).2 with
    | none =>
      -- only the beginning of the last line is kept
      obtain ⟨rest, hrest⟩ := watch.readLine_isPrefix (state.scan line).glyphs
      rw [signatureParts_cons_of_none hread, Text.join_singleton]
      have hends := ParenWatch.ends_of_readLine_none hread
      generalize (watch.readLine (state.scan line).glyphs).1 = kept at hrest hends
      have hcode : (state.scan line).code = codeOf kept ++ codeOf rest := by
        rw [ScannedLine.code, ← hrest, codeOf_append]
      rw [hcode] at hlast hshows
      have hkept := CodePlace.isSome_run_of_append (Option.isSome_of_eq_some hlast)
      obtain ⟨middle, hmiddle⟩ := Option.isSome_iff_exists.mp hkept
      rw [CodePlace.shows_append hmiddle, ← hrest, List.map_append] at hshows
      have hlength : ((CodePlace.ofState state).shows (codeOf kept)).length =
          (kept.map Glyph.shown).length := by
        rw [CodePlace.length_shows hmiddle, codeOf, List.length_map, List.length_map]
      rw [(List.append_inj hshows hlength).1]
      exact hends
    | some next =>
      rw [ParenWatch.readLines, hread, Option.bind_some] at h
      have hne : signatureParts next (state.scan line).state lines ≠ [] := by
        intro hnil
        have hends := ih h
        rw [hnil] at hends
        exact ParenWatch.not_ends_nil hends
      rw [signatureParts_cons_of_some hread, Text.join_cons hne, CodePlace.shows_append hlast,
        hshows, List.singleton_append, CodePlace.shows_cons (last.step_blank (by decide)), hstate,
        last.shown_space]
      -- the space stands in neither line, so the search has not read it
      exact ParenWatch.ends_of_readLine_some hread (.skip (by decide) (ih h))

/-- **On an extracted signature the search ends with the last character**, if it ended in the
lines. -/
theorem ends_of_extractSignature {lines : List Text} {start maxLines : Nat} {text : Text}
    (hends : ParenWatch.readLines {} {} ((lines.drop start).take (max 1 maxLines)) = none)
    (h : extractSignature lines start maxLines = .ok text) :
    (CodePlace.code.run text).isSome = true ∧
      ParenWatch.Ends {} (CodePlace.code.shows text) := by
  obtain ⟨-, rfl⟩ := eq_of_extractSignature h
  have hrun := isSome_run_signatureParts {} {} ((lines.drop start).take (max 1 maxLines))
  refine ⟨CodePlace.isSome_run_squeeze rfl hrun, ?_⟩
  -- at its beginning the search is in no name, so a blank that it reads leaves it where it is
  have hafter : ({} : ParenWatch).afterSpace = {} := rfl
  have hsqueeze := (ends_signatureParts hends).squeeze rfl hrun
  rwa [hafter, or_self] at hsqueeze

end DeclDocs
