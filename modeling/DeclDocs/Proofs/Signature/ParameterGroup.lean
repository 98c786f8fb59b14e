import DeclDocs.Proofs.Signature.Retrace

/-!
# Which parentheses are the parameter list

The signature is read twice.  The search that extracts it passes over the argument lists of
annotations wherever they stand, and the text ends with the parenthesis that closes the parameter
list.  The parser takes the first group behind the annotations that lead the text.  The two agree
unless an annotation that does not lead the text has arguments: then the parser reads those.

* `ParenWatch.Ends.exists_list`: what the search reads up to the end of the list.
* `Leads`: what is left of a signature when annotations are taken off its front.
* `parameterText?_of_extractSignature`: the group that the parser reads, and when it is the list.
-/

namespace DeclDocs

open Text (isSolid)

/-! ## §1 Groups that the search reads -/

/-- The text closes the `depth` parentheses that are open at its start and all that it opens. -/
def IsNested (depth : Nat) (text : Text) : Prop :=
  nests .parens (fun _ => true) (fun _ => true) depth text = true

namespace IsNested

variable {depth : Nat} {text : Text} {c : Char}

theorem opening (h : IsNested (depth + 1) text) : IsNested depth ('(' :: text) := h

theorem closing (h : IsNested depth text) : IsNested (depth + 1) (')' :: text) := h

theorem other (hopen : c ≠ '(') (hclose : c ≠ ')') (h : IsNested depth text) :
    IsNested depth (c :: text) := by
  simpa [IsNested, nests, Brackets.parens, Brackets.ofPair, hopen, hclose] using h

end IsNested

namespace ParenWatch

variable {watch next : ParenWatch} {c : Char} {text : Text}

/-- The parenthesis that closes the parameter list. -/
theorem step_close_last (h : watch.openCount = watch.depth) (hopened : watch.opened = true)
    (hdepth : watch.depth = 1) : watch.step ')' = none := by
  have houtside : watch.stepOutside ')' = none := by simp [stepOutside, hopened, hdepth]
  obtain ⟨place, depth, opened⟩ := watch
  cases place with
  | outside => exact houtside
  | name => exact houtside
  | afterName => exact houtside
  | arguments nested =>
    simp only [openCount] at h
    omega

/-- Arguments of an annotation that the search leaves are a group that closes. -/
theorem Ends.arguments {nested : Nat}
    (h : Ends { watch with annotation := .arguments nested } text) :
    ∃ inside rest, text = inside ++ ')' :: rest ∧ IsNested nested inside ∧
      Ends { watch with annotation := .outside } rest := by
  induction text generalizing nested with
  | nil => exact absurd h not_ends_nil
  | cons c text ih =>
    by_cases hopen : c = '('
    · subst hopen
      obtain ⟨inside, rest, rfl, hinside, hrest⟩ := ih ((ends_cons_of_solid rfl rfl).mp h)
      exact ⟨'(' :: inside, rest, rfl, hinside.opening, hrest⟩
    by_cases hclose : c = ')'
    · subst hclose
      cases nested with
      | zero => exact ⟨[], text, rfl, rfl, (ends_cons_of_solid rfl rfl).mp h⟩
      | succ outer =>
        obtain ⟨inside, rest, rfl, hinside, hrest⟩ := ih ((ends_cons_of_solid rfl rfl).mp h)
        exact ⟨')' :: inside, rest, rfl, hinside.closing, hrest⟩
    · -- read or passed over, another character leaves the search where it is
      have hrest : Ends { watch with annotation := .arguments nested } text :=
        (h.of_cons (step_arguments_of_ne hopen hclose)).elim id And.right
      obtain ⟨inside, rest, rfl, hinside, hends⟩ := ih hrest
      exact ⟨c :: inside, rest, rfl, hinside.other hopen hclose, hends⟩

/-- What is left of the parameter list is a group that closes with the last character. -/
theorem Ends.inside (hinside : watch.IsInside) (h : watch.Ends text) :
    ∃ list, text = list ++ [')'] ∧ IsNested (watch.openCount - 1) list := by
  -- parentheses of annotations in the list are counted too, so both kinds close in one count
  induction text generalizing watch with
  | nil => exact absurd h not_ends_nil
  | cons c text ih =>
    obtain ⟨hopened, hdepth⟩ := hinside
    have hcount := watch.depth_le_openCount
    by_cases hopen : c = '('
    · subst hopen
      obtain ⟨next, hstep, hnext, hdeeper, htotal⟩ := step_open watch
      obtain ⟨list, rfl, hlist⟩ := ih ⟨hnext hopened, by omega⟩
        ((ends_cons_of_solid rfl hstep).mp h)
      refine ⟨'(' :: list, rfl, IsNested.opening ?_⟩
      rwa [htotal, show watch.openCount + 1 - 1 = watch.openCount - 1 + 1 by omega] at hlist
    by_cases hclose : c = ')'
    · subst hclose
      by_cases houter : watch.openCount = watch.depth
      · by_cases hlast : watch.depth = 1
        · -- the parenthesis that ends the search
          have hstep : watch.step ')' = none := step_close_last houter hopened hlast
          cases h with
          | close => exact ⟨[], rfl, by rw [houter, hlast]; rfl⟩
          | read hother => simp [hstep] at hother
          | skip hblank => exact absurd hblank (by decide)
        · have hstep := step_close_outside houter (by omega)
          have hnext : IsInside { watch with annotation := .outside, depth := watch.depth - 1 } :=
            ⟨hopened, Nat.sub_pos_of_lt (by omega)⟩
          obtain ⟨list, rfl, hlist⟩ := ih hnext ((ends_cons_of_solid rfl hstep).mp h)
          refine ⟨')' :: list, rfl, ?_⟩
          rw [houter, show watch.depth - 1 = watch.depth - 1 - 1 + 1 by omega]
          exact hlist.closing
      · obtain ⟨next, hstep, hnext, hsame, htotal⟩ := step_close_arguments houter
        obtain ⟨list, rfl, hlist⟩ := ih ⟨hnext.trans hopened, by omega⟩
          ((ends_cons_of_solid rfl hstep).mp h)
        refine ⟨')' :: list, rfl, ?_⟩
        rw [show watch.openCount - 1 = next.openCount - 1 + 1 by omega]
        exact hlist.closing
    · -- another character opens and closes nothing
      have hrest : ∃ list, text = list ++ [')'] ∧ IsNested (watch.openCount - 1) list := by
        obtain ⟨next, hstep, hnext, hsame, htotal⟩ := step_other watch hopen hclose
        rcases h.of_cons hstep with hread | ⟨_, hskip⟩
        · rw [← htotal]
          exact ih ⟨hnext.trans hopened, by omega⟩ hread
        · exact ih ⟨hopened, hdepth⟩ hskip
      obtain ⟨list, rfl, hlist⟩ := hrest
      exact ⟨c :: list, rfl, hlist.other hopen hclose⟩

/-! ## §2 In front of the list -/

/-- Between an at sign and the end of the text stand only blanks and characters of an annotation's
name. -/
def EndsInName (text : Text) : Prop :=
  ∃ front name, text = front ++ '@' :: name ∧
    ∀ c ∈ name, isAnnotationChar c = true ∨ isBlank c = true

theorem EndsInName.concat {text : Text} (h : EndsInName text)
    (hc : isAnnotationChar c = true ∨ isBlank c = true) : EndsInName (text ++ [c]) := by
  obtain ⟨front, name, rfl, hname⟩ := h
  refine ⟨front, name ++ [c], by simp, fun d hd => ?_⟩
  rcases List.mem_append.mp hd with hold | hnew
  · exact hname d hold
  · rwa [List.mem_singleton.mp hnew]

/-- The search behind a text in which it has found no parameter list and no annotation is open but
for its name. -/
inductive IsAhead : Text → ParenWatch → Prop where
  | outside (history : Text) : IsAhead history {}
  | inName {history : Text} (h : EndsInName history) : IsAhead history ⟨.name, 0, false⟩
  | behindName {history : Text} (h : EndsInName history) : IsAhead history ⟨.afterName, 0, false⟩

namespace IsAhead

variable {history : Text}

theorem stepOutside (place : AnnotationPlace) (history : Text) (hopen : c ≠ '(') :
    ∃ next, ParenWatch.stepOutside ⟨place, 0, false⟩ c = some next ∧
      IsAhead (history ++ [c]) next := by
  by_cases hat : c = '@'
  · exact ⟨⟨.name, 0, false⟩, by simp [ParenWatch.stepOutside, hat],
      .inName ⟨history, [], by rw [hat], by simp⟩⟩
  · by_cases hclose : c = ')'
    · exact ⟨{}, by simp [ParenWatch.stepOutside, hclose], .outside _⟩
    · exact ⟨{}, stepOutside_of_ne hat hopen hclose, .outside _⟩

/-- A character that opens no parenthesis. -/
theorem step (h : IsAhead history watch) (hopen : c ≠ '(') :
    ∃ next, watch.step c = some next ∧ IsAhead (history ++ [c]) next := by
  -- behind a name a blank changes nothing, and other characters are read as outside
  have hbehind : EndsInName history → ∃ next,
      ParenWatch.step ⟨.afterName, 0, false⟩ c = some next ∧ IsAhead (history ++ [c]) next := by
    intro hname
    by_cases hblank : isBlank c = true
    · exact ⟨_, @step_afterName_of_blank {} c hblank, .behindName (hname.concat (Or.inr hblank))⟩
    · rw [@step_afterName_of_ne {} c (by simpa using hblank) hopen]
      exact stepOutside .outside history hopen
  cases h with
  | outside => exact stepOutside .outside history hopen
  | behindName hname => exact hbehind hname
  | inName hname =>
    by_cases hchar : isAnnotationChar c = true
    · exact ⟨_, @step_name_of_char {} c hchar, .inName (hname.concat (Or.inl hchar))⟩
    · rw [@step_name_of_not_char {} c (by simpa using hchar)]
      exact hbehind hname

/-- A blank that is passed over. -/
theorem skip (h : IsAhead history watch) (hblank : isBlank c = true) :
    IsAhead (history ++ [c]) watch := by
  cases h with
  | outside => exact .outside _
  | inName hname => exact .inName (hname.concat (Or.inr hblank))
  | behindName hname => exact .behindName (hname.concat (Or.inr hblank))

/-- A parenthesis opens the parameter list or the arguments of an annotation. -/
theorem step_open (h : IsAhead history watch) :
    watch = {} ∨ EndsInName history ∧ watch.step '(' = some ⟨.arguments 0, 0, false⟩ := by
  cases h with
  | outside => exact Or.inl rfl
  | inName hname => exact Or.inr ⟨hname, rfl⟩
  | behindName hname => exact Or.inr ⟨hname, rfl⟩

end IsAhead

/-- Behind the history, the first group of the text is that of an annotation and closes within the
text. -/
def ClosesGroup (history text : Text) : Prop :=
  ∀ before rest, text = before ++ '(' :: rest → '(' ∉ before →
    EndsInName (history ++ before) ∧
      ∃ inside after, rest = inside ++ ')' :: after ∧ IsNested 0 inside

theorem ClosesGroup.cons {history text : Text} (hopen : c ≠ '(')
    (h : ClosesGroup (history ++ [c]) text) : ClosesGroup history (c :: text) := by
  intro before rest heq hbefore
  cases before with
  | nil => exact absurd (List.cons.inj heq).1 hopen
  | cons d before =>
    obtain ⟨rfl, htext⟩ := List.cons.inj heq
    have hgroup := h before rest htext fun hmem => hbefore (List.mem_cons_of_mem _ hmem)
    rwa [List.append_assoc, List.singleton_append] at hgroup

/-- **What the search reads up to its end**: text with groups of annotations, and a group that
closes with the last character. -/
theorem Ends.exists_list {history : Text} (hahead : IsAhead history watch) (h : watch.Ends text) :
    ∃ ahead list, text = ahead ++ '(' :: (list ++ [')']) ∧ IsNested 0 list ∧
      ClosesGroup history ahead := by
  -- on the length, since the arguments of an annotation are passed over in one go
  induction hlength : text.length using Nat.strongRecOn generalizing text history watch with
  | ind n ih =>
    subst hlength
    cases text with
    | nil => exact absurd h not_ends_nil
    | cons c text =>
      by_cases hopen : c = '('
      · subst hopen
        rcases hahead.step_open with rfl | ⟨hname, hstep⟩
        · -- the list opens
          have hrest : Ends ⟨.outside, 1, true⟩ text := (ends_cons_of_solid rfl rfl).mp h
          obtain ⟨list, rfl, hlist⟩ := hrest.inside ⟨rfl, Nat.one_pos⟩
          exact ⟨[], list, rfl, hlist, by simp [ClosesGroup]⟩
        · -- the arguments of an annotation are passed over
          have hrest := (ends_cons_of_solid rfl hstep).mp h
          obtain ⟨inside, rest, rfl, hinside, hends⟩ := @Ends.arguments {} _ 0 hrest
          obtain ⟨ahead, list, rfl, hlist, -⟩ :=
            ih rest.length (by simp; omega) (.outside []) hends rfl
          refine ⟨'(' :: (inside ++ ')' :: ahead), list, by simp, hlist, ?_⟩
          intro before rest heq hbefore
          cases before with
          | nil =>
            obtain rfl := (List.cons.inj heq).2
            rw [List.append_nil]
            exact ⟨hname, inside, ahead, rfl, hinside⟩
          | cons d before =>
            obtain ⟨rfl, -⟩ := List.cons.inj heq
            exact absurd List.mem_cons_self hbefore
      · -- any other character is read or passed over on the way
        have hrest : ∃ next : ParenWatch, IsAhead (history ++ [c]) next ∧ next.Ends text := by
          obtain ⟨next, hstep, hnext⟩ := hahead.step hopen
          rcases h.of_cons hstep with hread | ⟨hblank, hskip⟩
          · exact ⟨next, hnext, hread⟩
          · exact ⟨watch, hahead.skip hblank, hskip⟩
        obtain ⟨next, hnext, hends⟩ := hrest
        obtain ⟨ahead, list, rfl, hlist, hgroup⟩ := ih text.length (by simp) hnext hends rfl
        exact ⟨c :: ahead, list, rfl, hlist, hgroup.cons hopen⟩

end ParenWatch

/-! ## §3 Taking annotations off the front -/

namespace CodePlace

variable {place : CodePlace} {c : Char}

theorem step_plain (h : ScanState.isPlain c = true) : code.step c = some code := by
  simp only [ScanState.isPlain, Bool.and_eq_true, bne_iff_ne, ne_eq] at h
  simp [step, ofCode, h]

private theorem run_cons_plain (h : ScanState.isPlain c = true) (text : Text) :
    code.run (c :: text) = code.run text :=
  run_cons (step_plain h) text

private theorem shows_cons_plain (h : ScanState.isPlain c = true) (text : Text) :
    code.shows (c :: text) = c :: code.shows text :=
  shows_cons (step_plain h) text

/-- A parenthesis that shows is code. -/
theorem step_of_shown_close (h : place.shown c = ')') : c = ')' ∧ place.step c = some code := by
  cases place with
  | code =>
    obtain rfl : c = ')' := h
    exact ⟨rfl, rfl⟩
  | slash =>
    obtain rfl : c = ')' := h
    exact ⟨rfl, rfl⟩
  | literal inString =>
    rw [shown] at h
    cases inString <;> grind
  | escape => exact absurd h (by simp [shown])

/-- Behind a parenthesis that shows, the text is read as from its beginning. -/
theorem exists_of_shows {text front back : Text} (hrun : (place.run text).isSome = true)
    (h : place.shows text = front ++ ')' :: back) :
    ∃ before rest, text = before ++ ')' :: rest ∧ before.length = front.length ∧
      (code.run rest).isSome = true ∧ code.shows rest = back := by
  induction front generalizing place text with
  | nil =>
    cases text with
    | nil => cases h
    | cons c text =>
      rw [shows] at h
      obtain ⟨rfl, hstep⟩ := step_of_shown_close (List.cons.inj h).1
      rw [run_cons hstep] at hrun
      exact ⟨[], text, rfl, rfl, hrun, by simpa [hstep] using (List.cons.inj h).2⟩
  | cons d front ih =>
    cases text with
    | nil => cases h
    | cons c text =>
      obtain ⟨last, hlast⟩ := Option.isSome_iff_exists.mp hrun
      obtain ⟨next, hstep, hnext⟩ := exists_step_of_run hlast
      rw [shows_cons hstep] at h
      obtain ⟨before, rest, rfl, hlength, hrest⟩ :=
        ih (Option.isSome_of_eq_some hnext) (List.cons.inj h).2
      exact ⟨c :: before, rest, rfl, by simp [hlength], hrest⟩

end CodePlace

/-- Glyphs are cut where what they show is cut at a character of code. -/
theorem exists_glyphs_of_shown {glyphs : List Glyph} {front back : Text} {c : Char} (hc : c ≠ ' ')
    (h : glyphs.map Glyph.shown = front ++ c :: back) :
    ∃ before rest, glyphs = before ++ .code c :: rest ∧ before.map Glyph.shown = front ∧
      rest.map Glyph.shown = back := by
  obtain ⟨before, more, rfl, hbefore, hmore⟩ := List.map_eq_append_iff.mp h
  obtain ⟨mark, rest, rfl, hmark, hrest⟩ := List.map_eq_cons_iff.mp hmore
  rw [Glyph.shown_eq_iff hc] at hmark
  exact ⟨before, rest, by rw [hmark], hbefore, hrest⟩

/-- The text is the end of a signature of which the mask shows `whole`, and the search that has read
what stands in front of it has found no parameter list yet. -/
structure Leads (whole : Text) (watch : ParenWatch) (text : Text) : Prop where
  ahead : ∃ history, whole = history ++ CodePlace.code.shows text ∧ watch.IsAhead history
  code : (CodePlace.code.run text).isSome = true
  ends : watch.Ends (CodePlace.code.shows text)

namespace Leads

variable {whole text : Text} {watch next : ParenWatch} {c : Char}

/-- A character of code that is read. -/
theorem step (h : Leads whole watch (c :: text)) (hplain : ScanState.isPlain c = true)
    (hsolid : isBlank c = false) (hopen : c ≠ '(') :
    ∃ next, watch.step c = some next ∧ Leads whole next text := by
  obtain ⟨⟨history, hwhole, hahead⟩, hcode, hends⟩ := h
  rw [CodePlace.run_cons_plain hplain] at hcode
  rw [CodePlace.shows_cons_plain hplain] at hwhole hends
  obtain ⟨next, hstep, hnext⟩ := hahead.step hopen
  refine ⟨next, hstep, ⟨history ++ [c], by simpa using hwhole, hnext⟩, hcode, ?_⟩
  exact (ParenWatch.ends_cons_of_solid hsolid hstep).mp hends

/-- A blank is read or passed over. -/
theorem blank (h : Leads whole watch (c :: text)) (hblank : isBlank c = true) :
    Leads whole watch text ∨ Leads whole watch.afterSpace text := by
  obtain ⟨⟨history, hwhole, hahead⟩, hcode, hends⟩ := h
  have hplain := ScanState.isPlain_of_isBlank hblank
  rw [CodePlace.run_cons_plain hplain] at hcode
  rw [CodePlace.shows_cons_plain hplain] at hwhole hends
  have hhistory : whole = (history ++ [c]) ++ CodePlace.code.shows text := by simpa using hwhole
  rcases (ParenWatch.ends_cons_of_blank hblank).mp hends with hskip | hread
  · exact Or.inl ⟨⟨_, hhistory, hahead.skip hblank⟩, hcode, hskip⟩
  · obtain ⟨next, hstep, hnext⟩ := hahead.step (Text.ne_of_class hblank (by decide))
    obtain rfl := Option.some.inj ((watch.step_of_blank hblank).symm.trans hstep)
    exact Or.inr ⟨⟨_, hhistory, hnext⟩, hcode, hread⟩

theorem trimStart (h : Leads whole watch text) :
    Leads whole watch text.trimStart ∨ Leads whole watch.afterSpace text.trimStart := by
  induction text generalizing watch with
  | nil => exact Or.inl h
  | cons c text ih =>
    by_cases hblank : isBlank c = true
    · have htrim : Text.trimStart (c :: text) = Text.trimStart text :=
        List.dropWhile_cons_of_pos hblank
      rw [htrim]
      rcases h.blank hblank with hskip | hread
      · exact ih hskip
      · have hafter := ih hread
        rw [ParenWatch.afterSpace_afterSpace, or_self] at hafter
        exact Or.inr hafter
    · rw [Text.trimStart_eq_self (by simpa [isSolid] using hblank)]
      exact Or.inl h

/-- The rest of an annotation's name. -/
theorem name (h : Leads whole ⟨.name, 0, false⟩ text) :
    Leads whole ⟨.name, 0, false⟩ (text.dropWhile isAnnotationChar) := by
  induction text with
  | nil => exact h
  | cons c text ih =>
    by_cases hchar : isAnnotationChar c = true
    · rw [List.dropWhile_cons_of_pos hchar]
      have hplain : ScanState.isPlain c = true :=
        isPlain_of_isInert (isInert_of_isAnnotationChar hchar)
      have hsolid : isBlank c = false := by
        simpa [isSolid] using isSolid_of_isAnnotationChar hchar
      obtain ⟨next, hstep, hnext⟩ := h.step hplain hsolid (Text.ne_of_class hchar (by decide))
      rw [@ParenWatch.step_name_of_char {} c hchar] at hstep
      obtain rfl := Option.some.inj hstep
      exact ih hnext
    · rwa [List.dropWhile_cons_of_neg hchar]

/-- The arguments of an annotation close, and the search goes on behind them. -/
theorem arguments {arguments : Text}
    (h : Leads whole watch ('(' :: arguments)) (hwatch : watch ≠ {}) :
    ∃ inside rest, untilClose '(' ')' 0 (maskGlyphs arguments) = some (inside, rest) ∧
      Leads whole {} (codeOf rest) := by
  obtain ⟨⟨history, hwhole, hahead⟩, hcode, hends⟩ := h
  rw [CodePlace.run_cons_plain (by decide)] at hcode
  rw [CodePlace.shows_cons_plain (by decide)] at hwhole hends
  obtain ⟨-, hstep⟩ := hahead.step_open.resolve_left hwatch
  obtain ⟨shownInside, shownRest, hshows, hnested, hrest⟩ :=
    @ParenWatch.Ends.arguments {} _ 0 ((ParenWatch.ends_cons_of_solid rfl hstep).mp hends)
  obtain ⟨before, behind, rfl, hlength, hbehind, hshown⟩ := CodePlace.exists_of_shows hcode hshows
  -- the glyphs of the mask are cut where the text is cut
  obtain ⟨-, hmask⟩ := CodePlace.shown_maskGlyphs hcode
  rw [hshows] at hmask
  obtain ⟨inside, rest, hglyphs, hinside, -⟩ := exists_glyphs_of_shown (by decide) hmask
  have hcodeOf := codeOf_maskGlyphs (before ++ ')' :: behind)
  rw [hglyphs, codeOf_append] at hcodeOf
  have hbefore : (codeOf inside).length = before.length := by
    rw [hlength, ← hinside, codeOf, List.length_map, List.length_map]
  obtain rfl : codeOf rest = behind := by
    have htail := (List.append_inj hcodeOf hbefore).2
    exact (List.cons.inj htail).2
  refine ⟨inside, rest, ?_, ⟨?_, hbehind, ?_⟩⟩
  · rw [hglyphs]
    rw [← hinside] at hnested
    exact untilClose_append (by decide) hnested rfl rest
  · refine ⟨history ++ '(' :: (shownInside ++ [')']), ?_, .outside _⟩
    rw [hwhole, hshows, hshown]
    simp
  · rw [hshown]
    exact hrest

/-- Taking an annotation off. -/
theorem dropAnnotation {rest : Text} (h : Leads whole watch text)
    (hdrop : dropAnnotation? text = some rest) : ∃ next, Leads whole next rest := by
  unfold dropAnnotation? at hdrop
  split at hdrop
  case h_2 => simp at hdrop
  case h_1 _ cs =>
    -- from the at sign on the search is in the annotation's name
    obtain ⟨next, hstep, hnext⟩ := h.step (by decide) (by decide) (by decide)
    obtain rfl : next = ⟨.name, 0, false⟩ := by
      obtain ⟨⟨history, -, hahead⟩, -, -⟩ := h
      cases hahead <;> exact (Option.some.inj hstep).symm
    have hnamed : ∃ named, named ≠ {} ∧
        Leads whole named (Text.trimStart (cs.dropWhile isAnnotationChar)) := by
      rcases hnext.name.trimStart with hsame | hafter
      · exact ⟨_, by simp, hsame⟩
      · exact ⟨_, by simp [ParenWatch.afterSpace], hafter⟩
    obtain ⟨named, hne, hleads⟩ := hnamed
    split at hdrop
    · simp at hdrop
    · split at hdrop
      case h_1 _ arguments heq =>
        rw [heq] at hleads
        obtain ⟨inside, behind, hclose, hbehind⟩ := hleads.arguments hne
        rw [hclose] at hdrop
        obtain rfl := Option.some.inj hdrop
        rcases hbehind.trimStart with hsame | hafter
        · exact ⟨_, hsame⟩
        · exact ⟨_, hafter⟩
      case h_2 =>
        obtain rfl := Option.some.inj hdrop
        exact ⟨named, hleads⟩

/-- Taking some annotations off. -/
theorem iterate (h : Leads whole watch text) (fuel : Nat) :
    ∃ next, Leads whole next (Text.iterate dropAnnotation? fuel text) := by
  induction fuel generalizing watch text with
  | zero => exact ⟨watch, h⟩
  | succ fuel ih =>
    rw [Text.iterate]
    split
    case h_1 rest hdrop =>
      obtain ⟨next, hnext⟩ := h.dropAnnotation hdrop
      exact ih hnext
    case h_2 => exact ⟨watch, h⟩

/-- Taking all leading annotations off. -/
theorem stripAnnotations (h : Leads whole watch text) :
    ∃ next, Leads whole next (stripAnnotations text) := by
  rcases h.trimStart with hsame | hafter
  · exact hsame.iterate _
  · exact hafter.iterate _

end Leads

/-! ## §4 The group that is read -/

/-- The first parenthesis outside literals and the one that closes it are those around the group. -/
structure HasFirstGroup (glyphs before group after : List Glyph) : Prop where
  opens : cutGlyphs? '(' glyphs = some (before, group ++ .code ')' :: after)
  closes : untilClose '(' ')' 0 (group ++ .code ')' :: after) = some (group, after)

namespace HasFirstGroup

variable {glyphs before group after : List Glyph}

private theorem of_isNested (hbefore : '(' ∉ before.map Glyph.shown)
    (hgroup : IsNested 0 (group.map Glyph.shown)) (after : List Glyph) :
    HasFirstGroup (before ++ .code '(' :: (group ++ .code ')' :: after)) before group after where
  opens := by
    have hmark : (Glyph.code '(').shown = '(' := rfl
    refine cutGlyphs?_append (fun glyph hmem hshown => hbefore ?_) hmark _
    exact List.mem_map.mpr ⟨glyph, hmem, hshown⟩
  closes := untilClose_append (by decide) hgroup rfl after

/-- The parser reads the first group. -/
theorem parameterText? {text : Text}
    (h : HasFirstGroup (maskGlyphs (stripAnnotations text)) before group after) :
    Signature.parameterText? text = some (codeOf group) := by
  rw [Signature.parameterText?, h.opens]
  dsimp only
  rw [h.closes]

end HasFirstGroup

/-- **The group that the parser reads.**  Where the search has ended with the parameter list, the
signature without its leading annotations still ends in that list.  The parser reads the first group
of it: the list, exactly if no parenthesis of code is left in front of the list, and otherwise a
group that closes in front of the list and stands behind the name of an annotation. -/
theorem parameterText?_of_extractSignature (lines : List Text) (start maxLines : Nat) (text : Text)
    (hends : ParenWatch.readLines {} {} ((lines.drop start).take (max 1 maxLines)) = none)
    (htext : extractSignature lines start maxLines = .ok text) :
    ∃ ahead list before group after,
      maskGlyphs (stripAnnotations text) = ahead ++ .code '(' :: (list ++ [.code ')']) ∧
      IsNested 0 (list.map Glyph.shown) ∧
      HasFirstGroup (maskGlyphs (stripAnnotations text)) before group after ∧
      Signature.parameterText? text = some (codeOf group) ∧
      (after = [] ↔ .code '(' ∉ ahead) ∧ (after = [] → before = ahead ∧ group = list) ∧
      (after ≠ [] → ∃ front, (maskGlyphs text).map Glyph.shown =
          front ++ (maskGlyphs (stripAnnotations text)).map Glyph.shown ∧
        ParenWatch.EndsInName (front ++ before.map Glyph.shown)) := by
  obtain ⟨hcode, hsearch⟩ := ends_of_extractSignature hends htext
  have hleads : Leads (CodePlace.code.shows text) {} text :=
    ⟨⟨[], rfl, .outside []⟩, hcode, hsearch⟩
  obtain ⟨watch, ⟨history, hwhole, hahead⟩, hheadCode, hheadEnds⟩ := hleads.stripAnnotations
  obtain ⟨shownAhead, shownList, hshows, hnested, hgroup⟩ := hheadEnds.exists_list hahead
  rw [← (CodePlace.shown_maskGlyphs hcode).2, ← (CodePlace.shown_maskGlyphs hheadCode).2] at hwhole
  rw [← (CodePlace.shown_maskGlyphs hheadCode).2] at hshows
  -- the parts of the text as glyphs
  obtain ⟨ahead, more, hmask, rfl, hmore⟩ := exists_glyphs_of_shown (by decide) hshows
  obtain ⟨list, last, rfl, rfl, hlast⟩ := exists_glyphs_of_shown (by decide) hmore
  obtain rfl : last = [] := List.map_eq_nil_iff.mp hlast
  have hmem : .code '(' ∈ ahead ↔ '(' ∈ ahead.map Glyph.shown := by
    simp [List.mem_map, Glyph.shown_eq_iff]
  by_cases hopen : '(' ∈ ahead.map Glyph.shown
  · -- the first group in front of the list is that of an annotation
    obtain ⟨shownBefore, shownRest, hfirst, hbefore⟩ := List.eq_append_cons_of_mem hopen
    obtain ⟨hname, shownGroup, shownAfter, rfl, hclosed⟩ := hgroup _ _ hfirst hbefore
    obtain ⟨before, rest, rfl, rfl, hrest⟩ := exists_glyphs_of_shown (by decide) hfirst
    obtain ⟨group, after, rfl, rfl, -⟩ := exists_glyphs_of_shown (by decide) hrest
    have hread : HasFirstGroup (maskGlyphs (stripAnnotations text)) before group
        (after ++ .code '(' :: (list ++ [.code ')'])) := by
      have hnestedGroup := HasFirstGroup.of_isNested hbefore hclosed
        (after ++ .code '(' :: (list ++ [.code ')']))
      rw [hmask]
      simpa using hnestedGroup
    exact ⟨_, list, before, group, _, hmask, hnested, hread, hread.parameterText?,
      by simp, by simp, fun _ => ⟨history, hwhole, hname⟩⟩
  · have hread : HasFirstGroup (maskGlyphs (stripAnnotations text)) ahead list [] := by
      rw [hmask]
      exact .of_isNested hopen hnested []
    exact ⟨ahead, list, ahead, list, [], hmask, hnested, hread, hread.parameterText?,
      by simp [hmem, hopen], fun _ => ⟨rfl, rfl⟩, fun hne => absurd rfl hne⟩

/-- A method behind an annotation with a parenthesis in a string, with an annotated parameter. -/
def namedMethodLines : List Text :=
  ["@Named(\"x(\")".toList, "  void call(@Max(3) int n,".toList, "    int m) \x7b".toList]

/-- The signature of that method. -/
def namedMethodText : Text :=
  "@Named(\"x(\") void call(@Max(3) int n, int m)"

/-- The arguments of the leading annotation are not taken for the list. -/
theorem parameterText?_namedMethod :
    ParenWatch.readLines {} {} ((namedMethodLines.drop 0).take (max 1 15)) = none ∧
      extractSignature namedMethodLines 0 15 = .ok namedMethodText ∧
      ∃ ahead list, maskGlyphs (stripAnnotations namedMethodText) =
          ahead ++ .code '(' :: (list ++ [.code ')']) ∧
        Signature.parameterText? namedMethodText = some (codeOf list) := by
  have hends : ParenWatch.readLines {} {} ((namedMethodLines.drop 0).take (max 1 15)) = none := by
    decide +kernel
  have htext : extractSignature namedMethodLines 0 15 = .ok namedMethodText := by decide +kernel
  obtain ⟨ahead, list, before, group, after, hmask, -, hread, hparameters, -, hsame, -⟩ :=
    parameterText?_of_extractSignature namedMethodLines 0 15 namedMethodText hends htext
  -- behind the group that closes there is nothing
  have hafter : (cutGlyphs? '(' (maskGlyphs (stripAnnotations namedMethodText))).bind
      (fun found => (untilClose '(' ')' 0 found.2).map Prod.snd) = some [] := by
    decide +kernel
  rw [hread.opens, Option.bind_some, hread.closes] at hafter
  obtain rfl := (hsame (Option.some.inj hafter)).2
  exact ⟨hends, htext, ahead, group, hmask, hparameters⟩

/-- Behind a modifier the arguments of an annotation are taken for the list: the first group does
not end with the text. -/
theorem not_forall_firstGroup_last :
    ¬ ∀ (lines : List Text) (start maxLines : Nat) (text : Text),
      ParenWatch.readLines {} {} ((lines.drop start).take (max 1 maxLines)) = none →
      extractSignature lines start maxLines = .ok text →
      ∃ before group, HasFirstGroup (maskGlyphs (stripAnnotations text)) before group [] := by
  intro h
  obtain ⟨before, group, hread⟩ := h
    ["public @Retry(attempts = 3) void call(int timeout) \x7b".toList] 0 15
    "public @Retry(attempts = 3) void call(int timeout)" (by decide +kernel) (by decide +kernel)
  have hafter : (cutGlyphs? '(' (maskGlyphs (stripAnnotations
      "public @Retry(attempts = 3) void call(int timeout)"))).bind
        (fun found => (untilClose '(' ')' 0 found.2).map Prod.snd) ≠ some [] := by
    decide +kernel
  rw [hread.opens, Option.bind_some, hread.closes] at hafter
  exact hafter rfl

end DeclDocs
