import Mathlib.Data.Option.Basic
import DeclDocs.Proofs.Declaration.Stripping
import DeclDocs.Proofs.Lexical.Breaks
import DeclDocs.Proofs.Signature.Search

/-!
# Signatures and the layout of lines

A declaration may be broken into lines at its spaces.  The lines are joined by spaces again, but the
search for the end of the parameter list is not told of the breaks: where it reads the name of an
annotation, a space ends the name and a break does not.  A word on the next line then continues the
name, and a group behind that word is taken for the arguments of the annotation.  Inside the
parameter list the group is closed all the same; in front of it the list is missed.

* `ParenWatch.Agree`: two searches that read the same text to the same end.
* `ParenWatch.Agree.step`, `ParenWatch.Agree.readLine`, `ParenWatch.Agree.signatureParts`: a
  character, a line, all lines.
* `continuesName`: the break at which the list is missed.
* `extractSignature_layout`: any other break, and any block comment in the place of a space, leaves
  the signature as it is.
-/

namespace DeclDocs

open Text (beginsWith isSolid)

/-! ## §1 The search at a space and inside the list -/

namespace ParenWatch

/-- The search behind a space: an annotation's name is over. -/
def afterSpace (watch : ParenWatch) : ParenWatch :=
  match watch.annotation with
  | .name => { watch with annotation := .afterName }
  | _ => watch

/-- The search stands behind the parenthesis that opens the parameter list. -/
def IsInside (watch : ParenWatch) : Prop :=
  watch.opened = true ∧ 0 < watch.depth

/-- Parentheses open in all, those of an annotation's arguments among them. -/
def openCount (watch : ParenWatch) : Nat :=
  match watch.annotation with
  | .arguments nested => watch.depth + nested + 1
  | _ => watch.depth

variable {watch next : ParenWatch} {c : Char}

theorem step_space (watch : ParenWatch) : watch.step ' ' = some watch.afterSpace := by
  obtain ⟨place, depth, opened⟩ := watch
  cases place <;> rfl

theorem afterSpace_afterSpace (watch : ParenWatch) :
    watch.afterSpace.afterSpace = watch.afterSpace := by
  obtain ⟨place, depth, opened⟩ := watch
  cases place <;> rfl

theorem stepOutside_of_ne (hat : c ≠ '@') (hopen : c ≠ '(') (hclose : c ≠ ')') :
    watch.stepOutside c = some { watch with annotation := .outside } := by
  simp [stepOutside, hat, hopen, hclose]

theorem step_name_of_char (h : isAnnotationChar c = true) :
    ParenWatch.step { watch with annotation := .name } c =
      some { watch with annotation := .name } :=
  if_pos h

theorem step_name_of_not_char (h : isAnnotationChar c = false) :
    ParenWatch.step { watch with annotation := .name } c =
      ParenWatch.step { watch with annotation := .afterName } c :=
  if_neg (by simpa [isAnnotationChar] using h)

theorem step_afterName_of_blank (h : isBlank c = true) :
    ParenWatch.step { watch with annotation := .afterName } c =
      some { watch with annotation := .afterName } :=
  if_pos h

theorem step_afterName_of_ne (hblank : isBlank c = false) (hopen : c ≠ '(') :
    ParenWatch.step { watch with annotation := .afterName } c =
      ParenWatch.step { watch with annotation := .outside } c := by
  simp [step, hblank, hopen, stepOutside]

theorem step_outside_of_blank (h : isBlank c = true) :
    ParenWatch.step { watch with annotation := .outside } c =
      some { watch with annotation := .outside } :=
  stepOutside_of_ne (Text.ne_of_class h (by decide)) (Text.ne_of_class h (by decide))
    (Text.ne_of_class h (by decide))

private theorem step_outside_of_char (h : isAnnotationChar c = true) :
    ParenWatch.step { watch with annotation := .outside } c =
      some { watch with annotation := .outside } :=
  stepOutside_of_ne (Text.ne_of_class h (by decide)) (Text.ne_of_class h (by decide))
    (Text.ne_of_class h (by decide))

private theorem step_afterName_of_char (h : isAnnotationChar c = true) :
    ParenWatch.step { watch with annotation := .afterName } c =
      some { watch with annotation := .outside } := by
  have hblank : isBlank c = false := by simpa [isSolid] using isSolid_of_isAnnotationChar h
  rw [step_afterName_of_ne hblank (Text.ne_of_class h (by decide)), step_outside_of_char h]

theorem step_arguments_of_ne {nested : Nat} (hopen : c ≠ '(') (hclose : c ≠ ')') :
    ParenWatch.step { watch with annotation := .arguments nested } c =
      some { watch with annotation := .arguments nested } := by
  simp [step, hopen, hclose]

theorem depth_le_openCount (watch : ParenWatch) : watch.depth ≤ watch.openCount := by
  unfold openCount
  split <;> omega

theorem step_open (watch : ParenWatch) : ∃ next, watch.step '(' = some next ∧
    (watch.opened = true → next.opened = true) ∧ watch.depth ≤ next.depth ∧
    next.openCount = watch.openCount + 1 := by
  obtain ⟨place, depth, opened⟩ := watch
  cases place with
  | outside => exact ⟨_, rfl, fun _ => rfl, Nat.le_succ depth, rfl⟩
  | name => exact ⟨_, rfl, id, Nat.le_refl depth, rfl⟩
  | afterName => exact ⟨_, rfl, id, Nat.le_refl depth, rfl⟩
  | arguments nested => exact ⟨_, rfl, id, Nat.le_refl depth, rfl⟩

theorem step_close_outside (h : watch.openCount = watch.depth) (hdepth : 1 < watch.depth) :
    watch.step ')' = some { watch with annotation := .outside, depth := watch.depth - 1 } := by
  have houtside : watch.stepOutside ')' =
      some { watch with annotation := .outside, depth := watch.depth - 1 } := by
    simp [stepOutside, hdepth]
  obtain ⟨place, depth, opened⟩ := watch
  cases place with
  | outside => exact houtside
  | name => exact houtside
  | afterName => exact houtside
  | arguments nested =>
    simp only [openCount] at h
    omega

theorem step_close_arguments (h : watch.openCount ≠ watch.depth) :
    ∃ next, watch.step ')' = some next ∧ next.opened = watch.opened ∧ next.depth = watch.depth ∧
      next.openCount + 1 = watch.openCount := by
  obtain ⟨place, depth, opened⟩ := watch
  cases place with
  | outside => exact absurd rfl h
  | name => exact absurd rfl h
  | afterName => exact absurd rfl h
  | arguments nested =>
    cases nested with
    | zero => exact ⟨_, rfl, rfl, rfl, rfl⟩
    | succ outer => exact ⟨_, rfl, rfl, rfl, rfl⟩

theorem step_other (watch : ParenWatch) (hopen : c ≠ '(') (hclose : c ≠ ')') :
    ∃ next, watch.step c = some next ∧ next.opened = watch.opened ∧ next.depth = watch.depth ∧
      next.openCount = watch.openCount := by
  have houtside : ∃ next, watch.stepOutside c = some next ∧ next.opened = watch.opened ∧
      next.depth = watch.depth ∧ next.openCount = watch.depth := by
    by_cases hat : c = '@'
    · exact ⟨_, if_pos hat, rfl, rfl, rfl⟩
    · exact ⟨_, stepOutside_of_ne hat hopen hclose, rfl, rfl, rfl⟩
  obtain ⟨place, depth, opened⟩ := watch
  have hafter : ∃ next, ParenWatch.step ⟨.afterName, depth, opened⟩ c = some next ∧
      next.opened = opened ∧ next.depth = depth ∧ next.openCount = depth := by
    by_cases hblank : isBlank c = true
    · exact ⟨_, if_pos hblank, rfl, rfl, rfl⟩
    · obtain ⟨next, hstep, hnext⟩ := houtside
      exact ⟨next, (if_neg hblank).trans ((if_neg hopen).trans hstep), hnext⟩
  cases place with
  | outside => exact houtside
  | name =>
    by_cases hchar : isAnnotationChar c = true
    · exact ⟨_, if_pos hchar, rfl, rfl, rfl⟩
    · obtain ⟨next, hstep, hnext⟩ := hafter
      exact ⟨next, (if_neg hchar).trans hstep, hnext⟩
  | afterName => exact hafter
  | arguments nested => exact ⟨_, (if_neg hopen).trans (if_neg hclose), rfl, rfl, rfl⟩

/-- The parameter list stays open until the search ends. -/
theorem step_opened (h : watch.opened = true → 0 < watch.depth) (hstep : watch.step c = some next) :
    next.opened = true → 0 < next.depth := by
  have houtside : watch.stepOutside c = some next → next.opened = true → 0 < next.depth := by
    intro hnext hopened
    unfold stepOutside at hnext
    grind
  unfold step at hstep
  grind

private theorem readLine_opened (h : watch.opened = true → 0 < watch.depth) {glyphs : List Glyph}
    (hread : (watch.readLine glyphs).2 = some next) : next.opened = true → 0 < next.depth := by
  induction glyphs generalizing watch with
  | nil =>
    obtain rfl : watch = next := Option.some.inj hread
    exact h
  | cons glyph glyphs ih =>
    cases hstep : watch.step glyph.shown with
    | none =>
      rw [readLine_cons_of_none hstep] at hread
      cases hread
    | some between =>
      rw [readLine_cons hstep] at hread
      exact ih (step_opened h hstep) hread

private theorem readLines_opened (h : watch.opened = true → 0 < watch.depth) {state : ScanState}
    {lines : List Text} (hread : watch.readLines state lines = some next) :
    next.opened = true → 0 < next.depth := by
  induction lines generalizing watch state with
  | nil =>
    obtain rfl : watch = next := Option.some.inj hread
    exact h
  | cons line lines ih =>
    obtain ⟨between, hline, hrest⟩ := Option.bind_eq_some_iff.mp hread
    exact ih (readLine_opened h hline) hrest

end ParenWatch

/-! ## §2 Searches that agree -/

/-- Behind its blanks the text opens a group. -/
def opensGroup (text : Text) : Bool :=
  beginsWith (· == '(') text.trimStart

/-- The text begins with a word that is followed by a group. -/
def callsWord (text : Text) : Bool :=
  beginsWith isAnnotationChar text && opensGroup (text.dropWhile isAnnotationChar)

private theorem opensGroup_cons_of_blank {c : Char} (h : isBlank c = true) (rest : Text) :
    opensGroup (c :: rest) = opensGroup rest := by
  simp [opensGroup, Text.trimStart, h]

private theorem opensGroup_open (rest : Text) : opensGroup ('(' :: rest) = true := rfl

namespace ParenWatch

/-- Two searches read the text to the same end, although the first may take a word for part of an
annotation's name, or the group behind it for the annotation's arguments. -/
inductive Agree : Text → ParenWatch → ParenWatch → Prop where
  | same (rest : Text) (watch : ParenWatch) : Agree rest watch watch
  /-- Directly behind the space that ends the name. -/
  | behindName {rest : Text} {watch : ParenWatch} (h : callsWord rest = true → watch.IsInside) :
      Agree rest { watch with annotation := .name } { watch with annotation := .afterName }
  /-- In the word behind the name. -/
  | inWord {rest : Text} {watch : ParenWatch}
      (h : opensGroup (rest.dropWhile isAnnotationChar) = true → watch.IsInside) :
      Agree rest { watch with annotation := .name } { watch with annotation := .outside }
  /-- In the blanks behind that word. -/
  | behindWord {rest : Text} {watch : ParenWatch} (h : opensGroup rest = true → watch.IsInside) :
      Agree rest { watch with annotation := .afterName } { watch with annotation := .outside }
  /-- In the group behind the word: as many parentheses are open for both, and those of the first
  search outside the group are open for the second as well. -/
  | inGroup {rest : Text} {watch other : ParenWatch} {nested : Nat} (h : watch.IsInside)
      (hother : other.opened = true) (hdepth : watch.depth < other.depth)
      (hcount : other.openCount = watch.depth + nested + 1) :
      Agree rest { watch with annotation := .arguments nested } other

variable {watch other : ParenWatch} {c : Char} {rest : Text}

private theorem Agree.option_refl (rest : Text) (result : Option ParenWatch) :
    Option.Rel (Agree rest) result result := by
  cases result with
  | none => exact .none
  | some watch => exact .some (.same rest watch)

/-- Both searches end or both go on. -/
theorem Agree.option_cases {first second : Option ParenWatch}
    (h : Option.Rel (Agree rest) first second) :
    first = none ∧ second = none ∨
      ∃ watch other, first = some watch ∧ second = some other ∧ Agree rest watch other := by
  cases h with
  | none => exact Or.inl ⟨rfl, rfl⟩
  | some h => exact Or.inr ⟨_, _, rfl, rfl, h⟩

/-- Behind a word, a character is read alike unless it opens a group in front of the parameter
list. -/
theorem Agree.step_behindWord (h : opensGroup (c :: rest) = true → watch.IsInside) :
    Option.Rel (Agree rest) (ParenWatch.step { watch with annotation := .afterName } c)
      (ParenWatch.step { watch with annotation := .outside } c) := by
  by_cases hblank : isBlank c = true
  · rw [step_afterName_of_blank hblank, step_outside_of_blank hblank]
    rw [opensGroup_cons_of_blank hblank] at h
    exact .some (.behindWord h)
  by_cases hopen : c = '('
  · subst hopen
    have hinside := h (opensGroup_open rest)
    exact .some (.inGroup hinside rfl (Nat.lt_succ_self watch.depth) rfl)
  · rw [step_afterName_of_ne (by simpa using hblank) hopen]
    exact option_refl rest _

/-- Inside the group behind a word. -/
theorem Agree.step_inGroup {nested : Nat} (h : watch.IsInside) (hother : other.opened = true)
    (hdepth : watch.depth < other.depth) (hcount : other.openCount = watch.depth + nested + 1)
    (c : Char) (rest : Text) :
    Option.Rel (Agree rest) (ParenWatch.step { watch with annotation := .arguments nested } c)
      (other.step c) := by
  by_cases hopen : c = '('
  · subst hopen
    obtain ⟨next, hstep, hopened, hnext, htotal⟩ := step_open other
    rw [hstep]
    exact .some (.inGroup h (hopened hother) (hdepth.trans_le hnext)
      (htotal.trans (congrArg Nat.succ hcount)))
  by_cases hclose : c = ')'
  · subst hclose
    cases nested with
    | zero =>
      -- the group is the innermost one of the second search
      have hlist : other.openCount = other.depth := by
        have := other.depth_le_openCount
        omega
      have hwatch : other.depth - 1 = watch.depth := by omega
      rw [step_close_outside hlist (by have := h.2; omega), hwatch, hother, ← h.1]
      exact .some (.same rest _)
    | succ outer =>
      by_cases hlist : other.openCount = other.depth
      · rw [step_close_outside hlist (by omega)]
        refine .some (.inGroup h hother ?_ ?_)
        · change watch.depth < other.depth - 1
          omega
        · change other.depth - 1 = watch.depth + outer + 1
          omega
      · obtain ⟨next, hstep, hopened, hnext, htotal⟩ := step_close_arguments hlist
        have hless : watch.depth < next.depth := by omega
        have houter : next.openCount = watch.depth + outer + 1 := by omega
        rw [hstep]
        exact .some (.inGroup h (hopened.trans hother) hless houter)
  · obtain ⟨next, hstep, hopened, hnext, htotal⟩ := step_other other hopen hclose
    rw [hstep, step_arguments_of_ne hopen hclose]
    exact .some (.inGroup h (hopened.trans hother) (hnext.symm ▸ hdepth) (htotal.trans hcount))

/-- One character. -/
theorem Agree.step (h : Agree (c :: rest) watch other) :
    Option.Rel (Agree rest) (watch.step c) (other.step c) := by
  cases h with
  | same => exact option_refl rest _
  | behindName h =>
    by_cases hchar : isAnnotationChar c = true
    · rw [step_name_of_char hchar, step_afterName_of_char hchar]
      refine .some (.inWord fun hgroup => h ?_)
      simp [callsWord, hchar, hgroup]
    · rw [step_name_of_not_char (by simpa using hchar)]
      exact option_refl rest _
  | inWord h =>
    by_cases hchar : isAnnotationChar c = true
    · rw [step_name_of_char hchar, step_outside_of_char hchar]
      rw [List.dropWhile_cons_of_pos hchar] at h
      exact .some (.inWord h)
    · rw [step_name_of_not_char (by simpa using hchar)]
      rw [List.dropWhile_cons_of_neg hchar] at h
      exact step_behindWord h
  | behindWord h => exact step_behindWord h
  | inGroup h hother hdepth hcount => exact step_inGroup h hother hdepth hcount c rest

/-- The glyphs of a line. -/
theorem Agree.readLine {glyphs : List Glyph}
    (h : Agree (glyphs.map Glyph.shown ++ rest) watch other) :
    (watch.readLine glyphs).1 = (other.readLine glyphs).1 ∧
      Option.Rel (Agree rest) (watch.readLine glyphs).2 (other.readLine glyphs).2 := by
  induction glyphs generalizing watch other with
  | nil => exact ⟨rfl, .some h⟩
  | cons glyph glyphs ih =>
    rcases option_cases (Agree.step h) with ⟨hstep, hother⟩ | ⟨next, otherNext, hstep, hother, hnext⟩
    · rw [readLine_cons_of_none hstep, readLine_cons_of_none hother]
      exact ⟨rfl, .none⟩
    · rw [readLine_cons hstep, readLine_cons hother]
      exact ⟨congrArg (glyph :: ·) (ih hnext).1, (ih hnext).2⟩

end ParenWatch

/-- The code of the lines as the search sees it, without breaks. -/
def shownCode (state : ScanState) (lines : List Text) : Text :=
  (scanLines state lines).flatMap fun scanned => scanned.glyphs.map Glyph.shown

/-- The lines of a declaration. -/
theorem ParenWatch.Agree.signatureParts {state : ScanState} {lines : List Text}
    {watch other : ParenWatch} (h : ParenWatch.Agree (shownCode state lines) watch other) :
    signatureParts watch state lines = signatureParts other state lines := by
  induction lines generalizing watch other state with
  | nil => rfl
  | cons line lines ih =>
    obtain ⟨hkept, hrel⟩ := ParenWatch.Agree.readLine h
    rcases option_cases hrel with ⟨hread, hother⟩ | ⟨next, otherNext, hread, hother, hnext⟩
    · rw [signatureParts_cons_of_none hread, signatureParts_cons_of_none hother, hkept]
    · rw [signatureParts_cons_of_some hread, signatureParts_cons_of_some hother, ih hnext]

/-! ## §3 Breaking a line -/

/-- The lines in front of the break end in the name of an annotation in front of the parameter list,
and those behind it begin with a word and a group. -/
def continuesName (before after : List Text) : Bool :=
  (ParenWatch.readLines {} {} before).any fun watch =>
    watch.annotation == .name && !watch.opened && callsWord (shownCode (stateAfter {} before) after)

/-- Directly behind a space the search is where it would be without the space, or agrees with it. -/
theorem ParenWatch.agree_afterSpace {watch : ParenWatch} {rest : Text}
    (hopened : watch.opened = true → 0 < watch.depth)
    (h : (watch.annotation == .name && !watch.opened && callsWord rest) = false) :
    Agree rest watch watch.afterSpace := by
  obtain ⟨place, depth, opened⟩ := watch
  cases place with
  | name =>
    have hinside : callsWord rest = true → IsInside ⟨.name, depth, opened⟩ := by
      intro hcalls
      have : opened = true := by simpa [hcalls] using h
      exact ⟨this, hopened this⟩
    exact .behindName hinside
  | outside => exact .same rest _
  | afterName => exact .same rest _
  | arguments nested => exact .same rest _

section Break

variable {watch next : ParenWatch} {state : ScanState} {front : Text}
  (hspace : IsCodeSpace state front)
include hspace

/-- A line that is read across its space. -/
theorem join_signatureParts_space (hread : (watch.readLine (state.scan front).glyphs).2 = some next)
    (back : Text) (below : List Text) :
    Text.join [' '] (signatureParts watch state ((front ++ ' ' :: back) :: below)) =
      (state.scan front).code ++ ([' '] ++ Text.join [' ']
        (signatureParts next.afterSpace {} (back :: below))) := by
  have hglyphs : (state.scan (front ++ ' ' :: back)).glyphs =
      (state.scan front).glyphs ++ .code ' ' :: (ScanState.scan {} back).glyphs := by
    rw [hspace.scan_space back]
    rfl
  have hline := ParenWatch.readLine_append_of_some hread
    (.code ' ' :: (ScanState.scan {} back).glyphs)
  rw [← hglyphs, ParenWatch.readLine_cons next.step_space] at hline
  cases hback : (next.afterSpace.readLine (ScanState.scan {} back).glyphs).2 with
  | none =>
    rw [hback] at hline
    rw [signatureParts_cons_of_none (by rw [hline]), signatureParts_cons_of_none hback, hline]
    simp [codeOf, ScannedLine.code, Glyph.code]
  | some after =>
    rw [hback] at hline
    have hcode : (state.scan (front ++ ' ' :: back)).code =
        ((state.scan front).code ++ [' ']) ++ (ScanState.scan {} back).code := by
      simp [ScannedLine.code, hglyphs, codeOf, Glyph.code]
    have hstate : (state.scan (front ++ ' ' :: back)).state = (ScanState.scan {} back).state := by
      rw [hspace.scan_space back]
      rfl
    rw [signatureParts_cons_of_some (by rw [hline]), signatureParts_cons_of_some hback, hcode,
      hstate, Text.join_prepend, List.append_assoc]

/-- A line broken at its space, as the search reads it. -/
theorem join_signatureParts_break {back : Text} {below : List Text}
    (hopened : watch.opened = true → 0 < watch.depth)
    (h : ((watch.readLine (state.scan front).glyphs).2.any fun next =>
      next.annotation == .name && !next.opened && callsWord (shownCode {} (back :: below))) =
        false) :
    Text.join [' '] (signatureParts watch state (front :: back :: below)) =
      Text.join [' '] (signatureParts watch state ((front ++ ' ' :: back) :: below)) := by
  cases hread : (watch.readLine (state.scan front).glyphs).2 with
  | none =>
    -- the list ends in front of the space
    have hline : watch.readLine (state.scan (front ++ ' ' :: back)).glyphs =
        watch.readLine (state.scan front).glyphs := by
      rw [hspace.scan_space back]
      exact ParenWatch.readLine_append_of_none hread _
    rw [signatureParts_cons_of_none hread, signatureParts_cons_of_none (hline ▸ hread), hline]
  | some next =>
    rw [hread] at h
    have hagree := ParenWatch.agree_afterSpace (ParenWatch.readLine_opened hopened hread) h
    rw [join_signatureParts_space hspace hread, signatureParts_cons_of_some hread,
      Text.join_cons (signatureParts_ne_nil _ _ _ _), hspace.state_eq, hagree.signatureParts]

end Break

private theorem stateAfter_append_singleton (state : ScanState) (lines : List Text) (line : Text) :
    stateAfter state (lines ++ [line]) = ((stateAfter state lines).scan line).state := by
  simp [stateAfter]

/-- Lines of which one is broken at its space. -/
theorem join_signatureParts_split {above below : List Text} {front back : Text}
    (hspace : IsCodeSpace (stateAfter {} above) front)
    (h : continuesName (above ++ [front]) (back :: below) = false) :
    Text.join [' '] (signatureParts {} {} (above ++ front :: back :: below)) =
      Text.join [' '] (signatureParts {} {} (above ++ (front ++ ' ' :: back) :: below)) := by
  rw [continuesName, stateAfter_append_singleton, hspace.state_eq,
    ParenWatch.readLines_append] at h
  cases hread : ParenWatch.readLines {} {} above with
  | none => rw [signatureParts_append_of_none hread, signatureParts_append_of_none hread]
  | some watch =>
    -- the lines above give the same parts, so only those from the break on are compared
    rw [hread, Option.bind_some, ParenWatch.readLines_singleton] at h
    have hopened := ParenWatch.readLines_opened (fun hnot => absurd hnot (by decide)) hread
    rw [signatureParts_append_of_some hread, signatureParts_append_of_some hread]
    exact Text.join_append_congr (signatureParts_ne_nil _ _ _ _) (signatureParts_ne_nil _ _ _ _)
      (join_signatureParts_break hspace hopened h) _

/-! ## §4 The extracted signature -/

/-- A limit that no list of lines exceeds. -/
theorem extractSignature_eq_join {lines : List Text} {start maxLines : Nat}
    (hstart : start < lines.length) (hlines : lines.length ≤ maxLines) :
    extractSignature lines start maxLines =
      .ok (Text.squeeze (Text.join [' '] (signatureParts {} {} (lines.drop start)))) := by
  rw [extractSignature_eq_ok hstart, List.take_of_length_le]
  rw [List.length_drop]
  omega

/-- A line counts only as the scanner reads it, whatever the limit on the number of lines. -/
theorem extractSignature_congr_line {above : List Text} {line other : Text} {start : Nat}
    (hstart : start ≤ above.length)
    (h : (stateAfter {} (above.drop start)).scan line =
      (stateAfter {} (above.drop start)).scan other) (below : List Text) (maxLines : Nat) :
    extractSignature (above ++ line :: below) start maxLines =
      extractSignature (above ++ other :: below) start maxLines := by
  have hwindow : signatureParts {} {}
        (((above ++ line :: below).drop start).take (max 1 maxLines)) =
      signatureParts {} {} (((above ++ other :: below).drop start).take (max 1 maxLines)) := by
    rw [List.drop_append_of_le_length hstart, List.drop_append_of_le_length hstart,
      List.take_append, List.take_append]
    cases hleft : max 1 maxLines - (above.drop start).length with
    | zero =>
      -- the limit cuts the line off
      rfl
    | succ left =>
      rw [List.take_of_length_le (by omega)]
      exact signatureParts_congr_line {} h (below.take left)
  simp only [extractSignature, hwindow]
  simp

/-- **A break at a space of code, unless it continues an annotation's name, and a block comment in
the place of such a space leave the signature as it is.** -/
theorem extractSignature_layout {above : List Text} {front : Text} {start : Nat}
    (hstart : start ≤ above.length)
    (hspace : IsCodeSpace (stateAfter {} (above.drop start)) front) (back : Text)
    (below : List Text) (maxLines : Nat) :
    ((above ++ front :: back :: below).length ≤ maxLines →
      continuesName (above.drop start ++ [front]) (back :: below) = false →
      extractSignature (above ++ front :: back :: below) start maxLines =
        extractSignature (above ++ (front ++ ' ' :: back) :: below) start maxLines) ∧
    (front.getLast? ≠ some '/' → ∀ body : Text, body.has "*/" = false →
      extractSignature
          (above ++ (front ++ ("/*".toList ++ (body ++ ("*/".toList ++ back)))) :: below) start
          maxLines =
        extractSignature (above ++ (front ++ ' ' :: back) :: below) start maxLines) := by
  constructor
  · intro hlines hname
    have hshorter : (above ++ (front ++ ' ' :: back) :: below).length ≤ maxLines := by
      simp only [List.length_append, List.length_cons] at hlines ⊢
      omega
    rw [extractSignature_eq_join (by simp; omega) hlines,
      extractSignature_eq_join (by simp; omega) hshorter,
      List.drop_append_of_le_length hstart, List.drop_append_of_le_length hstart,
      join_signatureParts_split hspace hname]
  · intro hslash body hbody
    exact extractSignature_congr_line hstart (hspace.scan_blockComment hslash hbody back) below
      maxLines

/-- A declaration with a break in its parameter list, between an annotation's name and a word with a
group, and with a comment there. -/
theorem extractSignature_broken_parameter :
    extractSignature ["@Get(\"(\") // a".toList, "int at(@Key".toList, "f(1) n) \x7b".toList] 0 3 =
        extractSignature ["@Get(\"(\") // a".toList, "int at(@Key f(1) n) \x7b".toList] 0 3 ∧
      extractSignature ["@Get(\"(\") // a".toList, "int at(@Key/* ) */f(1) n) \x7b".toList] 0 3 =
        extractSignature ["@Get(\"(\") // a".toList, "int at(@Key f(1) n) \x7b".toList] 0 3 := by
  have hlayout := @extractSignature_layout ["@Get(\"(\") // a".toList] "int at(@Key".toList 0
    (by decide) (by decide +kernel) "f(1) n) \x7b".toList [] 3
  exact ⟨hlayout.1 (by decide) (by decide +kernel),
    hlayout.2 (by decide +kernel) " ) ".toList (by decide +kernel)⟩

/-- Not every break leaves the signature as it is: behind an annotation's name the parameter list is
taken for the arguments of the annotation, and the text behind it belongs to the signature. -/
theorem not_forall_extractSignature_break :
    ¬∀ (above : List Text) (front back : Text) (below : List Text) (start maxLines : Nat),
      start ≤ above.length → IsCodeSpace (stateAfter {} (above.drop start)) front →
      (above ++ front :: back :: below).length ≤ maxLines →
      extractSignature (above ++ front :: back :: below) start maxLines =
        extractSignature (above ++ (front ++ ' ' :: back) :: below) start maxLines := by
  intro hbreak
  have hinject := hbreak [] "@Inject".toList "Service(Repo repo) \x7b".toList [] 0 15 (by decide)
    (by decide +kernel) (by decide)
  exact absurd hinject (by decide +kernel)

end DeclDocs
