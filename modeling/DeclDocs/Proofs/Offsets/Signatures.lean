import DeclDocs.Proofs.Offsets.Masks
import DeclDocs.Proofs.Signature.Layout

/-!
# Signatures read by offset

The end of a parameter list is searched in the skeleton of a line, character by character, and the
code of the line is cut behind the offset of the parenthesis that is found.  Inside the arguments of
an annotation the search counts all open parentheses, the first one included, and takes one away at
each that closes.

* `Offsets.stepWatch_counted`: that count is never below one when one is taken away.
* `Offsets.stopIn_skeletonOf`: the search stops behind a glyph of the line.
* `Offsets.extractSignature_eq`: signatures by offset are those of the glyphs.
-/

namespace DeclDocs

/-! ## §1 One character -/

namespace ParenWatch

/-- The search with the parenthesis that opened an argument list among those counted in it. -/
def counted (watch : ParenWatch) : ParenWatch :=
  match watch.annotation with
  | .arguments nested => { watch with annotation := .arguments (nested + 1) }
  | _ => watch

/-- Only a closing parenthesis ends the search. -/
theorem eq_of_stepOutside_eq_none {watch : ParenWatch} {c : Char}
    (h : watch.stepOutside c = none) : c = ')' := by
  by_contra hclose
  rw [stepOutside, if_neg hclose] at h
  split at h
  · simp at h
  · split at h <;> simp at h

theorem eq_of_step_eq_none {watch : ParenWatch} {c : Char} (h : watch.step c = none) :
    c = ')' := by
  obtain ⟨place, depth, opened⟩ := watch
  cases place with
  | outside => exact eq_of_stepOutside_eq_none h
  | name =>
    simp only [step] at h
    split at h
    · simp at h
    · split at h
      · simp at h
      · split at h
        · simp at h
        · exact eq_of_stepOutside_eq_none h
  | afterName =>
    simp only [step] at h
    split at h
    · simp at h
    · split at h
      · simp at h
      · exact eq_of_stepOutside_eq_none h
  | arguments nested =>
    by_contra hclose
    simp only [step, if_neg hclose] at h
    split at h <;> simp at h

/-- Outside annotations nothing is counted in an argument list. -/
theorem map_counted_stepOutside (watch : ParenWatch) (c : Char) :
    (watch.stepOutside c).map counted = watch.stepOutside c := by
  unfold stepOutside
  split
  · rfl
  · split
    · rfl
    · split
      · split <;> rfl
      · rfl

end ParenWatch

namespace Offsets

/-- Reads a character; `none` when it closes the parameter list. -/
def stepWatch (watch : ParenWatch) (c : Char) : Checked (Option ParenWatch) :=
  match watch.annotation with
  | .arguments inner =>
    if c = '(' then pure (some { watch with annotation := .arguments (inner + 1) })
    else if c = ')' then do
      let inner ← Checked.minus inner 1
      if inner = 0 then pure (some { watch with annotation := .outside })
      else pure (some { watch with annotation := .arguments inner })
    else pure (some watch)
  | .name =>
    if isIdentifierChar c || c == '.' then pure (some watch)
    else if isBlank c then pure (some { watch with annotation := .afterName })
    else if c = '(' then pure (some { watch with annotation := .arguments 1 })
    else pure (watch.stepOutside c)
  | .afterName =>
    if isBlank c then pure (some watch)
    else if c = '(' then pure (some { watch with annotation := .arguments 1 })
    else pure (watch.stepOutside c)
  | .outside => pure (watch.stepOutside c)

/-- **The parentheses of an argument list are counted without going below zero**: the list is left
at the parenthesis that takes the count there. -/
theorem stepWatch_counted (watch : ParenWatch) (c : Char) :
    stepWatch watch.counted c = pure ((watch.step c).map ParenWatch.counted) := by
  obtain ⟨place, depth, opened⟩ := watch
  cases place with
  | outside => exact congrArg pure (ParenWatch.map_counted_stepOutside _ c).symm
  | name =>
    simp only [ParenWatch.counted, stepWatch, ParenWatch.step]
    split
    · rfl
    · split
      · rfl
      · split
        · rfl
        · exact congrArg pure (ParenWatch.map_counted_stepOutside _ c).symm
  | afterName =>
    simp only [ParenWatch.counted, stepWatch, ParenWatch.step]
    split
    · rfl
    · split
      · rfl
      · exact congrArg pure (ParenWatch.map_counted_stepOutside _ c).symm
  | arguments nested =>
    simp only [ParenWatch.counted, stepWatch, ParenWatch.step]
    split
    · rfl
    · split
      · rw [Checked.minus_add, pure_bind]
        cases nested with
        | zero => rfl
        | succ outer => rfl
      · rfl

/-! ## §2 One line -/

/-- The offset behind the end of the parameter list, or the end of the text and what to remember
for the next line. -/
def stopIn : ParenWatch → (index : Nat) → Text → Checked (Nat × Option ParenWatch)
  | watch, index, [] => pure (index, some watch)
  | watch, index, c :: cs => do
    match ← stepWatch watch c with
    | none => pure (index + 1, none)
    | some watch => stopIn watch (index + c.utf8Size) cs

private theorem stopIn_cons_of_some {watch next : ParenWatch} {c : Char}
    (h : watch.step c = some next) (index : Nat) (cs : Text) :
    stopIn watch.counted index (c :: cs) = stopIn next.counted (index + c.utf8Size) cs := by
  rw [stopIn, stepWatch_counted, pure_bind, h]
  rfl

private theorem stopIn_cons_of_none {watch : ParenWatch} {c : Char} (h : watch.step c = none)
    (index : Nat) (cs : Text) :
    stopIn watch.counted index (c :: cs) = pure (index + 1, none) := by
  rw [stopIn, stepWatch_counted, pure_bind, h]
  rfl

/-- Any number of spaces is read as one. -/
theorem stopIn_spaces (watch : ParenWatch) (index n : Nat) (rest : Text) :
    stopIn watch.counted index (List.replicate (n + 1) ' ' ++ rest) =
      stopIn watch.afterSpace.counted (index + (n + 1)) rest := by
  induction n generalizing watch index with
  | zero => exact stopIn_cons_of_some watch.step_space index rest
  | succ n ih =>
    have hsize : ' '.utf8Size = 1 := by decide
    rw [List.replicate_succ, List.cons_append, stopIn_cons_of_some watch.step_space, ih,
      watch.afterSpace_afterSpace, hsize, Nat.add_assoc index 1, Nat.add_comm 1]

/-- A glyph that does not end the search is read whole, whichever its bytes are. -/
theorem stopIn_glyph {watch next : ParenWatch} {g : Glyph} (h : watch.step g.shown = some next)
    (index : Nat) (rest : Text) :
    stopIn watch.counted index (g.skeletonPart ++ rest) =
      stopIn next.counted (index + g.char.utf8Size) rest := by
  rw [Glyph.skeletonPart]
  rw [Glyph.shown] at h
  split
  case isTrue hmasked =>
    rw [if_pos hmasked, watch.step_space] at h
    obtain rfl := Option.some.inj h
    obtain ⟨n, hn⟩ := Nat.exists_eq_succ_of_ne_zero g.char.utf8Size_pos.ne'
    rw [hn]
    exact stopIn_spaces watch index n rest
  case isFalse hcode =>
    rw [if_neg hcode] at h
    exact stopIn_cons_of_some h index rest

/-- **The search by offset stops where the search on glyphs does.** -/
theorem stopIn_skeletonOf (watch : ParenWatch) (index : Nat) (gs : List Glyph) :
    stopIn watch.counted index (skeletonOf gs) =
      pure (index + (codeOf (watch.readLine gs).1).byteLength,
        (watch.readLine gs).2.map ParenWatch.counted) := by
  induction gs generalizing watch index with
  | nil => rfl
  | cons g gs ih =>
    rw [skeletonOf_cons]
    cases hstep : watch.step g.shown with
    | none =>
      -- the glyph is the parenthesis itself, so the offset behind it is one byte further
      have hclose : g.shown = ')' := ParenWatch.eq_of_step_eq_none hstep
      obtain rfl : g = .code ')' := (Glyph.shown_eq_iff (by decide)).mp hclose
      rw [ParenWatch.readLine_cons_of_none hstep]
      exact stopIn_cons_of_none hstep index _
    | some next =>
      rw [ParenWatch.readLine_cons hstep, stopIn_glyph hstep, ih, codeOf_cons,
        Text.byteLength_cons, Nat.add_assoc]

/-! ## §3 The lines of a declaration -/

/-- The code of the lines up to the end of the parameter list. -/
def signatureParts : ParenWatch → ScanState → List Text → Checked (List Text)
  | _, _, [] => pure []
  | watch, state, line :: lines => do
    let scanned := state.scan line
    let (stop, next) ← stopIn watch 0 scanned.skeleton
    match next with
    | none => return [← scanned.code.upToByte stop]
    | some watch => return scanned.code :: (← signatureParts watch scanned.state lines)

/-- The text of the declaration at line `start`, from at most `maxLines` lines but at least one. -/
def extractSignature (lines : List Text) (start maxLines : Nat) :
    Checked (Except ExtractionError Text) :=
  if lines.length ≤ start then pure (.error (.lineOutOfRange start lines.length))
  else do
    let window := (lines.drop start).take (max 1 maxLines)
    let parts ← signatureParts {} {} window
    return .ok (Text.squeeze (Text.join [' '] parts))

/-- The part of a line that the search keeps ends at a character boundary of its code. -/
theorem upToByte_readLine (watch : ParenWatch) (gs : List Glyph) :
    (codeOf gs).upToByte (codeOf (watch.readLine gs).1).byteLength =
      pure (codeOf (watch.readLine gs).1) := by
  obtain ⟨rest, hrest⟩ := watch.readLine_isPrefix gs
  have hcode : codeOf gs = codeOf (watch.readLine gs).1 ++ codeOf rest := by
    rw [← codeOf_append, hrest]
  rw [hcode]
  exact Text.upToByte_append _ _

theorem signatureParts_eq (watch : ParenWatch) (state : ScanState) (lines : List Text) :
    signatureParts watch.counted state lines =
      pure (DeclDocs.signatureParts watch state lines) := by
  induction lines generalizing watch state with
  | nil => rfl
  | cons line lines ih =>
    have hstop := stopIn_skeletonOf watch 0 (state.scan line).glyphs
    rw [Nat.zero_add] at hstop
    simp only [signatureParts, ScannedLine.skeleton, hstop, pure_bind]
    cases hnext : (watch.readLine (state.scan line).glyphs).2 with
    | none =>
      rw [signatureParts_cons_of_none hnext]
      simp only [Option.map_none, ScannedLine.code, upToByte_readLine, pure_bind]
    | some next =>
      rw [signatureParts_cons_of_some hnext]
      simp only [Option.map_some, ih, pure_bind]

/-- **Signatures by offset are those of the glyphs.** -/
theorem extractSignature_eq (lines : List Text) (start maxLines : Nat) :
    extractSignature lines start maxLines =
      pure (DeclDocs.extractSignature lines start maxLines) := by
  rw [extractSignature, DeclDocs.extractSignature]
  split
  · rfl
  · have hparts := signatureParts_eq {} {} ((lines.drop start).take (max 1 maxLines))
    change signatureParts {} {} _ = _ at hparts
    simp only [hparts, pure_bind]

end Offsets

end DeclDocs
