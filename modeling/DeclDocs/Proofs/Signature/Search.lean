import DeclDocs.Proofs.Lexical.Reading
import DeclDocs.Signature.Extract

/-!
# The search for the end of a parameter list

The search reads glyph after glyph and line after line.  Where it does not end it keeps all that it
has read and goes on with what it remembers, so that what it reads can be taken apart at any glyph
and at the end of any line.

* `ParenWatch.readLine_append_of_some`, `ParenWatch.readLine_append_of_none`: glyphs in two parts.
* `ParenWatch.readLines`: what the search remembers behind lines.
* `signatureParts_append_of_some`, `signatureParts_append_of_none`: lines in two parts.
* `signatureParts_congr_line`: a line counts only as the scanner reads it.
* `extractSignature_eq_ok`: the signature at a line of the document.
-/

namespace DeclDocs

/-! ## §1 Glyphs -/

namespace ParenWatch

variable {watch next : ParenWatch}

theorem readLine_cons {glyph : Glyph} (h : watch.step glyph.shown = some next)
    (rest : List Glyph) :
    watch.readLine (glyph :: rest) = (glyph :: (next.readLine rest).1, (next.readLine rest).2) := by
  rw [readLine, h]

theorem readLine_cons_of_none {glyph : Glyph} (h : watch.step glyph.shown = none)
    (rest : List Glyph) : watch.readLine (glyph :: rest) = ([glyph], none) := by
  rw [readLine, h]

/-- A search that goes on behind the glyphs has kept all of them and reads on from there. -/
theorem readLine_append_of_some {front : List Glyph} (h : (watch.readLine front).2 = some next)
    (back : List Glyph) :
    watch.readLine (front ++ back) = (front ++ (next.readLine back).1, (next.readLine back).2) := by
  induction front generalizing watch with
  | nil =>
    obtain rfl : watch = next := Option.some.inj h
    rfl
  | cons glyph front ih =>
    cases hstep : watch.step glyph.shown with
    | none =>
      rw [readLine_cons_of_none hstep] at h
      simp at h
    | some between =>
      rw [readLine_cons hstep] at h
      rw [List.cons_append, readLine_cons hstep, ih h]
      rfl

private theorem readLine_eq_self {glyphs : List Glyph} (h : (watch.readLine glyphs).2 = some next) :
    (watch.readLine glyphs).1 = glyphs := by
  have happend := readLine_append_of_some h []
  rw [List.append_nil] at happend
  rw [happend]
  exact List.append_nil glyphs

/-- A search that has ended reads nothing more. -/
theorem readLine_append_of_none {front : List Glyph} (h : (watch.readLine front).2 = none)
    (back : List Glyph) : watch.readLine (front ++ back) = watch.readLine front := by
  induction front generalizing watch with
  | nil => simp [readLine] at h
  | cons glyph front ih =>
    cases hstep : watch.step glyph.shown with
    | none => rw [List.cons_append, readLine_cons_of_none hstep, readLine_cons_of_none hstep]
    | some between =>
      rw [readLine_cons hstep] at h
      rw [List.cons_append, readLine_cons hstep, readLine_cons hstep, ih h]

theorem readLine_isPrefix (watch : ParenWatch) (glyphs : List Glyph) :
    (watch.readLine glyphs).1 <+: glyphs := by
  induction glyphs generalizing watch with
  | nil => exact List.prefix_refl []
  | cons glyph glyphs ih =>
    cases hstep : watch.step glyph.shown with
    | none =>
      rw [readLine_cons_of_none hstep]
      exact ⟨glyphs, rfl⟩
    | some next =>
      rw [readLine_cons hstep]
      exact List.prefix_cons_inj glyph |>.mpr (ih next)

/-- What the search remembers behind the lines; `none` when the parameter list ends in them. -/
def readLines (watch : ParenWatch) (state : ScanState) : List Text → Option ParenWatch
  | [] => some watch
  | line :: lines =>
    (watch.readLine (state.scan line).glyphs).2.bind fun next =>
      next.readLines (state.scan line).state lines

theorem readLines_append (watch : ParenWatch) (state : ScanState) (lines more : List Text) :
    watch.readLines state (lines ++ more) =
      (watch.readLines state lines).bind (·.readLines (stateAfter state lines) more) := by
  induction lines generalizing watch state with
  | nil => rfl
  | cons line lines ih =>
    rw [List.cons_append, readLines, readLines, Option.bind_assoc]
    exact Option.bind_congr fun next _ => ih next _

theorem readLines_singleton (watch : ParenWatch) (state : ScanState) (line : Text) :
    watch.readLines state [line] = (watch.readLine (state.scan line).glyphs).2 :=
  Option.bind_fun_some _

end ParenWatch

/-! ## §2 Lines -/

section Parts

variable {watch next : ParenWatch} {state : ScanState} {line : Text}

theorem signatureParts_cons_of_some
    (h : (watch.readLine (state.scan line).glyphs).2 = some next) (lines : List Text) :
    signatureParts watch state (line :: lines) =
      (state.scan line).code :: signatureParts next (state.scan line).state lines := by
  have hkept := ParenWatch.readLine_eq_self h
  rw [signatureParts]
  split
  case h_1 kept hread => simp [hread] at h
  case h_2 kept after hread =>
    rw [hread] at h hkept
    obtain rfl : after = next := Option.some.inj h
    obtain rfl : kept = (state.scan line).glyphs := hkept
    rfl

theorem signatureParts_cons_of_none (h : (watch.readLine (state.scan line).glyphs).2 = none)
    (lines : List Text) :
    signatureParts watch state (line :: lines) =
      [codeOf (watch.readLine (state.scan line).glyphs).1] := by
  rw [signatureParts]
  split
  case h_1 kept hread => rw [hread]
  case h_2 kept after hread => simp [hread] at h

theorem signatureParts_ne_nil (watch : ParenWatch) (state : ScanState) (line : Text)
    (lines : List Text) : signatureParts watch state (line :: lines) ≠ [] := by
  cases h : (watch.readLine (state.scan line).glyphs).2 with
  | none =>
    rw [signatureParts_cons_of_none h]
    simp
  | some next =>
    rw [signatureParts_cons_of_some h]
    simp

/-- A search that goes on behind the lines reads the further lines from there. -/
theorem signatureParts_append_of_some {lines : List Text}
    (h : watch.readLines state lines = some next) (more : List Text) :
    signatureParts watch state (lines ++ more) =
      signatureParts watch state lines ++ signatureParts next (stateAfter state lines) more := by
  induction lines generalizing watch state with
  | nil =>
    obtain rfl : watch = next := Option.some.inj h
    rfl
  | cons line lines ih =>
    obtain ⟨between, hline, hrest⟩ := Option.bind_eq_some_iff.mp h
    rw [List.cons_append, signatureParts_cons_of_some hline, signatureParts_cons_of_some hline,
      ih hrest]
    rfl

/-- A search that ends in the lines does not look at further ones. -/
theorem signatureParts_append_of_none {lines : List Text}
    (h : watch.readLines state lines = none) (more : List Text) :
    signatureParts watch state (lines ++ more) = signatureParts watch state lines := by
  induction lines generalizing watch state with
  | nil => simp [ParenWatch.readLines] at h
  | cons line lines ih =>
    rw [List.cons_append]
    cases hline : (watch.readLine (state.scan line).glyphs).2 with
    | none => rw [signatureParts_cons_of_none hline, signatureParts_cons_of_none hline]
    | some between =>
      rw [ParenWatch.readLines, hline] at h
      rw [signatureParts_cons_of_some hline, signatureParts_cons_of_some hline, ih h]

/-- A line counts only as the scanner reads it. -/
theorem signatureParts_congr_line (watch : ParenWatch) {state : ScanState} {above : List Text}
    {line other : Text}
    (h : (stateAfter state above).scan line = (stateAfter state above).scan other)
    (below : List Text) :
    signatureParts watch state (above ++ line :: below) =
      signatureParts watch state (above ++ other :: below) := by
  induction above generalizing watch state with
  | nil =>
    change state.scan line = state.scan other at h
    rw [List.nil_append, List.nil_append, signatureParts, signatureParts, h]
  | cons first above ih =>
    rw [List.cons_append, List.cons_append]
    cases hline : (watch.readLine (state.scan first).glyphs).2 with
    | none => rw [signatureParts_cons_of_none hline, signatureParts_cons_of_none hline]
    | some next =>
      rw [signatureParts_cons_of_some hline, signatureParts_cons_of_some hline, ih next h]

end Parts

/-- A signature is extracted at every line of the document. -/
theorem extractSignature_eq_ok {lines : List Text} {start : Nat} (hstart : start < lines.length)
    (limit : Nat) : extractSignature lines start limit = .ok (Text.squeeze
      (Text.join [' '] (signatureParts {} {} ((lines.drop start).take (max 1 limit))))) := by
  rw [extractSignature, if_neg (Nat.not_le_of_lt hstart)]

end DeclDocs
