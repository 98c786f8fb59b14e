import DeclDocs.Text.Basic

/-!
# Glyphs

A scanned line is a list of glyphs: the characters that are left once comments are gone, each
marked as code or as content of a literal.  Two texts are read off it.  The *code* keeps literals
as they are written; the *skeleton* blanks their contents with one space per byte of the UTF-8
encoding, so that the two texts have the same encoded length and every delimiter stands at the
same offset in both.
-/

namespace DeclDocs

/-- A character of a scanned line. -/
structure Glyph where
  /-- The character as written. -/
  char : Char
  /-- The character is content of a string or character literal; quotes are not. -/
  masked : Bool
deriving DecidableEq, Repr

namespace Glyph

/-- A character outside literals. -/
def code (c : Char) : Glyph := ⟨c, false⟩

/-- A character of a literal's content. -/
def literal (c : Char) : Glyph := ⟨c, true⟩

/-- The character where it is code and a space where it is literal content. -/
def shown (g : Glyph) : Char :=
  if g.masked then ' ' else g.char

/-- The glyph as it appears in the skeleton. -/
def skeletonPart (g : Glyph) : Text :=
  if g.masked then List.replicate g.char.utf8Size ' ' else [g.char]

end Glyph

/-- The text of the glyphs, literals kept. -/
def codeOf (glyphs : List Glyph) : Text :=
  glyphs.map Glyph.char

/-- The text of the glyphs, the contents of literals blanked. -/
def skeletonOf (glyphs : List Glyph) : Text :=
  glyphs.flatMap Glyph.skeletonPart

theorem skeletonOf_cons (g : Glyph) (gs : List Glyph) :
    skeletonOf (g :: gs) = g.skeletonPart ++ skeletonOf gs :=
  List.flatMap_cons

/-- How many glyphs are the character `c` outside literals. -/
def countCode (c : Char) (glyphs : List Glyph) : Nat :=
  glyphs.countP fun g => g.shown == c

/-- Only the blanks of literals are added in the skeleton. -/
theorem count_skeletonOf {c : Char} (hspace : c ≠ ' ') (glyphs : List Glyph) :
    (skeletonOf glyphs).count c = countCode c glyphs := by
  induction glyphs with
  | nil => rfl
  | cons g gs ih =>
    have hpart : g.skeletonPart.count c = if g.shown == c then 1 else 0 := by
      rw [Glyph.skeletonPart, Glyph.shown]
      split
      · simp [List.count_replicate, hspace.symm]
      · simp [List.count_singleton]
    rw [skeletonOf_cons, List.count_append, ih, hpart, countCode, countCode, List.countP_cons,
      Nat.add_comm]

end DeclDocs
