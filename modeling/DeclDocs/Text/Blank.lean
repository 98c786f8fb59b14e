import DeclDocs.Text.Basic

/-!
# Blanks

A blank is a character of the Unicode property White_Space.  Trimming, splitting into words and
squeezing runs of blanks all use this one class, so a no-break space or a line separator counts
and a zero-width space or a byte order mark does not.
-/

namespace DeclDocs

/-- The character has the property White_Space. -/
def isBlank (c : Char) : Bool :=
  let n := c.toNat
  (9 ≤ n && n ≤ 13) || n == 0x20 || n == 0x85 || n == 0xa0 || n == 0x1680 ||
    (0x2000 ≤ n && n ≤ 0x200a) || n == 0x2028 || n == 0x2029 || n == 0x202f || n == 0x205f ||
    n == 0x3000

namespace Text

/-- The text without the blanks at its beginning. -/
def trimStart (text : Text) : Text :=
  text.dropWhile isBlank

/-- The text without the blanks at its end. -/
def trimEnd (text : Text) : Text :=
  text.dropEndWhile isBlank

/-- The text without the blanks around it. -/
def trim (text : Text) : Text :=
  trimEnd (trimStart text)

/-- Every character of the text is a blank. -/
def isBlankText (text : Text) : Bool :=
  text.all isBlank

/-- The maximal runs of characters other than blanks. -/
def words (text : Text) : List Text :=
  (split isBlank text).filter fun word => !word.isEmpty

/-- The words of the text with one space between neighbours. -/
def squeeze (text : Text) : Text :=
  join [' '] text.words

/-- The text in front of its first blank and the text behind that blank. -/
def cutBlank? : Text → Option (Text × Text)
  | [] => none
  | c :: cs =>
    if isBlank c then some ([], cs)
    else (cutBlank? cs).map fun (before, rest) => (c :: before, rest)

/-- The text in front of its last blank and the text behind that blank. -/
def cutLastBlank? : Text → Option (Text × Text)
  | [] => none
  | c :: cs =>
    match cutLastBlank? cs with
    | some (before, rest) => some (c :: before, rest)
    | none => if isBlank c then some ([], cs) else none

end Text

end DeclDocs
