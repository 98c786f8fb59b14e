import DeclDocs.Text.Addition
import DeclDocs.Text.Alphabetic
import DeclDocs.Text.Decimal
import DeclDocs.Text.Numeral
import DeclDocs.Text.Joiner
import DeclDocs.Text.Basic

/-!
# Characters of words

Three classes of characters that make up words:

* `isAlphanumeric`: letters and numerals of any script;
* `isWordChar`: letters, decimal digits, combining marks, connectors and join controls;
* `isIdentifierChar`: ASCII letters and digits, `_` and `$`.

The first two differ: `²` is a numeral and no word character, while `_` and a combining acute
accent are word characters and no numerals.  Letters and numerals are those of Unicode version
17.0, word characters those of version 16.0.
-/

namespace DeclDocs

/-- The code point lies in one of the ranges. -/
def inRanges (n : Nat) (ranges : List (Nat × Nat)) : Bool :=
  ranges.any fun (low, high) => low ≤ n && n ≤ high

/-- A letter or numeral: the property Alphabetic or a number category. -/
def isAlphanumeric (c : Char) : Bool :=
  if c.toNat < 128 then c.isAlphanum
  else
    inRanges c.toNat alphabeticRanges || inRanges c.toNat decimalRanges ||
      inRanges c.toNat numeralRanges || inRanges c.toNat addedRanges

/-- A letter, decimal digit, combining mark, connector or join control. -/
def isWordChar (c : Char) : Bool :=
  if c.toNat < 128 then c.isAlphanum || c == '_'
  else
    inRanges c.toNat alphabeticRanges || inRanges c.toNat decimalRanges ||
      inRanges c.toNat joinerRanges

/-- A character of an identifier in the documented languages: ASCII only. -/
def isIdentifierChar (c : Char) : Bool :=
  c.isAlphanum || c == '_' || c == '$'

/-- A word character or `$`. -/
def isNameChar (c : Char) : Bool :=
  isWordChar c || c == '$'

namespace Text

/-- The maximal runs of letters, numerals, `_` and `$`. -/
def keywords (text : Text) : List Text :=
  (split (fun c => !(isAlphanumeric c || c == '_' || c == '$')) text).filter fun word =>
    !word.isEmpty

end Text

end DeclDocs
