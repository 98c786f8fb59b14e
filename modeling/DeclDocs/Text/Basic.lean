/-!
# Text

Text is a list of characters.  Everything the library reads (source lines, comments, signatures,
symbol dumps, settings files) is consumed from the left one character at a time, so text is kept
as a list throughout and becomes a `String` only where a program prints it.

* `Text.after?`, `Text.cut?`, `Text.cutLast?`: a mark at the beginning, its first and its last
  occurrence.
* `Text.split`: the pieces between separating characters, empty pieces included.
* `Text.lines`: the lines of a document.
* `Text.strip`: repeats a step that takes something off the front for as long as it applies.
-/

namespace DeclDocs

/-- Text, read from the left. -/
abbrev Text := List Char

instance : Coe String Text := ⟨String.toList⟩

namespace Text

/-! ## §1 Marks -/

/-- What follows `mark` when the text begins with it. -/
def after? : (text mark : Text) → Option Text
  | text, [] => some text
  | [], _ :: _ => none
  | c :: text, m :: mark => if c = m then after? text mark else none

/-- The text begins with `mark`. -/
def startsWith (text mark : Text) : Bool :=
  (text.after? mark).isSome

/-- The text in front of the first occurrence of `mark`, and the text behind it. -/
def cut? (text mark : Text) : Option (Text × Text) :=
  match after? text mark with
  | some rest => some ([], rest)
  | none =>
    match text with
    | [] => none
    | c :: cs => (cut? cs mark).map fun (before, rest) => (c :: before, rest)

/-- The text in front of the last occurrence of `mark`, and the text behind it. -/
def cutLast? (text mark : Text) : Option (Text × Text) :=
  match text with
  | [] => (after? [] mark).map fun rest => ([], rest)
  | c :: cs =>
    match cutLast? cs mark with
    | some (before, rest) => some (c :: before, rest)
    | none => (after? (c :: cs) mark).map fun rest => ([], rest)

/-- The text has `mark` somewhere. -/
def has (text mark : Text) : Bool :=
  (text.cut? mark).isSome

/-- What stands in front of `mark` when the text ends with it. -/
def before? (text mark : Text) : Option Text :=
  (after? text.reverse mark.reverse).map List.reverse

/-- The text ends with `mark`. -/
def endsWith (text mark : Text) : Bool :=
  (text.before? mark).isSome

/-- The text without the characters at its end that satisfy `p`. -/
def dropEndWhile (p : Char → Bool) (text : Text) : Text :=
  (text.reverse.dropWhile p).reverse

/-! ## §2 Pieces -/

/-- The pieces between the characters that satisfy `p`, empty pieces included: always one more
than there are such characters. -/
def split (p : Char → Bool) : Text → List Text
  | [] => [[]]
  | c :: cs =>
    if p c then [] :: split p cs
    else
      match split p cs with
      | [] => [[c]]
      | piece :: pieces => (c :: piece) :: pieces

/-- The pieces with `separator` between neighbours. -/
def join (separator : Text) (pieces : List Text) : Text :=
  List.intercalate separator pieces

/-- The piece in front of the first `c`: all of the text when there is none. -/
def upTo (c : Char) (text : Text) : Text :=
  text.takeWhile (· != c)

/-- A line without one carriage return at its end. -/
def dropReturn (line : Text) : Text :=
  (line.before? ['\r']).getD line

/-- Closes the pieces between line feeds: a carriage return in front of a line feed belongs to the
line break, and a line feed at the very end opens no further line. -/
def closeLines : List Text → List Text
  | [] => []
  | [last] => if last.isEmpty then [] else [last]
  | line :: rest => dropReturn line :: closeLines rest

/-- The lines of a document. -/
def lines (text : Text) : List Text :=
  closeLines (split (· == '\n') text)

/-! ## §3 Repeated steps -/

/-- Applies `step` until it no longer applies, at most `fuel` times. -/
def iterate (step : Text → Option Text) : (fuel : Nat) → Text → Text
  | 0, text => text
  | fuel + 1, text =>
    match step text with
    | some rest => iterate step fuel rest
    | none => text

/-- Applies `step` until it no longer applies.  A step that shortens the text can be taken at most
once per character. -/
def strip (step : Text → Option Text) (text : Text) : Text :=
  iterate step text.length text

/-- Steps beyond the length of the text change nothing when every step shortens it. -/
theorem iterate_eq_strip {step : Text → Option Text}
    (shorter : ∀ text rest, step text = some rest → rest.length < text.length) :
    ∀ (fuel : Nat) (text : Text), text.length ≤ fuel →
      iterate step fuel text = strip step text := by
  intro fuel
  induction fuel using Nat.strongRecOn with
  | ind fuel ih =>
    intro text hle
    rw [strip]
    cases hs : step text with
    | none =>
      -- the step does not apply, so both sides stop at once
      cases fuel <;> cases h : text.length <;> simp [iterate, hs]
    | some rest =>
      have hlt := shorter text rest hs
      obtain ⟨n, hn⟩ : ∃ n, text.length = n + 1 := ⟨text.length - 1, by omega⟩
      obtain ⟨m, rfl⟩ : ∃ m, fuel = m + 1 := ⟨fuel - 1, by omega⟩
      rw [hn]
      simp only [iterate, hs]
      rw [ih m (by omega) rest (by omega)]
      by_cases hnm : n = m
      · rw [hnm, ih m (by omega) rest (by omega)]
      · rw [ih n (by omega) rest (by omega)]

/-- Stripping takes one step and goes on with what is left. -/
theorem strip_eq {step : Text → Option Text}
    (shorter : ∀ text rest, step text = some rest → rest.length < text.length) (text : Text) :
    strip step text = match step text with
      | some rest => strip step rest
      | none => text := by
  cases hs : step text with
  | none => cases h : text.length <;> simp [strip, iterate, h, hs]
  | some rest =>
    have hlt := shorter text rest hs
    obtain ⟨n, hn⟩ : ∃ n, text.length = n + 1 := ⟨text.length - 1, by omega⟩
    simp only [strip, hn, iterate, hs]
    exact iterate_eq_strip shorter n rest (by omega)

end Text

end DeclDocs
