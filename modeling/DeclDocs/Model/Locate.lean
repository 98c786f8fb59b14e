import DeclDocs.Model.Basic

/-!
# The record at a line

Records that take up stretches of lines, sorted by their first line, are searched by bisection: the
last record that starts at or above the line is the only candidate, and it counts if the line is
not below its end.

* `bisect`: how many records in front satisfy a predicate.
* `locateEnclosing`: the record at a line.
-/

namespace DeclDocs

/-- A record that takes up a stretch of lines, both ends included. -/
class LineSpan (α : Type) where
  startLine : α → UInt32
  endLine : α → UInt32

instance : LineSpan MethodDoc := ⟨MethodDoc.startLine, MethodDoc.endLine⟩

/-- A field takes up its own line. -/
instance : LineSpan FieldDoc := ⟨FieldDoc.startLine, FieldDoc.startLine⟩

/-- An enum constant takes up its own line. -/
instance : LineSpan EnumConstantDoc := ⟨EnumConstantDoc.startLine, EnumConstantDoc.startLine⟩

/-- A pair of line numbers is a stretch of lines. -/
instance : LineSpan (UInt32 × UInt32) := ⟨Prod.fst, Prod.snd⟩

/-- The predicate holds of the record at an index. -/
def holdsAt {α : Type} (p : α → Bool) (records : List α) (index : Nat) : Bool :=
  (records[index]?).any p

/-- Narrows the stretch of `size` records from `base` on by halves until one record is left; each
round asks the record in the middle.  `fuel` bounds the number of rounds. -/
def bisectFrom {α : Type} (p : α → Bool) (records : List α) : (fuel base size : Nat) → Nat
  | 0, base, _ => base
  | fuel + 1, base, size =>
    if size ≤ 1 then base
    else
      let half := size / 2
      let base := if holdsAt p records (base + half) then base + half else base
      bisectFrom p records fuel base (size - half)

/-- How many records in front satisfy the predicate, when those that satisfy it come first. -/
def bisect {α : Type} (p : α → Bool) (records : List α) : Nat :=
  if records.isEmpty then 0
  else
    let base := bisectFrom p records records.length 0 records.length
    if holdsAt p records base then base + 1 else base

/-- The record whose stretch of lines has the line in it, among records sorted by first line. -/
def locateEnclosing {α : Type} [LineSpan α] (records : List α) (line : UInt32) : Option α :=
  match records.head?, records.getLast? with
  | some first, some last =>
    if line < LineSpan.startLine first || LineSpan.endLine last < line then none
    else
      match bisect (fun record => LineSpan.startLine record ≤ line) records with
      | 0 => none
      | index + 1 => (records[index]?).filter fun record => line ≤ LineSpan.endLine record
  | _, _ => none

end DeclDocs
