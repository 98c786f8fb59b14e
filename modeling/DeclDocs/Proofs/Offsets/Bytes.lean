import DeclDocs.Proofs.Text.Marks

/-!
# Byte offsets

Text that is kept in UTF-8 is cut at byte offsets.  A cut has a result only at a character boundary
inside the text, an index only inside its list, and a difference only where it is not negative.
The operations of this module check these conditions and report a fault where one fails.

* `Text.utf8`, `Text.byteLength`: the encoding of a text.
* `Text.cutAt`: a text cut at a byte offset; `Text.cutAt_eq_ok_iff` says where that has a result.
* `Text.findByte`, `Text.findMark`, `Text.findLastMark`: offsets at which something is found, each
  with the cut that it stands for.
-/

namespace DeclDocs

/-! ## §1 Faults -/

/-- Why an operation on offsets or indices has no result. -/
inductive Fault where
  /-- An offset or index lies beyond the end, or a range ends before it begins. -/
  | outOfRange
  /-- An offset lies inside the encoding of a character. -/
  | insideCharacter
  /-- A difference is negative. -/
  | belowZero
  /-- A loop does not come to its end. -/
  | endless
deriving DecidableEq, Repr

/-- A result, unless a fault comes first. -/
abbrev Checked (α : Type) : Type := Except Fault α

namespace Checked

/-- The difference of two natural numbers. -/
def minus (a b : Nat) : Checked Nat :=
  if b ≤ a then pure (a - b) else throw .belowZero

/-- The item at an index. -/
def item {α : Type} (items : List α) (index : Nat) : Checked α :=
  match items[index]? with
  | some a => pure a
  | none => throw .outOfRange

/-- The items from index `start` up to index `stop`. -/
def items {α : Type} (all : List α) (start stop : Nat) : Checked (List α) :=
  if start ≤ stop ∧ stop ≤ all.length then pure ((all.take stop).drop start)
  else throw .outOfRange

theorem minus_eq {a b : Nat} (h : b ≤ a) : minus a b = pure (a - b) :=
  if_pos h

theorem minus_add (a b : Nat) : minus (a + b) b = pure a := by
  rw [minus_eq (Nat.le_add_left b a), Nat.add_sub_cancel]

theorem item_eq {α : Type} {all : List α} {index : Nat} {a : α} (h : all[index]? = some a) :
    item all index = pure a := by
  rw [item, h]

theorem items_eq {α : Type} {all : List α} {start stop : Nat} (hstart : start ≤ stop)
    (hstop : stop ≤ all.length) : items all start stop = pure ((all.take stop).drop start) :=
  if_pos ⟨hstart, hstop⟩

end Checked

namespace Text

/-! ## §2 Encoded text -/

/-- The bytes of the text in UTF-8. -/
def utf8 (text : Text) : List UInt8 :=
  text.flatMap String.utf8EncodeChar

/-- The number of bytes of the text in UTF-8. -/
def byteLength (text : Text) : Nat :=
  text.utf8.length

theorem utf8_append (front back : Text) : utf8 (front ++ back) = utf8 front ++ utf8 back :=
  List.flatMap_append

theorem utf8_cons (c : Char) (cs : Text) : utf8 (c :: cs) = String.utf8EncodeChar c ++ utf8 cs :=
  List.flatMap_cons

@[simp] theorem byteLength_nil : byteLength [] = 0 := rfl

@[simp] theorem byteLength_cons (c : Char) (cs : Text) :
    byteLength (c :: cs) = c.utf8Size + byteLength cs := by
  rw [byteLength, utf8_cons, List.length_append, String.length_utf8EncodeChar, byteLength]

@[simp] theorem byteLength_append (front back : Text) :
    byteLength (front ++ back) = byteLength front + byteLength back := by
  rw [byteLength, utf8_append, List.length_append, byteLength, byteLength]

theorem byteLength_eq_zero_iff {text : Text} : text.byteLength = 0 ↔ text = [] := by
  cases text with
  | nil => simp
  | cons c cs =>
    have hpos := c.utf8Size_pos
    rw [byteLength_cons]
    exact ⟨fun h => absurd h (by omega), nofun⟩

/-- A character of ASCII is one byte. -/
theorem utf8EncodeChar_ascii {c : Char} (h : c.val ≤ 127) :
    String.utf8EncodeChar c = [c.toUInt8] :=
  String.utf8EncodeChar_eq_singleton (Char.utf8Size_eq_one_iff.mpr h)

/-- The bytes of other characters are not in ASCII. -/
theorem lt_of_mem_utf8EncodeChar {c : Char} (h : ¬ c.val ≤ 127) {byte : UInt8}
    (hbyte : byte ∈ String.utf8EncodeChar c) : 127 < byte.toNat := by
  have hval : ¬ c.val.toNat ≤ 127 := h
  simp only [String.utf8EncodeChar, if_neg hval] at hbyte
  split at hbyte
  · simp only [List.mem_cons, List.not_mem_nil, or_false] at hbyte
    rcases hbyte with rfl | rfl <;> simp only [UInt8.toNat_ofNat'] <;> omega
  · split at hbyte
    · simp only [List.mem_cons, List.not_mem_nil, or_false] at hbyte
      rcases hbyte with rfl | rfl | rfl <;> simp only [UInt8.toNat_ofNat'] <;> omega
    · simp only [List.mem_cons, List.not_mem_nil, or_false] at hbyte
      rcases hbyte with rfl | rfl | rfl | rfl <;> simp only [UInt8.toNat_ofNat'] <;> omega

/-! ## §3 Cuts -/

/-- The text in front of a byte offset and the text from it on. -/
def cutAt : (offset : Nat) → Text → Checked (Text × Text)
  | 0, text => pure ([], text)
  | _ + 1, [] => throw .outOfRange
  | offset + 1, c :: cs =>
    if c.utf8Size ≤ offset + 1 then do
      let (front, rest) ← cutAt (offset + 1 - c.utf8Size) cs
      pure (c :: front, rest)
    else throw .insideCharacter

/-- The text from a byte offset on. -/
def fromByte (text : Text) (offset : Nat) : Checked Text := do
  let (_, rest) ← cutAt offset text
  pure rest

/-- The text in front of a byte offset. -/
def upToByte (text : Text) (offset : Nat) : Checked Text := do
  let (front, _) ← cutAt offset text
  pure front

/-- The text between two byte offsets. -/
def slice (text : Text) (start stop : Nat) : Checked Text :=
  if start ≤ stop then do
    let front ← text.upToByte stop
    front.fromByte start
  else throw .outOfRange

theorem cutAt_byteLength (front rest : Text) :
    cutAt front.byteLength (front ++ rest) = pure (front, rest) := by
  induction front with
  | nil => cases rest <;> rfl
  | cons c front ih =>
    have hpos := c.utf8Size_pos
    obtain ⟨offset, hoffset⟩ : ∃ offset, byteLength (c :: front) = offset + 1 :=
      ⟨c.utf8Size + byteLength front - 1, by rw [byteLength_cons]; omega⟩
    rw [byteLength_cons] at hoffset
    have hrest : offset + 1 - c.utf8Size = byteLength front := by omega
    rw [byteLength_cons, hoffset, List.cons_append, cutAt, if_pos (by omega), hrest, ih, pure_bind]

/-- **A text is cut exactly at its character boundaries.** -/
theorem cutAt_eq_ok_iff {text front rest : Text} {offset : Nat} :
    cutAt offset text = .ok (front, rest) ↔
      text = front ++ rest ∧ offset = front.byteLength := by
  constructor
  · intro h
    fun_induction cutAt offset text generalizing front with
    | case1 text =>
      obtain ⟨rfl, rfl⟩ := Prod.mk.inj (Except.ok.inj h)
      exact ⟨rfl, rfl⟩
    | case2 => cases h
    | case3 offset c cs hsize ih =>
      cases hcut : cutAt (offset + 1 - c.utf8Size) cs with
      | error fault =>
        rw [hcut] at h
        cases h
      | ok parts =>
        obtain ⟨inner, last⟩ := parts
        rw [hcut] at h
        obtain ⟨rfl, rfl⟩ := Prod.mk.inj (Except.ok.inj h)
        obtain ⟨hcs, hoffset⟩ := ih hcut
        refine ⟨by rw [hcs, List.cons_append], ?_⟩
        rw [byteLength_cons]
        omega
    | case4 => cases h
  · rintro ⟨rfl, rfl⟩
    exact cutAt_byteLength front rest

@[simp] theorem fromByte_append (front rest : Text) :
    (front ++ rest).fromByte front.byteLength = pure rest := by
  rw [fromByte, cutAt_byteLength, pure_bind]

@[simp] theorem upToByte_append (front rest : Text) :
    (front ++ rest).upToByte front.byteLength = pure front := by
  rw [upToByte, cutAt_byteLength, pure_bind]

/-- The cut behind a character of one byte. -/
theorem cutAt_behind {c : Char} (hc : c.utf8Size = 1) (front rest : Text) :
    cutAt (front.byteLength + 1) (front ++ c :: rest) = pure (front ++ [c], rest) := by
  have hoffset : (front ++ [c]).byteLength = front.byteLength + 1 := by
    simp [hc]
  have hcut := cutAt_byteLength (front ++ [c]) rest
  rwa [hoffset, ← List.append_cons] at hcut

theorem fromByte_behind {c : Char} (hc : c.utf8Size = 1) (front rest : Text) :
    (front ++ c :: rest).fromByte (front.byteLength + 1) = pure rest := by
  rw [fromByte, cutAt_behind hc, pure_bind]

theorem upToByte_behind {c : Char} (hc : c.utf8Size = 1) (front rest : Text) :
    (front ++ c :: rest).upToByte (front.byteLength + 1) = pure (front ++ [c]) := by
  rw [upToByte, cutAt_behind hc, pure_bind]

theorem slice_append (front middle rest : Text) :
    (front ++ middle ++ rest).slice front.byteLength (front ++ middle).byteLength =
      pure middle := by
  rw [slice, if_pos (by rw [byteLength_append]; omega), upToByte_append, pure_bind,
    fromByte_append]

/-- A cut inside a character is a fault. -/
example : cutAt 2 "aé(".toList = .error .insideCharacter := by decide

/-! ## §4 Searches -/

/-- The byte offset of the first character that satisfies `p`. -/
def findByte (p : Char → Bool) : Text → Option Nat
  | [] => none
  | c :: cs => if p c then some 0 else (findByte p cs).map (c.utf8Size + ·)

/-- The byte offset of the first occurrence of `mark`. -/
def findMark (text mark : Text) : Option Nat :=
  match text with
  | [] => if mark.isEmpty then some 0 else none
  | c :: cs =>
    if startsWith (c :: cs) mark then some 0 else (findMark cs mark).map (c.utf8Size + ·)

/-- The byte offset of the last occurrence of `mark`. -/
def findLastMark (text mark : Text) : Option Nat :=
  match text with
  | [] => if mark.isEmpty then some 0 else none
  | c :: cs =>
    match findLastMark cs mark with
    | some offset => some (c.utf8Size + offset)
    | none => if startsWith (c :: cs) mark then some 0 else none

/-- The offset of the first character of a class, or the end of the text. -/
theorem findByte_getD (p : Char → Bool) (text : Text) :
    (findByte p text).getD text.byteLength = byteLength (text.takeWhile fun c => !p c) := by
  induction text with
  | nil => rfl
  | cons c cs ih =>
    by_cases hc : p c
    · simp [findByte, hc]
    · rw [findByte, if_neg hc, List.takeWhile_cons_of_pos (by simpa using hc), byteLength_cons,
        byteLength_cons, ← ih]
      cases findByte p cs <;> rfl

theorem findMark_eq (text mark : Text) :
    findMark text mark = (cut? text mark).map fun (before, _) => before.byteLength := by
  induction text with
  | nil =>
    rw [findMark, cut?]
    cases mark <;> rfl
  | cons c cs ih =>
    rw [findMark, cut?_cons, startsWith]
    cases after? (c :: cs) mark with
    | some rest => rfl
    | none =>
      rw [ih]
      cases cut? cs mark with
      | none => rfl
      | some parts => simp

theorem findLastMark_eq (text mark : Text) :
    findLastMark text mark = (cutLast? text mark).map fun (before, _) => before.byteLength := by
  induction text with
  | nil =>
    rw [findLastMark, cutLast?]
    cases mark <;> rfl
  | cons c cs ih =>
    rw [findLastMark, ih, cutLast?, startsWith]
    cases cutLast? cs mark with
    | some parts => simp
    | none => cases after? (c :: cs) mark <;> rfl

end Text

end DeclDocs
