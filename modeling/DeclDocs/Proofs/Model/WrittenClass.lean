import DeclDocs.Proofs.Comment.GapLines
import DeclDocs.Proofs.Comment.Written
import DeclDocs.Proofs.Signature.Extraction

/-!
# Classes as they are written

A class written line by line: each of its methods has a documentation comment, lines of blanks and
annotations below it, a declaration on one line and a closing brace.  Every line may be indented.

* `WrittenMethod`, `WrittenClass`: methods and classes, with their lines.
* `WrittenMethod.StandsAt`: a method with its declaration on a line of a document.
* `standsAt_of_mem_placed`: where the methods of a class stand.
-/

namespace DeclDocs

/-! ## §1 Methods and classes -/

/-- A method with its comment. -/
structure WrittenMethod where
  doc : WrittenDoc
  /-- The lines between the comment and the declaration. -/
  gap : List Text
  gapLines : ∀ line ∈ gap, IsGapLine line
  gapOneLine : ∀ line ∈ gap, '\n' ∉ line
  declaration : PlainDeclaration

namespace WrittenMethod

variable (method : WrittenMethod)

/-- The line of the declaration. -/
def declarationLine : Text :=
  method.declaration.text ++ " \x7b"

/-- The lines from the beginning of the comment to the closing brace. -/
def lines : List Text :=
  method.doc.lines ++ (method.gap ++ [method.declarationLine, ['\x7d']])

/-- How many lines stand above the declaration. -/
def depth : Nat :=
  method.doc.lines.length + method.gap.length

end WrittenMethod

/-- A class with its methods. -/
structure WrittenClass where
  name : Identifier
  methods : List WrittenMethod

namespace WrittenClass

variable (written : WrittenClass)

/-- `class Name` and the opening brace. -/
def openingLine : Text :=
  "class " ++ written.name.text ++ " \x7b"

/-- The lines of the class. -/
def lines : List Text :=
  written.openingLine :: (written.methods.flatMap WrittenMethod.lines ++ [['\x7d']])

/-- The text is the class with every line indented in some way; it may end with a line feed. -/
def IsText (text : Text) : Prop :=
  ∃ (lines : List Text) (closing : Text), List.Forall₂ Indented written.lines lines ∧
    (closing = [] ∨ closing = ['\n']) ∧ text = Text.join ['\n'] lines ++ closing

end WrittenClass

/-- The methods with the numbers of the lines of their declarations, when the first method begins on
line `first`. -/
def placed : (first : Nat) → List WrittenMethod → List (WrittenMethod × Nat)
  | _, [] => []
  | first, method :: methods =>
    (method, first + method.depth) :: placed (first + method.lines.length) methods

/-! ## §2 The lines of a class in a document -/

theorem PlainDeclaration.oneLine (declaration : PlainDeclaration) : '\n' ∉ declaration.text :=
  fun hmem => absurd (declaration.squeezed.spaces _ hmem (by decide)) (by decide)

private theorem WrittenMethod.isLine_declarationLine (method : WrittenMethod) :
    Text.IsLine method.declarationLine := by
  refine ⟨?_, Text.endsIn_append (by decide) _⟩
  unfold declarationLine
  rw [List.mem_append, not_or]
  exact ⟨method.declaration.oneLine, by decide⟩

private theorem isLine_brace : Text.IsLine ['\x7d'] :=
  ⟨by decide, by decide⟩

theorem WrittenMethod.oneLine (method : WrittenMethod) {line : Text} (h : line ∈ method.lines) :
    '\n' ∉ line := by
  simp only [lines, List.mem_append, List.mem_cons, List.not_mem_nil, or_false] at h
  rcases h with h | h | rfl | rfl
  · exact (method.doc.isLine h).oneLine
  · exact method.gapOneLine line h
  · exact method.isLine_declarationLine.oneLine
  · exact isLine_brace.oneLine

theorem WrittenClass.oneLine (written : WrittenClass) {line : Text} (h : line ∈ written.lines) :
    '\n' ∉ line := by
  simp only [lines, List.mem_cons, List.mem_append, List.mem_flatMap, List.not_mem_nil,
    or_false] at h
  rcases h with rfl | ⟨method, _, h⟩ | rfl
  · have hname : '\n' ∉ written.name.text := fun hmem =>
      absurd (written.name.chars _ hmem) (by decide)
    -- with the literals as lists of characters
    change '\n' ∉ "class ".toList ++ written.name.text ++ " \x7b".toList
    rw [List.mem_append, List.mem_append, not_or, not_or]
    exact ⟨⟨by decide, hname⟩, by decide⟩
  · exact method.oneLine h
  · exact isLine_brace.oneLine

/-- The lines of the text are the indented lines of the class, up to carriage returns. -/
theorem WrittenClass.exists_lines {written : WrittenClass} {text : Text} (h : written.IsText text) :
    ∃ lines, List.Forall₂ Indented written.lines lines ∧
      text.lines = lines.map Text.dropReturn := by
  obtain ⟨lines, closing, hlines, hclosing, rfl⟩ := h
  have honeLine : ∀ line ∈ lines, '\n' ∉ line :=
    forall_of_forall₂ hlines fun line hmem _ hindent => hindent.oneLine (written.oneLine hmem)
  refine ⟨lines, hlines, ?_⟩
  -- the last line is a brace, so the text does not end with a carriage return
  have hsplit : List.Forall₂ Indented ((written.openingLine ::
      written.methods.flatMap WrittenMethod.lines) ++ [['\x7d']]) lines := hlines
  obtain ⟨front, last, rfl, _, hlast⟩ := exists_append_of_forall₂ hsplit
  obtain ⟨brace, rest, hbrace, hnil, rfl⟩ := List.forall₂_cons_left_iff.mp hlast
  obtain rfl := List.forall₂_nil_left_iff.mp hnil
  exact Text.lines_join honeLine (hbrace.isLine isLine_brace).ends hclosing

/-! ## §3 Where methods stand -/

/-- The declaration of the method is on line `line` of the document, below its comment. -/
def WrittenMethod.StandsAt (method : WrittenMethod) (lines : List Text) (line : Nat) : Prop :=
  ∃ (above comment gap : List Text) (declaration : Text) (below : List Text),
    lines = above ++ (comment ++ (gap ++ declaration :: below)) ∧
    line = above.length + comment.length + gap.length ∧
    List.Forall₂ Indented method.doc.lines comment ∧
    (∀ line ∈ gap, IsGapLine line) ∧
    Indented method.declarationLine declaration

/-- A method stands where its lines begin, whatever surrounds them. -/
theorem WrittenMethod.standsAt_append (method : WrittenMethod) {own : List Text}
    (h : List.Forall₂ Indented method.lines own) (above below : List Text) :
    method.StandsAt (above ++ (own.map Text.dropReturn ++ below))
      (above.length + method.depth) := by
  -- the same four parts as in `WrittenMethod.lines`
  obtain ⟨comment, rest, rfl, hcomment, hrest⟩ := exists_append_of_forall₂ h
  obtain ⟨gap, end', rfl, hgap, hend⟩ := exists_append_of_forall₂ hrest
  obtain ⟨declaration, closing, hdeclaration, _, rfl⟩ := List.forall₂_cons_left_iff.mp hend
  have hkeep : comment.map Text.dropReturn = comment :=
    Text.map_dropReturn_of_isLine <| forall_of_forall₂ hcomment fun line hmem _ hindent =>
      hindent.isLine (method.doc.isLine hmem)
  -- only a gap line may lose a carriage return, and it stays a gap line
  have hgapLine : ∀ line ∈ gap, IsGapLine (Text.dropReturn line) := by
    refine forall_of_forall₂ hgap fun line hmem other hindent => ?_
    obtain ⟨blanks, hblanks, rfl⟩ := hindent
    exact ((method.gapLines line hmem).indent fun c hc => (hblanks c hc).1).dropReturn
  have hline : Text.dropReturn declaration = declaration :=
    Text.dropReturn_eq_self (hdeclaration.isLine method.isLine_declarationLine).ends
  refine ⟨above, comment, gap.map Text.dropReturn, declaration,
    closing.map Text.dropReturn ++ below, ?_, ?_, hcomment, ?_, hdeclaration⟩
  · rw [List.map_append, List.map_append, List.map_cons, hkeep, hline]
    simp only [List.append_assoc, List.cons_append]
  · rw [List.length_map, ← hcomment.length_eq, ← hgap.length_eq, depth]
    omega
  · intro line hmem
    obtain ⟨other, hother, rfl⟩ := List.mem_map.mp hmem
    exact hgapLine other hother

/-- Every method of a class stands on its line. -/
theorem standsAt_of_mem_placed {methods : List WrittenMethod} {tail lines : List Text}
    (h : List.Forall₂ Indented (methods.flatMap WrittenMethod.lines ++ tail) lines)
    (above : List Text) {method : WrittenMethod} {line : Nat}
    (hmem : (method, line) ∈ placed above.length methods) :
    method.StandsAt (above ++ lines.map Text.dropReturn) line := by
  induction methods generalizing above lines with
  | nil => simp [placed] at hmem
  | cons first methods ih =>
    rw [List.flatMap_cons, List.append_assoc] at h
    obtain ⟨own, rest, rfl, hown, hrest⟩ := exists_append_of_forall₂ h
    rw [List.map_append]
    rcases List.mem_cons.mp hmem with heq | hmem
    · cases heq
      exact method.standsAt_append hown above _
    · -- for the other methods the lines of the first one stand above
      have hlength : above.length + first.lines.length =
          (above ++ own.map Text.dropReturn).length := by
        rw [List.length_append, List.length_map, hown.length_eq]
      rw [hlength] at hmem
      rw [← List.append_assoc]
      exact ih hrest _ hmem

theorem map_fst_placed (methods : List WrittenMethod) (first : Nat) :
    (placed first methods).map Prod.fst = methods := by
  induction methods generalizing first with
  | nil => rfl
  | cons method methods ih => rw [placed, List.map_cons, ih]

/-- Declarations come in the order of their lines. -/
theorem le_of_mem_placed {methods : List WrittenMethod} {first : Nat} {part : WrittenMethod × Nat}
    (h : part ∈ placed first methods) : first ≤ part.2 := by
  induction methods generalizing first with
  | nil => simp [placed] at h
  | cons method methods ih =>
    rcases List.mem_cons.mp h with rfl | hmem
    · exact Nat.le_add_right ..
    · exact (Nat.le_add_right ..).trans (ih hmem)

theorem pairwise_placed (methods : List WrittenMethod) (first : Nat) :
    (placed first methods).Pairwise fun a b => a.2 < b.2 := by
  induction methods generalizing first with
  | nil => exact .nil
  | cons method methods ih =>
    refine .cons (fun other hmem => ?_) (ih _)
    have hle := le_of_mem_placed hmem
    -- the next method begins below the closing brace of this one
    have hdepth : method.depth < method.lines.length := by
      simp only [WrittenMethod.depth, WrittenMethod.lines, List.length_append, List.length_cons]
      omega
    show first + method.depth < other.2
    omega

end DeclDocs
