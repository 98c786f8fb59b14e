import DeclDocs.Proofs.Model.Members

/-!
# The method at a line

In an outline that is properly laid out, the symbols of a container lie inside it and beside each
other.  Containers share their lines with what is in them, but leaves share no line, and so neither
do the methods of the model: the search by bisection finds the one that has the line in it.

* `AreLaidOut`: outlines that are properly laid out.
* `AreLaidOut.pairwise_leavesInAll`: their leaves share no line.
* `locateEnclosing_buildModel`: the search in the model of a document is exact.
-/

namespace DeclDocs

open LineSpan

/-! ## §1 Layout of outlines -/

/-- A range takes up the lines from its start to its end. -/
instance : LineSpan Range := ⟨fun range => range.start.line, fun range => range.stop.line⟩

/-- The lines of one range are lines of the other. -/
def Range.IsWithin (inner outer : Range) : Prop :=
  outer.start.line ≤ inner.start.line ∧ inner.stop.line ≤ outer.stop.line

instance (inner outer : Range) : Decidable (inner.IsWithin outer) :=
  inferInstanceAs (Decidable (_ ∧ _))

mutual

/-- The name of the symbol stands on one of its lines, its children lie on its lines, and they are
laid out themselves. -/
def DeclarationSymbol.IsLaidOut : DeclarationSymbol → Prop
  | ⟨_, _, _, range, selectionRange, children, _⟩ =>
    Covers range selectionRange.start.line ∧ (∀ child ∈ children, child.range.IsWithin range) ∧
      AreLaidOut children

/-- The symbols are laid out and share no line. -/
def AreLaidOut : List DeclarationSymbol → Prop
  | [] => True
  | symbol :: symbols =>
    symbol.IsLaidOut ∧ (∀ other ∈ symbols, Apart symbol.range other.range) ∧ AreLaidOut symbols

end

mutual

def DeclarationSymbol.decideIsLaidOut : (symbol : DeclarationSymbol) → Decidable symbol.IsLaidOut
  | ⟨_, _, _, _, _, children, _⟩ =>
    have := decideAreLaidOut children
    inferInstanceAs (Decidable (_ ∧ _ ∧ _))

def decideAreLaidOut : (symbols : List DeclarationSymbol) → Decidable (AreLaidOut symbols)
  | [] => .isTrue trivial
  | symbol :: symbols =>
    have := symbol.decideIsLaidOut
    have := decideAreLaidOut symbols
    inferInstanceAs (Decidable (_ ∧ _ ∧ _))

end

instance (symbols : List DeclarationSymbol) : Decidable (AreLaidOut symbols) :=
  decideAreLaidOut symbols

theorem Range.IsWithin.trans {inner middle outer : Range} (h : inner.IsWithin middle)
    (hmiddle : middle.IsWithin outer) : inner.IsWithin outer :=
  ⟨UInt32.le_trans hmiddle.1 h.1, UInt32.le_trans h.2 hmiddle.2⟩

/-- What lies within ranges that are apart is apart. -/
theorem Range.IsWithin.apart {a b outerA outerB : Range} (ha : a.IsWithin outerA)
    (hb : b.IsWithin outerB) (h : Apart outerA outerB) : Apart a b := by
  rcases h with h | h
  · exact Or.inl (UInt32.lt_of_le_of_lt ha.2 (UInt32.lt_of_lt_of_le h hb.1))
  · exact Or.inr (UInt32.lt_of_le_of_lt hb.2 (UInt32.lt_of_lt_of_le h ha.1))

namespace DeclarationSymbol

private theorem IsLaidOut.covers {symbol : DeclarationSymbol} (h : symbol.IsLaidOut) :
    Covers symbol.range symbol.startLine := by
  cases symbol
  exact h.1

end DeclarationSymbol

/-! ## §2 Leaves -/

mutual

/-- A leaf is laid out and lies on the lines of every symbol that it is found in. -/
theorem DeclarationSymbol.IsLaidOut.leaf {owner : Text} {leaf : Leaf} :
    ∀ {symbol : DeclarationSymbol}, symbol.IsLaidOut → leaf ∈ symbol.leavesIn owner →
      leaf.symbol.IsLaidOut ∧ leaf.symbol.range.IsWithin symbol.range
  | ⟨name, kind, detail, range, selectionRange, children, containerName⟩, h, hmem => by
    rw [DeclarationSymbol.leavesIn] at hmem
    split at hmem
    · -- a container: the leaf lies in a child, and the child in the container
      obtain ⟨hleaf, child, hchild, hwithin⟩ := AreLaidOut.leaf h.2.2 hmem
      exact ⟨hleaf, hwithin.trans (h.2.1 child hchild)⟩
    · split at hmem
      · rw [List.mem_singleton.mp hmem]
        exact ⟨h, UInt32.le_refl _, UInt32.le_refl _⟩
      · simp at hmem

theorem AreLaidOut.leaf {owner : Text} {leaf : Leaf} :
    ∀ {symbols : List DeclarationSymbol}, AreLaidOut symbols → leaf ∈ leavesInAll owner symbols →
      leaf.symbol.IsLaidOut ∧ ∃ symbol ∈ symbols, leaf.symbol.range.IsWithin symbol.range
  | [], _, hmem => by simp [leavesInAll] at hmem
  | symbol :: symbols, h, hmem => by
    rw [leavesInAll, List.mem_append] at hmem
    rcases hmem with hmem | hmem
    · obtain ⟨hleaf, hwithin⟩ := h.1.leaf hmem
      exact ⟨hleaf, symbol, List.mem_cons_self, hwithin⟩
    · obtain ⟨hleaf, other, hother, hwithin⟩ := AreLaidOut.leaf h.2.2 hmem
      exact ⟨hleaf, other, List.mem_cons_of_mem _ hother, hwithin⟩

end

mutual

theorem DeclarationSymbol.IsLaidOut.pairwise_leavesIn {owner : Text} :
    ∀ {symbol : DeclarationSymbol}, symbol.IsLaidOut →
      (symbol.leavesIn owner).Pairwise fun a b => Apart a.symbol.range b.symbol.range
  | ⟨name, kind, detail, range, selectionRange, children, containerName⟩, h => by
    rw [DeclarationSymbol.leavesIn]
    split
    · exact AreLaidOut.pairwise_leavesInAll h.2.2
    · split
      · exact List.pairwise_singleton ..
      · exact List.Pairwise.nil

/-- **Leaves share no line**, however deep they are. -/
theorem AreLaidOut.pairwise_leavesInAll {owner : Text} :
    ∀ {symbols : List DeclarationSymbol}, AreLaidOut symbols →
      (leavesInAll owner symbols).Pairwise fun a b => Apart a.symbol.range b.symbol.range
  | [], _ => List.Pairwise.nil
  | symbol :: symbols, h => by
    rw [leavesInAll, List.pairwise_append]
    refine ⟨h.1.pairwise_leavesIn, AreLaidOut.pairwise_leavesInAll h.2.2, ?_⟩
    -- leaves of two symbols are apart as the symbols are
    intro a ha b hb
    obtain ⟨_, hwithin⟩ := h.1.leaf ha
    obtain ⟨_, other, hother, hotherWithin⟩ := AreLaidOut.leaf h.2.2 hb
    exact hwithin.apart hotherWithin (h.2.1 other hother)

end

/-! ## §3 Methods -/

namespace DeclarationSymbol

variable {symbol : DeclarationSymbol}

private theorem endLine_eq_ite : symbol.endLine =
    if symbol.range.stop.line ≤ symbol.startLine then symbol.startLine
    else symbol.range.stop.line := rfl

theorem startLine_le_endLine : symbol.startLine ≤ symbol.endLine := by
  rw [endLine_eq_ite]
  split
  case isTrue => exact UInt32.le_refl _
  case isFalse h => exact UInt32.le_of_lt (UInt32.not_le.mp h)

/-- The last line of a laid out symbol is that of its range. -/
theorem IsLaidOut.endLine_eq (h : symbol.IsLaidOut) :
    symbol.endLine = symbol.range.stop.line := by
  rw [endLine_eq_ite]
  split
  case isTrue hle => exact UInt32.le_antisymm h.covers.2 hle
  case isFalse => rfl

end DeclarationSymbol

namespace Extraction

variable {extraction : Extraction} {doc : MethodDoc}

/-- A method takes up the lines of its leaf. -/
theorem lines_of_method {leaf : Leaf} (h : (extraction.method leaf).toOption = some doc) :
    doc.startLine = leaf.symbol.startLine ∧ doc.endLine = leaf.symbol.endLine := by
  obtain ⟨text, -, -, rfl⟩ := method_eq_ok_iff.mp (toOption_eq_some_iff.mp h)
  exact ⟨rfl, rfl⟩

theorem startLine_le_endLine {leaves : List Leaf} (h : doc ∈ extraction.methods leaves) :
    doc.startLine ≤ doc.endLine := by
  obtain ⟨leaf, _, hmethod⟩ := List.mem_filterMap.mp h
  obtain ⟨hstart, hend⟩ := lines_of_method hmethod
  rw [hstart, hend]
  exact DeclarationSymbol.startLine_le_endLine

/-- Methods share no line if their leaves do not. -/
theorem apart_of_method {first second : Leaf} {other : MethodDoc}
    (hdoc : (extraction.method first).toOption = some doc)
    (hother : (extraction.method second).toOption = some other) (hfirst : first.symbol.IsLaidOut)
    (hsecond : second.symbol.IsLaidOut) (h : Apart first.symbol.range second.symbol.range) :
    Apart doc other := by
  obtain ⟨hstart, hend⟩ := lines_of_method hdoc
  obtain ⟨hotherStart, hotherEnd⟩ := lines_of_method hother
  rw [hfirst.endLine_eq] at hend
  rw [hsecond.endLine_eq] at hotherEnd
  change doc.endLine < other.startLine ∨ other.endLine < doc.startLine
  rw [hstart, hend, hotherStart, hotherEnd]
  rcases h with h | h
  · exact Or.inl (UInt32.lt_of_lt_of_le h hsecond.covers.1)
  · exact Or.inr (UInt32.lt_of_lt_of_le h hfirst.covers.1)

/-- The methods of a laid out outline share no line. -/
theorem pairwise_methods (extraction : Extraction) {symbols : List DeclarationSymbol}
    (h : AreLaidOut symbols) : (extraction.methods (leaves symbols)).Pairwise Apart := by
  rw [methods, List.pairwise_filterMap]
  -- leaves that give no method are left out, which keeps the others apart
  refine List.Pairwise.filter _ (h.pairwise_leavesInAll.imp_of_mem ?_)
  intro first second hfirst hsecond hapart doc hdoc other hother
  exact apart_of_method hdoc hother (h.leaf hfirst).1 (h.leaf hsecond).1 hapart

end Extraction

/-! ## §4 The whole document -/

/-- The methods of a model are those of the leaves, sorted. -/
theorem methods_buildModel (document : DocumentId) (text : Text) (symbols : List DeclarationSymbol)
    (options : ModelOptions) :
    ∃ comment, (buildModel document text symbols options).methods = sortByLine MethodDoc.startLine
      (Extraction.methods ⟨text.lines, options, comment⟩ (leaves symbols)) :=
  ⟨_, rfl⟩

/-- In the model of a document whose outline is laid out: at most one method has the line in it, and
the search finds that one, or nothing if there is none. -/
theorem locateEnclosing_buildModel (document : DocumentId) (text : Text)
    (symbols : List DeclarationSymbol) (options : ModelOptions) (h : AreLaidOut symbols)
    (line : UInt32) :
    let methods := (buildModel document text symbols options).methods
    (methods.filter fun method => method.startLine ≤ line ∧ line ≤ method.endLine).length ≤ 1 ∧
      (∀ method, locateEnclosing methods line = some method ↔
        method ∈ methods ∧ method.startLine ≤ line ∧ line ≤ method.endLine) ∧
      (locateEnclosing methods line = none ↔
        ∀ method ∈ methods, ¬ (method.startLine ≤ line ∧ line ≤ method.endLine)) := by
  obtain ⟨comment, hmethods⟩ := methods_buildModel document text symbols options
  rw [hmethods]
  intro methods
  have hperm : methods.Perm
      (Extraction.methods ⟨text.lines, options, comment⟩ (leaves symbols)) := sortByLine_perm ..
  have hsorted : SortedByStart methods := pairwise_sortByLine ..
  have hapart : methods.Pairwise Apart :=
    (hperm.pairwise_iff Apart.symm).mpr (Extraction.pairwise_methods _ h)
  have hspans : ∀ method ∈ methods, startLine method ≤ endLine method :=
    fun method hmem => Extraction.startLine_le_endLine (hperm.subset hmem)
  have hfound : ∀ method, locateEnclosing methods line = some method ↔
      method ∈ methods ∧ method.startLine ≤ line ∧ line ≤ method.endLine :=
    fun method => locateEnclosing_eq_some hsorted hapart hspans
  refine ⟨length_filter_covers hapart line, hfound, ?_⟩
  rw [Option.eq_none_iff_forall_ne_some]
  simp only [ne_eq, hfound, not_and]

/-- A class with a method and, listed before it, an inner class with another one. -/
def innerClassOutline : List DeclarationSymbol :=
  [{ name := "A".toList
     kind := .classType
     range := .ofLines 0 6
     selectionRange := .ofLines 0 0
     children :=
      [{ name := "B".toList
         kind := .classType
         range := .ofLines 3 5
         selectionRange := .ofLines 3 3
         children := [.leaf "g".toList .method (.ofLines 4 4)] },
       .leaf "f".toList .method (.ofLines 1 2)] }]

def innerClassText : Text :=
  "class A \x7b\nint f() \x7b\n\x7d\nclass B \x7b\nint g() \x7b\x7d\n\x7d\n\x7d".toList

/-- The method of the inner class is found on its line, and none on the line above. -/
theorem locateEnclosing_innerClass :
    let methods := (buildModel ⟨"A.java".toList⟩ innerClassText innerClassOutline {}).methods
    AreLaidOut innerClassOutline ∧
      (∃ method, locateEnclosing methods 4 = some method ∧ method.name = "g".toList) ∧
      locateEnclosing methods 3 = none := by
  have hlaidOut : AreLaidOut innerClassOutline := by decide
  have hexact := locateEnclosing_buildModel ⟨"A.java".toList⟩ innerClassText _ {} hlaidOut
  obtain ⟨comment, hmethods⟩ :=
    methods_buildModel ⟨"A.java".toList⟩ innerClassText innerClassOutline {}
  have hleaves : (leaves innerClassOutline).filter (fun leaf => leaf.symbol.kind.isCallable) =
      [⟨.leaf "g".toList .method (.ofLines 4 4), "A.B".toList⟩,
        ⟨.leaf "f".toList .method (.ofLines 1 2), "A".toList⟩] := rfl
  rw [hmethods] at hexact ⊢
  simp only [(sortByLine_perm ..).mem_iff, Extraction.methods, hleaves, List.mem_filterMap]
    at hexact
  refine ⟨hlaidOut, ?_, ?_⟩
  · have htext : extractSignature innerClassText.lines 4 defaultSignatureLines =
        .ok "int g()".toList := by decide +kernel
    have hmethod : Extraction.method ⟨innerClassText.lines, {}, comment⟩
        ⟨.leaf "g".toList .method (.ofLines 4 4), "A.B".toList⟩ = .ok _ :=
      Extraction.method_eq_ok_iff.mpr ⟨_, htext, by decide +kernel, rfl⟩
    exact ⟨_, ((hexact 4).2.1 _).mpr ⟨⟨_, List.mem_cons_self, congrArg Except.toOption hmethod⟩,
      UInt32.le_refl 4, UInt32.le_refl 4⟩, rfl⟩
  · refine (hexact 3).2.2.mpr ?_
    rintro method ⟨leaf, hleaf, hdoc⟩
    obtain ⟨hstart, hend⟩ := Extraction.lines_of_method hdoc
    rw [hstart, hend]
    simp only [List.mem_cons, List.not_mem_nil, or_false] at hleaf
    rcases hleaf with rfl | rfl <;> decide

end DeclDocs
