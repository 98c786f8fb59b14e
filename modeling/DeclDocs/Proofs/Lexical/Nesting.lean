import DeclDocs.Proofs.Lexical.Reading

/-!
# Nested brackets

A text nests a kind of brackets when every closing one has an opening one in front of it and none is
left open.  Delimiters are found by counting: the group behind an opening bracket ends where its
nested text ends, and a comma separates where no bracket is open.

* `Brackets`, `nests`: the brackets and the texts that nest them.
* `untilClose_append`: the end of a group.
* `splitCommas_append`: commas outside brackets separate.
-/

namespace DeclDocs

/-! ## §1 Nested text -/

/-- A kind of brackets: the opening and the closing characters. -/
structure Brackets where
  opens : Char → Bool
  closes : Char → Bool

namespace Brackets

/-- Brackets with one opening and one closing character. -/
def ofPair (opening closing : Char) : Brackets :=
  ⟨(· == opening), (· == closing)⟩

def angles : Brackets := ofPair '<' '>'

def parens : Brackets := ofPair '(' ')'

/-- Angle brackets and parentheses, counted together. -/
def groups : Brackets :=
  ⟨fun c => c == '<' || c == '(', fun c => c == '>' || c == ')'⟩

end Brackets

/-- The text closes the `depth` brackets that are open at its start and all that it opens itself.
Other characters satisfy `outer` where no bracket is open and `inner` where one is. -/
def nests (brackets : Brackets) (outer inner : Char → Bool) : (depth : Nat) → Text → Bool
  | depth, [] => depth == 0
  | depth, c :: cs =>
    if brackets.opens c then nests brackets outer inner (depth + 1) cs
    else if brackets.closes c then depth != 0 && nests brackets outer inner (depth - 1) cs
    else (if depth = 0 then outer c else inner c) && nests brackets outer inner depth cs

section Nests

variable {brackets : Brackets} {outer inner : Char → Bool} {depth : Nat}

theorem nests_append {a b : Text} (ha : nests brackets outer inner depth a = true)
    (hb : nests brackets outer inner 0 b = true) :
    nests brackets outer inner depth (a ++ b) = true := by
  fun_induction nests brackets outer inner depth a with
  | case1 depth =>
    -- `a` is read and nothing is open
    have : depth = 0 := by simpa using ha
    simpa [this] using hb
  | case2 depth c cs hopen ih =>
    rw [List.cons_append, nests, if_pos hopen]
    exact ih ha
  | case3 depth c cs hopen hclose ih =>
    rw [List.cons_append, nests, if_neg hopen, if_pos hclose]
    rw [Bool.and_eq_true] at ha ⊢
    exact ⟨ha.1, ih ha.2⟩
  | case4 depth c cs hopen hclose ih =>
    rw [List.cons_append, nests, if_neg hopen, if_neg hclose]
    rw [Bool.and_eq_true] at ha ⊢
    exact ⟨ha.1, ih ha.2⟩

/-- Nested text may stand inside further brackets. -/
theorem nests_inside {outer' : Char → Bool} (hinner : ∀ c, outer' c = true → inner c = true)
    {a b : Text} {c : Char} {r : Nat}
    (hclosing : brackets.opens c = false ∧ brackets.closes c = true)
    (ha : nests brackets outer' inner depth a = true)
    (hb : nests brackets outer inner r b = true) :
    nests brackets outer inner (depth + r + 1) (a ++ c :: b) = true := by
  -- inside, the brackets of `a` are counted on top of the `r + 1` that are open around it
  fun_induction nests brackets outer' inner depth a with
  | case1 depth =>
    have : depth = 0 := by simpa using ha
    subst this
    simpa [nests, hclosing] using hb
  | case2 depth d cs hopen ih =>
    rw [List.cons_append, nests, if_pos hopen]
    have := ih ha
    rwa [show depth + 1 + r + 1 = depth + r + 1 + 1 by omega] at this
  | case3 depth d cs hopen hclose ih =>
    rw [List.cons_append, nests, if_neg hopen, if_pos hclose]
    rw [Bool.and_eq_true, bne_iff_ne] at ha
    have := ih ha.2
    rw [show depth - 1 + r + 1 = depth + r + 1 - 1 by omega] at this
    simpa using this
  | case4 depth d cs hopen hclose ih =>
    rw [List.cons_append, nests, if_neg hopen, if_neg hclose]
    rw [Bool.and_eq_true] at ha ⊢
    refine ⟨?_, ih ha.2⟩
    -- a character outside the brackets of `a` is inside those around it
    have hd := ha.1
    split at hd
    · simpa using hinner d hd
    · simpa using hd

/-- The same brackets with wider classes of characters, or further brackets that the text does not
have. -/
theorem nests_mono {brackets' : Brackets} {outer' inner' : Char → Bool} {text : Text}
    (hopens : ∀ c ∈ text, brackets'.opens c = brackets.opens c)
    (hcloses : ∀ c ∈ text, brackets'.closes c = brackets.closes c)
    (houter : ∀ c ∈ text, outer c = true → outer' c = true)
    (hinner : ∀ c ∈ text, inner c = true → inner' c = true)
    (h : nests brackets outer inner depth text = true) :
    nests brackets' outer' inner' depth text = true := by
  fun_induction nests brackets outer inner depth text with
  | case1 depth => simpa [nests] using h
  | case2 depth c cs hopen ih =>
    rw [nests, hopens c (List.mem_cons_self ..), if_pos hopen]
    simp only [List.mem_cons, forall_eq_or_imp] at hopens hcloses houter hinner
    exact ih hopens.2 hcloses.2 houter.2 hinner.2 h
  | case3 depth c cs hopen hclose ih =>
    rw [nests, hopens c (List.mem_cons_self ..), if_neg hopen, hcloses c (List.mem_cons_self ..),
      if_pos hclose]
    simp only [List.mem_cons, forall_eq_or_imp] at hopens hcloses houter hinner
    rw [Bool.and_eq_true] at h ⊢
    exact ⟨h.1, ih hopens.2 hcloses.2 houter.2 hinner.2 h.2⟩
  | case4 depth c cs hopen hclose ih =>
    rw [nests, hopens c (List.mem_cons_self ..), if_neg hopen, hcloses c (List.mem_cons_self ..),
      if_neg hclose]
    simp only [List.mem_cons, forall_eq_or_imp] at hopens hcloses houter hinner
    rw [Bool.and_eq_true] at h ⊢
    refine ⟨?_, ih hopens.2 hcloses.2 houter.2 hinner.2 h.2⟩
    have hc := h.1
    by_cases hdepth : depth = 0
    · rw [if_pos hdepth] at hc ⊢
      exact houter.1 hc
    · rw [if_neg hdepth] at hc ⊢
      exact hinner.1 hc

/-- Text without brackets. -/
theorem nests_of_forall {text : Text}
    (h : ∀ c ∈ text, brackets.opens c = false ∧ brackets.closes c = false ∧ outer c = true) :
    nests brackets outer inner 0 text = true := by
  induction text with
  | nil => rfl
  | cons c cs ih =>
    obtain ⟨hopen, hclose, hc⟩ := h c (List.mem_cons_self ..)
    rw [nests]
    simpa [hopen, hclose, hc] using ih fun d hd => h d (List.mem_cons_of_mem _ hd)

/-- Every character of nested text is a bracket or of one of the two classes. -/
theorem mem_nests {text : Text} (h : nests brackets outer inner depth text = true) {c : Char}
    (hc : c ∈ text) :
    brackets.opens c = true ∨ brackets.closes c = true ∨ outer c = true ∨ inner c = true := by
  fun_induction nests brackets outer inner depth text with
  | case1 depth => simp at hc
  | case2 depth d cs hopen ih =>
    rcases List.mem_cons.mp hc with rfl | hmem
    · exact Or.inl hopen
    · exact ih h hmem
  | case3 depth d cs _ hclose ih =>
    rw [Bool.and_eq_true] at h
    rcases List.mem_cons.mp hc with rfl | hmem
    · exact Or.inr (Or.inl hclose)
    · exact ih h.2 hmem
  | case4 depth d cs _ _ ih =>
    rw [Bool.and_eq_true] at h
    rcases List.mem_cons.mp hc with rfl | hmem
    · have hd := h.1
      split at hd
      · exact Or.inr (Or.inr (Or.inl hd))
      · exact Or.inr (Or.inr (Or.inr hd))
    · exact ih h.2 hmem

/-- Nested text ends outside brackets. -/
theorem nests_concat {text : Text} {c : Char}
    (h : nests brackets outer inner depth (text ++ [c]) = true) :
    brackets.closes c = true ∨ outer c = true := by
  induction text generalizing depth with
  | nil =>
    -- nothing follows `c`: it opens no bracket, and where it closes none, none is open
    rw [List.nil_append, nests] at h
    by_cases hopen : brackets.opens c = true
    · simp [hopen, nests] at h
    · by_cases hclose : brackets.closes c = true
      · exact Or.inl hclose
      · rw [if_neg hopen, if_neg hclose, Bool.and_eq_true] at h
        have hdepth : depth = 0 := by simpa [nests] using h.2
        exact Or.inr (by simpa [hdepth] using h.1)
  | cons d text ih =>
    rw [List.cons_append, nests] at h
    split at h
    · exact ih h
    · split at h <;> rw [Bool.and_eq_true] at h <;> exact ih h.2

/-- What follows any part of nested text closes the brackets that the part leaves open. -/
theorem exists_nests_right {a b : Text} (h : nests brackets outer inner depth (a ++ b) = true) :
    ∃ depth', nests brackets outer inner depth' b = true := by
  induction a generalizing depth with
  | nil => exact ⟨depth, h⟩
  | cons c cs ih =>
    rw [List.cons_append, nests] at h
    split at h
    · exact ih h
    · split at h <;> rw [Bool.and_eq_true] at h <;> exact ih h.2

/-- Where a bracket is open, one closes later. -/
theorem exists_closes {text : Text} (h : nests brackets outer inner depth text = true)
    (hdepth : depth ≠ 0) : ∃ c ∈ text, brackets.closes c = true := by
  fun_induction nests brackets outer inner depth text with
  | case1 depth => exact absurd (by simpa using h) hdepth
  | case2 depth c cs _ ih =>
    obtain ⟨d, hmem, hd⟩ := ih h (Nat.succ_ne_zero depth)
    exact ⟨d, List.mem_cons_of_mem _ hmem, hd⟩
  | case3 depth c cs _ hclose _ => exact ⟨c, List.mem_cons_self .., hclose⟩
  | case4 depth c cs _ _ ih =>
    rw [Bool.and_eq_true] at h
    obtain ⟨d, hmem, hd⟩ := ih h.2 hdepth
    exact ⟨d, List.mem_cons_of_mem _ hmem, hd⟩

end Nests

/-- Nested parentheses are closed as often as they are opened. -/
theorem countP_parens {outer inner : Char → Bool} {depth : Nat} {text : Text}
    (h : nests .parens outer inner depth text = true) :
    text.countP (· == '(') + depth = text.countP (· == ')') := by
  fun_induction nests .parens outer inner depth text with
  | case1 depth => simpa using h
  | case2 depth c cs hopen ih =>
    have : c = '(' := by simpa [Brackets.parens, Brackets.ofPair] using hopen
    subst this
    have := ih h
    rw [List.countP_cons_of_pos rfl, List.countP_cons_of_neg (by decide)]
    omega
  | case3 depth c cs hopen hclose ih =>
    have : c = ')' := by simpa [Brackets.parens, Brackets.ofPair] using hclose
    subst this
    rw [Bool.and_eq_true, bne_iff_ne] at h
    have := ih h.2
    rw [List.countP_cons_of_neg (by decide), List.countP_cons_of_pos rfl]
    omega
  | case4 depth c cs hopen hclose ih =>
    rw [Bool.and_eq_true] at h
    have hparen : (c == '(') = false := Bool.eq_false_iff.mpr hopen
    have hclosing : (c == ')') = false := Bool.eq_false_iff.mpr hclose
    rw [List.countP_cons, List.countP_cons, hparen, hclosing]
    exact ih h.2

/-! ## §2 Delimiters -/

/-- The search for `c` passes over glyphs that do not show it. -/
theorem cutGlyphs?_front {c : Char} {front : List Glyph} (hfront : ∀ g ∈ front, g.shown ≠ c)
    (rest : List Glyph) :
    cutGlyphs? c (front ++ rest) =
      (cutGlyphs? c rest).map fun (before, rest) => (front ++ before, rest) := by
  induction front with
  | nil => simp
  | cons g gs ih =>
    have hg : g.shown ≠ c := hfront g (List.mem_cons_self ..)
    rw [List.cons_append, cutGlyphs?, if_neg hg,
      ih fun d hd => hfront d (List.mem_cons_of_mem _ hd)]
    simp [Function.comp_def]

/-- The first glyph that shows `c`. -/
theorem cutGlyphs?_append {c : Char} {front : List Glyph} (hfront : ∀ g ∈ front, g.shown ≠ c)
    {mark : Glyph} (hmark : mark.shown = c) (rest : List Glyph) :
    cutGlyphs? c (front ++ mark :: rest) = some (front, rest) := by
  rw [cutGlyphs?_front hfront, cutGlyphs?, if_pos hmark]
  simp

theorem cutGlyphs?_isSome {c : Char} {glyphs : List Glyph} {mark : Glyph} (hmem : mark ∈ glyphs)
    (hmark : mark.shown = c) : (cutGlyphs? c glyphs).isSome = true := by
  induction glyphs with
  | nil => simp at hmem
  | cons g gs ih =>
    rw [cutGlyphs?]
    split
    · rfl
    case isFalse hg =>
      rcases List.mem_cons.mp hmem with rfl | h
      · exact absurd hmark hg
      · simpa using ih h

/-- A group ends with the bracket that follows its nested text. -/
theorem untilClose_append {opening closing : Char} (hne : opening ≠ closing) {depth : Nat}
    {inside : List Glyph} {outer inner : Char → Bool}
    (h : nests (.ofPair opening closing) outer inner depth (inside.map Glyph.shown) = true)
    {mark : Glyph} (hmark : mark.shown = closing) (rest : List Glyph) :
    untilClose opening closing depth (inside ++ mark :: rest) = some (inside, rest) := by
  induction inside generalizing depth with
  | nil =>
    have : depth = 0 := by simpa [nests] using h
    subst this
    simp [untilClose, hmark, hne.symm]
  | cons g gs ih =>
    rw [List.map_cons, nests] at h
    rw [List.cons_append]
    unfold untilClose
    by_cases hopen : g.shown = opening
    · rw [if_pos (by simpa [Brackets.ofPair] using hopen)] at h
      simp [hopen, ih h]
    · rw [if_neg (by simpa [Brackets.ofPair] using hopen)] at h
      by_cases hclose : g.shown = closing
      · rw [if_pos (by simpa [Brackets.ofPair] using hclose), Bool.and_eq_true] at h
        cases depth with
        | zero => simp at h
        | succ depth =>
          -- the bracket closes a group inside
          have hrec := ih h.2
          rw [Nat.add_sub_cancel] at hrec
          simp [hclose, hrec, hne.symm]
      · rw [if_neg (by simpa [Brackets.ofPair] using hclose), Bool.and_eq_true] at h
        simp [hopen, hclose, ih h.2]

/-- Glyphs that nest their groups and have commas only inside them belong to one piece. -/
theorem splitCommas_append {depth : Nat} {front : List Glyph} {inner : Char → Bool}
    (h : nests .groups (· != ',') inner depth (front.map Glyph.shown) = true)
    {rest piece : List Glyph} {pieces : List (List Glyph)}
    (hrest : splitCommas 0 rest = piece :: pieces) :
    splitCommas depth (front ++ rest) = (front ++ piece) :: pieces := by
  induction front generalizing depth with
  | nil =>
    have : depth = 0 := by simpa [nests] using h
    subst this
    simpa using hrest
  | cons g gs ih =>
    rw [List.map_cons, nests] at h
    rw [List.cons_append, splitCommas]
    by_cases hopen : g.shown = '<' ∨ g.shown = '('
    · rw [if_pos (by simpa [Brackets.groups] using hopen)] at h
      have hcomma : g.shown ≠ ',' := by
        rcases hopen with hc | hc <;> rw [hc] <;> decide
      simp [hcomma, hopen, ih h]
    · rw [if_neg (by simpa [Brackets.groups] using hopen)] at h
      by_cases hclose : g.shown = '>' ∨ g.shown = ')'
      · rw [if_pos (by simpa [Brackets.groups] using hclose), Bool.and_eq_true] at h
        have hcomma : g.shown ≠ ',' := by
          rcases hclose with hc | hc <;> rw [hc] <;> decide
        simp [hcomma, hopen, hclose, ih h.2]
      · rw [if_neg (by simpa [Brackets.groups] using hclose), Bool.and_eq_true] at h
        -- a comma may stand here, but then some group is open
        have hcomma : ¬(g.shown = ',' ∧ depth = 0) := by
          rintro ⟨hc, rfl⟩
          simp [hc] at h
        simp [hcomma, hopen, hclose, ih h.2]

theorem splitCommas_of_nests {front : List Glyph} {inner : Char → Bool}
    (h : nests .groups (· != ',') inner 0 (front.map Glyph.shown) = true) :
    splitCommas 0 front = [front] := by
  have hnil : splitCommas 0 [] = [[]] := rfl
  simpa using splitCommas_append h hnil

theorem splitCommas_append_comma {front : List Glyph} {inner : Char → Bool}
    (h : nests .groups (· != ',') inner 0 (front.map Glyph.shown) = true)
    (rest : List Glyph) :
    splitCommas 0 (front ++ .code ',' :: rest) = front :: splitCommas 0 rest := by
  have hcomma : splitCommas 0 (.code ',' :: rest) = [] :: splitCommas 0 rest := rfl
  simpa using splitCommas_append h hcomma

end DeclDocs
