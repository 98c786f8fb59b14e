import DeclDocs.Proofs.Text.Marks
import Mathlib.Data.List.Forall2

/-!
# Lines put together and taken apart

Text joined from lines by line feeds has these lines again, up to one carriage return at the end of
each.

* `Text.lines_join`: the lines of joined text, with or without a line feed at its end.
* `Text.lines_join_of_isLine`: lines that end in no carriage return come back as they are.
* `Indented`: a line behind blanks.
* `Text.not_mem_of_mem_lines`: a line holds no line feed.
-/

namespace DeclDocs

namespace Text

/-- Joined texts are split at the line feeds between them and at those inside them. -/
theorem split_join_texts {texts : List Text} (hne : texts ≠ []) :
    split (· == '\n') (join ['\n'] texts) = texts.flatMap (split (· == '\n')) := by
  induction texts with
  | nil => exact absurd rfl hne
  | cons text texts ih =>
    by_cases hnil : texts = []
    · simp [hnil]
    · rw [join_cons hnil, List.singleton_append, split_append_cons (by rfl), ih hnil,
        List.flatMap_cons]

theorem split_join {pieces : List Text} (hne : pieces ≠ []) (h : ∀ piece ∈ pieces, '\n' ∉ piece) :
    split (· == '\n') (join ['\n'] pieces) = pieces := by
  have hpiece : ∀ piece ∈ pieces, split (· == '\n') piece = [piece] := by
    intro piece hmem
    refine split_eq_singleton fun c hc => ?_
    rw [beq_eq_false_iff_ne]
    rintro rfl
    exact h piece hmem hc
  rw [split_join_texts hne, List.flatMap_congr hpiece]
  simp

theorem closeLines_append (front : List Text) (last : Text) :
    closeLines (front ++ [last]) = front.map dropReturn ++ if last.isEmpty then [] else [last] := by
  induction front with
  | nil => rfl
  | cons line front ih =>
    have hcons : closeLines (line :: (front ++ [last])) =
        dropReturn line :: closeLines (front ++ [last]) := by
      cases front <;> rfl
    rw [List.cons_append, hcons, ih]
    rfl

/-- A line with a last character other than a carriage return keeps it. -/
theorem dropReturn_eq_self {line : Text} (h : endsIn (· != '\r') line = true) :
    dropReturn line = line := by
  have hnone : before? line ['\r'] = none := by
    rw [Option.eq_none_iff_forall_ne_some]
    intro front hfront
    rw [before?_eq_some_iff.mp hfront, endsIn_append_eq (List.cons_ne_nil _ _)] at h
    exact absurd h (by decide)
  rw [dropReturn, hnone]
  rfl

/-- Joined lines come back without the carriage returns at their ends, provided the last one has a
last character of its own. -/
theorem lines_join {front : List Text} {last : Text} (h : ∀ line ∈ front ++ [last], '\n' ∉ line)
    (hlast : endsIn (· != '\r') last = true) {closing : Text}
    (hclosing : closing = [] ∨ closing = ['\n']) :
    lines (join ['\n'] (front ++ [last]) ++ closing) = (front ++ [last]).map dropReturn := by
  have hne : last.isEmpty = false := by
    cases last with
    | nil => simp [endsIn] at hlast
    | cons => rfl
  rcases hclosing with rfl | rfl
  · -- the last piece is not empty, so it counts as a line and keeps its end
    rw [List.append_nil, lines, split_join (by simp) h, closeLines_append, hne, List.map_append,
      List.map_singleton, dropReturn_eq_self hlast]
    rfl
  · -- the line feed opens an empty last piece, which is no line
    have hsplit : split (· == '\n') (join ['\n'] (front ++ [last]) ++ ['\n']) =
        front ++ [last] ++ [[]] := by
      rw [split_append_cons (by rfl), split_join (by simp) h]
      rfl
    rw [lines, hsplit, closeLines_append]
    simp

/-- A line that comes back from a document as it is written: it holds no line feed and ends in no
carriage return. -/
structure IsLine (line : Text) : Prop where
  oneLine : '\n' ∉ line
  ends : endsIn (· != '\r') line = true

theorem IsLine.of_solid {line : Text} (hline : '\n' ∉ line) (hends : endsIn isSolid line = true) :
    IsLine line := by
  refine ⟨hline, endsIn_mono (fun c hc => ?_) hends⟩
  rw [bne_iff_ne]
  rintro rfl
  exact absurd hc (by decide)

theorem map_dropReturn_of_isLine {lines : List Text} (h : ∀ line ∈ lines, IsLine line) :
    lines.map dropReturn = lines := by
  conv_rhs => rw [← List.map_id lines]
  exact List.map_congr_left fun line hmem => dropReturn_eq_self (h line hmem).ends

/-- Such lines come back also with a line feed at the end. -/
theorem lines_join_of_isLine {pieces : List Text} (h : ∀ line ∈ pieces, IsLine line) :
    lines (join ['\n'] pieces) = pieces ∧ lines (join ['\n'] (pieces ++ [[]])) = pieces := by
  rcases List.eq_nil_or_concat' pieces with rfl | ⟨front, last, rfl⟩
  · exact ⟨rfl, rfl⟩
  · have hlines := @lines_join front last (fun line hmem => (h line hmem).oneLine)
      (h last (by simp)).ends
    have hkeep := map_dropReturn_of_isLine h
    refine ⟨?_, ?_⟩
    · have := hlines (Or.inl rfl)
      rwa [List.append_nil, hkeep] at this
    · rw [join_append_singleton (by simp), List.append_nil, hlines (Or.inr rfl), hkeep]

theorem not_mem_of_mem_split {p : Char → Bool} {c : Char} (hc : p c = true) {text piece : Text}
    (h : piece ∈ split p text) : c ∉ piece := by
  induction text generalizing piece with
  | nil =>
    rw [split, List.mem_singleton] at h
    simp [h]
  | cons d text ih =>
    rw [split] at h
    split at h
    case isTrue =>
      rcases List.mem_cons.mp h with rfl | hmem
      · simp
      · exact ih hmem
    case isFalse hd =>
      -- `d` joins the first piece of the rest
      cases hs : split p text with
      | nil => exact absurd hs (split_ne_nil p text)
      | cons first pieces =>
        rw [hs] at h ih
        rcases List.mem_cons.mp h with rfl | hmem
        · rw [List.mem_cons, not_or]
          refine ⟨?_, ih (List.mem_cons_self ..)⟩
          rintro rfl
          exact hd hc
        · exact ih (List.mem_cons_of_mem _ hmem)

/-- Text without separating characters joins the first piece of what follows it. -/
theorem exists_split_append {p : Char → Bool} {front : Text} (h : ∀ c ∈ front, p c = false)
    (rest : Text) :
    ∃ piece pieces, split p rest = piece :: pieces ∧
      split p (front ++ rest) = (front ++ piece) :: pieces := by
  induction front with
  | nil =>
    cases hs : split p rest with
    | nil => exact absurd hs (split_ne_nil p rest)
    | cons piece pieces => exact ⟨piece, pieces, rfl, hs⟩
  | cons c front ih =>
    obtain ⟨piece, pieces, hrest, hsplit⟩ := ih fun d hd => h d (List.mem_cons_of_mem _ hd)
    refine ⟨piece, pieces, hrest, ?_⟩
    rw [List.cons_append, split, hsplit]
    simp [h c (List.mem_cons_self ..)]

/-- The pieces are parts of the text, and the first one begins it. -/
theorem isPrefix_of_split_eq_cons {p : Char → Bool} {text piece : Text} {pieces : List Text}
    (h : split p text = piece :: pieces) : piece <+: text := by
  induction text generalizing piece pieces with
  | nil =>
    rw [split, List.cons.injEq] at h
    exact h.1 ▸ List.prefix_rfl
  | cons c text ih =>
    rw [split] at h
    split at h
    case isTrue =>
      rw [List.cons.injEq] at h
      exact h.1 ▸ List.nil_prefix
    case isFalse =>
      cases hs : split p text with
      | nil => exact absurd hs (split_ne_nil p text)
      | cons first others =>
        rw [hs, List.cons.injEq] at h
        exact h.1 ▸ (List.prefix_cons_inj c).mpr (ih hs)

theorem mem_of_mem_split {p : Char → Bool} {text piece : Text} (h : piece ∈ split p text) {c : Char}
    (hc : c ∈ piece) : c ∈ text := by
  induction text generalizing piece with
  | nil =>
    rw [split, List.mem_singleton] at h
    exact h ▸ hc
  | cons d text ih =>
    rw [split] at h
    split at h
    case isTrue =>
      rcases List.mem_cons.mp h with rfl | hmem
      · simp at hc
      · exact List.mem_cons_of_mem _ (ih hmem hc)
    case isFalse =>
      cases hs : split p text with
      | nil => exact absurd hs (split_ne_nil p text)
      | cons first others =>
        rw [hs] at h ih
        rcases List.mem_cons.mp h with rfl | hmem
        · rcases List.mem_cons.mp hc with rfl | hfirst
          · exact List.mem_cons_self ..
          · exact List.mem_cons_of_mem _ (ih (List.mem_cons_self ..) hfirst)
        · exact List.mem_cons_of_mem _ (ih (List.mem_cons_of_mem _ hmem) hc)

private theorem dropReturn_isPrefix (line : Text) : dropReturn line <+: line := by
  unfold dropReturn
  cases hbefore : before? line ['\r'] with
  | none => exact List.prefix_rfl
  | some front => exact ⟨['\r'], (before?_eq_some_iff.mp hbefore).symm⟩

/-- A line holds no line feed. -/
theorem not_mem_of_mem_lines {text line : Text} (h : line ∈ lines text) : '\n' ∉ line := by
  obtain ⟨front, last, hsplit⟩ : ∃ front last, split (· == '\n') text = front ++ [last] := by
    rcases List.eq_nil_or_concat' (split (· == '\n') text) with hnil | hsplit
    · exact absurd hnil (split_ne_nil _ text)
    · exact hsplit
  have hpiece : ∀ piece ∈ front ++ [last], '\n' ∉ piece := fun piece hmem =>
    not_mem_of_mem_split (p := (· == '\n')) rfl (hsplit ▸ hmem)
  rw [lines, hsplit, closeLines_append, List.mem_append] at h
  rcases h with h | h
  · -- a carriage return at most is taken off such a line
    obtain ⟨piece, hmem, rfl⟩ := List.mem_map.mp h
    exact fun hc => hpiece piece (List.mem_append_left _ hmem)
      ((dropReturn_isPrefix piece).subset hc)
  · split at h
    · simp at h
    · rw [List.mem_singleton] at h
      subst h
      exact hpiece line (by simp)

end Text

/-- What follows for every line from its counterpart in a parallel list. -/
theorem forall_of_forall₂ {α β : Type} {r : α → β → Prop} {lines : List α} {others : List β}
    (h : List.Forall₂ r lines others) {p : β → Prop}
    (hp : ∀ line ∈ lines, ∀ other, r line other → p other) : ∀ other ∈ others, p other := by
  induction h with
  | nil => simp
  | @cons line other lines others hline _ ih =>
    rintro text (_ | ⟨_, hmem⟩)
    · exact hp line (List.mem_cons_self ..) other hline
    · exact ih (fun line hmem => hp line (List.mem_cons_of_mem _ hmem)) text hmem

/-- The second line is the first one behind blanks of its own. -/
def Indented (line indented : Text) : Prop :=
  ∃ blanks : Text, (∀ c ∈ blanks, isBlank c = true ∧ c ≠ '\n') ∧ indented = blanks ++ line

private theorem indented_iff {line indented : Text} :
    Indented line indented ↔ line <:+ indented ∧
      ∀ c ∈ indented.take (indented.length - line.length), isBlank c = true ∧ c ≠ '\n' := by
  constructor
  · rintro ⟨blanks, hblanks, rfl⟩
    exact ⟨List.suffix_append _ _, by simpa using hblanks⟩
  · rintro ⟨⟨blanks, rfl⟩, hblanks⟩
    exact ⟨blanks, by simpa using hblanks, rfl⟩

instance (line indented : Text) : Decidable (Indented line indented) :=
  decidable_of_iff' _ indented_iff

namespace Indented

variable {line indented : Text}

theorem oneLine (h : Indented line indented) (hline : '\n' ∉ line) : '\n' ∉ indented := by
  obtain ⟨blanks, hblanks, rfl⟩ := h
  rw [List.mem_append, not_or]
  exact ⟨fun hmem => (hblanks _ hmem).2 rfl, hline⟩

theorem isLine (h : Indented line indented) (hline : Text.IsLine line) : Text.IsLine indented := by
  refine ⟨h.oneLine hline.oneLine, ?_⟩
  obtain ⟨blanks, _, rfl⟩ := h
  exact Text.endsIn_append hline.ends blanks

end Indented

end DeclDocs
