import Mathlib.Data.List.Infix
import DeclDocs.Proofs.Offsets.Signatures
import DeclDocs.Proofs.Signature.Retrace
import DeclDocs.Proofs.Text.Lines

/-!
# The limit on the lines of a signature

The search for the end of a parameter list reads at most so many lines.  With a higher limit it
begins as before and reads on, so that the signature it gives is longer by whole words; where it has
ended at a closing parenthesis it does not read on.  Lines outside the limit are never looked at.

* `Text.words_join`, `Text.words_squeeze`: words of joined and of squeezed text.
* `signatureParts_isPrefix`: more lines extend what is read of the first ones.
* `words_of_extractSignature`: the words of a signature are those of the code that is read.
* `window_eq_of_getElem?`: the lines that the search is given.
* `extractSignature_limit`: a higher limit extends the signature.
-/

namespace DeclDocs

open Text (isSolid)

/-! ## §1 Words -/

namespace Text

/-- A space between pieces keeps their words apart. -/
theorem words_join (pieces : List Text) : words (join [' '] pieces) = pieces.flatMap words := by
  induction pieces with
  | nil => rfl
  | cons piece pieces ih =>
    by_cases hnil : pieces = []
    · rw [hnil, join_singleton, List.flatMap_singleton]
    · rw [join_cons hnil, List.singleton_append, words_append_cons (by decide), ih,
        List.flatMap_cons]

private theorem words_of_mem_words {text word : Text} (h : word ∈ words text) :
    words word = [word] := by
  obtain ⟨hsplit, hne⟩ := List.mem_filter.mp h
  refine words_eq_singleton (by simpa using hne) fun c hc => ?_
  by_contra hblank
  exact not_mem_of_mem_split (by simpa [isSolid] using hblank) hsplit hc

theorem words_squeeze (text : Text) : words (squeeze text) = words text := by
  have hwords : ∀ found : List Text, (∀ word ∈ found, words word = [word]) →
      found.flatMap words = found := by
    intro found h
    induction found with
    | nil => rfl
    | cons word found ih =>
      rw [List.flatMap_cons, h word (List.mem_cons_self ..),
        ih fun other hmem => h other (List.mem_cons_of_mem _ hmem), List.singleton_append]
  rw [squeeze, words_join, hwords _ fun word => words_of_mem_words]

end Text

/-! ## §2 Lines beyond the limit -/

/-- **More lines extend what is read of the first ones.** -/
theorem signatureParts_isPrefix (watch : ParenWatch) (state : ScanState) (lines more : List Text) :
    signatureParts watch state lines <+: signatureParts watch state (lines ++ more) := by
  cases hread : watch.readLines state lines with
  | none => rw [signatureParts_append_of_none hread]
  | some next =>
    rw [signatureParts_append_of_some hread]
    exact List.prefix_append _ _

/-- A higher limit takes further lines behind those of the lower one. -/
theorem exists_take_eq_append {limit higher : Nat} (h : limit ≤ higher) (lines : List Text) :
    ∃ more, lines.take higher = lines.take limit ++ more := by
  obtain ⟨further, rfl⟩ := Nat.exists_eq_add_of_le h
  exact ⟨(lines.drop limit).take further, List.take_add⟩

theorem words_of_extractSignature {lines : List Text} {start limit : Nat} {text : Text}
    (h : extractSignature lines start limit = .ok text) :
    text.words =
      (signatureParts {} {} ((lines.drop start).take (max 1 limit))).flatMap Text.words := by
  rw [(eq_of_extractSignature h).2, Text.words_squeeze, Text.words_join]

/-- Documents that have the same lines where the search reads give it the same lines. -/
theorem window_eq_of_getElem? {lines others : List Text} {start place count : Nat}
    (h : ∀ i < count, others[place + i]? = lines[start + i]?) :
    (others.drop place).take count = (lines.drop start).take count := by
  apply List.ext_getElem?
  intro i
  rw [List.getElem?_take, List.getElem?_take, List.getElem?_drop, List.getElem?_drop]
  split
  case isTrue hi => exact h i hi
  case isFalse => rfl

/-! ## §3 The last character -/

theorem ParenWatch.Ends.getLast?_eq {watch : ParenWatch} {text : Text} (h : watch.Ends text) :
    text.getLast? = some ')' := by
  induction h with
  | close hstep => rw [List.getLast?_singleton, eq_of_step_eq_none hstep]
  | read hstep h ih => rw [List.getLast?_cons, ih, Option.getD_some]
  | skip hblank h ih => rw [List.getLast?_cons, ih, Option.getD_some]

namespace CodePlace

variable {place : CodePlace} {text : Text}

/-- Content of a literal shows as a space and other characters as themselves. -/
theorem eq_of_shown {c d : Char} (hspace : d ≠ ' ') (h : place.shown c = d) : c = d := by
  cases place with
  | code => exact h
  | slash => exact h
  | escape inString => exact absurd h.symm hspace
  | literal inString =>
    by_cases hquote : c = if inString then '"' else '\''
    · rwa [shown, if_pos hquote] at h
    · rw [shown, if_neg hquote] at h
      exact absurd h.symm hspace

/-- A parenthesis at the end of what shows is the last character of the text. -/
theorem getLast?_of_shows (hrun : (place.run text).isSome = true)
    (h : (place.shows text).getLast? = some ')') : text.getLast? = some ')' := by
  induction text generalizing place with
  | nil => simp [shows] at h
  | cons c text ih =>
    obtain ⟨last, hlast⟩ := Option.isSome_iff_exists.mp hrun
    obtain ⟨next, hstep, hrest⟩ := exists_step_of_run hlast
    rw [shows_cons hstep] at h
    cases text with
    | nil =>
      have hshown : place.shown c = ')' := by simpa [shows] using h
      rw [eq_of_shown (by decide) hshown, List.getLast?_singleton]
    | cons d text =>
      have htail : (next.shows (d :: text)).getLast? = some ')' := by
        simpa [shows, List.getLast?_cons] using h
      rw [List.getLast?_cons, ih (Option.isSome_of_eq_some hrest) htail, Option.getD_some]

end CodePlace

/-- A signature whose search has ended closes with the parenthesis that ended it. -/
theorem getLast?_of_extractSignature {lines : List Text} {start limit : Nat} {text : Text}
    (hends : ParenWatch.readLines {} {} ((lines.drop start).take (max 1 limit)) = none)
    (h : extractSignature lines start limit = .ok text) : text.getLast? = some ')' := by
  obtain ⟨hrun, hsearch⟩ := ends_of_extractSignature hends h
  exact CodePlace.getLast?_of_shows hrun hsearch.getLast?_eq

/-! ## §4 Limits compared -/

/-- **A higher limit only extends the signature.**  At a line of the document both limits give a
signature, and the words of the one for the lower limit begin the other.  If the search ends within
the lower limit, both signatures are the same and close with the parenthesis that ended it.  Any
document with the same lines within the lower limit, wherever they stand in it, gives the same
signature for that limit. -/
theorem extractSignature_limit {lines : List Text} {start : Nat} (hstart : start < lines.length)
    {limit higher : Nat} (hlimit : limit ≤ higher) :
    ∃ text longer, extractSignature lines start limit = .ok text ∧
      extractSignature lines start higher = .ok longer ∧ text.words <+: longer.words ∧
      (ParenWatch.readLines {} {} ((lines.drop start).take (max 1 limit)) = none →
        longer = text ∧ text.getLast? = some ')') ∧
      ∀ (others : List Text) (place : Nat),
        (∀ i < max 1 limit, others[place + i]? = lines[start + i]?) →
          extractSignature others place limit = .ok text := by
  -- the lines within the lower limit are the first of those within the higher one
  obtain ⟨more, hmore⟩ : ∃ more, (lines.drop start).take (max 1 higher) =
      (lines.drop start).take (max 1 limit) ++ more :=
    exists_take_eq_append (by omega) _
  have htext := extractSignature_eq_ok hstart limit
  have hlonger := extractSignature_eq_ok hstart higher
  refine ⟨_, _, htext, hlonger, ?_, fun hends => ⟨?_, getLast?_of_extractSignature hends htext⟩, ?_⟩
  · rw [words_of_extractSignature htext, words_of_extractSignature hlonger, hmore]
    exact (signatureParts_isPrefix _ _ _ more).flatMap Text.words
  · rw [hmore, signatureParts_append_of_none hends]
  · intro others place hsame
    -- the first line is there, so the place is inside the other document
    have hfirst : others[place]? = lines[start]? := hsame 0 (by omega)
    rw [List.getElem?_eq_getElem hstart] at hfirst
    obtain ⟨hplace, -⟩ := List.getElem?_eq_some_iff.mp hfirst
    rw [extractSignature_eq_ok hplace, window_eq_of_getElem? hsame]

/-- A method over four lines, with parentheses in its annotation and in comments. -/
def cappedMethodLines : List Text :=
  ["class A \x7b".toList, "@Min(1) // (".toList, "  void broken(".toList,
    "int a, /* ) */".toList, "int b) \x7b".toList, "f(c)".toList]

/-- The same method in another place of another document. -/
def movedMethodLines : List Text :=
  ["@Min(1) // (".toList, "  void broken(".toList, "int a, /* ) */".toList, "int b) \x7b".toList,
    "\"".toList]

/-- Three lines give the beginning of the method; four give all of it, and so do more. -/
theorem extractSignature_limit_cappedMethod :
    Text.words "@Min(1) void broken( int a," <+: Text.words "@Min(1) void broken( int a, int b)" ∧
      extractSignature cappedMethodLines 1 15 = extractSignature cappedMethodLines 1 4 ∧
      extractSignature movedMethodLines 0 4 = extractSignature cappedMethodLines 1 4 := by
  have hthree : extractSignature cappedMethodLines 1 3 = .ok "@Min(1) void broken( int a," := by
    decide +kernel
  have hfour : extractSignature cappedMethodLines 1 4 =
      .ok "@Min(1) void broken( int a, int b)" := by decide +kernel
  have hends : ParenWatch.readLines {} {} ((cappedMethodLines.drop 1).take (max 1 4)) = none := by
    decide +kernel
  have hmoved : ∀ i < max 1 4, movedMethodLines[0 + i]? = cappedMethodLines[1 + i]? := by
    decide +kernel
  obtain ⟨short, text, hshort, htext, hwords, -⟩ :=
    @extractSignature_limit cappedMethodLines 1 (by decide) 3 4 (by decide)
  obtain rfl := Except.ok.inj (hshort.symm.trans hthree)
  obtain rfl := Except.ok.inj (htext.symm.trans hfour)
  obtain ⟨text, longer, htext, hlonger, -, hsame, hothers⟩ :=
    @extractSignature_limit cappedMethodLines 1 (by decide) 4 15 (by decide)
  refine ⟨hwords, ?_, ?_⟩
  · rw [htext, hlonger, (hsame hends).1]
  · rw [htext, hothers movedMethodLines 0 hmoved]

end DeclDocs
