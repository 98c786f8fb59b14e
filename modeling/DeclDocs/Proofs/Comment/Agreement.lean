import DeclDocs.Proofs.Comment.Location
import DeclDocs.Proofs.Lexical.Breaks

/-!
# The search for a comment and the scanner

The scanner reads a document forward and knows which lines lie inside a comment.  For a comment that
begins a line in code, ends a line and stands directly above a declaration, the search from the
declaration upward finds the same lines exactly when the comment opens once.

* `stateAfter_comment`: the scanner on the lines of a comment.
* `locateComment_iff_opensOnce`: the search agrees with the scanner exactly on comments that open
  once.
-/

namespace DeclDocs

/-! ## §1 The scanner on the lines of a comment -/

namespace ScanState

/-- Behind an opening the scanner is inside a comment. -/
theorem scan_opening {first opened : Text} (h : first.trimStart.after? "/*" = some opened) :
    (scan {} first).state = (comment.scan opened).state := by
  have hplain : ∀ c ∈ first.takeWhile isBlank, isPlain c = true := fun c hc =>
    isPlain_of_isBlank (List.mem_takeWhile_imp hc)
  have hfirst : first = first.takeWhile isBlank ++ ('/' :: '*' :: opened) := by
    conv_lhs => rw [← List.takeWhile_append_dropWhile (p := isBlank) (l := first)]
    exact congrArg _ (Text.after?_eq_some_iff.mp h)
  rw [hfirst, (ReadsAs.of_plain hplain).scan]
  rfl

end ScanState

/-- From inside a comment the scanner stays there up to the line with the first `*/`. -/
theorem stateAfter_upToFirstClose {texts body : List Text} (h : upToFirstClose? texts = some body) :
    (∀ n, n < texts.length → stateAfter .comment (texts.take n) = .comment) ∧
      stateAfter .comment texts = {} := by
  induction texts generalizing body with
  | nil => simp [upToFirstClose?] at h
  | cons text texts ih =>
    rw [upToFirstClose?] at h
    split at h
    case h_1 inside rest hcut =>
      split at h
      case isFalse => simp at h
      case isTrue hlast =>
        -- the comment ends here, and blanks do not change the state
        rw [Bool.and_eq_true, List.isEmpty_iff, Text.isBlankText, List.all_eq_true] at hlast
        obtain ⟨rfl, hblank⟩ := hlast
        refine ⟨fun n hn => ?_, ?_⟩
        · have : n = 0 := by simpa using hn
          subst this
          rfl
        · have hrest := (ReadsAs.of_plain fun c hc =>
            ScanState.isPlain_of_isBlank (hblank c hc)).scan []
          rw [List.append_nil] at hrest
          change (ScanState.comment.scan text).state = {}
          rw [ScanState.scan_comment_of_cut hcut, hrest]
          rfl
    case h_2 hcut =>
      obtain ⟨body, hrest, rfl⟩ := Option.map_eq_some_iff.mp h
      obtain ⟨hinside, hafter⟩ := ih hrest
      have hstay : (ScanState.comment.scan text).state = .comment := by
        rw [ScanState.scan_comment_of_not_has (by rw [Text.has, hcut]; rfl)]
      refine ⟨fun n hn => ?_, ?_⟩
      · cases n with
        | zero => rfl
        | succ n =>
          rw [List.take_succ_cons, stateAfter, List.foldl_cons, hstay]
          exact hinside n (by simpa using hn)
      · rw [stateAfter, List.foldl_cons, hstay]
        exact hafter

/-- The scanner agrees with the comment read forward: it is inside at the end of every line but the
last, and outside again behind that one. -/
theorem stateAfter_comment {comment body : List Text} (h : commentBody? comment = some body) :
    (∀ n, 0 < n → n < comment.length → stateAfter {} (comment.take n) = .comment) ∧
      stateAfter {} comment = {} := by
  cases comment with
  | nil => simp [commentBody?] at h
  | cons first rest =>
    obtain ⟨opened, hafter, hclose⟩ := Option.bind_eq_some_iff.mp h
    obtain ⟨hinside, hend⟩ := stateAfter_upToFirstClose hclose
    -- behind the opening the first line is a line inside the comment
    have hfirst : ∀ texts,
        stateAfter {} (first :: texts) = stateAfter .comment (opened :: texts) := by
      intro texts
      rw [stateAfter, List.foldl_cons, ScanState.scan_opening hafter]
      rfl
    refine ⟨fun n hpos hn => ?_, ?_⟩
    · obtain ⟨n, rfl⟩ := Nat.exists_eq_succ_of_ne_zero (Nat.pos_iff_ne_zero.mp hpos)
      rw [List.take_succ_cons, hfirst, ← List.take_succ_cons]
      exact hinside _ hn
    · rw [hfirst, hend]

/-! ## §2 The search agrees with the scanner -/

theorem drop_take_append_drop (lines : List Text) {low high : Nat} (h : low ≤ high) :
    (lines.take high).drop low ++ lines.drop high = lines.drop low := by
  have hdrop : lines.drop high = (lines.drop low).drop (high - low) := by
    rw [List.drop_drop, Nat.add_sub_cancel' h]
  rw [List.drop_take, hdrop, List.take_append_drop]

/-- **The upward search agrees with the scanner exactly on comments that open once.**  Let line
`first` begin outside comments and literals with the opening of a comment whose first `*/` ends line
`last`, and let no more than blank lines and annotations without `*/` stand between it and the
declaration.  The scanner is inside the comment at the end of every line but the last one; the
search finds these lines if and only if the comment opens once. -/
theorem locateComment_iff_opensOnce (lines : List Text) (first last declaration : Nat)
    (hfirst : first ≤ last) (hlast : last < declaration) (hdeclaration : declaration ≤ lines.length)
    (hstate : stateAfter {} (lines.take first) = {}) (body : List Text)
    (hbody : commentBody? ((lines.take (last + 1)).drop first) = some body)
    (hclose : ∀ line ∈ (lines.take declaration).drop (last + 1), line.has "*/" = false)
    (hgap : isTransparentGap ((lines.take declaration).drop (last + 1)) = true) :
    (∀ line, first ≤ line → line < last →
        stateAfter {} (lines.take (line + 1)) = { inBlockComment := true }) ∧
      stateAfter {} (lines.take (last + 1)) = {} ∧
      (locateComment lines declaration = some ⟨first, last, commentText body⟩ ↔
        opensOnce body = true) := by
  -- the document in four parts: above the comment, the comment, the gap, from the declaration on
  have hlines : lines = lines.take first ++ ((lines.take (last + 1)).drop first ++
      ((lines.take declaration).drop (last + 1) ++ lines.drop declaration)) := by
    rw [drop_take_append_drop lines hlast, drop_take_append_drop lines (by omega),
      List.take_append_drop]
  have habove : (lines.take first).length = first := List.length_take_of_le (by omega)
  have hown : ((lines.take (last + 1)).drop first).length = last + 1 - first := by
    rw [List.length_drop, List.length_take_of_le (by omega)]
  have hbetween : ((lines.take declaration).drop (last + 1)).length = declaration - (last + 1) := by
    rw [List.length_drop, List.length_take_of_le hdeclaration]
  -- the state behind `count` lines of the comment is the state there from its opening on
  have hscan : ∀ count, count ≤ last + 1 - first →
      stateAfter {} (lines.take (first + count)) =
        stateAfter {} (((lines.take (last + 1)).drop first).take count) := by
    intro count hcount
    have htake : lines.take (first + count) =
        lines.take first ++ ((lines.take (last + 1)).drop first).take count := by
      rw [List.drop_take, List.take_take, Nat.min_eq_left hcount, ← List.take_add]
    rw [htake, stateAfter, List.foldl_append]
    exact congrArg (fun state => stateAfter state _) hstate
  obtain ⟨hinside, hend⟩ := stateAfter_comment hbody
  refine ⟨fun line hlow hhigh => ?_, ?_, ?_⟩
  · have hline := hscan (line + 1 - first) (by omega)
    rw [hinside _ (by omega) (by omega)] at hline
    rwa [show first + (line + 1 - first) = line + 1 by omega] at hline
  · have hline := hscan (last + 1 - first) le_rfl
    rw [List.take_of_length_le hown.le, hend] at hline
    rwa [show first + (last + 1 - first) = last + 1 by omega] at hline
  · have hfound := locateComment_eq_iff hbody
      (fun line hline => closesComment_eq_false (hclose line hline)) hgap (lines.take first)
      (lines.drop declaration)
    rw [← hlines, habove, hown, hbetween] at hfound
    rwa [show first + (last + 1 - first) + (declaration - (last + 1)) = declaration by omega,
      show first + (last + 1 - first - 1) = last by omega] at hfound

/-- A comment between code and an annotation that runs over two lines. -/
theorem locateComment_above_annotation :
    locateComment ["int x; // *".toList, "  /** a // b".toList, "\" */ ".toList, "@A(".toList,
        ")".toList, "int f()".toList] 5 =
      some ⟨1, 2, "/** a // b\n\" */".toList⟩ :=
  (locateComment_iff_opensOnce _ 1 2 5 (by decide) (by decide) (by decide)
    (by decide +kernel) ["* a // b".toList, "\" ".toList] (by decide +kernel) (by decide +kernel)
    (by decide +kernel)).2.2.mpr (by decide +kernel)

/-- Not every comment is found whole: a mention of `/*` inside hides it from the search. -/
theorem not_forall_locateComment_commentText :
    ¬∀ (lines : List Text) (first last declaration : Nat) (body : List Text), first ≤ last →
      last < declaration → declaration ≤ lines.length → stateAfter {} (lines.take first) = {} →
      commentBody? ((lines.take (last + 1)).drop first) = some body →
      (∀ line ∈ (lines.take declaration).drop (last + 1), line.has "*/" = false) →
      isTransparentGap ((lines.take declaration).drop (last + 1)) = true →
      locateComment lines declaration = some ⟨first, last, commentText body⟩ := by
  intro hfound
  have hmention := hfound
    ["/* a".toList, "b /* c".toList, "*/".toList, "int f()".toList] 0 2 3
    [" a".toList, "b /* c".toList, []] (by decide) (by decide) (by decide) (by decide +kernel)
    (by decide +kernel) (by decide +kernel) (by decide +kernel)
  exact absurd hmention (by decide +kernel)

end DeclDocs
