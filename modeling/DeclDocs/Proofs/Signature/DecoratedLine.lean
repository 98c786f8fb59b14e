import DeclDocs.Proofs.Declaration.AnnotatedLine
import DeclDocs.Proofs.Signature.Extraction

/-!
# A parameter list on one line

On a line with annotations, words and a parameter list the search passes over the annotations with
their arguments and over the words.  It then counts parentheses, those of annotations inside the
list among them, and ends with the one that closes the list.  What stands behind it, on the line or
below it, is not looked at.

* `ParenWatch.follow`: what the search remembers behind a text.
* `ParenWatch.follow_nested`: a nested list is read to its end.
* `ParenWatch.IsBetween.follow_rowText`: a row of annotations is read to its end.
* `PassedOver`: text in front of a parameter list.
* `extractSignature_of_passedOver`: the signature on a line.
-/

namespace DeclDocs

open Text (isSolid beginsWith)

/-! ## §1 Following the search -/

namespace ParenWatch

/-- What the search remembers behind the text; `none` when the parameter list ends in it. -/
def follow (watch : ParenWatch) (text : Text) : Option ParenWatch :=
  text.foldlM step watch

variable {watch next : ParenWatch} {c : Char} {text : Text}

theorem follow_cons (h : watch.step c = some next) (text : Text) :
    watch.follow (c :: text) = next.follow text := by
  rw [follow, List.foldlM_cons, h]
  rfl

theorem follow_append {front : Text} (h : watch.follow front = some next) (back : Text) :
    watch.follow (front ++ back) = next.follow back := by
  have happend : watch.follow (front ++ back) = (watch.follow front).bind (·.follow back) :=
    List.foldlM_append
  rw [happend, h, Option.bind_some]

private theorem snd_readLine (watch : ParenWatch) (glyphs : List Glyph) :
    (watch.readLine glyphs).2 = watch.follow (glyphs.map Glyph.shown) := by
  induction glyphs generalizing watch with
  | nil => rfl
  | cons glyph glyphs ih =>
    cases hstep : watch.step glyph.shown with
    | none =>
      rw [readLine_cons_of_none hstep, List.map_cons, follow, List.foldlM_cons, hstep]
      rfl
    | some next =>
      rw [readLine_cons hstep, List.map_cons, follow_cons hstep]
      exact ih next

/-- A text whose characters leave the search where it is. -/
theorem follow_eq_self (h : ∀ c ∈ text, watch.step c = some watch) :
    watch.follow text = some watch := by
  induction text with
  | nil => rfl
  | cons c text ih =>
    rw [follow_cons (h c (by simp))]
    exact ih fun d hd => h d (List.mem_cons_of_mem _ hd)

/-- The arguments of an annotation are passed over. -/
theorem follow_arguments {nested : Nat} (h : IsNested nested text) (watch : ParenWatch) :
    ParenWatch.follow { watch with annotation := .arguments nested } text =
      some { watch with annotation := .arguments 0 } := by
  induction text generalizing nested with
  | nil =>
    obtain rfl : nested = 0 := by simpa [IsNested, nests] using h
    rfl
  | cons c text ih =>
    by_cases hopen : c = '('
    · subst hopen
      have hdeeper : IsNested (nested + 1) text := h
      exact ih hdeeper
    by_cases hclose : c = ')'
    · subst hclose
      have hpos : nested ≠ 0 ∧ IsNested (nested - 1) text := by
        simpa [IsNested, nests, Brackets.parens, Brackets.ofPair] using h
      obtain ⟨outer, rfl⟩ := Nat.exists_eq_succ_of_ne_zero hpos.1
      exact ih hpos.2
    · have hrest : IsNested nested text := by
        simpa [IsNested, nests, Brackets.parens, Brackets.ofPair, hopen, hclose] using h
      rw [follow_cons (step_arguments_of_ne hopen hclose)]
      exact ih hrest

/-- **A nested list is read to its end**: as many parentheses are open behind it as are open around
it. -/
theorem follow_nested {depth : Nat} (h : IsNested depth text) (hinside : watch.IsInside)
    (hcount : watch.openCount = depth + 1) :
    ∃ next, watch.follow text = some next ∧ next.IsInside ∧ next.openCount = 1 := by
  -- `openCount` takes the parentheses of annotations and of the list together, so it follows the
  -- depth of the nesting whichever of the two a parenthesis belongs to
  induction text generalizing watch depth with
  | nil =>
    obtain rfl : depth = 0 := by simpa [IsNested, nests] using h
    exact ⟨watch, rfl, hinside, hcount⟩
  | cons c text ih =>
    obtain ⟨hopened, hdepth⟩ := hinside
    by_cases hopen : c = '('
    · subst hopen
      obtain ⟨next, hstep, hnext, hdeeper, htotal⟩ := step_open watch
      have hgroup : IsNested (depth + 1) text := h
      rw [follow_cons hstep]
      exact ih hgroup ⟨hnext hopened, by omega⟩ (by omega)
    by_cases hclose : c = ')'
    · subst hclose
      have hpos : depth ≠ 0 ∧ IsNested (depth - 1) text := by
        simpa [IsNested, nests, Brackets.parens, Brackets.ofPair] using h
      by_cases houter : watch.openCount = watch.depth
      · -- a group of the list, not of an annotation
        rw [follow_cons (step_close_outside houter (by omega))]
        refine ih hpos.2 ⟨hopened, Nat.sub_pos_of_lt (by omega)⟩ ?_
        show watch.depth - 1 = depth - 1 + 1
        omega
      · obtain ⟨next, hstep, hnext, hsame, htotal⟩ := step_close_arguments houter
        rw [follow_cons hstep]
        exact ih hpos.2 ⟨hnext.trans hopened, by omega⟩ (by omega)
    · have hrest : IsNested depth text := by
        simpa [IsNested, nests, Brackets.parens, Brackets.ofPair, hopen, hclose] using h
      obtain ⟨next, hstep, hnext, hsame, htotal⟩ := step_other watch hopen hclose
      rw [follow_cons hstep]
      exact ih hrest ⟨hnext.trans hopened, by omega⟩ (by omega)

end ParenWatch

/-! ## §2 In front of the list -/

/-- The search stands in front of the parameter list, behind the name of an annotation at most. -/
inductive ParenWatch.IsReady : ParenWatch → Prop where
  | outside : IsReady {}
  | afterName : IsReady ⟨.afterName, 0, false⟩

/-- The search stands where an annotation may begin: also right behind the name of another one. -/
inductive ParenWatch.IsBetween : ParenWatch → Prop where
  | ready {watch : ParenWatch} (h : watch.IsReady) : IsBetween watch
  | name : IsBetween ⟨.name, 0, false⟩

namespace ParenWatch.IsReady

variable {watch : ParenWatch} (h : watch.IsReady)
include h

theorem step_blank {c : Char} (hc : isBlank c = true) : watch.step c = some watch := by
  rw [watch.step_of_blank hc]
  cases h <;> rfl

/-- A word in front of the list. -/
theorem step_word {c : Char} (hsolid : isSolid c = true) (hc : isUnnoticed c = true) :
    watch.step c = some {} := by
  have hat : c ≠ '@' := Text.ne_of_class hc (by decide)
  have hopen : c ≠ '(' := Text.ne_of_class hc (by decide)
  have hclose : c ≠ ')' := Text.ne_of_class hc (by decide)
  have houtside : ParenWatch.step {} c = some {} := stepOutside_of_ne hat hopen hclose
  cases h with
  | outside => exact houtside
  | afterName =>
    exact (@step_afterName_of_ne {} c (by simpa [isSolid] using hsolid) hopen).trans houtside

end ParenWatch.IsReady

namespace ParenWatch

/-- The first blank behind a name ends it. -/
theorem follow_name_padding (padding : Padding) :
    follow ⟨.name, 0, false⟩ padding.text =
      some ⟨if padding.text = [] then .name else .afterName, 0, false⟩ := by
  have hblank := padding.blank
  cases hblanks : padding.text with
  | nil => rfl
  | cons b blanks =>
    rw [hblanks] at hblank
    rw [follow_cons (step_of_blank ⟨.name, 0, false⟩ (hblank b (by simp)))]
    exact follow_eq_self fun c hc =>
      IsReady.afterName.step_blank (hblank c (List.mem_cons_of_mem _ hc))

private theorem isBetween_name (isName : Prop) [Decidable isName] :
    IsBetween ⟨if isName then .name else .afterName, 0, false⟩ := by
  split
  · exact .name
  · exact .ready .afterName

namespace IsBetween

variable {watch : ParenWatch} (h : watch.IsBetween)
include h

private theorem step_at : watch.step '@' = some ⟨.name, 0, false⟩ := by
  rcases h with ⟨⟨⟩⟩ | _ <;> rfl

/-- The name of an annotation. -/
theorem follow_name {name : Text} (hname : IsAnnotationName name) :
    watch.follow ('@' :: name) = some ⟨.name, 0, false⟩ := by
  rw [follow_cons h.step_at]
  exact follow_eq_self fun c hc => @step_name_of_char {} c (hname.chars c hc)

/-- An annotation and the blanks behind it.  Where these keep it apart from a word, the search is
ready for one. -/
theorem follow_decorator (decorator : SpacedDecorator) :
    ∃ glyphs, ReadsAs decorator.text glyphs ∧
      ∃ next, watch.follow (glyphs.map Glyph.shown) = some next ∧ next.IsBetween ∧
        ((decorator.arguments = none → decorator.after.text ≠ []) → next.IsReady) := by
  have hfollow := h.follow_name decorator.isName
  have hname := decorator.readsAs_name
  unfold SpacedDecorator.text SpacedDecorator.argumentText
  cases decorator.arguments with
  | none =>
    refine ⟨_, hname.append (ReadsAs.nil.append decorator.after.readsAs), _, ?_,
      isBetween_name (decorator.after.text = []), fun hapart => ?_⟩
    · rw [List.map_append, List.map_append, map_shown_code, map_shown_code, follow_append hfollow]
      exact follow_name_padding decorator.after
    · rw [if_neg (hapart rfl)]
      exact .afterName
  | some part =>
    obtain ⟨gap, arguments⟩ := part
    obtain ⟨glyphs, hshown, hread⟩ := arguments.readsAs
    refine ⟨_, hname.append ((gap.readsAs.append hread).append decorator.after.readsAs), {}, ?_,
      .ready .outside, fun _ => .outside⟩
    -- blanks or none, the parenthesis opens the arguments
    have hopen : ParenWatch.step ⟨if gap.text = [] then .name else .afterName, 0, false⟩ '(' =
        some ⟨.arguments 0, 0, false⟩ := by
      split <;> rfl
    have hclose : ParenWatch.step ⟨.arguments 0, 0, false⟩ ')' = some {} := rfl
    rw [List.map_append, List.map_append, List.map_append, map_shown_code, map_shown_code,
      map_shown_code, hshown, follow_append hfollow, List.append_assoc,
      follow_append (follow_name_padding gap), List.cons_append, follow_cons hopen,
      List.append_assoc, follow_append (follow_arguments arguments.nested {}),
      List.singleton_append]
    exact (follow_cons hclose _).trans
      (follow_eq_self fun c hc => IsReady.outside.step_blank (decorator.after.blank c hc))

/-- Annotations in a row.  Behind the last one the search is ready for a word. -/
theorem follow_rowText {parts : List SpacedDecorator} (hnone : parts = [] → watch.IsReady)
    (hapart : ∀ last ∈ parts.getLast?, last.arguments = none → last.after.text ≠ []) :
    ∃ glyphs, ReadsAs (rowText parts) glyphs ∧
      ∃ next, watch.follow (glyphs.map Glyph.shown) = some next ∧ next.IsReady := by
  induction parts generalizing watch with
  | nil => exact ⟨[], .nil, watch, rfl, hnone rfl⟩
  | cons part parts ih =>
    obtain ⟨hlast, halone⟩ := apart_of_cons hapart
    obtain ⟨front, hfront, between, hbetween, hstands, hready⟩ := h.follow_decorator part
    obtain ⟨back, hback, next, hnext, hend⟩ := ih hstands (fun hnil => hready (halone hnil)) hlast
    refine ⟨front ++ back, hfront.append hback, next, ?_, hend⟩
    rw [List.map_append, follow_append hbetween, hnext]

end IsBetween

end ParenWatch

/-- The scanner and the search pass over the text: a parenthesis behind it opens a list. -/
def PassedOver (front : Text) : Prop :=
  ∃ glyphs, ReadsAs front glyphs ∧ ParenWatch.follow {} (glyphs.map Glyph.shown) = some {}

/-- Annotations and words. -/
theorem passedOver_row (row : DecoratorRow) {words : Text}
    (hbegins : beginsWith isSolid words = true) (hwords : ∀ c ∈ words, isUnnoticed c = true) :
    PassedOver (row.text ++ words) := by
  have hplain : ReadsAs words (words.map Glyph.code) :=
    .of_plain fun c hc => (Bool.and_eq_true_iff.mp (hwords c hc)).1
  obtain ⟨glyphs, hread, next, hnext, hready⟩ :=
    (ParenWatch.IsBetween.ready .outside).follow_rowText (fun _ => .outside) row.apart
  have hindent : ParenWatch.follow {} row.indent.text = some {} :=
    ParenWatch.follow_eq_self fun c hc =>
      ParenWatch.IsReady.outside.step_blank (row.indent.blank c hc)
  have hfollow : next.follow words = some {} := by
    cases words with
    | nil => simp at hbegins
    | cons c words =>
      rw [ParenWatch.follow_cons (hready.step_word hbegins (hwords c (by simp)))]
      apply ParenWatch.follow_eq_self
      intro d hd
      have hd := hwords d (List.mem_cons_of_mem _ hd)
      exact ParenWatch.stepOutside_of_ne (Text.ne_of_class hd (by decide))
        (Text.ne_of_class hd (by decide)) (Text.ne_of_class hd (by decide))
  refine ⟨_, (row.indent.readsAs.append hread).append hplain, ?_⟩
  rw [List.map_append, List.map_append, map_shown_code, map_shown_code, List.append_assoc,
    ParenWatch.follow_append hindent, ParenWatch.follow_append hnext, hfollow]

/-! ## §3 The signature on a line -/

/-- The search ends with the parenthesis that closes the list. -/
theorem PassedOver.readLine_scan {front : Text} (h : PassedOver front) (list : Arguments)
    (rest : Text) :
    ∃ kept, codeOf kept = front ++ '(' :: (list.text ++ [')']) ∧
      ParenWatch.readLine {} (scanLine (front ++ '(' :: (list.text ++ ')' :: rest))).glyphs =
        (kept, none) := by
  obtain ⟨before, hbefore, hfollow⟩ := h
  obtain ⟨inside, hshown, hlist⟩ :=
    ReadsAs.of_shows list.shows (c := ')') (by decide) (by decide)
  have hopen : ReadsAs ['('] [.code '('] := .of_plain (by decide)
  have hread := hbefore.append (hopen.append hlist)
  refine ⟨(before ++ .code '(' :: inside) ++ [.code ')'], ?_, ?_⟩
  · have hcode := hread.code
    simpa using hcode
  -- behind the list as many parentheses are open as in front of it, which is the one around it
  obtain ⟨last, hlast, hinside, hcount⟩ :=
    @ParenWatch.follow_nested ⟨.outside, 1, true⟩ _ 0 list.nested ⟨rfl, Nat.one_pos⟩ rfl
  have hfront : (ParenWatch.readLine {} (before ++ .code '(' :: inside)).2 = some last := by
    have hstep : ParenWatch.step {} '(' = some ⟨.outside, 1, true⟩ := rfl
    rw [ParenWatch.snd_readLine, List.map_append, ParenWatch.follow_append hfollow, List.map_cons,
      hshown]
    exact (ParenWatch.follow_cons hstep _).trans hlast
  have hdepth : last.depth = 1 := by
    have hle := last.depth_le_openCount
    have hpos := hinside.2
    omega
  have hclose : last.step (Glyph.code ')').shown = none :=
    ParenWatch.step_close_last (hcount.trans hdepth.symm) hinside.1 hdepth
  have hglyphs : (scanLine (front ++ '(' :: (list.text ++ ')' :: rest))).glyphs =
      (before ++ .code '(' :: inside) ++ .code ')' :: (ScanState.scan {} rest).glyphs := by
    have hscan := congrArg ScannedLine.glyphs (hread.scan rest)
    simpa [ScannedLine.prepend, scanLine] using hscan
  rw [hglyphs, ParenWatch.readLine_append_of_some hfront, ParenWatch.readLine_cons_of_none hclose]

/-- **The signature on a line** is the squeezed text up to the end of the parameter list. -/
theorem extractSignature_of_passedOver {front : Text} (h : PassedOver front) (list : Arguments)
    {rest : Text} {lines : List Text} {start : Nat}
    (hline : lines[start]? = some (front ++ '(' :: (list.text ++ ')' :: rest))) (maxLines : Nat) :
    extractSignature lines start maxLines =
      .ok (Text.squeeze (front ++ '(' :: (list.text ++ [')']))) := by
  obtain ⟨hstart, hget⟩ := List.getElem?_eq_some_iff.mp hline
  obtain ⟨kept, hkept, hread⟩ := h.readLine_scan list rest
  -- at least the line itself is read
  obtain ⟨n, hn⟩ : ∃ n, max 1 maxLines = n + 1 := ⟨max 1 maxLines - 1, by omega⟩
  have hwindow : (lines.drop start).take (max 1 maxLines) =
      (front ++ '(' :: (list.text ++ ')' :: rest)) :: (lines.drop (start + 1)).take n := by
    rw [List.drop_eq_getElem_cons hstart, hget, hn, List.take_succ_cons]
  have hparts : signatureParts {} {} ((lines.drop start).take (max 1 maxLines)) =
      [front ++ '(' :: (list.text ++ [')'])] := by
    rw [hwindow, signatureParts_cons_of_none (by exact congrArg Prod.snd hread), ← hkept]
    exact congrArg (fun read => [codeOf read.1]) hread
  rw [extractSignature_eq_ok hstart, hparts, Text.join_singleton]

end DeclDocs
