import DeclDocs.Proofs.Text.Spacing

/-!
# Marks in text

A mark at the beginning, at the end or somewhere in a text, and what stands around it.

* `Text.after?_eq_some_iff`, `Text.before?_eq_some_iff`: a mark at either end.
* `Text.has_iff_isInfix`: a mark anywhere.
* `Text.cut?_front`, `Text.cutLast?_front`: the first and the last mark behind further text.
-/

namespace DeclDocs

namespace Text

/-! ## §1 Marks at the ends -/

theorem after?_eq_some_iff {text mark rest : Text} :
    after? text mark = some rest ↔ text = mark ++ rest := by
  induction mark generalizing text with
  | nil => simp [after?, eq_comm]
  | cons m mark ih =>
    cases text with
    | nil => simp [after?]
    | cons c text =>
      by_cases hc : c = m
      · simp [after?, hc, ih]
      · simp [after?, hc]

@[simp] theorem after?_append (mark rest : Text) : after? (mark ++ rest) mark = some rest :=
  after?_eq_some_iff.mpr rfl

theorem after?_eq_none_of_ne {c m : Char} (h : c ≠ m) (text mark : Text) :
    after? (c :: text) (m :: mark) = none := by
  simp [after?, h]

theorem before?_eq_some_iff {text mark front : Text} :
    before? text mark = some front ↔ text = front ++ mark := by
  rw [before?, Option.map_eq_some_iff]
  constructor
  · rintro ⟨rest, hafter, rfl⟩
    have hrev := after?_eq_some_iff.mp hafter
    rw [← List.reverse_reverse text, hrev]
    simp
  · rintro rfl
    exact ⟨front.reverse, by simp, by simp⟩

@[simp] theorem before?_append (front mark : Text) : before? (front ++ mark) mark = some front :=
  before?_eq_some_iff.mpr rfl

/-- A mark that the text in front does not begin with is not completed by what follows when that
begins with a character of another class. -/
theorem startsWith_append {p : Char → Bool} {rest : Text} (hrest : beginsWith p rest = false)
    {mark : Text} (hmark : ∀ c ∈ mark, p c = true) (front : Text) :
    startsWith (front ++ rest) mark = startsWith front mark := by
  induction mark generalizing front with
  | nil => simp [startsWith, after?]
  | cons m mark ih =>
    have hm : p m = true := hmark m (List.mem_cons_self ..)
    have ih' := ih fun c hc => hmark c (List.mem_cons_of_mem _ hc)
    cases front with
    | nil =>
      cases rest with
      | nil => rfl
      | cons c rest =>
        -- the mark would have to begin with the first character of `rest`
        have hne : c ≠ m := by
          rintro rfl
          simp [hm] at hrest
        simp [startsWith, after?, hne]
    | cons c front =>
      by_cases hc : c = m
      · simpa [startsWith, after?, hc] using ih' front
      · simp [startsWith, after?, hc]

/-! ## §2 Marks anywhere -/

theorem cut?_cons (c : Char) (cs mark : Text) :
    cut? (c :: cs) mark = match after? (c :: cs) mark with
      | some rest => some ([], rest)
      | none => (cut? cs mark).map fun (before, rest) => (c :: before, rest) := by
  cases h : after? (c :: cs) mark <;> simp only [cut?, h]

theorem cut?_of_after? {text mark rest : Text} (h : after? text mark = some rest) :
    cut? text mark = some ([], rest) := by
  unfold cut?
  rw [h]

theorem cut?_eq_some {text mark before rest : Text} (h : cut? text mark = some (before, rest)) :
    text = before ++ (mark ++ rest) := by
  induction text generalizing before with
  | nil =>
    -- only the empty mark is found in empty text
    rw [cut?] at h
    cases hafter : after? [] mark with
    | none => simp [hafter] at h
    | some found =>
      simp only [hafter, Option.some.injEq, Prod.mk.injEq] at h
      obtain ⟨rfl, rfl⟩ := h
      rw [List.nil_append]
      exact after?_eq_some_iff.mp hafter
  | cons c cs ih =>
    rw [cut?_cons] at h
    cases hafter : after? (c :: cs) mark with
    | some found =>
      simp only [hafter, Option.some.injEq, Prod.mk.injEq] at h
      obtain ⟨rfl, rfl⟩ := h
      rw [List.nil_append]
      exact after?_eq_some_iff.mp hafter
    | none =>
      simp only [hafter] at h
      obtain ⟨⟨front, found⟩, hcut, heq⟩ := Option.map_eq_some_iff.mp h
      cases heq
      rw [ih hcut]
      rfl

theorem has_cons (c : Char) (cs mark : Text) :
    has (c :: cs) mark = (startsWith (c :: cs) mark || has cs mark) := by
  rw [has, cut?_cons, startsWith]
  cases after? (c :: cs) mark <;> simp [has]

theorem has_iff_isInfix {text mark : Text} : has text mark = true ↔ mark <:+: text := by
  constructor
  · intro h
    obtain ⟨⟨before, rest⟩, hcut⟩ := Option.isSome_iff_exists.mp h
    exact ⟨before, rest, by rw [cut?_eq_some hcut, List.append_assoc]⟩
  · -- there may be an earlier mark, so the text in front is taken off one by one
    rintro ⟨before, rest, rfl⟩
    induction before with
    | nil =>
      rw [List.nil_append, has, cut?_of_after? (after?_append mark rest)]
      rfl
    | cons c before ih => rw [List.cons_append, List.cons_append, has_cons, ih, Bool.or_true]

/-- A part of a text has no mark that the text does not have. -/
theorem has_eq_false_of_isInfix {part text mark : Text} (hpart : part <:+: text)
    (h : has text mark = false) : has part mark = false := by
  rw [← Bool.not_eq_true] at h ⊢
  exact fun hmark => h (has_iff_isInfix.mpr ((has_iff_isInfix.mp hmark).trans hpart))

/-- A mark whose characters the text does not all have is not in it. -/
theorem has_eq_false_of_not_mem {text mark : Text} {m : Char} (hmark : m ∈ mark)
    (htext : m ∉ text) : has text mark = false := by
  rw [← Bool.not_eq_true]
  exact fun h => htext ((has_iff_isInfix.mp h).subset hmark)

/-- The search passes over characters that the mark does not begin with. -/
theorem cut?_front {m : Char} {front : Text} (hfront : ∀ c ∈ front, c ≠ m) (rest mark : Text) :
    cut? (front ++ rest) (m :: mark) =
      (cut? rest (m :: mark)).map fun (before, rest) => (front ++ before, rest) := by
  induction front with
  | nil => simp
  | cons c front ih =>
    have hc : c ≠ m := hfront c (List.mem_cons_self ..)
    rw [List.cons_append, cut?_cons, after?_eq_none_of_ne hc,
      ih fun d hd => hfront d (List.mem_cons_of_mem _ hd)]
    simp [Function.comp_def]

/-- The first mark behind characters that it does not begin with. -/
theorem cut?_append {m : Char} {front : Text} (hfront : ∀ c ∈ front, c ≠ m) (rest mark : Text) :
    cut? (front ++ (m :: mark ++ rest)) (m :: mark) = some (front, rest) := by
  rw [cut?_front hfront, cut?_of_after? (after?_append (m :: mark) rest)]
  simp

theorem has_front {m : Char} {front : Text} (hfront : ∀ c ∈ front, c ≠ m) (rest mark : Text) :
    has (front ++ rest) (m :: mark) = has rest (m :: mark) := by
  rw [has, cut?_front hfront, Option.isSome_map, has]

theorem cutLast?_eq_some {text mark before rest : Text}
    (h : cutLast? text mark = some (before, rest)) : text = before ++ (mark ++ rest) := by
  induction text generalizing before with
  | nil =>
    rw [cutLast?, Option.map_eq_some_iff] at h
    obtain ⟨behind, hafter, hparts⟩ := h
    cases hparts
    rw [List.nil_append, after?_eq_some_iff.mp hafter]
  | cons c cs ih =>
    rw [cutLast?] at h
    cases hlater : cutLast? cs mark with
    | some parts =>
      rw [hlater] at h
      cases h
      rw [List.cons_append, ← ih hlater]
    | none =>
      rw [hlater] at h
      obtain ⟨behind, hafter, hparts⟩ := Option.map_eq_some_iff.mp h
      cases hparts
      rw [List.nil_append, after?_eq_some_iff.mp hafter]

/-- The last mark stays the last one behind further text. -/
theorem cutLast?_front {text mark before rest : Text}
    (h : cutLast? text mark = some (before, rest)) (front : Text) :
    cutLast? (front ++ text) mark = some (front ++ before, rest) := by
  induction front with
  | nil => exact h
  | cons c front ih => simp [cutLast?, ih]

theorem cutLast?_eq_none {text mark : Text} (h : has text mark = false) :
    cutLast? text mark = none := by
  induction text with
  | nil =>
    rw [has, cut?] at h
    cases hafter : after? [] mark with
    | none => simp [cutLast?, hafter]
    | some rest => simp [hafter] at h
  | cons c cs ih =>
    -- neither behind `c` nor at `c`
    rw [has_cons, Bool.or_eq_false_iff, startsWith] at h
    have hafter : after? (c :: cs) mark = none := by simpa using h.1
    simp [cutLast?, ih h.2, hafter]

end Text

end DeclDocs
