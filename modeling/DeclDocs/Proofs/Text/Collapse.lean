import DeclDocs.Proofs.Text.Marks
import DeclDocs.Text.WordChar

/-!
# Runs of blanks

A run of blanks can be collapsed to one space without a word being lost or joined to another.  What
is read off a text word by word does not depend on how wide its runs of blanks are.

* `Text.collapse`: every run of blanks as a single space.
* `Text.after?_collapse`, `Text.takeWhile_collapse`, `Text.trimStart_collapse`: reading from the
  left.
* `Text.squeeze_eq_collapse`: squeezing collapses runs and takes off those at the ends.
* `Text.keywords_collapse`: the words of a text.
-/

namespace DeclDocs

/-! ## §1 Blanks are no part of words -/

/-- The code points of blanks. -/
def blankCodes : List Nat :=
  [9, 10, 11, 12, 13, 0x20, 0x85, 0xa0, 0x1680, 0x2000, 0x2001, 0x2002, 0x2003, 0x2004, 0x2005,
    0x2006, 0x2007, 0x2008, 0x2009, 0x200a, 0x2028, 0x2029, 0x202f, 0x205f, 0x3000]

private theorem toNat_mem_blankCodes {c : Char} (h : isBlank c = true) : c.toNat ∈ blankCodes := by
  have hbreaks : ∀ n < 14, 9 ≤ n → n ∈ blankCodes := by decide
  have hspaces : ∀ k < 11, 0x2000 + k ∈ blankCodes := by decide
  simp only [isBlank, Bool.or_eq_true, Bool.and_eq_true, decide_eq_true_eq, beq_iff_eq] at h
  generalize c.toNat = n at h
  rcases h with ((((((((((h | rfl) | rfl) | rfl) | rfl) | h) | rfl) | rfl) | rfl) | rfl) | rfl)
  · exact hbreaks n (by omega) h.1
  · decide
  · decide
  · decide
  · decide
  · obtain ⟨k, rfl⟩ := Nat.exists_eq_add_of_le h.1
    exact hspaces k (by omega)
  all_goals decide

/-- A class of characters that holds none of the blanks. -/
theorem eq_false_of_isBlank {p : Char → Bool}
    (hp : ∀ n ∈ blankCodes, p (Char.ofNat n) = false) {c : Char} (h : isBlank c = true) :
    p c = false := by
  have hcode := hp c.toNat (toNat_mem_blankCodes h)
  rwa [Char.ofNat_toNat] at hcode

/-- No table of word characters lists a blank. -/
theorem inRanges_of_isBlank {c : Char} (h : isBlank c = true) :
    ∀ ranges ∈ [alphabeticRanges, decimalRanges, joinerRanges, numeralRanges, addedRanges],
      128 ≤ c.toNat → inRanges c.toNat ranges = false := by
  have hcodes : ∀ n ∈ blankCodes,
      ∀ ranges ∈ [alphabeticRanges, decimalRanges, joinerRanges, numeralRanges, addedRanges],
        128 ≤ n → inRanges n ranges = false := by
    decide +kernel
  exact hcodes c.toNat (toNat_mem_blankCodes h)

private theorem isAlphanumeric_of_isBlank {c : Char} (h : isBlank c = true) :
    isAlphanumeric c = false := by
  unfold isAlphanumeric
  split
  · exact eq_false_of_isBlank (by decide) h
  case isFalse hascii =>
    have hnone := inRanges_of_isBlank h
    simp [hnone, not_lt.mp hascii]

theorem isNameChar_of_isBlank {c : Char} (h : isBlank c = true) : isNameChar c = false := by
  have hdollar : (c == '$') = false := eq_false_of_isBlank (p := (· == '$')) (by decide) h
  rw [isNameChar, hdollar, Bool.or_false, isWordChar]
  split
  · exact eq_false_of_isBlank (p := fun c => c.isAlphanum || c == '_') (by decide) h
  case isFalse hascii =>
    have hnone := inRanges_of_isBlank h
    simp [hnone, not_lt.mp hascii]

namespace Text

/-! ## §2 Collapsing -/

/-- The text with a single space for every run of blanks; behind a blank none is written for the run
that goes on. -/
def collapse : (behindBlank : Bool) → Text → Text
  | _, [] => []
  | behindBlank, c :: cs =>
    if isBlank c then
      if behindBlank then collapse true cs else ' ' :: collapse true cs
    else c :: collapse false cs

@[simp] theorem collapse_nil (behindBlank : Bool) : collapse behindBlank [] = [] := rfl

section Steps

variable {c : Char} {text front : Text}

theorem collapse_cons_of_solid (h : isSolid c = true) (behindBlank : Bool) (text : Text) :
    collapse behindBlank (c :: text) = c :: collapse false text := by
  have hblank : isBlank c = false := by simpa [isSolid] using h
  rw [collapse, if_neg (by simp [hblank])]

theorem collapse_cons_of_blank (h : isBlank c = true) (text : Text) :
    collapse false (c :: text) = ' ' :: collapse true text := by
  rw [collapse, if_pos h, if_neg (by simp)]

/-- Behind a blank further ones are dropped. -/
theorem collapse_true_cons_of_blank (h : isBlank c = true) (text : Text) :
    collapse true (c :: text) = collapse true text := by
  rw [collapse, if_pos h, if_pos rfl]

theorem collapse_append_of_solid (h : ∀ c ∈ front, isSolid c = true) (hne : front ≠ [])
    (behindBlank : Bool) (text : Text) :
    collapse behindBlank (front ++ text) = front ++ collapse false text := by
  induction front generalizing behindBlank with
  | nil => exact absurd rfl hne
  | cons c front ih =>
    rw [List.cons_append, collapse_cons_of_solid (h c (by simp)), List.cons_append]
    cases front with
    | nil => rfl
    | cons d front => rw [ih (fun e he => h e (List.mem_cons_of_mem _ he)) (by simp)]

theorem collapse_true_append_of_blank (h : ∀ c ∈ front, isBlank c = true) (text : Text) :
    collapse true (front ++ text) = collapse true text := by
  induction front with
  | nil => rfl
  | cons c front ih =>
    rw [List.cons_append, collapse_true_cons_of_blank (h c (by simp)),
      ih fun d hd => h d (List.mem_cons_of_mem _ hd)]

/-- A run of blanks is collapsed to one space. -/
theorem collapse_append_of_blank (h : ∀ c ∈ front, isBlank c = true) (hne : front ≠ [])
    (text : Text) : collapse false (front ++ text) = ' ' :: collapse true text := by
  cases front with
  | nil => exact absurd rfl hne
  | cons c front =>
    rw [List.cons_append, collapse_cons_of_blank (h c (by simp)),
      collapse_true_append_of_blank fun d hd => h d (List.mem_cons_of_mem _ hd)]

/-- What stands in front of a character that is no blank is collapsed by itself. -/
theorem collapse_append_cons (h : isSolid c = true) (behindBlank : Bool) (front text : Text) :
    collapse behindBlank (front ++ c :: text) =
      collapse behindBlank front ++ c :: collapse false text := by
  induction front generalizing behindBlank with
  | nil => exact collapse_cons_of_solid h behindBlank text
  | cons d front ih =>
    rw [List.cons_append, collapse, collapse, ih, ih]
    split
    · split <;> rfl
    · rfl

/-- What stands in front of anything but a blank is collapsed by itself. -/
theorem collapse_append_of_begins (h : beginsWith isSolid text = true) (behindBlank : Bool)
    (front : Text) :
    collapse behindBlank (front ++ text) = collapse behindBlank front ++ collapse false text := by
  cases text with
  | nil => simp at h
  | cons c text => rw [collapse_append_cons h, collapse_cons_of_solid h]

theorem mem_collapse {behindBlank : Bool} (h : c ∈ collapse behindBlank text) :
    c ∈ text ∨ c = ' ' := by
  induction text generalizing behindBlank with
  | nil => simp at h
  | cons d text ih =>
    rw [collapse] at h
    split at h
    · split at h
      · exact (ih h).imp_left (List.mem_cons_of_mem d)
      · rcases List.mem_cons.mp h with rfl | hmem
        · exact Or.inr rfl
        · exact (ih hmem).imp_left (List.mem_cons_of_mem d)
    · rcases List.mem_cons.mp h with rfl | hmem
      · exact Or.inl List.mem_cons_self
      · exact (ih hmem).imp_left (List.mem_cons_of_mem d)

/-- In front of anything but a blank it does not matter what stands there. -/
theorem collapse_eq_of_begins (h : beginsWith isBlank text = false) :
    collapse true text = collapse false text := by
  cases text with
  | nil => rfl
  | cons c text =>
    have hsolid : isSolid c = true := by simpa [isSolid] using h
    rw [collapse_cons_of_solid hsolid, collapse_cons_of_solid hsolid]

end Steps

/-! ## §3 Reading from the left -/

theorem after?_collapse {mark : Text} (hmark : ∀ c ∈ mark, isSolid c = true) (text : Text) :
    after? (collapse false text) mark = (after? text mark).map (collapse false) := by
  induction mark generalizing text with
  | nil => cases text <;> simp [after?]
  | cons m mark ih =>
    have hm : isSolid m = true := hmark m (by simp)
    cases text with
    | nil => rfl
    | cons c text =>
      by_cases hblank : isBlank c = true
      · -- no blank begins a mark
        have hspace : ' ' ≠ m := (ne_of_class hm (by decide)).symm
        have hc : c ≠ m := by
          rintro rfl
          simp [isSolid, hblank] at hm
        rw [collapse_cons_of_blank hblank, after?_eq_none_of_ne hspace, after?_eq_none_of_ne hc]
        rfl
      · have hsolid : isSolid c = true := by simpa [isSolid] using hblank
        rw [collapse_cons_of_solid hsolid, after?, after?,
          ih (fun d hd => hmark d (List.mem_cons_of_mem _ hd))]
        split <;> rfl

/-- Blanks are taken off the front, one or many. -/
theorem trimStart_collapse (text : Text) :
    trimStart (collapse false text) = collapse false (trimStart text) := by
  have hbegins : beginsWith isBlank (trimStart text) = false := beginsWith_dropWhile isBlank text
  have hparts : text.takeWhile isBlank ++ trimStart text = text := List.takeWhile_append_dropWhile
  have hblank : ∀ c ∈ text.takeWhile isBlank, isBlank c = true := fun c hc =>
    List.mem_takeWhile_imp hc
  have hsolid : trimStart (collapse false (trimStart text)) = collapse false (trimStart text) := by
    cases hrest : trimStart text with
    | nil => rfl
    | cons c rest =>
      rw [hrest] at hbegins
      have hc : isSolid c = true := by simpa [isSolid] using hbegins
      rw [collapse_cons_of_solid hc]
      exact trimStart_eq_self hc
  by_cases hne : text.takeWhile isBlank = []
  · rw [hne, List.nil_append] at hparts
    rw [hparts] at hsolid ⊢
    exact hsolid
  · have hspace : ∀ c ∈ [' '], isBlank c = true := by decide
    conv_lhs => rw [← hparts]
    rw [collapse_append_of_blank hblank hne, collapse_eq_of_begins hbegins]
    exact (trimStart_append_of_blank hspace _).trans hsolid

section Classes

variable {p : Char → Bool} (hp : ∀ c, p c = true → isSolid c = true)
include hp

/-- A class of characters without blanks. -/
theorem not_of_isBlank {c : Char} (h : isBlank c = true) : p c = false := by
  rw [← Bool.not_eq_true]
  intro hc
  have hsolid := hp c hc
  simp [isSolid, h] at hsolid

theorem takeWhile_collapse (text : Text) :
    (collapse false text).takeWhile p = text.takeWhile p := by
  induction text with
  | nil => rfl
  | cons c text ih =>
    by_cases hblank : isBlank c = true
    · rw [collapse_cons_of_blank hblank,
        List.takeWhile_cons_of_neg (by simp [not_of_isBlank hp (c := ' ') (by decide)]),
        List.takeWhile_cons_of_neg (by simp [not_of_isBlank hp hblank])]
    · rw [collapse_cons_of_solid (by simpa [isSolid] using hblank), List.takeWhile_cons,
        List.takeWhile_cons, ih]

theorem dropWhile_collapse (text : Text) :
    (collapse false text).dropWhile p = collapse false (text.dropWhile p) := by
  induction text with
  | nil => rfl
  | cons c text ih =>
    by_cases hblank : isBlank c = true
    · rw [List.dropWhile_cons_of_neg (by simp [not_of_isBlank hp hblank]),
        collapse_cons_of_blank hblank,
        List.dropWhile_cons_of_neg (by simp [not_of_isBlank hp (c := ' ') (by decide)])]
    · have hsolid : isSolid c = true := by simpa [isSolid] using hblank
      rw [collapse_cons_of_solid hsolid, List.dropWhile_cons, List.dropWhile_cons, ih]
      split
      · rfl
      · rw [collapse_cons_of_solid hsolid]

end Classes

/-! ## §4 Squeezing -/

theorem collapse_ne_nil {text : Text} (h : endsIn isSolid text = true) (behindBlank : Bool) :
    collapse behindBlank text ≠ [] := by
  rcases List.eq_nil_or_concat' text with rfl | ⟨front, last, rfl⟩
  · simp [endsIn] at h
  · have hlast : isSolid last = true := by simpa [endsIn] using h
    rw [collapse_append_cons hlast]
    simp

/-- Squeezing collapses runs and takes off those at the ends. -/
theorem squeeze_eq_collapse {text : Text} (h : endsIn isSolid text = true) :
    squeeze text = collapse true text := by
  induction text using word_induction with
  | word word hword =>
    rw [squeeze_word hword]
    by_cases hne : word = []
    · rw [hne, collapse_nil]
    · have hself := collapse_append_of_solid hword hne true []
      rw [List.append_nil, collapse_nil, List.append_nil] at hself
      exact hself.symm
  | blank word b rest hword hb ih =>
    -- behind the blank there is still a word
    have hrest : rest ≠ [] := by
      rintro rfl
      rw [endsIn_append_eq (by simp)] at h
      simp [endsIn, isSolid, hb] at h
    have hends : endsIn isSolid rest = true := by
      rwa [← List.singleton_append, ← List.append_assoc, endsIn_append_eq hrest] at h
    have hwords : words rest ≠ [] := by
      intro hnil
      have hempty := ih hends
      rw [squeeze, hnil] at hempty
      exact collapse_ne_nil hends true hempty.symm
    by_cases hne : word = []
    · rw [hne, List.nil_append, squeeze_cons_blank hb, collapse_true_cons_of_blank hb, ih hends]
    · rw [squeeze_append_cons hne hword hb, if_neg hwords, ih hends,
        collapse_append_of_solid hword hne, collapse_cons_of_blank hb]

/-! ## §5 Words -/

/-- A character of a word. -/
def isKeywordChar (c : Char) : Bool :=
  isAlphanumeric c || c == '_' || c == '$'

theorem keywords_append_cons {c : Char} (hc : isKeywordChar c = false) (front rest : Text) :
    keywords (front ++ c :: rest) = keywords front ++ keywords rest := by
  rw [keywords, split_append_cons (by simpa [isKeywordChar] using hc), List.filter_append]
  rfl

/-- No word goes on behind a character that belongs to none. -/
theorem keywords_append_of_ends {front : Text}
    (h : endsIn (fun c => !isKeywordChar c) front = true) (text : Text) :
    keywords (front ++ text) = keywords front ++ keywords text := by
  rcases List.eq_nil_or_concat' front with rfl | ⟨first, last, rfl⟩
  · rfl
  · have hlast : isKeywordChar last = false := by simpa [endsIn] using h
    rw [List.append_assoc, List.singleton_append, keywords_append_cons hlast,
      keywords_append_cons hlast]
    exact congrArg (· ++ keywords text) (List.append_nil _).symm

theorem keywords_eq_singleton {word : Text} (hne : word ≠ [])
    (h : ∀ c ∈ word, isKeywordChar c = true) : keywords word = [word] := by
  have hsplit : split (fun c => !isKeywordChar c) word = [word] :=
    split_eq_singleton fun c hc => by simp [h c hc]
  show (split (fun c => !isKeywordChar c) word).filter _ = [word]
  rw [hsplit]
  simp [hne]

/-- Characters that belong to no word. -/
theorem keywords_gap_append {gap : Text} (h : ∀ c ∈ gap, isKeywordChar c = false) (text : Text) :
    keywords (gap ++ text) = keywords text := by
  induction gap with
  | nil => rfl
  | cons c gap ih =>
    have hcons := keywords_append_cons (h c (by simp)) [] (gap ++ text)
    rw [List.nil_append] at hcons
    rw [List.cons_append, hcons, ih fun d hd => h d (List.mem_cons_of_mem _ hd)]
    rfl

/-- A gap between words. -/
theorem keywords_append_gap {gap : Text} (h : ∀ c ∈ gap, isKeywordChar c = false) (hne : gap ≠ [])
    (front text : Text) : keywords (front ++ (gap ++ text)) = keywords front ++ keywords text := by
  cases gap with
  | nil => exact absurd rfl hne
  | cons c gap =>
    rw [List.cons_append, keywords_append_cons (h c (by simp)),
      keywords_gap_append fun d hd => h d (List.mem_cons_of_mem _ hd)]

theorem isKeywordChar_of_isBlank {c : Char} (h : isBlank c = true) : isKeywordChar c = false := by
  have hmarks : (c == '_' || c == '$') = false :=
    eq_false_of_isBlank (p := fun c => c == '_' || c == '$') (by decide) h
  rw [isKeywordChar, isAlphanumeric_of_isBlank h, Bool.false_or, hmarks]

private theorem keywords_append_blank {blanks : Text} (h : ∀ c ∈ blanks, isBlank c = true)
    (front : Text) : keywords (front ++ blanks) = keywords front := by
  by_cases hne : blanks = []
  · rw [hne, List.append_nil]
  · have hgap := keywords_append_gap (fun c hc => isKeywordChar_of_isBlank (h c hc)) hne front []
    rw [List.append_nil] at hgap
    rw [hgap]
    exact List.append_nil _

theorem keywords_trim (text : Text) : keywords (trim text) = keywords text := by
  obtain ⟨blanks, hend, hblanks⟩ := exists_trimEnd_append (trimStart text)
  have hstart : ∀ c ∈ text.takeWhile isBlank, isKeywordChar c = false := fun c hc =>
    isKeywordChar_of_isBlank (List.mem_takeWhile_imp hc)
  calc keywords (trim text) = keywords (trim text ++ blanks) :=
        (keywords_append_blank hblanks (trim text)).symm
    _ = keywords (trimStart text) := congrArg keywords hend.symm
    _ = keywords (text.takeWhile isBlank ++ trimStart text) :=
        (keywords_gap_append hstart (trimStart text)).symm
    _ = keywords text := congrArg keywords List.takeWhile_append_dropWhile

/-- **How wide the gaps between words are does not matter.** -/
theorem keywords_collapse (behindBlank : Bool) (text : Text) :
    keywords (collapse behindBlank text) = keywords text := by
  induction text using word_induction generalizing behindBlank with
  | word word hword =>
    by_cases hne : word = []
    · rw [hne, collapse_nil]
    · have hself := collapse_append_of_solid hword hne behindBlank []
      rw [List.append_nil, collapse_nil, List.append_nil] at hself
      rw [hself]
  | blank word b rest hword hb ih =>
    have hspace : isKeywordChar ' ' = false := isKeywordChar_of_isBlank (by decide)
    rw [keywords_append_cons (isKeywordChar_of_isBlank hb), ← ih true]
    by_cases hne : word = []
    · subst hne
      rw [List.nil_append]
      cases behindBlank with
      | true =>
        rw [collapse_true_cons_of_blank hb]
        rfl
      | false =>
        rw [collapse_cons_of_blank hb]
        exact keywords_append_cons hspace [] _
    · rw [collapse_append_of_solid hword hne, collapse_cons_of_blank hb,
        keywords_append_cons hspace]

end Text

end DeclDocs
