import DeclDocs.Text.Blank
import Mathlib.Data.List.Chain
import Mathlib.Data.List.TakeWhile

/-!
# Blanks at the ends and between words

How trimming and squeezing act on text that is put together from pieces.  Trimming stops at the
first character that is no blank, so a piece that begins or ends with such a character shields what
lies behind it.  Squeezing leaves text alone whose blanks are single spaces between other
characters.

* `Text.beginsWith`, `Text.endsIn`: the class of the first and of the last character.
* `Text.IsSqueezed`: text that squeezing does not change.
-/

namespace DeclDocs

namespace Text

/-! ## §1 First and last characters -/

/-- A property of the characters of a text is decided along the text, not for every character there
is. -/
instance (priority := high) decidableForallMem (text : Text) (p : Char → Prop) [DecidablePred p] :
    Decidable (∀ c ∈ text, p c) :=
  List.decidableBAll p text

/-- The text is not empty and its first character satisfies `p`. -/
def beginsWith (p : Char → Bool) (text : Text) : Bool :=
  text.head?.any p

/-- The text is not empty and its last character satisfies `p`. -/
def endsIn (p : Char → Bool) (text : Text) : Bool :=
  text.getLast?.any p

/-- A character other than a blank. -/
def isSolid (c : Char) : Bool :=
  !isBlank c

/-- A character of a class is none of those outside it. -/
theorem ne_of_class {p : Char → Bool} {c d : Char} (h : p c = true) (hd : p d = false) : c ≠ d := by
  rintro rfl
  rw [h] at hd
  exact Bool.noConfusion hd

@[simp] theorem beginsWith_nil (p : Char → Bool) : beginsWith p [] = false := rfl

@[simp] theorem beginsWith_cons (p : Char → Bool) (c : Char) (cs : Text) :
    beginsWith p (c :: cs) = p c := rfl

theorem beginsWith_append {p : Char → Bool} {text : Text} (h : beginsWith p text = true)
    (rest : Text) : beginsWith p (text ++ rest) = true := by
  cases text with
  | nil => simp at h
  | cons c cs => exact h

theorem beginsWith_mono {p q : Char → Bool} (hpq : ∀ c, p c = true → q c = true) {text : Text}
    (h : beginsWith p text = true) : beginsWith q text = true := by
  cases text with
  | nil => simp at h
  | cons c cs => exact hpq c h

theorem beginsWith_of_all {p : Char → Bool} {text : Text} (hne : text ≠ [])
    (h : ∀ c ∈ text, p c = true) : beginsWith p text = true := by
  cases text with
  | nil => exact absurd rfl hne
  | cons c cs => exact h c (List.mem_cons_self ..)

theorem ne_nil_of_beginsWith {p : Char → Bool} {text : Text} (h : beginsWith p text = true) :
    text ≠ [] := by
  rintro rfl
  simp at h

theorem endsIn_append_eq {text : Text} (hne : text ≠ []) (p : Char → Bool) (front : Text) :
    endsIn p (front ++ text) = endsIn p text := by
  unfold endsIn
  rw [List.getLast?_append_of_ne_nil _ hne]

theorem endsIn_append {p : Char → Bool} {text : Text} (h : endsIn p text = true)
    (front : Text) : endsIn p (front ++ text) = true := by
  have hne : text ≠ [] := by
    rintro rfl
    simp [endsIn] at h
  rw [endsIn_append_eq hne, h]

theorem endsIn_mono {p q : Char → Bool} (hpq : ∀ c, p c = true → q c = true) {text : Text}
    (h : endsIn p text = true) : endsIn q text = true := by
  unfold endsIn at h ⊢
  cases hlast : text.getLast? with
  | none => simp [hlast] at h
  | some c =>
    rw [hlast, Option.any_some] at h
    exact hpq c h

theorem endsIn_of_all {p : Char → Bool} {text : Text} (hne : text ≠ [])
    (h : ∀ c ∈ text, p c = true) : endsIn p text = true := by
  unfold endsIn
  rw [List.getLast?_eq_some_getLast hne]
  exact h _ (List.getLast_mem hne)

theorem dropWhile_of_begins {p : Char → Bool} {text : Text} (h : beginsWith p text = false) :
    text.dropWhile p = text := by
  cases text with
  | nil => rfl
  | cons c cs =>
    have hc : ¬p c = true := by simpa using h
    rw [List.dropWhile_cons_of_neg hc]

theorem beginsWith_dropWhile (p : Char → Bool) (text : Text) :
    beginsWith p (text.dropWhile p) = false := by
  cases hd : text.dropWhile p with
  | nil => rfl
  | cons c cs =>
    have := List.head?_dropWhile_not p text
    simpa [hd] using this

/-- Dropping characters of a class from the front keeps the others. -/
theorem mem_dropWhile {p : Char → Bool} {text : Text} {c : Char} (hc : c ∈ text)
    (hp : p c = false) : c ∈ text.dropWhile p := by
  rw [← List.takeWhile_append_dropWhile (p := p) (l := text)] at hc
  refine (List.mem_append.mp hc).resolve_left fun h => ?_
  have := List.mem_takeWhile_imp h
  simp [hp] at this

/-- A run does not go on into text that begins with a character of another class. -/
theorem takeWhile_append_eq {p : Char → Bool} {rest : Text} (hrest : beginsWith p rest = false)
    (front : Text) : (front ++ rest).takeWhile p = front.takeWhile p := by
  induction front with
  | nil =>
    cases rest with
    | nil => rfl
    | cons c rest =>
      have hc : ¬p c = true := by simpa using hrest
      simp [hc]
  | cons c front ih =>
    by_cases hc : p c = true
    · rw [List.cons_append, List.takeWhile_cons_of_pos hc, List.takeWhile_cons_of_pos hc, ih]
    · rw [List.cons_append, List.takeWhile_cons_of_neg hc, List.takeWhile_cons_of_neg hc]

theorem takeWhile_append_of_begins {p : Char → Bool} {front : Text}
    (hfront : ∀ c ∈ front, p c = true) {rest : Text} (hrest : beginsWith p rest = false) :
    (front ++ rest).takeWhile p = front := by
  rw [takeWhile_append_eq hrest, List.takeWhile_eq_self_iff.mpr hfront]

theorem dropWhile_append_of_begins {p : Char → Bool} {front : Text}
    (hfront : ∀ c ∈ front, p c = true) {rest : Text} (hrest : beginsWith p rest = false) :
    (front ++ rest).dropWhile p = rest := by
  rw [List.dropWhile_append_of_pos hfront, dropWhile_of_begins hrest]

/-! ## §2 Trimming -/

theorem trimStart_append_of_blank {blanks : Text} (h : ∀ c ∈ blanks, isBlank c = true)
    (text : Text) : trimStart (blanks ++ text) = trimStart text :=
  List.dropWhile_append_of_pos h

theorem trimStart_eq_self {text : Text} (h : beginsWith isSolid text = true) :
    trimStart text = text := by
  cases text with
  | nil => rfl
  | cons c cs =>
    have hc : isBlank c = false := by simpa [isSolid] using h
    simp [trimStart, hc]

theorem trimStart_length_le (text : Text) : (trimStart text).length ≤ text.length :=
  (List.dropWhile_suffix _).length_le

/-- Trimming at the end does not reach past a last character that is no blank. -/
theorem trimEnd_append {front : Text} (h : endsIn isSolid front = true) (rest : Text) :
    trimEnd (front ++ rest) = front ++ trimEnd rest := by
  -- read backward, `front` begins with a character that stops the trimming
  have hrev : front.reverse.dropWhile isBlank = front.reverse := by
    cases hf : front.reverse with
    | nil => rfl
    | cons c cs =>
      have hlast : front.getLast? = some c := by
        rw [← List.head?_reverse, hf]
        rfl
      have hc : isBlank c = false := by simpa [endsIn, hlast, isSolid] using h
      simp [hc]
  unfold trimEnd dropEndWhile
  rw [List.reverse_append, List.dropWhile_append]
  split
  case isTrue hnil =>
    rw [hrev, List.isEmpty_iff.mp hnil]
    simp
  case isFalse => simp

theorem trimEnd_isPrefix (text : Text) : trimEnd text <+: text := by
  unfold trimEnd dropEndWhile
  conv_rhs => rw [← List.reverse_reverse text]
  exact List.reverse_prefix.mpr (List.dropWhile_suffix _)

/-- What trimming takes off the end is blank. -/
theorem exists_trimEnd_append (text : Text) :
    ∃ blanks, text = trimEnd text ++ blanks ∧ ∀ c ∈ blanks, isBlank c = true := by
  refine ⟨(text.reverse.takeWhile isBlank).reverse, ?_, fun c hc =>
    List.mem_takeWhile_imp (List.mem_reverse.mp hc)⟩
  unfold trimEnd dropEndWhile
  rw [← List.reverse_append, List.takeWhile_append_dropWhile, List.reverse_reverse]

theorem endsIn_trimEnd {text : Text} (h : trimEnd text ≠ []) :
    endsIn isSolid (trimEnd text) = true := by
  unfold trimEnd dropEndWhile at h ⊢
  rw [endsIn, List.getLast?_reverse]
  cases hd : text.reverse.dropWhile isBlank with
  | nil => simp [hd] at h
  | cons c cs =>
    have := List.head?_dropWhile_not isBlank text.reverse
    simpa [hd, isSolid] using this

/-- Trimming at the end keeps the first character of what it leaves. -/
theorem beginsWith_trimEnd {p : Char → Bool} {text : Text}
    (h : beginsWith p (trimEnd text) = true) : beginsWith p text = true := by
  obtain ⟨blanks, htext, _⟩ := exists_trimEnd_append text
  rw [htext]
  exact beginsWith_append h blanks

theorem trimEnd_of_blank {blanks : Text} (h : ∀ c ∈ blanks, isBlank c = true) :
    trimEnd blanks = [] := by
  unfold trimEnd dropEndWhile
  rw [List.reverse_eq_nil_iff, List.dropWhile_eq_nil_iff]
  intro c hc
  exact h c (List.mem_reverse.mp hc)

/-- Further blanks at the end are trimmed with the others. -/
theorem trimEnd_append_of_blank {blanks : Text} (h : ∀ c ∈ blanks, isBlank c = true)
    (front : Text) : trimEnd (front ++ blanks) = trimEnd front := by
  unfold trimEnd dropEndWhile
  rw [List.reverse_append, List.dropWhile_append_of_pos fun c hc => h c (List.mem_reverse.mp hc)]

theorem trim_append_of_blank {blanks : Text} (h : ∀ c ∈ blanks, isBlank c = true) (text : Text) :
    trim (text ++ blanks) = trim text := by
  unfold trim trimStart
  rw [List.dropWhile_append]
  split
  case isTrue hnil =>
    rw [List.isEmpty_iff.mp hnil, List.dropWhile_eq_nil_iff.mpr h]
  case isFalse => exact trimEnd_append_of_blank h _

theorem trimEnd_append_blank {front blanks : Text} (hf : endsIn isSolid front = true)
    (hb : ∀ c ∈ blanks, isBlank c = true) : trimEnd (front ++ blanks) = front := by
  rw [trimEnd_append hf, trimEnd_of_blank hb, List.append_nil]

theorem trimEnd_eq_self {text : Text} (h : endsIn isSolid text = true) : trimEnd text = text := by
  have hnil : ∀ c ∈ ([] : Text), isBlank c = true := by simp
  simpa using trimEnd_append_blank h hnil

/-- Trimming takes away the blanks around text that begins and ends with other characters. -/
theorem trim_surrounded {before text after : Text} (hb : ∀ c ∈ before, isBlank c = true)
    (hstart : beginsWith isSolid text = true) (hend : endsIn isSolid text = true)
    (ha : ∀ c ∈ after, isBlank c = true) : trim (before ++ (text ++ after)) = text := by
  unfold trim
  rw [trimStart_append_of_blank hb, trimStart_eq_self (beginsWith_append hstart after),
    trimEnd_append_blank hend ha]

theorem trim_eq_self {text : Text} (hstart : beginsWith isSolid text = true)
    (hend : endsIn isSolid text = true) : trim text = text := by
  have hnil : ∀ c ∈ ([] : Text), isBlank c = true := by simp
  simpa using trim_surrounded hnil hstart hend hnil

theorem beginsWith_trim {text : Text} (h : trim text ≠ []) :
    beginsWith isSolid (trim text) = true := by
  cases htrim : trim text with
  | nil => exact absurd htrim h
  | cons c cs =>
    -- a blank in front would also stand in front of what `trimStart` leaves
    rw [beginsWith_cons, ← Bool.not_eq_false]
    intro hblank
    have hbegins : beginsWith isBlank (trimEnd text.trimStart) = true := by
      change beginsWith isBlank (trim text) = true
      simpa [htrim, isSolid] using hblank
    have := beginsWith_trimEnd hbegins
    rw [trimStart, beginsWith_dropWhile] at this
    exact Bool.noConfusion this

/-- Trimmed text begins and ends with other characters than blanks. -/
theorem solid_of_trim_eq {text : Text} (h : trim text = text) (hne : text ≠ []) :
    beginsWith isSolid text = true ∧ endsIn isSolid text = true := by
  have hbegins : trim text ≠ [] := by rwa [h]
  have hends := endsIn_trimEnd hbegins
  rw [← trim, h] at hends
  have hfirst := beginsWith_trim hbegins
  rw [h] at hfirst
  exact ⟨hfirst, hends⟩

/-! ## §3 Words -/

theorem split_ne_nil (p : Char → Bool) (text : Text) : split p text ≠ [] := by
  cases text with
  | nil => simp [split]
  | cons c cs =>
    rw [split]
    split
    · simp
    · split <;> simp

/-- A separating character ends the piece in front of it. -/
theorem split_append_cons {p : Char → Bool} {c : Char} (hc : p c = true) (front rest : Text) :
    split p (front ++ c :: rest) = split p front ++ split p rest := by
  induction front with
  | nil => simp [split, hc]
  | cons d front ih =>
    rw [List.cons_append, split, split, ih]
    by_cases hd : p d = true
    · simp [hd]
    · -- `d` joins the first piece, and there always is one
      cases hs : split p front with
      | nil => exact absurd hs (split_ne_nil p front)
      | cons piece pieces => simp [hd]

theorem split_eq_singleton {p : Char → Bool} {text : Text} (h : ∀ c ∈ text, p c = false) :
    split p text = [text] := by
  induction text with
  | nil => rfl
  | cons c cs ih =>
    have hcs : split p cs = [cs] := ih fun d hd => h d (List.mem_cons_of_mem _ hd)
    rw [split, hcs]
    simp [h c (List.mem_cons_self ..)]

theorem words_append_cons {c : Char} (hc : isBlank c = true) (front rest : Text) :
    words (front ++ c :: rest) = words front ++ words rest := by
  unfold words
  rw [split_append_cons hc, List.filter_append]

theorem words_eq_singleton {text : Text} (hne : text ≠ []) (h : ∀ c ∈ text, isSolid c = true) :
    words text = [text] := by
  have hsplit : split isBlank text = [text] :=
    split_eq_singleton fun c hc => by simpa [isSolid] using h c hc
  cases text with
  | nil => exact absurd rfl hne
  | cons c cs => simp [words, hsplit]

theorem words_blank_append {blanks : Text} (h : ∀ c ∈ blanks, isBlank c = true) (text : Text) :
    words (blanks ++ text) = words text := by
  induction blanks with
  | nil => rfl
  | cons b blanks ih =>
    have hb : isBlank b = true := h b (List.mem_cons_self ..)
    have hrest : words (blanks ++ text) = words text :=
      ih fun c hc => h c (List.mem_cons_of_mem _ hc)
    have hcons := words_append_cons hb [] (blanks ++ text)
    rw [List.nil_append] at hcons
    rw [List.cons_append, hcons, hrest]
    rfl

theorem words_append_blank {blanks : Text} (h : ∀ c ∈ blanks, isBlank c = true) (front : Text) :
    words (front ++ blanks) = words front := by
  cases blanks with
  | nil => rw [List.append_nil]
  | cons b blanks =>
    have hrest := words_blank_append (fun c hc => h c (List.mem_cons_of_mem b hc)) []
    rw [List.append_nil] at hrest
    rw [words_append_cons (h b (List.mem_cons_self ..)), hrest]
    exact List.append_nil _

/-- The last blank of a text that ends with a word. -/
theorem cutLastBlank?_append {b : Char} (hb : isBlank b = true) {word : Text}
    (hword : ∀ c ∈ word, isSolid c = true) (front : Text) :
    cutLastBlank? (front ++ b :: word) = some (front, word) := by
  -- the search looks behind a blank first, and there is none in the word
  have hnone : cutLastBlank? word = none := by
    induction word with
    | nil => rfl
    | cons c cs ih =>
      have hc : isBlank c = false := by simpa [isSolid] using hword c (List.mem_cons_self ..)
      rw [cutLastBlank?, ih fun d hd => hword d (List.mem_cons_of_mem _ hd)]
      simp [hc]
  induction front with
  | nil => simp [cutLastBlank?, hnone, hb]
  | cons c front ih => simp [cutLastBlank?, ih]

theorem words_ne_nil {text : Text} (h : beginsWith isSolid text = true) : words text ≠ [] := by
  cases text with
  | nil => simp at h
  | cons c cs =>
    -- the first piece holds `c`, so the filter keeps it
    have hc : isBlank c = false := by simpa [isSolid] using h
    unfold words
    rw [split]
    cases hs : split isBlank cs with
    | nil => exact absurd hs (split_ne_nil _ cs)
    | cons piece pieces => simp [hc]

@[simp] theorem join_singleton (separator piece : Text) : join separator [piece] = piece :=
  List.intercalate_singleton

theorem join_cons {pieces : List Text} (h : pieces ≠ []) (separator piece : Text) :
    join separator (piece :: pieces) = piece ++ (separator ++ join separator pieces) := by
  rw [join, List.intercalate_cons_of_ne_nil h, List.append_assoc, ← join]

theorem join_append_singleton {pieces : List Text} (h : pieces ≠ []) (separator last : Text) :
    join separator (pieces ++ [last]) = join separator pieces ++ (separator ++ last) := by
  induction pieces with
  | nil => exact absurd rfl h
  | cons piece pieces ih =>
    by_cases hnil : pieces = []
    · subst hnil
      rw [List.singleton_append, join_cons (by simp), join_singleton, join_singleton]
    · rw [List.cons_append, join_cons (by simp), ih hnil, join_cons hnil]
      simp

theorem join_append_last (separator : Text) (front : List Text) (last rest : Text) :
    join separator (front ++ [last ++ rest]) = join separator (front ++ [last]) ++ rest := by
  by_cases hnil : front = []
  · simp [hnil]
  · rw [join_append_singleton hnil, join_append_singleton hnil]
    simp

theorem join_prepend (separator front first : Text) (rest : List Text) :
    join separator ((front ++ first) :: rest) = front ++ join separator (first :: rest) := by
  by_cases hnil : rest = []
  · simp [hnil]
  · rw [join_cons hnil, join_cons hnil, List.append_assoc]

theorem join_append_congr {separator : Text} {pieces others : List Text} (hne : pieces ≠ [])
    (hne' : others ≠ []) (h : join separator pieces = join separator others)
    (front : List Text) : join separator (front ++ pieces) = join separator (front ++ others) := by
  induction front with
  | nil => exact h
  | cons piece front ih =>
    rw [List.cons_append, List.cons_append, join_cons (by simp [hne]), join_cons (by simp [hne']),
      ih]

theorem mem_join {separator : Text} {pieces : List Text} {c : Char}
    (h : c ∈ join separator pieces) : c ∈ separator ∨ ∃ piece ∈ pieces, c ∈ piece := by
  induction pieces with
  | nil => simp [join, List.intercalate] at h
  | cons piece pieces ih =>
    by_cases hnil : pieces = []
    · subst hnil
      rw [join_singleton] at h
      exact Or.inr ⟨piece, List.mem_singleton_self piece, h⟩
    · rw [join_cons hnil, List.mem_append, List.mem_append] at h
      rcases h with h | h | h
      · exact Or.inr ⟨piece, List.mem_cons_self .., h⟩
      · exact Or.inl h
      · exact (ih h).imp_right fun ⟨other, hmem, hc⟩ => ⟨other, List.mem_cons_of_mem _ hmem, hc⟩

/-- Every piece stands somewhere in the joined text. -/
theorem isInfix_join {pieces : List Text} {piece : Text} (h : piece ∈ pieces) (separator : Text) :
    piece <:+: join separator pieces := by
  induction pieces with
  | nil => simp at h
  | cons first pieces ih =>
    by_cases hnil : pieces = []
    · subst hnil
      obtain rfl := List.mem_singleton.mp h
      exact (join_singleton separator piece).symm ▸ List.infix_rfl
    · rw [join_cons hnil]
      rcases List.mem_cons.mp h with rfl | hmem
      · exact List.infix_append' [] _ _
      · exact (ih hmem).trans
          ((List.suffix_append separator _).isInfix.trans (List.suffix_append first _).isInfix)

/-! ## §4 Squeezing -/

/-- The blanks of the text are single spaces between other characters. -/
structure IsSqueezed (text : Text) : Prop where
  begins : beginsWith isSolid text = true
  ends : endsIn isSolid text = true
  spaces : ∀ c ∈ text, isBlank c = true → c = ' '
  single : text.IsChain fun a b => isBlank a = true → isBlank b = false

namespace IsSqueezed

/-- Text without blanks. -/
theorem of_solid {text : Text} (hne : text ≠ []) (h : ∀ c ∈ text, isSolid c = true) :
    IsSqueezed text where
  begins := beginsWith_of_all hne h
  ends := endsIn_of_all hne h
  spaces := by
    intro c hc hb
    simpa [isSolid, hb] using h c hc
  single := by
    refine (List.pairwise_of_forall_mem_list ?_).isChain
    intro a _ b hb _
    simpa [isSolid] using h b hb

/-- Two pieces side by side: the seam lies between characters that are no blanks. -/
theorem append {a b : Text} (ha : IsSqueezed a) (hb : IsSqueezed b) : IsSqueezed (a ++ b) where
  begins := beginsWith_append ha.begins b
  ends := endsIn_append hb.ends a
  spaces := by
    intro c hc
    rcases List.mem_append.mp hc with h | h
    · exact ha.spaces c h
    · exact hb.spaces c h
  single := by
    -- the last character of `a` is no blank, so the seam asks for nothing
    refine ha.single.append hb.single ?_
    intro x hx _ _ hblank
    have hsolid : isSolid x = true := by
      have := ha.ends
      rw [endsIn, Option.mem_def.mp hx] at this
      exact this
    simp [isSolid, hblank] at hsolid

/-- Two pieces with a space between them. -/
theorem append_space {a b : Text} (ha : IsSqueezed a) (hb : IsSqueezed b) :
    IsSqueezed (a ++ ' ' :: b) where
  begins := beginsWith_append ha.begins _
  ends := endsIn_append (endsIn_append hb.ends [' ']) a
  spaces := by
    intro c hc
    rcases List.mem_append.mp hc with h | h
    · exact ha.spaces c h
    · rcases List.mem_cons.mp h with rfl | h
      · exact fun _ => rfl
      · exact hb.spaces c h
  single := by
    -- no blank follows the space, and none precedes it
    refine ha.single.append (hb.single.cons ?_) ?_
    · intro y hy _
      have hsolid := hb.begins
      rw [beginsWith, Option.mem_def.mp hy] at hsolid
      simpa [isSolid] using hsolid
    · intro x hx _ _ hblank
      have hsolid := ha.ends
      rw [endsIn, Option.mem_def.mp hx] at hsolid
      simp [isSolid, hblank] at hsolid

/-- What follows the first space of squeezed text is squeezed. -/
theorem of_append_space {a b : Text} (h : IsSqueezed (a ++ ' ' :: b)) : IsSqueezed b where
  begins := by
    have htail := h.single.right_of_append
    cases b with
    | nil =>
      -- squeezed text does not end with the space
      have hends : endsIn isSolid [' '] = true := by
        rw [← endsIn_append_eq (List.cons_ne_nil _ _) isSolid a]
        exact h.ends
      exact absurd hends (by decide)
    | cons c cs =>
      have hc : isBlank c = false := (List.isChain_cons_cons.mp htail).1 rfl
      simp [isSolid, hc]
  ends := by
    have hends := h.ends
    rw [endsIn_append_eq (List.cons_ne_nil _ _)] at hends
    cases b with
    | nil => exact absurd hends (by decide)
    | cons c cs => rwa [← endsIn_append_eq (List.cons_ne_nil _ _) isSolid [' ']]
  spaces := fun c hc => h.spaces c (by simp [hc])
  single := h.single.right_of_append.tail

/-- Squeezed pieces joined by a separator that ends in its only space. -/
theorem join {mark : Text} (hmark : ∀ c ∈ mark, isSolid c = true) {pieces : List Text}
    (hne : pieces ≠ []) (h : ∀ piece ∈ pieces, IsSqueezed piece) :
    IsSqueezed (Text.join (mark ++ [' ']) pieces) := by
  induction pieces with
  | nil => exact absurd rfl hne
  | cons piece pieces ih =>
    have hpiece := h piece (List.mem_cons_self ..)
    by_cases hnil : pieces = []
    · rw [hnil, join_singleton]
      exact hpiece
    · have hrest := ih hnil fun other hmem => h other (List.mem_cons_of_mem _ hmem)
      have hfront : IsSqueezed (piece ++ mark) := by
        by_cases hempty : mark = []
        · rw [hempty, List.append_nil]
          exact hpiece
        · exact hpiece.append (.of_solid hempty hmark)
      have := hfront.append_space hrest
      rw [join_cons hnil]
      simpa using this

end IsSqueezed

/-- Text is a word, or a word, a blank and more text; either word may be empty. -/
@[elab_as_elim]
theorem word_induction {motive : Text → Prop}
    (word : ∀ word, (∀ c ∈ word, isSolid c = true) → motive word)
    (blank : ∀ word b rest, (∀ c ∈ word, isSolid c = true) → isBlank b = true → motive rest →
      motive (word ++ b :: rest)) (text : Text) : motive text := by
  induction hn : text.length using Nat.strongRecOn generalizing text with
  | ind n ih =>
    cases hd : text.dropWhile isSolid with
    | nil => exact word text (List.dropWhile_eq_nil_iff.mp hd)
    | cons b rest =>
      have hb : isBlank b = true := by
        have := List.head?_dropWhile_not isSolid text
        simpa [hd, isSolid] using this
      have htext : text.takeWhile isSolid ++ b :: rest = text := by
        rw [← hd, List.takeWhile_append_dropWhile]
      have hlen : rest.length < n := by
        rw [← hn, ← htext]
        simp
        omega
      rw [← htext]
      exact blank _ b rest (fun c hc => List.mem_takeWhile_imp hc) hb (ih rest.length hlen rest rfl)

theorem squeeze_word {word : Text} (h : ∀ c ∈ word, isSolid c = true) : squeeze word = word := by
  by_cases hne : word = []
  · rw [hne]
    rfl
  · rw [squeeze, words_eq_singleton hne h, join_singleton]

theorem squeeze_cons_blank {b : Char} (hb : isBlank b = true) (rest : Text) :
    squeeze (b :: rest) = squeeze rest := by
  have hwords := words_append_cons hb [] rest
  rw [List.nil_append] at hwords
  rw [squeeze, hwords]
  rfl

/-- The first word of squeezed text, and a space if there are more. -/
theorem squeeze_append_cons {word : Text} {b : Char} (hne : word ≠ [])
    (hword : ∀ c ∈ word, isSolid c = true) (hb : isBlank b = true) (rest : Text) :
    squeeze (word ++ b :: rest) =
      if words rest = [] then word else word ++ ' ' :: squeeze rest := by
  have hwords : words (word ++ b :: rest) = word :: words rest := by
    rw [words_append_cons hb, words_eq_singleton hne hword]
    rfl
  rw [squeeze, hwords]
  split
  case isTrue hrest => rw [hrest, join_singleton]
  case isFalse hrest =>
    rw [join_cons hrest]
    rfl

/-- Squeezed text stays as it is: the words and the single spaces between them give it back. -/
theorem squeeze_eq_self {text : Text} (h : IsSqueezed text) : squeeze text = text := by
  induction text using word_induction with
  | word word hword => exact squeeze_word hword
  | blank word b rest hword hb ih =>
    obtain rfl : b = ' ' := h.spaces b (by simp) hb
    have hrest : IsSqueezed rest := IsSqueezed.of_append_space h
    have hne : word ≠ [] := by
      intro hnil
      have hbegins := h.begins
      rw [hnil] at hbegins
      exact absurd hbegins (by simp [isSolid, hb])
    rw [squeeze_append_cons hne hword hb, if_neg (words_ne_nil hrest.begins), ih hrest]

/-- What squeezing leaves of a text is squeezed, unless nothing is left. -/
theorem isSqueezed_squeeze {text : Text} (h : words text ≠ []) : IsSqueezed (squeeze text) := by
  induction text using word_induction with
  | word word hword =>
    have hne : word ≠ [] := by
      rintro rfl
      exact h rfl
    rw [squeeze_word hword]
    exact .of_solid hne hword
  | blank word b rest hword hb ih =>
    by_cases hne : word = []
    · have hwords : words (b :: rest) = words rest := words_append_cons hb [] rest
      rw [hne, List.nil_append] at h ⊢
      rw [hwords] at h
      rw [squeeze_cons_blank hb]
      exact ih h
    · rw [squeeze_append_cons hne hword hb]
      split
      case isTrue => exact .of_solid hne hword
      case isFalse hrest => exact (IsSqueezed.of_solid hne hword).append_space (ih hrest)

end Text

end DeclDocs
