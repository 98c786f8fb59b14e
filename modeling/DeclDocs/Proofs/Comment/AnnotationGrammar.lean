import DeclDocs.Proofs.Offsets.Masks
import DeclDocs.Proofs.Signature.ParameterGroup

/-!
# Sequences of annotations

Between a comment and its declaration may stand blanks and annotations.  What that means is said
here by a grammar of glyphs, so that a parenthesis in a literal is none.  The argument list of the
last annotation may still be open where the glyphs end.  Glyphs that come behind it are then read
from inside the list: first what is left of it, and then further annotations.

* `IsAnnotationName`, `Annotations`: the grammar.
* `Resumes`: the grammar behind a number of open parentheses.
* `resumes_append_of_some`, `resumes_append_of_none`: a group that closes and a group that does not.
* `annotations_marked_iff`: one annotation is taken off the front.
-/

namespace DeclDocs

/-! ## §1 The grammar -/

/-- A dotted name that an annotation may have. -/
structure IsAnnotationName (name : Text) : Prop where
  nonempty : name ≠ []
  chars : ∀ c ∈ name, isAnnotationChar c = true
  notInterface : Text.startsWith name "interface" = false

/-- An at sign and the name behind it. -/
def marked (name : Text) : List Glyph :=
  .code '@' :: name.map Glyph.code

@[simp] theorem Glyph.shown_code (c : Char) : (Glyph.code c).shown = c := rfl

/-- A blank other than the end of a line. -/
def Glyph.isRowBlank (g : Glyph) : Bool :=
  isBlank g.char && g.char != '\n'

/-- The glyphs do not go on with a character of a name. -/
def EndsName (glyphs : List Glyph) : Prop :=
  ∀ g ∈ glyphs.head?, isAnnotationChar g.shown = false

/-- None of the parentheses of code in the glyphs closes the group that they are in, `nested` groups
within it being open at the start. -/
def StaysOpen (nested : Nat) (glyphs : List Glyph) : Prop :=
  ∀ inside rest, glyphs = inside ++ .code ')' :: rest → ¬ IsNested nested (inside.map Glyph.shown)

/-- Blanks and annotations in any order.  The last argument list may be open at the end: whether it
is, is said by `isOpen`. -/
inductive Annotations : (isOpen : Bool) → List Glyph → Prop where
  | nil : Annotations false []
  | blank {isOpen : Bool} {g : Glyph} {rest : List Glyph} (hblank : isBlank g.char = true)
      (hrest : Annotations isOpen rest) : Annotations isOpen (g :: rest)
  /-- An annotation without arguments, its name as long as possible. -/
  | bare {isOpen : Bool} {name : Text} {rest : List Glyph} (hname : IsAnnotationName name)
      (hends : EndsName rest) (hrest : Annotations isOpen rest) :
      Annotations isOpen (marked name ++ rest)
  /-- An annotation with an argument list that opens on the same line and closes. -/
  | group {isOpen : Bool} {name : Text} {blanks inside rest : List Glyph}
      (hname : IsAnnotationName name) (hblanks : ∀ g ∈ blanks, g.isRowBlank = true)
      (hinside : IsNested 0 (inside.map Glyph.shown)) (hrest : Annotations isOpen rest) :
      Annotations isOpen (marked name ++ (blanks ++ .code '(' :: (inside ++ .code ')' :: rest)))
  /-- An annotation with an argument list that does not close. -/
  | openGroup {name : Text} {blanks inside : List Glyph} (hname : IsAnnotationName name)
      (hblanks : ∀ g ∈ blanks, g.isRowBlank = true) (hopen : StaysOpen 0 inside) :
      Annotations true (marked name ++ (blanks ++ .code '(' :: inside))

/-- The glyphs go on behind `depth` open parentheses: they close them, and annotations follow, or
they do not. -/
def Resumes (isOpen : Bool) : (depth : Nat) → List Glyph → Prop
  | 0, glyphs => Annotations isOpen glyphs
  | nested + 1, glyphs =>
    match untilClose '(' ')' nested glyphs with
    | some (_, rest) => Annotations isOpen rest
    | none => isOpen = true

/-! ## §2 Groups -/

section Groups

variable {nested : Nat} {g : Glyph} {glyphs inside rest : List Glyph} {isOpen : Bool}

/-- What stands in a group in front of the parenthesis that closes it. -/
theorem isNested_of_untilClose (h : untilClose '(' ')' nested glyphs = some (inside, rest)) :
    IsNested nested (inside.map Glyph.shown) := by
  induction glyphs generalizing nested inside with
  | nil => cases h
  | cons g glyphs ih =>
    -- a glyph that does not close the group is the first of those inside
    have hkeep : ∀ {depth : Nat},
        (untilClose '(' ')' depth glyphs).map (fun found => (g :: found.1, found.2)) =
          some (inside, rest) →
        ∃ front, inside = g :: front ∧ IsNested depth (front.map Glyph.shown) := by
      intro depth hmap
      obtain ⟨⟨front, found⟩, hclose, heq⟩ := Option.map_eq_some_iff.mp hmap
      obtain ⟨rfl, rfl⟩ := Prod.mk.inj heq
      exact ⟨front, rfl, ih hclose⟩
    by_cases hopen : g.shown = '('
    · rw [Offsets.untilClose_opening hopen] at h
      obtain ⟨front, rfl, hfront⟩ := hkeep h
      rw [List.map_cons, hopen]
      exact hfront.opening
    by_cases hclose : g.shown = ')'
    · cases nested with
      | zero =>
        rw [Offsets.untilClose_last hopen hclose] at h
        cases h
        rfl
      | succ outer =>
        rw [Offsets.untilClose_closing hopen hclose] at h
        obtain ⟨front, rfl, hfront⟩ := hkeep h
        rw [List.map_cons, hclose]
        exact hfront.closing
    · rw [Offsets.untilClose_other hopen hclose] at h
      obtain ⟨front, rfl, hfront⟩ := hkeep h
      exact hfront.other hopen hclose

/-- The group of glyphs that close it, taken apart. -/
theorem untilClose_eq_some_iff : untilClose '(' ')' nested glyphs = some (inside, rest) ↔
    glyphs = inside ++ .code ')' :: rest ∧ IsNested nested (inside.map Glyph.shown) := by
  constructor
  · intro h
    exact ⟨Offsets.untilClose_eq_some (by decide) h, isNested_of_untilClose h⟩
  · rintro ⟨rfl, hinside⟩
    exact untilClose_append (by decide) hinside rfl rest

private theorem untilClose_eq_none_iff : untilClose '(' ')' nested glyphs = none ↔
    StaysOpen nested glyphs := by
  rw [Option.eq_none_iff_forall_ne_some, Prod.forall]
  simp only [ne_eq, untilClose_eq_some_iff, not_and, StaysOpen]

/-- A group that closes is followed by annotations. -/
theorem resumes_append_of_some (h : untilClose '(' ')' nested glyphs = some (inside, rest))
    (more : List Glyph) :
    Resumes isOpen (nested + 1) (glyphs ++ more) ↔ Annotations isOpen (rest ++ more) := by
  obtain ⟨rfl, hinside⟩ := untilClose_eq_some_iff.mp h
  have hclose : untilClose '(' ')' nested (inside ++ .code ')' :: rest ++ more) =
      some (inside, rest ++ more) := by
    rw [List.append_assoc, List.cons_append, untilClose_eq_some_iff]
    exact ⟨rfl, hinside⟩
  rw [Resumes, hclose]

theorem resumes_opening (h : g.shown = '(') (rest : List Glyph) :
    Resumes isOpen (nested + 1) (g :: rest) ↔ Resumes isOpen (nested + 2) rest := by
  rw [Resumes, Resumes, Offsets.untilClose_opening h]
  cases untilClose '(' ')' (nested + 1) rest <;> rfl

theorem resumes_closing (h : g.shown = ')') (rest : List Glyph) :
    Resumes isOpen (nested + 1) (g :: rest) ↔ Resumes isOpen nested rest := by
  have hopen : g.shown ≠ '(' := by
    rw [h]
    decide
  rw [Resumes]
  cases nested with
  | zero => rw [Offsets.untilClose_last hopen h, Resumes]
  | succ outer =>
    rw [Offsets.untilClose_closing hopen h, Resumes]
    cases untilClose '(' ')' outer rest <;> rfl

theorem resumes_other (hopen : g.shown ≠ '(') (hclose : g.shown ≠ ')') (rest : List Glyph) :
    Resumes isOpen (nested + 1) (g :: rest) ↔ Resumes isOpen (nested + 1) rest := by
  rw [Resumes, Resumes, Offsets.untilClose_other hopen hclose]
  cases untilClose '(' ')' nested rest <;> rfl

theorem countCode_cons (c : Char) (g : Glyph) (glyphs : List Glyph) :
    countCode c (g :: glyphs) = countCode c glyphs + if g.shown = c then 1 else 0 := by
  simp [countCode, List.countP_cons]

/-- A group that does not close leaves the parentheses open that it opens and does not close. -/
theorem resumes_append_of_none (h : untilClose '(' ')' nested glyphs = none) (more : List Glyph) :
    Resumes isOpen (nested + 1) (glyphs ++ more) ↔
      Resumes isOpen (nested + 1 + countCode '(' glyphs - countCode ')' glyphs) more := by
  -- the depth on the right is that of the rest of the glyphs behind the first one
  induction glyphs generalizing nested with
  | nil => rfl
  | cons g glyphs ih =>
    rw [List.cons_append, countCode_cons, countCode_cons]
    by_cases hopen : g.shown = '('
    · rw [Offsets.untilClose_opening hopen, Option.map_eq_none_iff] at h
      rw [resumes_opening hopen, ih h, hopen, if_pos rfl, if_neg (by decide)]
      apply iff_of_eq
      congr 1
      omega
    by_cases hclose : g.shown = ')'
    · cases nested with
      | zero => simp [Offsets.untilClose_last hopen hclose] at h
      | succ outer =>
        rw [Offsets.untilClose_closing hopen hclose, Option.map_eq_none_iff] at h
        rw [resumes_closing hclose, ih h, hclose, if_neg (by decide), if_pos rfl]
        apply iff_of_eq
        congr 1
        omega
    · rw [Offsets.untilClose_other hopen hclose, Option.map_eq_none_iff] at h
      rw [resumes_other hopen hclose, ih h, if_neg hopen, if_neg hclose]
      rfl

end Groups

/-! ## §3 Annotations from the front -/

section Front

variable {isOpen : Bool} {g : Glyph} {name : Text} {rest : List Glyph}

/-- A first part whose members all belong to a class is determined if what follows does not go on
with the class. -/
theorem append_inj_of_class {α : Type} {p : α → Bool} {front front' back back' : List α}
    (h : front ++ back = front' ++ back') (hfront : ∀ x ∈ front, p x = true)
    (hfront' : ∀ x ∈ front', p x = true) (hback : ∀ x ∈ back.head?, p x = false)
    (hback' : ∀ x ∈ back'.head?, p x = false) : front = front' ∧ back = back' := by
  have hnil : ∀ {back : List α}, (∀ x ∈ back.head?, p x = false) → back.takeWhile p = [] := by
    intro back hback
    cases back with
    | nil => rfl
    | cons x back => exact List.takeWhile_cons_of_neg (by simp [hback x rfl])
  have htake := congrArg (List.takeWhile p) h
  rw [List.takeWhile_append_of_pos hfront, List.takeWhile_append_of_pos hfront', hnil hback,
    hnil hback', List.append_nil, List.append_nil] at htake
  subst htake
  exact ⟨rfl, List.append_cancel_left h⟩

theorem Glyph.isBlank_of_isRowBlank (h : g.isRowBlank = true) : isBlank g.char = true :=
  (Bool.and_eq_true_iff.mp h).1

/-- A glyph whose character is a blank shows a blank. -/
theorem Glyph.isBlank_shown (h : isBlank g.char = true) : isBlank g.shown = true := by
  unfold Glyph.shown
  split
  · rfl
  · exact h

theorem isAnnotationChar_of_isBlank {c : Char} (h : isBlank c = true) :
    isAnnotationChar c = false := by
  rw [← Bool.not_eq_true]
  intro hc
  have hsolid := isSolid_of_isAnnotationChar hc
  simp [Text.isSolid, h] at hsolid

/-- Neither a blank nor a parenthesis goes on with a name. -/
theorem endsName_blanks_append {blanks : List Glyph} (hblanks : ∀ g ∈ blanks, isBlank g.char = true)
    (hrest : EndsName rest) : EndsName (blanks ++ rest) := by
  cases blanks with
  | nil => exact hrest
  | cons g blanks =>
    rintro _ ⟨⟩
    exact isAnnotationChar_of_isBlank (Glyph.isBlank_shown (hblanks g (List.mem_cons_self ..)))

theorem endsName_opening (rest : List Glyph) : EndsName (.code '(' :: rest) := by
  rintro _ ⟨⟩
  decide

/-- A blank may be left out. -/
theorem annotations_cons_blank (h : isBlank g.char = true) :
    Annotations isOpen (g :: rest) ↔ Annotations isOpen rest := by
  refine ⟨fun hrest => ?_, .blank h⟩
  generalize hcells : g :: rest = glyphs at hrest
  -- an annotation begins with an at sign, which is no blank
  have hmark : ∀ name more, g :: rest ≠ marked name ++ more := by
    intro name more heq
    rw [(List.cons.inj heq).1] at h
    exact absurd h (by decide)
  cases hrest with
  | nil => cases hcells
  | blank _ hrest =>
    cases hcells
    exact hrest
  | bare | group | openGroup => exact absurd hcells (hmark _ _)

theorem resumes_append_blanks {depth : Nat} {blanks : List Glyph}
    (h : ∀ g ∈ blanks, isBlank g.char = true) :
    Resumes isOpen depth (blanks ++ rest) ↔ Resumes isOpen depth rest := by
  induction blanks with
  | nil => rfl
  | cons g blanks ih =>
    obtain ⟨hg, hblanks⟩ := List.forall_mem_cons.mp h
    rw [List.cons_append, ← ih hblanks]
    cases depth with
    | zero => exact annotations_cons_blank hg
    | succ nested =>
      -- a blank is no parenthesis
      have hshown := Glyph.isBlank_shown hg
      apply resumes_other
      · exact Text.ne_of_class hshown (by decide)
      · exact Text.ne_of_class hshown (by decide)

theorem annotations_append_blanks {blanks : List Glyph}
    (h : ∀ g ∈ blanks, isBlank g.char = true) :
    Annotations isOpen (blanks ++ rest) ↔ Annotations isOpen rest :=
  @resumes_append_blanks isOpen rest 0 blanks h

/-- Nothing but a blank and an annotation begins a sequence of annotations. -/
theorem not_annotations_cons (hblank : isBlank g.char = false) (hat : g ≠ .code '@') :
    ¬ Annotations isOpen (g :: rest) := by
  intro h
  generalize hcells : g :: rest = glyphs at h
  cases h with
  | nil => cases hcells
  | blank hother =>
    cases hcells
    simp [hblank] at hother
  | bare | group | openGroup => exact hat (List.cons.inj hcells).1

/-- An argument list opens on the same line, and the glyphs go on in it. -/
def OpensGroup (isOpen : Bool) (glyphs : List Glyph) : Prop :=
  ∃ blanks inside, glyphs = blanks ++ .code '(' :: inside ∧ (∀ g ∈ blanks, g.isRowBlank = true) ∧
    Resumes isOpen 1 inside

theorem OpensGroup.endsName (h : OpensGroup isOpen rest) : EndsName rest := by
  obtain ⟨blanks, inside, rfl, hblanks, -⟩ := h
  apply endsName_blanks_append _ (endsName_opening inside)
  exact fun g hg => Glyph.isBlank_of_isRowBlank (hblanks g hg)

/-- The argument list behind the blanks is the only one. -/
theorem opensGroup_append_iff {blanks inside : List Glyph}
    (hblanks : ∀ g ∈ blanks, g.isRowBlank = true) :
    OpensGroup isOpen (blanks ++ .code '(' :: inside) ↔ Resumes isOpen 1 inside := by
  have hopening : ∀ more, ∀ g ∈ (Glyph.code '(' :: more).head?, g.isRowBlank = false := by
    rintro more _ ⟨⟩
    rfl
  constructor
  · rintro ⟨others, behind, heq, hothers, hbehind⟩
    -- both lists of blanks end at the first glyph that is none
    obtain ⟨-, htail⟩ :=
      append_inj_of_class heq hblanks hothers (hopening inside) (hopening behind)
    rwa [(List.cons.inj htail).2]
  · exact fun h => ⟨blanks, inside, rfl, hblanks, h⟩

/-- An annotation at the front, taken apart. -/
theorem Annotations.exists_name {cells : List Glyph} (h : Annotations isOpen (.code '@' :: cells)) :
    ∃ name rest, cells = name.map Glyph.code ++ rest ∧ IsAnnotationName name ∧ EndsName rest ∧
      (Annotations isOpen rest ∨ OpensGroup isOpen rest) := by
  generalize hcells : Glyph.code '@' :: cells = glyphs at h
  cases h with
  | nil => cases hcells
  | blank hblank =>
    cases hcells
    exact absurd hblank (by decide)
  | @bare _ name rest hname hends hrest =>
    exact ⟨name, rest, (List.cons.inj hcells).2, hname, hends, Or.inl hrest⟩
  | @group _ name blanks inside rest hname hblanks hinside hrest =>
    have hopens : OpensGroup isOpen (blanks ++ .code '(' :: (inside ++ .code ')' :: rest)) := by
      rw [opensGroup_append_iff hblanks, Resumes, untilClose_eq_some_iff.mpr ⟨rfl, hinside⟩]
      exact hrest
    exact ⟨name, _, (List.cons.inj hcells).2, hname, hopens.endsName, Or.inr hopens⟩
  | @openGroup name blanks inside hname hblanks hopen =>
    have hopens : OpensGroup true (blanks ++ .code '(' :: inside) := by
      rw [opensGroup_append_iff hblanks, Resumes, untilClose_eq_none_iff.mpr hopen]
    exact ⟨name, _, (List.cons.inj hcells).2, hname, hopens.endsName, Or.inr hopens⟩

/-- An annotation with an argument list, whether it closes or not. -/
theorem OpensGroup.annotations (h : OpensGroup isOpen rest) (hname : IsAnnotationName name) :
    Annotations isOpen (marked name ++ rest) := by
  obtain ⟨blanks, inside, rfl, hblanks, hinside⟩ := h
  rw [Resumes] at hinside
  cases hclose : untilClose '(' ')' 0 inside with
  | none =>
    rw [hclose] at hinside
    obtain rfl : isOpen = true := hinside
    exact .openGroup hname hblanks (untilClose_eq_none_iff.mp hclose)
  | some parts =>
    obtain ⟨within, behind⟩ := parts
    rw [hclose] at hinside
    obtain ⟨rfl, hwithin⟩ := untilClose_eq_some_iff.mp hclose
    exact .group hname hblanks hwithin hinside

/-- **An annotation is taken off the front**: its name, and its argument list if one opens on the
same line. -/
theorem annotations_marked_iff (hchars : ∀ c ∈ name, isAnnotationChar c = true)
    (hends : EndsName rest) :
    Annotations isOpen (marked name ++ rest) ↔
      IsAnnotationName name ∧ (Annotations isOpen rest ∨ OpensGroup isOpen rest) := by
  constructor
  · intro h
    obtain ⟨other, behind, heq, hother, hbehind, hrest⟩ := Annotations.exists_name h
    -- both names are as long as possible, so that they are the same
    have hglyphs : ∀ {name : Text}, (∀ c ∈ name, isAnnotationChar c = true) →
        ∀ g ∈ name.map Glyph.code, isAnnotationChar g.shown = true := by
      intro name hchars g hg
      obtain ⟨c, hc, rfl⟩ := List.mem_map.mp hg
      exact hchars c hc
    obtain ⟨hname, rfl⟩ := append_inj_of_class heq (hglyphs hchars) (hglyphs hother.chars) hends
      hbehind
    obtain rfl : name = other := by
      simpa only [codeOf_map_code] using congrArg codeOf hname
    exact ⟨hother, hrest⟩
  · rintro ⟨hname, hrest | hrest⟩
    · exact .bare hname hends hrest
    · exact hrest.annotations hname

end Front

end DeclDocs
