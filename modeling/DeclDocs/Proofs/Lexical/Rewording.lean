import DeclDocs.Proofs.Lexical.Breaks
import DeclDocs.Proofs.Lexical.Lexemes
import Mathlib.Data.List.Forall2

/-!
# Rewording comments and literals

The scanner takes every character of a line for code, for content of a literal or for part of a
comment.  A line is reworded by putting other characters for contents of literals and for characters
of comments, while everything that opens or closes a literal or a comment is left in its place.  The
scanner takes the characters of the new line for what it took those of the old one for, and it shows
the same text once contents are blanked.

* `ScanState.classify`, `ScanState.scan_eq_classify`: what characters are taken for.
* `Rewords`, `RewordsLines`: lines reworded inside comments and literals.
* `Rewords.classify_alike`: a rewording does not change what characters are taken for.
-/

namespace DeclDocs

open Text (beginsWith)

/-! ## §1 What characters are taken for -/

inductive CharClass where
  /-- Code, quotes included. -/
  | code
  /-- Content of a literal, neither a backslash nor escaped by one. -/
  | content
  /-- A backslash in a literal, or the character behind it. -/
  | escape
  /-- A character of a comment. -/
  | comment
  /-- The slash that closes a block comment, which leaves a space. -/
  | commentEnd
deriving DecidableEq, Repr

/-- A character and what it is taken for. -/
structure ClassedChar where
  char : Char
  kind : CharClass
deriving DecidableEq, Repr

/-- What the character leaves in the scanned line. -/
def ClassedChar.glyph? (part : ClassedChar) : Option Glyph :=
  match part.kind with
  | .code => some (.code part.char)
  | .content | .escape => some (.literal part.char)
  | .comment => none
  | .commentEnd => some (.code ' ')

/-- A line with what its characters are taken for, and what is open at its end. -/
structure ClassedLine where
  parts : List ClassedChar
  state : ScanState
deriving DecidableEq, Repr

/-- The line with a character put in front of it. -/
def ClassedLine.push (kind : CharClass) (c : Char) (line : ClassedLine) : ClassedLine :=
  { line with parts := ⟨c, kind⟩ :: line.parts }

namespace ScanState

/-- What the scanner takes the characters of a line for. -/
def classify (state : ScanState) : Text → ClassedLine
  | [] => ⟨[], state⟩
  | c :: cs =>
    if state.inBlockComment then
      match c, cs with
      | '*', '/' :: rest =>
        ((classify { state with inBlockComment := false } rest).push .commentEnd '/').push
          .comment '*'
      | c, rest => (classify state rest).push .comment c
    else if state.inString || state.inChar then
      if c = '\\' then
        match cs with
        | [] => ⟨[⟨c, .escape⟩], state⟩
        | escaped :: rest => ((classify state rest).push .escape escaped).push .escape c
      else if c = state.quote then
        (classify { state with inString := false, inChar := false } cs).push .code c
      else (classify state cs).push .content c
    else
      match c, cs with
      | '/', '/' :: rest => ⟨('/' :: '/' :: rest).map (⟨·, .comment⟩), state⟩
      | '/', '*' :: rest =>
        ((classify { state with inBlockComment := true } rest).push .comment '*').push .comment '/'
      | '"', rest => (classify { state with inString := true } rest).push .code '"'
      | '\'', rest => (classify { state with inChar := true } rest).push .code '\''
      | c, rest => (classify state rest).push .code c

section Steps

variable {state : ScanState} {c : Char} {cs : Text}

theorem classify_commentClose (h : state.inBlockComment = true) (cs : Text) :
    state.classify ('*' :: '/' :: cs) =
      ((classify { state with inBlockComment := false } cs).push .commentEnd '/').push
        .comment '*' := by
  conv_lhs => unfold classify
  simp only [h, if_true]

theorem classify_commentStep (h : state.inBlockComment = true)
    (hopen : c = '*' → beginsWith (· == '/') cs = false) :
    state.classify (c :: cs) = (state.classify cs).push .comment c := by
  conv_lhs => unfold classify
  simp only [h, if_true]
  split
  case h_1 => simp at hopen
  case h_2 => rfl

theorem classify_escapeEnd (h : state.InLiteral) :
    state.classify ['\\'] = ⟨[⟨'\\', .escape⟩], state⟩ := by
  conv_lhs => unfold classify
  simp only [h.noComment, h.literal, if_true, if_false, Bool.false_eq_true]

theorem classify_escape (h : state.InLiteral) (c : Char) (cs : Text) :
    state.classify ('\\' :: c :: cs) = ((state.classify cs).push .escape c).push .escape '\\' := by
  conv_lhs => unfold classify
  simp only [h.noComment, h.literal, if_true, if_false, Bool.false_eq_true]

theorem classify_closeQuote (h : state.InLiteral) (cs : Text) :
    state.classify (state.quote :: cs) = (classify {} cs).push .code state.quote := by
  have hquote : state.quote ≠ '\\' := (state.ne_quote (by decide) (by decide)).symm
  conv_lhs => unfold classify
  simp only [h.noComment, h.literal, if_true, if_false, Bool.false_eq_true, hquote]

theorem classify_content (h : state.InLiteral) (hescape : c ≠ '\\') (hquote : c ≠ state.quote)
    (cs : Text) : state.classify (c :: cs) = (state.classify cs).push .content c := by
  conv_lhs => unfold classify
  simp only [h.noComment, h.literal, if_true, if_false, Bool.false_eq_true, hescape, hquote]

theorem classify_lineComment (cs : Text) :
    classify {} ('/' :: '/' :: cs) = ⟨('/' :: '/' :: cs).map (⟨·, .comment⟩), {}⟩ :=
  rfl

theorem classify_blockComment (cs : Text) :
    classify {} ('/' :: '*' :: cs) = ((comment.classify cs).push .comment '*').push .comment '/' :=
  rfl

theorem classify_openQuote (h : c = '"' ∨ c = '\'') (cs : Text) :
    classify {} (c :: cs) = (classify (ofQuote (some c)) cs).push .code c := by
  conv_lhs => unfold classify
  rcases h with rfl | rfl <;> simp [ofQuote]

theorem classify_code (hquote : isQuote c = false)
    (hslash : c = '/' → beginsWith makesComment cs = false) :
    classify {} (c :: cs) = (classify {} cs).push .code c := by
  conv_lhs => unfold classify
  simp only [Bool.false_eq_true, if_false, Bool.or_self]
  split <;> simp_all [makesComment, isQuote]

end Steps

theorem map_char_classify (state : ScanState) (line : Text) :
    (state.classify line).parts.map ClassedChar.char = line := by
  induction state, line using line_induction with
  | nil state => rfl
  | commentClose state rest hcomment ih =>
    simp [classify_commentClose hcomment, ClassedLine.push, ih]
  | commentStep state c rest hcomment hopen ih =>
    simp [classify_commentStep hcomment hopen, ClassedLine.push, ih]
  | escapeEnd state hinside => simp [classify_escapeEnd hinside]
  | escape state c rest hinside ih => simp [classify_escape hinside, ClassedLine.push, ih]
  | closeQuote state rest hinside ih => simp [classify_closeQuote hinside, ClassedLine.push, ih]
  | content state c rest hinside hescape hquote ih =>
    simp [classify_content hinside hescape hquote, ClassedLine.push, ih]
  | lineComment rest => simp [classify_lineComment, Function.comp_def]
  | blockComment rest ih => simp [classify_blockComment, ClassedLine.push, ih]
  | openQuote quote rest hquote ih => simp [classify_openQuote hquote, ClassedLine.push, ih]
  | code c rest hquote hslash ih => simp [classify_code hquote hslash, ClassedLine.push, ih]

/-- What is read first outside literals is no content of one. -/
theorem kind_ne_content {state : ScanState} (houtside : ¬state.InLiteral) (line : Text) :
    ∀ part, (state.classify line).parts.head? = some part → part.kind ≠ .content := by
  induction state, line using line_induction with
  | nil state => simp [classify]
  | commentClose state rest hcomment =>
    simp [classify_commentClose hcomment, ClassedLine.push]
  | commentStep state c rest hcomment hopen =>
    simp [classify_commentStep hcomment hopen, ClassedLine.push]
  | escapeEnd state hinside => exact absurd hinside houtside
  | escape state c rest hinside => exact absurd hinside houtside
  | closeQuote state rest hinside => exact absurd hinside houtside
  | content state c rest hinside => exact absurd hinside houtside
  | lineComment rest => simp [classify_lineComment]
  | blockComment rest => simp [classify_blockComment, ClassedLine.push]
  | openQuote quote rest hquote => simp [classify_openQuote hquote, ClassedLine.push]
  | code c rest hquote hslash => simp [classify_code hquote hslash, ClassedLine.push]

/-- **The classes are those of the scanner**: they make up the scanned line. -/
theorem scan_eq_classify (state : ScanState) (line : Text) :
    state.scan line =
      ⟨(state.classify line).parts.filterMap ClassedChar.glyph?, (state.classify line).state⟩ := by
  induction state, line using line_induction with
  | nil state => rfl
  | commentClose state rest hcomment ih =>
    rw [scan_comment_close hcomment, classify_commentClose hcomment, ih]
    rfl
  | commentStep state c rest hcomment hopen ih =>
    rw [scan_comment_step hcomment hopen, classify_commentStep hcomment hopen, ih]
    rfl
  | escapeEnd state hinside =>
    rw [hinside.scan_escapeEnd, classify_escapeEnd hinside]
    rfl
  | escape state c rest hinside ih =>
    rw [hinside.scan_escape, classify_escape hinside, ih]
    rfl
  | closeQuote state rest hinside ih =>
    rw [hinside.scan_quote, classify_closeQuote hinside, ih]
    rfl
  | content state c rest hinside hescape hquote ih =>
    rw [hinside.scan_content hquote (fun hback => absurd hback hescape),
      classify_content hinside hescape hquote, ih]
    rfl
  | lineComment rest =>
    have hnone : (('/' :: '/' :: rest).map (⟨·, .comment⟩)).filterMap ClassedChar.glyph? = [] := by
      simp [List.filterMap_eq_nil_iff, ClassedChar.glyph?]
    rw [classify_lineComment, hnone]
    rfl
  | blockComment rest ih => exact ih
  | openQuote quote rest hquote ih =>
    rw [scan_openQuote hquote, classify_openQuote hquote, ih]
    rfl
  | code c rest hquote hslash ih =>
    rw [scan_code hquote hslash, classify_code hquote hslash, ih]
    rfl

end ScanState

/-! ## §2 Rewording a line -/

/-- A character of the given kind may be replaced: content of a literal by what is neither a quote
nor a backslash, and what is neither a slash nor a star in a comment by another such character. -/
def CharClass.permits (kind : CharClass) (c d : Char) : Bool :=
  c == d || match kind with
    | .content => !isQuote d && d != '\\'
    | .comment => !makesComment c && !makesComment d
    | _ => false

/-- The second line is the first one reworded inside comments and literals. -/
def Rewords (state : ScanState) (line line' : Text) : Prop :=
  List.Forall₂ (fun part d => part.kind.permits part.char d = true)
    (state.classify line).parts line'

instance (state : ScanState) (line line' : Text) : Decidable (Rewords state line line') :=
  decidable_of_iff ((state.classify line).parts.length = line'.length ∧
      ((state.classify line).parts.zip line').all
        (fun pair => pair.1.kind.permits pair.1.char pair.2) =
        true) (by simp [Rewords, List.forall₂_iff_zip])

/-- The two characters are taken for the same, and the second may replace the first. -/
structure ClassedChar.Alike (part part' : ClassedChar) : Prop where
  kind : part'.kind = part.kind
  permits : part.kind.permits part.char part'.char = true

/-- The characters of the two lines are taken for the same, and the same is open at their ends. -/
structure ClassedLine.Alike (line line' : ClassedLine) : Prop where
  parts : List.Forall₂ ClassedChar.Alike line.parts line'.parts
  state : line'.state = line.state

namespace CharClass

variable {kind : CharClass} {c d : Char}

/-- Code, escapes and the ends of comments are left as they are. -/
theorem eq_of_permits (hcontent : kind ≠ .content) (hcomment : kind ≠ .comment)
    (h : kind.permits c d = true) : d = c := by
  cases kind with
  | content => exact absurd rfl hcontent
  | comment => exact absurd rfl hcomment
  | _ =>
    have heq : c = d := by simpa [permits] using h
    exact heq.symm

/-- Outside literals slashes and stars are left as they are, and none are added. -/
theorem eq_of_permits_mark (hcontent : kind ≠ .content) (h : kind.permits c d = true)
    (hmark : makesComment c = true ∨ makesComment d = true) : d = c := by
  by_cases hcomment : kind = .comment
  · subst hcomment
    simp only [permits, Bool.or_eq_true, beq_iff_eq, Bool.and_eq_true, Bool.not_eq_true'] at h
    rcases h with rfl | ⟨hc, hd⟩
    · rfl
    · simp [hc, hd] at hmark
  · exact eq_of_permits hcontent hcomment h

/-- What is put for content of a literal neither closes the literal nor escapes anything. -/
theorem ne_of_permits_content {state : ScanState} (h : content.permits c d = true)
    (hescape : c ≠ '\\') (hquote : c ≠ state.quote) : d ≠ '\\' ∧ d ≠ state.quote := by
  simp only [permits, Bool.or_eq_true, beq_iff_eq, Bool.and_eq_true, Bool.not_eq_true',
    bne_iff_ne] at h
  rcases h with rfl | ⟨hunquoted, hback⟩
  · exact ⟨hescape, hquote⟩
  · refine ⟨hback, ?_⟩
    rintro rfl
    rcases state.quote_eq with hq | hq <;> simp [hq, isQuote] at hunquoted

end CharClass

namespace ClassedLine.Alike

variable {kind : CharClass} {line line' : ClassedLine}

theorem push {c d : Char} (hpermits : kind.permits c d = true) (h : Alike line line') :
    Alike (line.push kind c) (line'.push kind d) :=
  ⟨.cons ⟨rfl, hpermits⟩ h.parts, h.state⟩

end ClassedLine.Alike

namespace Rewords

open List (forall₂_cons_left_iff forall₂_map_left_iff forall₂_map_right_iff)

variable {state : ScanState} {line line' : Text} {c : Char}

/-- Outside literals a rewording neither takes a slash or a star away nor adds one. -/
theorem beginsWith_eq (h : Rewords state line line') (houtside : ¬state.InLiteral)
    (hmark : makesComment c = true) : beginsWith (· == c) line' = beginsWith (· == c) line := by
  have hchars := state.map_char_classify line
  have hhead := ScanState.kind_ne_content houtside line
  rw [Rewords] at h
  revert h hchars hhead
  generalize (state.classify line).parts = parts
  rintro h rfl hhead
  cases h with
  | nil => rfl
  | @cons part d parts tail hpermits htail =>
    have hkind : part.kind ≠ .content := hhead part rfl
    rw [List.map_cons, Text.beginsWith_cons, Text.beginsWith_cons, Bool.eq_iff_iff, beq_iff_eq,
      beq_iff_eq]
    constructor
    · rintro rfl
      exact (CharClass.eq_of_permits_mark hkind hpermits (Or.inr hmark)).symm
    · rintro rfl
      exact CharClass.eq_of_permits_mark hkind hpermits (Or.inl hmark)

private theorem beginsWith_makesComment (h : Rewords state line line')
    (houtside : ¬state.InLiteral) :
    beginsWith makesComment line' = beginsWith makesComment line := by
  have hor : ∀ text, beginsWith makesComment text =
      (beginsWith (· == '/') text || beginsWith (· == '*') text) := by
    intro text
    cases text <;> rfl
  rw [hor, hor, h.beginsWith_eq houtside rfl, h.beginsWith_eq houtside rfl]

/-- A character that is read by itself, where the one in its place is read in the same way. -/
theorem alike_cons {next : ScanState} {kind : CharClass} {rest : Text}
    (hread : state.classify (c :: rest) = (next.classify rest).push kind c)
    (hsame : ∀ d rest', kind.permits c d = true → Rewords next rest rest' →
      state.classify (d :: rest') = (next.classify rest').push kind d)
    (ih : ∀ {rest'}, Rewords next rest rest' →
      (next.classify rest).Alike (next.classify rest'))
    (h : Rewords state (c :: rest) line') :
    (state.classify (c :: rest)).Alike (state.classify line') := by
  rw [Rewords, hread] at h
  obtain ⟨d, rest', hd, hrest, rfl⟩ := forall₂_cons_left_iff.mp h
  rw [hread, hsame d rest' hd hrest]
  exact (ih hrest).push hd

/-- Two characters that are read together and of which neither may be replaced. -/
theorem alike_cons_cons {next : ScanState} {first second : CharClass} {d : Char} {rest : Text}
    (hread : ∀ rest, state.classify (c :: d :: rest) =
      ((next.classify rest).push second d).push first c)
    (hfirst : ∀ e, first.permits c e = true → e = c)
    (hsecond : ∀ e, second.permits d e = true → e = d)
    (ih : ∀ {rest'}, Rewords next rest rest' →
      (next.classify rest).Alike (next.classify rest'))
    (h : Rewords state (c :: d :: rest) line') :
    (state.classify (c :: d :: rest)).Alike (state.classify line') := by
  rw [Rewords, hread] at h
  obtain ⟨e, tail, he, htail, rfl⟩ := forall₂_cons_left_iff.mp h
  obtain ⟨f, rest', hf, hrest, rfl⟩ := forall₂_cons_left_iff.mp htail
  obtain rfl := hfirst e he
  obtain rfl := hsecond f hf
  rw [hread, hread]
  exact ((ih hrest).push hf).push he

/-- A line comment takes the rest of the line, whatever is put in its place. -/
theorem alike_lineComment {rest : Text} (h : Rewords {} ('/' :: '/' :: rest) line') :
    (ScanState.classify {} ('/' :: '/' :: rest)).Alike (ScanState.classify {} line') := by
  rw [Rewords, ScanState.classify_lineComment] at h
  obtain ⟨first, tail, hfirst, htail, rfl⟩ := forall₂_cons_left_iff.mp h
  obtain ⟨second, rest', hsecond, hrest, rfl⟩ := forall₂_cons_left_iff.mp htail
  obtain rfl : first = '/' := CharClass.eq_of_permits_mark (by simp) hfirst (Or.inl rfl)
  obtain rfl : second = '/' := CharClass.eq_of_permits_mark (by simp) hsecond (Or.inl rfl)
  rw [ScanState.classify_lineComment, ScanState.classify_lineComment]
  have hparts :
      List.Forall₂ (fun c d => ClassedChar.Alike ⟨c, .comment⟩ ⟨d, .comment⟩) rest rest' :=
    (forall₂_map_left_iff.mp hrest).imp fun _ _ hpermits => ⟨rfl, hpermits⟩
  refine ⟨.cons ⟨rfl, hfirst⟩ (.cons ⟨rfl, hsecond⟩ ?_), rfl⟩
  exact forall₂_map_left_iff.mpr (forall₂_map_right_iff.mpr hparts)

/-- No end of a comment is made up inside it. -/
theorem classify_commentStep {d : Char} {rest rest' : Text} (hcomment : state.inBlockComment = true)
    (hopen : c = '*' → beginsWith (· == '/') rest = false)
    (hd : CharClass.comment.permits c d = true) (hrest : Rewords state rest rest') :
    state.classify (d :: rest') = (state.classify rest').push .comment d := by
  have houtside : ¬state.InLiteral := fun hinside => by simp [hinside.noComment] at hcomment
  refine ScanState.classify_commentStep hcomment ?_
  rintro rfl
  have hstar : '*' = c := CharClass.eq_of_permits_mark (by simp) hd (Or.inr rfl)
  rw [beginsWith_eq hrest houtside rfl]
  exact hopen hstar.symm

/-- A slash that opens no comment does not come to open one. -/
theorem classify_code {rest rest' : Text} (hquote : isQuote c = false)
    (hslash : c = '/' → beginsWith makesComment rest = false) (hrest : Rewords {} rest rest') :
    ScanState.classify {} (c :: rest') = (ScanState.classify {} rest').push .code c := by
  have houtside : ¬ScanState.InLiteral {} := fun hinside => by simpa using hinside.literal
  refine ScanState.classify_code hquote fun hc => ?_
  rw [beginsWith_makesComment hrest houtside]
  exact hslash hc

/-- **A rewording does not change what characters are taken for**, nor what is open at the end. -/
theorem classify_alike (h : Rewords state line line') :
    (state.classify line).Alike (state.classify line') := by
  induction state, line using ScanState.line_induction generalizing line' with
  | nil state =>
    cases h
    exact ⟨.nil, rfl⟩
  | commentClose state rest hcomment ih =>
    refine alike_cons_cons (ScanState.classify_commentClose hcomment) ?_ ?_ ih h
    · exact fun e he => CharClass.eq_of_permits_mark (by simp) he (Or.inl rfl)
    · exact fun e he => CharClass.eq_of_permits (by simp) (by simp) he
  | commentStep state c rest hcomment hopen ih =>
    exact alike_cons (ScanState.classify_commentStep hcomment hopen)
      (fun d rest' hd hrest => hrest.classify_commentStep hcomment hopen hd) ih h
  | escapeEnd state hinside =>
    rw [Rewords, ScanState.classify_escapeEnd hinside] at h
    obtain ⟨d, tail, hd, htail, rfl⟩ := forall₂_cons_left_iff.mp h
    cases htail
    obtain rfl : d = '\\' := CharClass.eq_of_permits (by simp) (by simp) hd
    rw [ScanState.classify_escapeEnd hinside]
    exact ⟨.cons ⟨rfl, hd⟩ .nil, rfl⟩
  | escape state c rest hinside ih =>
    have hsame : ∀ {d e}, CharClass.escape.permits d e = true → e = d :=
      CharClass.eq_of_permits (by simp) (by simp)
    exact alike_cons_cons (ScanState.classify_escape hinside c) (fun _ => hsame) (fun _ => hsame)
      ih h
  | closeQuote state rest hinside ih =>
    refine alike_cons (ScanState.classify_closeQuote hinside rest) (fun d rest' hd _ => ?_) ih h
    obtain rfl : d = state.quote := CharClass.eq_of_permits (by simp) (by simp) hd
    exact ScanState.classify_closeQuote hinside rest'
  | content state c rest hinside hescape hquote ih =>
    refine alike_cons (ScanState.classify_content hinside hescape hquote rest)
      (fun d rest' hd _ => ?_) ih h
    obtain ⟨hescape', hquote'⟩ := CharClass.ne_of_permits_content hd hescape hquote
    exact ScanState.classify_content hinside hescape' hquote' rest'
  | lineComment rest => exact alike_lineComment h
  | blockComment rest ih =>
    have hsame : ∀ {d e}, makesComment d = true → CharClass.comment.permits d e = true → e = d :=
      fun hmark he => CharClass.eq_of_permits_mark (by simp) he (Or.inl hmark)
    exact alike_cons_cons ScanState.classify_blockComment (fun _ => hsame rfl) (fun _ => hsame rfl)
      ih h
  | openQuote quote rest hquote ih =>
    refine alike_cons (ScanState.classify_openQuote hquote rest) (fun d rest' hd _ => ?_) ih h
    obtain rfl : d = quote := CharClass.eq_of_permits (by simp) (by simp) hd
    exact ScanState.classify_openQuote hquote rest'
  | code c rest hquote hslash ih =>
    refine alike_cons (ScanState.classify_code hquote hslash) (fun d rest' hd hrest => ?_) ih h
    obtain rfl : d = c := CharClass.eq_of_permits (by simp) (by simp) hd
    exact hrest.classify_code hquote hslash

end Rewords

/-! ## §3 Scanning reworded lines -/

/-- The two scanned lines show the same, and the same is open at their ends. -/
structure ScannedLine.Alike (line line' : ScannedLine) : Prop where
  shown : line'.glyphs.map Glyph.shown = line.glyphs.map Glyph.shown
  state : line'.state = line.state

/-- Of a character that may be replaced nothing shows. -/
theorem ClassedChar.Alike.shown_eq {part part' : ClassedChar} (h : part.Alike part') :
    part'.glyph?.map Glyph.shown = part.glyph?.map Glyph.shown := by
  obtain ⟨c, kind⟩ := part
  obtain ⟨d, kind'⟩ := part'
  obtain rfl : kind' = kind := h.kind
  cases kind' with
  | code =>
    obtain rfl : d = c := CharClass.eq_of_permits (by simp) (by simp) h.permits
    rfl
  | _ => rfl

private theorem ClassedChar.map_shown_filterMap {parts parts' : List ClassedChar}
    (h : List.Forall₂ ClassedChar.Alike parts parts') :
    (parts'.filterMap ClassedChar.glyph?).map Glyph.shown =
      (parts.filterMap ClassedChar.glyph?).map Glyph.shown := by
  rw [List.map_filterMap, List.map_filterMap]
  induction h with
  | nil => rfl
  | cons hpart _ ih => rw [List.filterMap_cons, List.filterMap_cons, hpart.shown_eq, ih]

/-- A line and its rewording are scanned alike. -/
theorem Rewords.scan_alike {state : ScanState} {line line' : Text} (h : Rewords state line line') :
    (state.scan line).Alike (state.scan line') := by
  have halike := h.classify_alike
  rw [state.scan_eq_classify line, state.scan_eq_classify line']
  exact ⟨ClassedChar.map_shown_filterMap halike.parts, halike.state⟩

/-- Every line is reworded in the state that the lines above it leave. -/
inductive RewordsLines : ScanState → (lines lines' : List Text) → Prop where
  | nil (state : ScanState) : RewordsLines state [] []
  | cons {state : ScanState} {line line' : Text} {lines lines' : List Text}
      (hline : Rewords state line line')
      (hlines : RewordsLines (state.scan line).state lines lines') :
      RewordsLines state (line :: lines) (line' :: lines')

end DeclDocs
