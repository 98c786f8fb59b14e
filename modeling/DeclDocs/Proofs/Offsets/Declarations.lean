import DeclDocs.Declaration.Member
import DeclDocs.Proofs.Declaration.Stripping
import DeclDocs.Proofs.Offsets.Masks
import DeclDocs.Signature.Parse

/-!
# Declarations read by offsets

Annotations, modifiers, parameters, types and arguments of a declaration are cut out at offsets that
were found in its mask.  Each function here works on offsets and checks every cut, index and
difference, and none of the checks ever fails.

* `Offsets.loop_eq`: a step that is repeated until it no longer applies.
* `Offsets.stripAnnotations_eq`, `Offsets.stripWords_eq`: what is taken off the front.
* `Offsets.parseSignature_eq`: the signature of a declaration text.
* `Offsets.fieldType_eq`, `Offsets.enumArguments_eq`: fields and enum constants.
-/

namespace DeclDocs

namespace Offsets

/-! ## §1 Repeated steps -/

/-- Applies the step until it no longer applies. -/
def loop (step : Text → Checked (Option Text)) : (fuel : Nat) → Text → Checked Text
  | 0, _ => throw .endless
  | fuel + 1, text => do
    match ← step text with
    | some rest => loop step fuel rest
    | none => pure text

/-- A step that shortens the text is taken at most once for each character. -/
theorem loop_eq {step : Text → Checked (Option Text)} {step? : Text → Option Text}
    (hstep : ∀ text, step text = pure (step? text))
    (hshorter : ∀ text rest, step? text = some rest → rest.length < text.length) (fuel : Nat)
    (text : Text) (hfuel : text.length < fuel) :
    loop step fuel text = pure (Text.strip step? text) := by
  induction fuel generalizing text with
  | zero => omega
  | succ fuel ih =>
    rw [loop, hstep, pure_bind, Text.strip_eq hshorter]
    cases hrest : step? text with
    | none => rfl
    | some rest =>
      have hlt := hshorter text rest hrest
      exact ih rest (by omega)

/-! ## §2 Annotations -/

/-- What follows an annotation without leading blanks: `candidate` is what stands behind its name,
where an argument list may begin. -/
def dropArguments (text candidate : Text) : Checked (Option Text) :=
  if candidate.startsWith "(" then do
    let openAt ← Checked.minus text.byteLength candidate.byteLength
    match ← matchingClose text openAt '(' ')' with
    | some close => do
      let rest ← text.fromByte (close + 1)
      pure (some rest.trimStart)
    | none => pure (some [])
  else pure (some candidate)

/-- What follows the annotation at the beginning of the text, without leading blanks. -/
def dropAnnotation (text : Text) : Checked (Option Text) :=
  if !text.startsWith "@" || text.startsWith "@interface" then pure none
  else do
    let behind ← text.fromByte 1
    let whole ← Checked.minus text.byteLength 1
    let nameLength := (behind.findByte fun c => !isAnnotationChar c).getD whole
    if nameLength = 0 then pure none
    else do
      let afterName ← text.fromByte (1 + nameLength)
      dropArguments text afterName.trimStart

/-- The text without the blanks and annotations in front of it. -/
def stripAnnotations (text : Text) : Checked Text :=
  let rest := text.trimStart
  loop dropAnnotation (rest.length + 1) rest

/-- The end of a group behind plain text, such as the name of an annotation. -/
theorem matchingClose_plain {front : Text} (hfront : ∀ c ∈ front, ScanState.isPlain c = true)
    {opening closing : Char} (hopening : isDelimiter opening = true)
    (hclosing : isDelimiter closing = true) (hplain : ScanState.isPlain opening = true)
    (rest : Text) :
    matchingClose (front ++ opening :: rest) front.byteLength opening closing =
      pure ((untilClose opening closing 0 (maskGlyphs rest)).map fun (inside, _) =>
        front.byteLength + 1 + (codeOf inside).byteLength) := by
  have hmask : maskGlyphs (front ++ opening :: rest) =
      front.map Glyph.code ++ .code opening :: maskGlyphs rest := by
    have hall : ∀ c ∈ front ++ [opening], ScanState.isPlain c = true := by
      intro c hc
      rcases List.mem_append.mp hc with hmem | hmem
      · exact hfront c hmem
      · rwa [List.mem_singleton.mp hmem]
    rw [List.append_cons, maskGlyphs_plain hall, List.map_append, List.append_assoc]
    rfl
  have hclose := matchingClose_eq hopening hclosing hmask
  rwa [codeOf_map_code] at hclose

/-- The text behind a group: `front` stands in front of it. -/
theorem fromByte_behindGroup {front rest : Text} {opening closing : Char}
    (hopening : opening.utf8Size = 1) (hclosing : closing.utf8Size = 1) {inside tail : List Glyph}
    (hrest : rest = codeOf inside ++ closing :: codeOf tail) :
    (front ++ opening :: rest).fromByte (front.byteLength + 1 + (codeOf inside).byteLength + 1) =
      pure (codeOf tail) := by
  have htext : front ++ opening :: rest =
      (front ++ opening :: codeOf inside) ++ closing :: codeOf tail := by
    simp [hrest]
  have hoffset : front.byteLength + 1 + (codeOf inside).byteLength =
      (front ++ opening :: codeOf inside).byteLength := by
    simp [hopening, Nat.add_assoc]
  rw [htext, hoffset, Text.fromByte_behind hclosing]

/-- The text begins with a character exactly if that is its first. -/
theorem startsWith_singleton (c d : Char) (cs : Text) :
    Text.startsWith (c :: cs) [d] = (c == d) := by
  by_cases h : c = d <;> simp [Text.startsWith, Text.after?, h]

/-- The text behind an argument list, cut between glyphs. -/
def dropArguments? (candidate : Text) : Option Text :=
  match candidate with
  | '(' :: arguments =>
    match untilClose '(' ')' 0 (maskGlyphs arguments) with
    | some (_, rest) => some (Text.trimStart (codeOf rest))
    | none => some []
  | rest => some rest

theorem dropArguments_eq {front : Text} (hfront : ∀ c ∈ front, ScanState.isPlain c = true)
    (candidate : Text) :
    dropArguments (front ++ candidate) candidate = pure (dropArguments? candidate) := by
  cases candidate with
  | nil => rfl
  | cons c arguments =>
    have hstart : Text.startsWith (c :: arguments) "(" = (c == '(') :=
      startsWith_singleton c '(' arguments
    rw [dropArguments, hstart]
    by_cases hc : c = '('
    · subst hc
      have hopenAt : Checked.minus (front ++ '(' :: arguments).byteLength
          (Text.byteLength ('(' :: arguments)) = pure front.byteLength := by
        rw [Text.byteLength_append, Checked.minus_add]
      rw [if_pos (by decide), hopenAt, pure_bind,
        matchingClose_plain hfront (by decide) (by decide) (by decide), pure_bind, dropArguments?]
      cases hclose : untilClose '(' ')' 0 (maskGlyphs arguments) with
      | none => rfl
      | some parts =>
        have hrest := codeOf_untilClose (by decide) hclose
        rw [codeOf_maskGlyphs] at hrest
        have hcut := @fromByte_behindGroup front arguments '(' ')' rfl rfl _ _ hrest
        simp only [Option.map_some, hcut, pure_bind]
    · rw [if_neg (by simpa using hc)]
      unfold dropArguments?
      split
      case h_1 heq => exact absurd (List.cons.inj heq).1 hc
      case h_2 => rfl

private theorem dropAnnotation?_at (cs : Text) :
    dropAnnotation? ('@' :: cs) =
      if Text.startsWith cs "interface" || (cs.takeWhile isAnnotationChar).isEmpty then none
      else dropArguments? (Text.trimStart (cs.dropWhile isAnnotationChar)) := rfl

/-- The name of an annotation and the blanks behind it open neither a literal nor a comment. -/
theorem isPlain_annotationName (cs : Text) :
    ∀ c ∈ '@' :: (cs.takeWhile isAnnotationChar ++
      (cs.dropWhile isAnnotationChar).takeWhile isBlank), ScanState.isPlain c = true := by
  intro c h
  rcases List.mem_cons.mp h with rfl | h
  · decide
  · rcases List.mem_append.mp h with hname | hblank
    · exact isPlain_of_isInert (isInert_of_isAnnotationChar (List.mem_takeWhile_imp hname))
    · exact ScanState.isPlain_of_isBlank (List.mem_takeWhile_imp hblank)

/-- An annotation: its name ends at the first character that is not one of a name. -/
theorem dropAnnotation_at {cs : Text} (hinterface : cs.startsWith "interface" = false) :
    dropAnnotation ('@' :: cs) = pure (dropAnnotation? ('@' :: cs)) := by
  have hat : Text.startsWith ('@' :: cs) "@" = true := startsWith_singleton '@' '@' cs
  have hguard : Text.startsWith ('@' :: cs) "@interface" = false := hinterface
  have hbehind : Text.fromByte ('@' :: cs) 1 = pure cs := Text.fromByte_append ['@'] cs
  have hwhole : Checked.minus (Text.byteLength ('@' :: cs)) 1 = pure cs.byteLength := by
    rw [Text.byteLength_cons, Nat.add_comm]
    exact Checked.minus_add _ _
  have hlength : (cs.findByte fun c => !isAnnotationChar c).getD cs.byteLength =
      Text.byteLength (cs.takeWhile isAnnotationChar) := by
    simpa using Text.findByte_getD (fun c => !isAnnotationChar c) cs
  have hafter : Text.fromByte ('@' :: cs)
      (1 + Text.byteLength (cs.takeWhile isAnnotationChar)) =
        pure (cs.dropWhile isAnnotationChar) := by
    have hcut := Text.fromByte_append ('@' :: cs.takeWhile isAnnotationChar)
      (cs.dropWhile isAnnotationChar)
    rwa [List.cons_append, List.takeWhile_append_dropWhile, Text.byteLength_cons] at hcut
  have htext : '@' :: cs = ('@' :: (cs.takeWhile isAnnotationChar ++
      (cs.dropWhile isAnnotationChar).takeWhile isBlank)) ++
        Text.trimStart (cs.dropWhile isAnnotationChar) := by
    rw [List.cons_append, List.append_assoc, Text.trimStart, List.takeWhile_append_dropWhile,
      List.takeWhile_append_dropWhile]
  have hargs := dropArguments_eq (isPlain_annotationName cs)
    (Text.trimStart (cs.dropWhile isAnnotationChar))
  rw [← htext] at hargs
  rw [dropAnnotation?_at, hinterface, Bool.false_or, dropAnnotation, hat, hguard,
    if_neg (by decide), hbehind, pure_bind, hwhole, pure_bind, hlength]
  cases hname : cs.takeWhile isAnnotationChar with
  | nil => rfl
  | cons c name =>
    have hne : Text.byteLength (c :: name) ≠ 0 :=
      mt Text.byteLength_eq_zero_iff.mp (List.cons_ne_nil c name)
    rw [hname] at hafter
    rw [if_neg hne, hafter, pure_bind, hargs]
    rfl

theorem dropAnnotation_eq (text : Text) : dropAnnotation text = pure (dropAnnotation? text) := by
  cases text with
  | nil => rfl
  | cons first cs =>
    by_cases hfirst : first = '@'
    · subst hfirst
      cases hinterface : Text.startsWith cs "interface" with
      | false => exact dropAnnotation_at hinterface
      | true =>
        have hguard : Text.startsWith ('@' :: cs) "@interface" = true := hinterface
        rw [dropAnnotation?_at, hinterface, dropAnnotation, hguard, Bool.or_true, if_pos rfl]
        rfl
    · have hstart : Text.startsWith (first :: cs) "@" = (first == '@') :=
        startsWith_singleton first '@' cs
      have hnone : dropAnnotation? (first :: cs) = none := by
        unfold dropAnnotation?
        split
        case h_1 heq => exact absurd (List.cons.inj heq).1 hfirst
        case h_2 => rfl
      rw [hnone, dropAnnotation, hstart, if_pos (by simp [hfirst])]

theorem stripAnnotations_eq (text : Text) :
    stripAnnotations text = pure (DeclDocs.stripAnnotations text) :=
  loop_eq dropAnnotation_eq dropAnnotation?_shorter _ _ (Nat.lt_succ_self _)

/-! ## §3 Words -/

/-- What follows the first word of the text, without leading blanks, if it is one of `words`. -/
def dropWord (words : List Text) (text : Text) : Checked (Option Text) := do
  let (word, tail) ← text.cutAt ((text.findByte isBlank).getD text.byteLength)
  if word.isEmpty || !words.contains word then pure none else pure (some tail.trimStart)

/-- The text without the blanks and the given words in front of it. -/
def stripWords (words : List Text) (text : Text) : Checked Text :=
  let rest := text.trimStart
  loop (dropWord words) (rest.length + 1) rest

theorem dropWord_eq (words : List Text) (text : Text) :
    dropWord words text = pure (dropWord? words text) := by
  have hcut : text.cutAt ((text.findByte isBlank).getD text.byteLength) =
      pure (text.takeWhile fun c => !isBlank c, text.dropWhile fun c => !isBlank c) := by
    have hend := Text.cutAt_byteLength (text.takeWhile fun c => !isBlank c)
      (text.dropWhile fun c => !isBlank c)
    rwa [List.takeWhile_append_dropWhile, ← Text.findByte_getD] at hend
  rw [dropWord, hcut, pure_bind, dropWord?]
  dsimp only
  cases (text.takeWhile fun c => !isBlank c).isEmpty <;>
    cases words.contains (text.takeWhile fun c => !isBlank c) <;> rfl

theorem stripWords_eq (words : List Text) (text : Text) :
    stripWords words text = pure (DeclDocs.stripWords words text) :=
  loop_eq (dropWord_eq words) (dropWord?_shorter words) _ _ (Nat.lt_succ_self _)

/-! ## §4 Groups of a declaration -/

/-- The text in front of the first `c` outside literals: all of it when there is none. -/
def upToCode (text : Text) (c : Char) : Checked Text :=
  match findCode text c with
  | some offset => text.upToByte offset
  | none => pure text

/-- The text inside the first parenthesised group after the leading annotations; a group that
never closes runs to the end. -/
def parameterText (text : Text) : Checked (Option Text) := do
  let head ← stripAnnotations text
  match findCode head '(' with
  | none => pure none
  | some openAt => do
    match ← matchingClose head openAt '(' ')' with
    | some close => do
      let inside ← head.slice (openAt + 1) close
      pure (some inside)
    | none => do
      let inside ← head.fromByte (openAt + 1)
      pure (some inside)

/-- The text around the first `c` outside literals. -/
theorem eq_of_cutGlyphs? {c : Char} (hc : c ≠ ' ') {text : Text} {before rest : List Glyph}
    (h : cutGlyphs? c (maskGlyphs text) = some (before, rest)) :
    text = codeOf before ++ c :: codeOf rest := by
  conv_lhs => rw [← codeOf_maskGlyphs text, cutGlyphs?_eq_some hc h, codeOf_append]
  rfl

theorem upToCode_eq {c : Char} (hc : c ≠ ' ') (text : Text) :
    upToCode text c = pure (((cutCode? c text).map Prod.fst).getD text) := by
  rw [upToCode, findCode_eq hc, cutCode?]
  cases hcut : cutGlyphs? c (maskGlyphs text) with
  | none => rfl
  | some parts =>
    have hoffset := Text.upToByte_append (codeOf parts.1) (c :: codeOf parts.2)
    rw [← eq_of_cutGlyphs? hc hcut] at hoffset
    exact hoffset

theorem parameterText_eq (text : Text) :
    parameterText text = pure (Signature.parameterText? text) := by
  rw [parameterText, stripAnnotations_eq, pure_bind, findCode_eq (by decide),
    Signature.parameterText?]
  generalize DeclDocs.stripAnnotations text = head
  cases hcut : cutGlyphs? '(' (maskGlyphs head) with
  | none => rfl
  | some parts =>
    obtain ⟨before, rest⟩ := parts
    have htext : head = codeOf before ++ '(' :: codeOf rest := eq_of_cutGlyphs? (by decide) hcut
    have hopen : (codeOf before).byteLength + 1 = (codeOf before ++ ['(']).byteLength :=
      (Text.byteLength_append _ ['(']).symm
    simp only [Option.map_some, matchingClose_eq (by decide : isDelimiter '(' = true)
      (by decide : isDelimiter ')' = true) (cutGlyphs?_eq_some (by decide) hcut), pure_bind]
    cases hclose : untilClose '(' ')' 0 rest with
    | none =>
      have hinside := Text.fromByte_behind (c := '(') rfl (codeOf before) (codeOf rest)
      rw [← htext] at hinside
      simp only [Option.map_none, hinside, pure_bind]
    | some group =>
      obtain ⟨inside, tail⟩ := group
      have hinside := Text.slice_append (codeOf before ++ ['(']) (codeOf inside)
        (')' :: codeOf tail)
      have hgroup : codeOf before ++ ['('] ++ codeOf inside ++ ')' :: codeOf tail = head := by
        rw [htext, codeOf_untilClose (by decide) hclose]
        simp
      rw [hgroup, Text.byteLength_append _ (codeOf inside), ← hopen] at hinside
      simp only [Option.map_some, hinside, pure_bind]

/-! ## §5 Signatures -/

/-- A parameter from the text between two commas. -/
def parseParameter (piece : Text) : Checked (Option Parameter) := do
  let piece ← stripAnnotations piece
  let piece ← stripWords parameterModifiers piece
  let piece ← stripAnnotations piece
  match piece.cutLastBlank? with
  | none => pure none
  | some (typeText, name) =>
    let typeName := Text.squeeze typeText
    if typeName.isEmpty || name.isEmpty then pure none else pure (some ⟨name, typeName⟩)

/-- The parameters of a declaration. -/
def parseParameters (text : Text) : Checked (List Parameter) := do
  match ← parameterText text with
  | none => pure []
  | some inside => do
    let pieces ← splitTopLevel inside
    let parameters ← pieces.mapM parseParameter
    pure (parameters.filterMap id)

/-- The declaration in front of its body, without annotations and modifiers. -/
def bareDeclaration (text : Text) : Checked Text := do
  let declaration ← stripAnnotations text
  let head ← upToCode declaration '{'
  stripWords modifiers head.trim

/-- The text without type parameters in front of it, if a declaration follows them. -/
def stripTypeParameters (text : Text) : Checked Text :=
  if text.startsWith "<" then do
    match ← matchingClose text 0 '<' '>' with
    | none => pure text
    | some close => do
      let rest ← text.fromByte (close + 1)
      let declaration := rest.trimStart
      if Signature.startsWithCall declaration || Signature.startsWithTypedCall declaration then
        stripWords modifiers declaration
      else pure text
  else pure text

/-- The declared return type, absent for constructors and for `void`. -/
def parseReturnType (text : Text) : Checked (Option Text) := do
  let bare ← bareDeclaration text
  let declaration ← stripTypeParameters bare
  match findCode declaration '(' with
  | none => pure none
  | some openAt => do
    let head ← declaration.upToByte (openAt + 1)
    match (head.before? "(").bind Signature.typeBeforeName? with
    | none => pure none
    | some typeText =>
      let typeName := Text.squeeze typeText
      if typeName = "void" then pure none else pure (some typeName)

/-- The signature of a declaration text. -/
def parseSignature (text : Text) : Checked Signature := do
  let parameters ← parseParameters text
  let returnType ← parseReturnType text
  pure { text, parameters, returnType }

theorem parseParameter_eq (piece : Text) :
    parseParameter piece = pure (Signature.parseParameter? piece) := by
  rw [parseParameter, Signature.parseParameter?, stripAnnotations_eq, pure_bind, stripWords_eq,
    pure_bind, stripAnnotations_eq, pure_bind]
  generalize DeclDocs.stripAnnotations (DeclDocs.stripWords parameterModifiers
    (DeclDocs.stripAnnotations piece)) = bare
  cases bare.cutLastBlank? with
  | none => rfl
  | some parts =>
    dsimp only
    split <;> rfl

theorem parseParameters_eq (text : Text) :
    parseParameters text = pure (Signature.parseParameters text) := by
  have hpieces : parseParameter = fun piece => pure (Signature.parseParameter? piece) :=
    funext parseParameter_eq
  rw [parseParameters, parameterText_eq, pure_bind, Signature.parseParameters]
  cases Signature.parameterText? text with
  | none => rfl
  | some inside =>
    simp only [splitTopLevel_eq, pure_bind, hpieces, List.mapM_pure, List.filterMap_map,
      Function.id_comp]

theorem bareDeclaration_eq (text : Text) :
    bareDeclaration text = pure (Signature.bareDeclaration text) := by
  rw [bareDeclaration, stripAnnotations_eq, pure_bind, upToCode_eq (by decide), pure_bind,
    stripWords_eq, Signature.bareDeclaration]
  cases cutCode? '{' (DeclDocs.stripAnnotations text) <;> rfl

theorem stripTypeParameters_eq (text : Text) :
    stripTypeParameters text = pure (Signature.stripTypeParameters text) := by
  cases text with
  | nil => rfl
  | cons first inner =>
    have hstart : Text.startsWith (first :: inner) "<" = (first == '<') :=
      startsWith_singleton first '<' inner
    rw [stripTypeParameters, hstart]
    by_cases hfirst : first = '<'
    · subst hfirst
      have hclose := @matchingClose_plain [] (by simp) '<' '>' (by decide) (by decide) (by decide)
        inner
      rw [List.nil_append, Text.byteLength_nil] at hclose
      rw [if_pos (by decide), hclose, pure_bind, Signature.stripTypeParameters]
      cases hgroup : untilClose '<' '>' 0 (maskGlyphs inner) with
      | none => rfl
      | some parts =>
        have hinner := codeOf_untilClose (by decide) hgroup
        rw [codeOf_maskGlyphs] at hinner
        have hcut := @fromByte_behindGroup [] inner '<' '>' rfl rfl _ _ hinner
        rw [List.nil_append, Text.byteLength_nil] at hcut
        simp only [Option.map_some, hcut, pure_bind, stripWords_eq]
        split <;> rfl
    · rw [if_neg (by simpa using hfirst)]
      unfold Signature.stripTypeParameters
      split
      case h_1 heq => exact absurd (List.cons.inj heq).1 hfirst
      case h_2 => rfl

theorem parseReturnType_eq (text : Text) :
    parseReturnType text = pure (Signature.parseReturnType? text) := by
  rw [parseReturnType, bareDeclaration_eq, pure_bind, stripTypeParameters_eq, pure_bind,
    findCode_eq (by decide), Signature.parseReturnType?, cutCode?]
  generalize Signature.stripTypeParameters (Signature.bareDeclaration text) = declaration
  cases hcut : cutGlyphs? '(' (maskGlyphs declaration) with
  | none => rfl
  | some parts =>
    obtain ⟨before, rest⟩ := parts
    -- the head is cut behind the parenthesis, which the type stands in front of
    have hhead := Text.upToByte_behind (c := '(') rfl (codeOf before) (codeOf rest)
    rw [← eq_of_cutGlyphs? (by decide) hcut] at hhead
    have hbefore : Text.before? (codeOf before ++ ['(']) "(" = some (codeOf before) :=
      Text.before?_append (codeOf before) ['(']
    simp only [Option.map_some, hhead, pure_bind, hbefore, Option.bind_some]
    cases Signature.typeBeforeName? (codeOf before) with
    | none => rfl
    | some typeText =>
      dsimp only
      split <;> rfl

theorem parseSignature_eq (text : Text) : parseSignature text = pure (Signature.parse text) := by
  rw [parseSignature, parseParameters_eq, pure_bind, parseReturnType_eq, pure_bind]
  rfl

/-! ## §6 Fields and enum constants -/

/-- The words of the text from a place inside it on.  `depth` angle brackets are open, `start` is
where the word at hand begins, and `index` is the offset of the first character. -/
def tokensFrom (text : Text) : (depth : Nat) → (start : Option Nat) → (index : Nat) → Text →
    Checked (List Text)
  | _, none, _, [] => pure []
  | _, some start, _, [] => do
    let token ← text.fromByte start
    pure [token]
  | depth, start, index, c :: cs =>
    let depth := if c = '<' then depth + 1 else if c = '>' then depth - 1 else depth
    if isBlank c ∧ depth = 0 then
      match start with
      | none => tokensFrom text depth none (index + c.utf8Size) cs
      | some start => do
        let token ← text.slice start index
        let tokens ← tokensFrom text depth none (index + c.utf8Size) cs
        pure (token :: tokens)
    else tokensFrom text depth (some (start.getD index)) (index + c.utf8Size) cs

/-- The words of the text, where the type arguments between `<` and `>` stay in one word. -/
def typeTokens (text : Text) : Checked (List Text) :=
  tokensFrom text 0 none 0 text

/-- The declared type of a field: the word in front of its name, type arguments included. -/
def fieldType (line : Text) : Checked Text := do
  let declaration ← stripAnnotations (memberCode line)
  let head ← upToCode declaration '='
  let tokens ← typeTokens (Text.trimEnd (Text.dropEndWhile (· == ';') (Text.trim head)))
  if tokens.length < 2 then pure unknownType
  else do
    let index ← Checked.minus tokens.length 2
    Checked.item tokens index

/-- The arguments of an enum constant, parentheses included. -/
def enumArguments (line : Text) : Checked Text := do
  let constant ← stripAnnotations (memberCode line)
  match findCode constant '(' with
  | none => pure []
  | some openAt => do
    match ← matchingClose constant openAt '(' ')' with
    | some close => constant.slice openAt (close + 1)
    | none => do
      let unclosed ← constant.fromByte openAt
      let unclosed := Text.dropEndWhile (fun c => c == ',' || c == ';') unclosed.trimEnd
      pure unclosed.trimEnd

/-- Where the word at hand begins: `done` stands in front of it, and it may be empty yet. -/
def startOf (done token : Text) : Option Nat :=
  if token.isEmpty then none else some done.byteLength

private theorem startOf_concat (done token : Text) (c : Char) :
    startOf done (token ++ [c]) =
      some ((startOf done token).getD (done ++ token).byteLength) := by
  cases token <;> simp [startOf]

/-- The depth behind a character of a type. -/
def typeDepth (depth : Nat) (c : Char) : Nat :=
  if c = '<' then depth + 1 else if c = '>' then depth - 1 else depth

/-- A word ends at a blank outside angle brackets. -/
theorem tokensFrom_blank {depth : Nat} {c : Char} (h : isBlank c ∧ typeDepth depth c = 0)
    (text : Text) (start : Option Nat) (index : Nat) (cs : Text) :
    tokensFrom text depth start index (c :: cs) = (do
      let ended ← start.toList.mapM fun start => text.slice start index
      let tokens ← tokensFrom text (typeDepth depth c) none (index + c.utf8Size) cs
      pure (ended ++ tokens)) := by
  rw [typeDepth] at h ⊢
  cases start with
  | none =>
    simp only [tokensFrom, if_pos h, Option.toList_none, List.mapM_nil, pure_bind, List.nil_append,
      bind_pure]
  | some start =>
    simp only [tokensFrom, if_pos h, Option.toList_some, List.mapM_cons, List.mapM_nil,
      bind_assoc, pure_bind, List.singleton_append]

private theorem tokensFrom_keep {depth : Nat} {c : Char} (h : ¬ (isBlank c ∧ typeDepth depth c = 0))
    (text : Text) (start : Option Nat) (index : Nat) (cs : Text) :
    tokensFrom text depth start index (c :: cs) =
      tokensFrom text (typeDepth depth c) (some (start.getD index)) (index + c.utf8Size) cs := by
  rw [typeDepth] at h ⊢
  cases start <;> simp only [tokensFrom, if_neg h]

theorem splitTypeBlanks_blank {depth : Nat} {c : Char} (h : isBlank c ∧ typeDepth depth c = 0)
    (cs : Text) :
    splitTypeBlanks depth (c :: cs) = [] :: splitTypeBlanks (typeDepth depth c) cs := by
  rw [splitTypeBlanks]
  exact if_pos h

theorem splitTypeBlanks_keep {depth : Nat} {c : Char} (h : ¬ (isBlank c ∧ typeDepth depth c = 0))
    {cs first : Text} {others : List Text}
    (hrest : splitTypeBlanks (typeDepth depth c) cs = first :: others) :
    splitTypeBlanks depth (c :: cs) = (c :: first) :: others := by
  rw [typeDepth] at h hrest
  rw [splitTypeBlanks, if_neg h, hrest]

/-- The words that are cut out are the non-empty pieces between blanks.  In front of the characters
stand the words that are `done` and what has been read of the `token` at hand. -/
theorem tokensFrom_eq (depth : Nat) (done token rest : Text) :
    ∃ first others, splitTypeBlanks depth rest = first :: others ∧
      tokensFrom (done ++ token ++ rest) depth (startOf done token) (done ++ token).byteLength rest =
        pure (((token ++ first) :: others).filter fun token => !token.isEmpty) := by
  induction rest generalizing depth done token with
  | nil =>
    refine ⟨[], [], rfl, ?_⟩
    cases token with
    | nil => rfl
    | cons c token =>
      have hlast := Text.fromByte_append done (c :: token)
      simp only [startOf, List.isEmpty_cons, Bool.false_eq_true, if_false, tokensFrom,
        List.append_nil, hlast, pure_bind]
      rfl
  | cons c cs ih =>
    have hindex : (done ++ token).byteLength + c.utf8Size = (done ++ token ++ [c]).byteLength := by
      simp [Nat.add_assoc]
    by_cases hblank : isBlank c ∧ typeDepth depth c = 0
    · obtain ⟨first, others, hsplit, hread⟩ := ih (typeDepth depth c) (done ++ token ++ [c]) []
      refine ⟨[], first :: others, by rw [splitTypeBlanks_blank hblank, hsplit], ?_⟩
      have hnone : startOf (done ++ token ++ [c]) [] = none := rfl
      rw [List.append_nil, hnone, List.append_assoc, List.singleton_append, ← hindex] at hread
      -- the word at hand is cut out, unless it is empty
      have hended : (startOf done token).toList.mapM
          (fun start => (done ++ token ++ c :: cs).slice start (done ++ token).byteLength) =
            pure ([token].filter fun token => !token.isEmpty) := by
        cases token with
        | nil => rfl
        | cons d token =>
          simp only [startOf, List.isEmpty_cons, Bool.false_eq_true, if_false, Option.toList_some,
            List.mapM_cons, List.mapM_nil, Text.slice_append, pure_bind]
          rfl
      rw [tokensFrom_blank hblank, hended, pure_bind, hread, pure_bind, List.append_nil,
        List.nil_append, ← List.filter_append]
      rfl
    · obtain ⟨first, others, hsplit, hread⟩ := ih (typeDepth depth c) done (token ++ [c])
      refine ⟨c :: first, others, splitTypeBlanks_keep hblank hsplit, ?_⟩
      rw [startOf_concat, ← List.append_assoc, ← hindex, List.append_assoc (done ++ token),
        List.singleton_append] at hread
      rw [tokensFrom_keep hblank, hread, List.append_assoc token, List.singleton_append]

theorem typeTokens_eq (text : Text) : typeTokens text = pure (DeclDocs.typeTokens text) := by
  obtain ⟨first, others, hsplit, hread⟩ := tokensFrom_eq 0 [] [] text
  rw [DeclDocs.typeTokens, hsplit]
  exact hread

theorem fieldType_eq (line : Text) : fieldType line = pure (DeclDocs.fieldType line) := by
  have hhead : Text.trimEnd (Text.dropEndWhile (· == ';') (Text.trim
      (((cutCode? '=' (DeclDocs.stripAnnotations (memberCode line))).map Prod.fst).getD
        (DeclDocs.stripAnnotations (memberCode line))))) = fieldHead line := by
    rw [fieldHead]
    cases cutCode? '=' (DeclDocs.stripAnnotations (memberCode line)) <;> rfl
  rw [fieldType, stripAnnotations_eq, pure_bind, upToCode_eq (by decide), pure_bind, hhead,
    typeTokens_eq, pure_bind, DeclDocs.fieldType]
  -- the last word is the name, and the type is the one in front of it
  rw [← List.reverse_reverse (DeclDocs.typeTokens (fieldHead line))]
  generalize (DeclDocs.typeTokens (fieldHead line)).reverse = tokens
  rw [List.length_reverse, List.reverse_reverse]
  cases tokens with
  | nil => rfl
  | cons name others =>
    cases others with
    | nil => rfl
    | cons typeName front =>
      have hitem : (name :: typeName :: front).reverse[front.length]? = some typeName := by
        simp
      have hindex : Checked.minus (name :: typeName :: front).length 2 = pure front.length :=
        Checked.minus_add front.length 2
      rw [if_neg (by simp), hindex, pure_bind, Checked.item_eq hitem]

theorem enumArguments_eq (line : Text) :
    enumArguments line = pure (DeclDocs.enumArguments line) := by
  rw [enumArguments, stripAnnotations_eq, pure_bind, findCode_eq (by decide),
    DeclDocs.enumArguments]
  generalize DeclDocs.stripAnnotations (memberCode line) = constant
  cases hcut : cutGlyphs? '(' (maskGlyphs constant) with
  | none => rfl
  | some parts =>
    obtain ⟨before, rest⟩ := parts
    have htext : constant = codeOf before ++ '(' :: codeOf rest := eq_of_cutGlyphs? (by decide) hcut
    simp only [Option.map_some, matchingClose_eq (by decide : isDelimiter '(' = true)
      (by decide : isDelimiter ')' = true) (cutGlyphs?_eq_some (by decide) hcut), pure_bind]
    cases hclose : untilClose '(' ')' 0 rest with
    | none =>
      have hunclosed := Text.fromByte_append (codeOf before) ('(' :: codeOf rest)
      rw [← htext] at hunclosed
      simp only [Option.map_none, hunclosed, pure_bind]
    | some group =>
      obtain ⟨inside, tail⟩ := group
      have hgroup : codeOf before ++ ('(' :: (codeOf inside ++ [')'])) ++ codeOf tail =
          constant := by
        rw [htext, codeOf_untilClose (by decide) hclose]
        simp
      have hstop : (codeOf before).byteLength + 1 + (codeOf inside).byteLength + 1 =
          (codeOf before ++ '(' :: (codeOf inside ++ [')'])).byteLength := by
        have hopen : Char.utf8Size '(' = 1 := rfl
        have hshut : Char.utf8Size ')' = 1 := rfl
        simp [hopen, hshut, Nat.add_assoc]
      have hslice := Text.slice_append (codeOf before) ('(' :: (codeOf inside ++ [')']))
        (codeOf tail)
      rw [hgroup, ← hstop] at hslice
      simp only [Option.map_some, hslice]
      rfl

end Offsets

end DeclDocs
