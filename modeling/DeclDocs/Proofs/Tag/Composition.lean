import DeclDocs.Proofs.Tag.Decoration

/-!
# Tag sections put together

A line that opens a block closes the one in front of it.  So the blocks of two sections in a row are
those of the first and then those of the second, provided the second begins with such a line.  Each
kind of block has its own place in the table, so sections without a kind in common can change
places.

* `IsTagLine`, `BeginsWithTag`: lines that open a block, and sections that begin with one.
* `TagBlock.ofSection_join`: the blocks of sections in a row.
* `TagTable.foldl_add_swap`: blocks of different kinds in either order.
* `tagSections_compose`: both for the text of sections.
-/

namespace DeclDocs

open Text (isSolid beginsWith)

/-! ## §1 Lines that open a block -/

/-- The names of the recognised tags in all their spellings. -/
def tagNames : List Text :=
  ["param", "returns", "return", "throws", "exception", "since", "author", "deprecated", "see",
    "doc", "example"]

/-- Behind decoration stands an at sign with one of the names, and behind that a blank or
nothing. -/
def IsTagLine (line : Text) : Prop :=
  ∃ decoration name rest : Text, (∀ c ∈ decoration, isDecoration c = true) ∧ name ∈ tagNames ∧
    beginsWith isSolid rest = false ∧ line = decoration ++ '@' :: (name ++ rest)

/-- The first line of the text opens a block. -/
def BeginsWithTag (text : Text) : Prop :=
  ∃ line ∈ text.lines.head?, IsTagLine line

theorem TagKind.isSome_ofName?_iff (name : Text) :
    (ofName? name).isSome = true ↔ name ∈ tagNames := by
  have hnames : ∀ name ∈ tagNames, (ofName? name).isSome = true := by decide
  refine ⟨fun h => ?_, hnames name⟩
  by_contra hmem
  have hne : ∀ other ∈ tagNames, ¬ name = other := fun other hother heq => hmem (heq ▸ hother)
  simp only [tagNames, List.forall_mem_cons] at hne
  simp only [ofName?, hne, decide_false, Bool.or_self, Bool.false_eq_true, if_false,
    Option.isSome_none] at h

/-- The names are words. -/
theorem isSolid_of_mem_tagNames {name : Text} (h : name ∈ tagNames) :
    ∀ c ∈ name, isSolid c = true := by
  have hnames : ∀ name ∈ tagNames, ∀ c ∈ name, isSolid c = true := by decide
  exact hnames name h

namespace TagBlock

/-- A line opens a block exactly if it is a tag line. -/
theorem isSome_ofLine?_iff (line : Text) : (ofLine? line).isSome = true ↔ IsTagLine line := by
  constructor
  · intro h
    unfold ofLine? at h
    split at h
    case h_2 => simp at h
    case h_1 _ rest hbare =>
      rw [Option.isSome_map, TagKind.isSome_ofName?_iff] at h
      refine ⟨line.takeWhile isDecoration, _, rest.dropWhile isSolid, ?_, h, ?_, ?_⟩
      · intro c hc
        exact List.mem_takeWhile_imp hc
      · exact Text.beginsWith_dropWhile isSolid rest
      · -- the line is its decoration, the at sign, the name and what follows it
        have hrest : rest.takeWhile isSolid ++ rest.dropWhile isSolid = rest :=
          List.takeWhile_append_dropWhile
        have hline : line.takeWhile isDecoration ++ line.dropWhile isDecoration = line :=
          List.takeWhile_append_dropWhile
        rw [hbare, ← hrest] at hline
        exact hline.symm
  · rintro ⟨decoration, name, rest, hdecoration, hname, hrest, rfl⟩
    have hbare : (decoration ++ '@' :: (name ++ rest)).dropWhile isDecoration =
        '@' :: (name ++ rest) := by
      apply Text.dropWhile_append_of_begins hdecoration
      show isDecoration '@' = false
      decide
    have htake : (name ++ rest).takeWhile isSolid = name :=
      Text.takeWhile_append_of_begins (isSolid_of_mem_tagNames hname) hrest
    unfold ofLine?
    rw [hbare]
    show (Option.map _ (TagKind.ofName? ((name ++ rest).takeWhile isSolid))).isSome = true
    rw [htake, Option.isSome_map]
    exact (TagKind.isSome_ofName?_iff name).mpr hname

/-! ## §2 Sections in a row -/

/-- A line that opens a block ends what is in front of it: what follows does not depend on the block
that is open there. -/
theorem ofLines_append_opening {line : Text} (h : (ofLine? line).isSome = true)
    (current : Option TagBlock) (front more : List Text) :
    ofLines current (front ++ line :: more) =
      ofLines current front ++ ofLines none (line :: more) := by
  obtain ⟨block, hblock⟩ := Option.isSome_iff_exists.mp h
  -- the lines in front are read from any open block, so the induction is over all of them
  induction front generalizing current with
  | nil => simp [ofLines, hblock]
  | cons first front ih =>
    rw [List.cons_append, ofLines, ofLines]
    cases hfirst : ofLine? first with
    | none => exact ih _
    | some opened => simp only [ih, List.append_assoc]

/-- The piece in front of the first line feed opens a block, as the line does. -/
theorem exists_split_of_beginsWithTag {text : Text} (h : BeginsWithTag text) :
    ∃ (piece : Text) (pieces : List Text), Text.split (· == '\n') text = piece :: pieces ∧
      (ofLine? piece).isSome = true := by
  obtain ⟨line, hline, htag⟩ := h
  rw [← isSome_ofLine?_iff] at htag
  unfold Text.lines at hline
  cases hsplit : Text.split (· == '\n') text with
  | nil => exact absurd hsplit (Text.split_ne_nil _ text)
  | cons piece pieces =>
    refine ⟨piece, pieces, rfl, ?_⟩
    rw [hsplit] at hline
    cases pieces with
    | nil =>
      -- the only piece is the line, unless it is empty
      by_cases hempty : piece.isEmpty = true
      · simp [Text.closeLines, hempty] at hline
      · obtain rfl : piece = line := by simpa [Text.closeLines, hempty] using hline
        exact htag
    | cons next pieces =>
      -- the line lacks a carriage return at most
      obtain rfl : Text.dropReturn piece = line := by simpa [Text.closeLines] using hline
      rwa [(decorated_dropReturn piece).ofLine?_eq]

/-- The blocks of two sections in a row. -/
theorem ofSection_append {back : Text} (h : BeginsWithTag back) (front : Text) :
    ofSection (front ++ '\n' :: back) = ofSection front ++ ofSection back := by
  obtain ⟨piece, pieces, hsplit, hopens⟩ := exists_split_of_beginsWithTag h
  have hpieces : Text.split (· == '\n') (front ++ '\n' :: back) =
      Text.split (· == '\n') front ++ piece :: pieces := by
    rw [Text.split_append_cons (by rfl), hsplit]
  rw [ofSection_eq, hpieces, ofLines_append_opening hopens, ofSection_eq, ofSection_eq, hsplit]

/-- A line feed at the end adds nothing. -/
theorem ofSection_append_lineFeed (front : Text) :
    ofSection (front ++ ['\n']) = ofSection front := by
  have hpieces : Text.split (· == '\n') (front ++ ['\n']) =
      Text.split (· == '\n') front ++ [[]] :=
    Text.split_append_cons (by rfl) front []
  have hlast : ∀ (current : Option TagBlock) (lines : List Text),
      ofLines current (lines ++ [[]]) = ofLines current lines := by
    intro current lines
    induction lines generalizing current with
    | nil => exact ofLines_nil_cons current []
    | cons line lines ih => simp only [List.cons_append, ofLines, ih]
  rw [ofSection_eq, hpieces, hlast, ofSection_eq]

/-- **The blocks of sections in a row** are those of the first and then those of the others, each of
which is empty or begins with a tag. -/
theorem ofSection_join (first : Text) {others : List Text}
    (h : ∀ text ∈ others, text = [] ∨ BeginsWithTag text) :
    ofSection (Text.join ['\n'] (first :: others)) =
      ofSection first ++ others.flatMap ofSection := by
  induction others generalizing first with
  | nil => simp
  | cons next others ih =>
    -- the first two sections are taken together
    have hjoin : Text.join ['\n'] (first :: next :: others) =
        Text.join ['\n'] ((first ++ '\n' :: next) :: others) := by
      have hfront : first ++ '\n' :: next = (first ++ ['\n']) ++ next := by simp
      rw [hfront, Text.join_prepend, Text.join_cons (List.cons_ne_nil next others)]
      simp
    have htwo : ofSection (first ++ '\n' :: next) = ofSection first ++ ofSection next := by
      rcases h next List.mem_cons_self with rfl | htag
      · rw [ofSection_append_lineFeed]
        exact (List.append_nil _).symm
      · exact ofSection_append htag first
    rw [hjoin, ih _ fun text hmem => h text (List.mem_cons_of_mem _ hmem), htwo, List.flatMap_cons,
      List.append_assoc]

end TagBlock

/-! ## §3 Blocks of different kinds -/

namespace TagTable

variable (signature : Option Signature)

/-- Blocks of different kinds are entered in different places. -/
theorem add_add {x y : TagBlock} (h : x.kind ≠ y.kind) (table : TagTable) :
    add signature (add signature table x) y = add signature (add signature table y) x := by
  obtain ⟨kind, content⟩ := x
  obtain ⟨other, text⟩ := y
  cases hreturn : signature.bind Signature.returnType with
  | none => cases kind <;> cases other <;> simp [add, hreturn] at h ⊢
  | some typeName => cases kind <;> cases other <;> simp [add, hreturn] at h ⊢

private theorem foldl_add_comm {x : TagBlock} {blocks : List TagBlock}
    (h : ∀ y ∈ blocks, x.kind ≠ y.kind) (table : TagTable) :
    blocks.foldl (add signature) (add signature table x) =
      add signature (blocks.foldl (add signature) table) x := by
  induction blocks generalizing table with
  | nil => rfl
  | cons y blocks ih =>
    rw [List.foldl_cons, List.foldl_cons, add_add signature (h y List.mem_cons_self),
      ih fun other hmem => h other (List.mem_cons_of_mem _ hmem)]

/-- **Blocks without a kind in common can change places**, though the order within each of the two
groups counts. -/
theorem foldl_add_swap {front back : List TagBlock}
    (h : ∀ x ∈ front, ∀ y ∈ back, x.kind ≠ y.kind) (table : TagTable) :
    (front ++ back).foldl (add signature) table = (back ++ front).foldl (add signature) table := by
  induction front generalizing table with
  | nil => simp
  | cons x front ih =>
    have hx : ∀ y ∈ back, x.kind ≠ y.kind := h x List.mem_cons_self
    have hrest := ih (fun other hmem => h other (List.mem_cons_of_mem _ hmem))
      (add signature table x)
    -- `x` comes last of the blocks behind which it is put, and first of its own group
    calc ((x :: front) ++ back).foldl (add signature) table
      _ = (back ++ front).foldl (add signature) (add signature table x) := hrest
      _ = front.foldl (add signature) (add signature (back.foldl (add signature) table) x) := by
          rw [List.foldl_append, foldl_add_comm signature hx]
      _ = (back ++ x :: front).foldl (add signature) table := by
          rw [List.foldl_append, List.foldl_cons]

end TagTable

/-! ## §4 The text of sections -/

/-- **Tag sections compose.**  Behind any text the blocks of a section that begins with a tag are
read as if it stood alone, and two such sections without a kind in common can change places,
whatever stands in front of them and behind them. -/
theorem tagSections_compose :
    (∀ a b : Text, BeginsWithTag b →
      TagBlock.ofSection (a ++ '\n' :: b) = TagBlock.ofSection a ++ TagBlock.ofSection b) ∧
    ∀ (a b c d : Text) (signature : Option Signature), BeginsWithTag b → BeginsWithTag c →
      (d = [] ∨ BeginsWithTag d) →
      (∀ x ∈ TagBlock.ofSection b, ∀ y ∈ TagBlock.ofSection c, x.kind ≠ y.kind) →
      TagTable.ofSection (Text.join ['\n'] [a, b, c, d]) signature =
        TagTable.ofSection (Text.join ['\n'] [a, c, b, d]) signature := by
  refine ⟨fun a b hb => TagBlock.ofSection_append hb a, ?_⟩
  intro a b c d signature hb hc hd hkinds
  have hjoin : ∀ x y : Text, BeginsWithTag x → BeginsWithTag y →
      TagBlock.ofSection (Text.join ['\n'] [a, x, y, d]) =
        TagBlock.ofSection a ++ ((TagBlock.ofSection x ++ TagBlock.ofSection y) ++
          TagBlock.ofSection d) := by
    intro x y hx hy
    rw [TagBlock.ofSection_join a (by simp [hx, hy, hd])]
    simp
  have hswap := TagTable.foldl_add_swap signature hkinds
  unfold TagTable.ofSection
  rw [hjoin b c hb hc, hjoin c b hc hb]
  -- the blocks of `a` give the table that the two sections are entered in
  simp only [List.foldl_append] at hswap ⊢
  rw [hswap]

/-- Running text, an open block, and a carriage return at the end. -/
def openSection : Text :=
  "Some text\n * @since 1.0\r".toList

/-- A decorated tag with a further line that looks like a tag. -/
def paramSection : Text :=
  " * @param x the\n *   @input".toList

/-- Two tags of one kind around an empty line, the second of them without text. -/
def seeSection : Text :=
  "@see A\n\n@see".toList

/-- The block that is open at the end of the first text takes in nothing of the second one, and the
two sections behind it can change places. -/
theorem tagSections_compose_release :
    (BeginsWithTag paramSection ∧ BeginsWithTag seeSection) ∧
    TagBlock.ofSection (openSection ++ '\n' :: paramSection) =
      [⟨.since, "1.0".toList⟩, ⟨.param, "x the\n@input".toList⟩] ∧
    TagTable.ofSection (Text.join ['\n'] [openSection, paramSection, seeSection, []]) none =
      TagTable.ofSection (Text.join ['\n'] [openSection, seeSection, paramSection, []]) none := by
  have hparam : BeginsWithTag paramSection :=
    ⟨_, rfl, " * ".toList, "param".toList, " x the".toList, by decide, by decide, by decide, rfl⟩
  have hsee : BeginsWithTag seeSection :=
    ⟨_, rfl, [], "see".toList, " A".toList, by decide, by decide, by decide, rfl⟩
  refine ⟨⟨hparam, hsee⟩, ?_, ?_⟩
  · rw [tagSections_compose.1 openSection paramSection hparam]
    decide
  · exact tagSections_compose.2 openSection paramSection seeSection [] none hparam hsee (.inl rfl)
      (by decide)

end DeclDocs
