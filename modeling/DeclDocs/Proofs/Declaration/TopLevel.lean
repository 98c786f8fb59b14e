import DeclDocs.Proofs.Declaration.TypePattern

/-!
# Types outside braces

A type is at the top level if no brace is open where its keyword begins.  The search for the main
type looks at braces line by line: it takes the types of the lines that begin outside braces, and of
a line it counts the opening and the closing braces as a whole.  Where no brace stands between the
beginning of a line and a type on it, and no line opens a brace behind one that closes nothing,
these are the types at the top level.

* `openBraces`, `isTopLevel`: the braces that are open behind a text, and the types outside them.
* `typesWhere`: some of the types of a document.
* `IsMainType`: the type that is taken for the main one.
* `areLaidOut`: braces that do not stand in the way of types on their line.
* `findContainer_isMainType`: the main type of a document.
-/

namespace DeclDocs

/-! ## §1 Braces -/

/-- The number of open braces behind a character; one that closes nothing is ignored. -/
def braceStep (depth : Nat) (c : Char) : Nat :=
  if c = '{' then depth + 1 else if c = '}' then depth - 1 else depth

/-- The number of open braces behind a text, if `depth` are open in front of it. -/
def openFrom (depth : Nat) (text : Text) : Nat :=
  text.foldl braceStep depth

/-- The number of braces that the text leaves open. -/
def openBraces (text : Text) : Nat :=
  openFrom 0 text

theorem openFrom_append (depth : Nat) (front back : Text) :
    openFrom depth (front ++ back) = openFrom (openFrom depth front) back :=
  List.foldl_append

theorem openBraces_append (front back : Text) :
    openBraces (front ++ back) = openFrom (openBraces front) back :=
  openFrom_append 0 front back

/-- The number of open braces behind a line whose braces are counted as a whole. -/
def lineBalance (depth : Nat) (skeleton : Text) : Nat :=
  depth + skeleton.count '{' - skeleton.count '}'

/-- No brace is opened behind one that closes nothing; `depth` are open in front of the text. -/
def isStrayFree : (depth : Nat) → Text → Bool
  | _, [] => true
  | depth, c :: cs =>
    if c = '}' ∧ depth = 0 then !cs.contains '{' else isStrayFree (braceStep depth c) cs

private theorem openFrom_zero_of_not_mem {text : Text} (h : '{' ∉ text) : openFrom 0 text = 0 := by
  induction text with
  | nil => rfl
  | cons c cs ih =>
    rw [List.mem_cons, not_or] at h
    have hstep : braceStep 0 c = 0 := by simp [braceStep, Ne.symm h.1]
    rw [openFrom, List.foldl_cons, hstep]
    exact ih h.2

/-- **Where no closing brace is ignored in front of an opening one, the braces of a line can be
counted as a whole.** -/
theorem openFrom_eq_lineBalance {depth : Nat} {text : Text} (h : isStrayFree depth text = true) :
    openFrom depth text = lineBalance depth text := by
  fun_induction isStrayFree depth text with
  | case1 depth => simp [openFrom, lineBalance]
  | case2 depth c cs hstray =>
    obtain ⟨rfl, rfl⟩ := hstray
    -- nothing is opened any more, and all that closes is ignored
    have hnone : '{' ∉ cs := by simpa using h
    have hcount : cs.count '{' = 0 := List.count_eq_zero.mpr hnone
    have hrest : openFrom 0 ('}' :: cs) = 0 := openFrom_zero_of_not_mem (by simp [hnone])
    simp [hrest, lineBalance, hcount]
  | case3 depth c cs hstray ih =>
    have hrest : openFrom depth (c :: cs) = openFrom (braceStep depth c) cs := rfl
    rw [hrest, ih h]
    by_cases hopen : c = '{'
    · subst hopen
      simp [lineBalance, braceStep]
      omega
    · by_cases hclose : c = '}'
      · subst hclose
        have hpos : depth ≠ 0 := fun hzero => hstray ⟨rfl, hzero⟩
        simp [lineBalance, braceStep]
        omega
      · simp [lineBalance, braceStep, hopen, hclose]

/-! ## §2 Types of a document -/

/-- The types declared in skeletons below others, with the numbers of their lines: those that
satisfy `p` with regard to the skeletons above them. -/
def typesBelow (p : List Text → TypeMatch → Bool) (above : List Text) :
    List Text → List (Text × Nat)
  | [] => []
  | skeleton :: below =>
    ((declaredTypes skeleton).filter (p above)).map (fun found => (found.name, above.length)) ++
      typesBelow p (above ++ [skeleton]) below

/-- The skeletons of the lines of a document. -/
def skeletons (lines : List Text) : List Text :=
  (scanLines {} lines).map ScannedLine.skeleton

/-- The types of a document that satisfy `p`, in the order of the text. -/
def typesWhere (p : List Text → TypeMatch → Bool) (lines : List Text) : List (Text × Nat) :=
  typesBelow p [] (skeletons lines)

/-- No brace is open where the keyword begins. -/
def isTopLevel (above : List Text) (found : TypeMatch) : Bool :=
  openBraces (above.flatten ++ found.before) == 0

/-- No brace is open at the beginning of the line, by the balance of the lines above it. -/
def isOnOuterLine (above : List Text) (_ : TypeMatch) : Bool :=
  above.foldl lineBalance 0 == 0

/-- The braces of the skeletons are laid out so that lines can be looked at as a whole: no line
opens a brace behind one that closes nothing, and at every type a brace is open exactly if one is
open at the beginning of its line. -/
def areLaidOut (above : List Text) : List Text → Bool
  | [] => true
  | skeleton :: below =>
    isStrayFree (openBraces above.flatten) skeleton &&
      (declaredTypes skeleton).all (fun found =>
        isTopLevel above found == (openBraces above.flatten == 0)) &&
      areLaidOut (above ++ [skeleton]) below

/-- In such a layout the types on outer lines are those at the top level. -/
theorem typesBelow_isTopLevel {above below : List Text}
    (hbalance : above.foldl lineBalance 0 = openBraces above.flatten)
    (h : areLaidOut above below = true) :
    typesBelow isOnOuterLine above below = typesBelow isTopLevel above below := by
  induction below generalizing above with
  | nil => rfl
  | cons skeleton below ih =>
    simp only [areLaidOut, Bool.and_eq_true, List.all_eq_true, beq_iff_eq] at h
    obtain ⟨⟨hstray, htypes⟩, hbelow⟩ := h
    have hline : (declaredTypes skeleton).filter (isOnOuterLine above) =
        (declaredTypes skeleton).filter (isTopLevel above) := by
      apply List.filter_congr
      intro found hmem
      rw [htypes found hmem, isOnOuterLine, hbalance]
    -- the balance goes on counting what is open
    have hnext : (above ++ [skeleton]).foldl lineBalance 0 =
        openBraces (above ++ [skeleton]).flatten := by
      rw [List.foldl_append, hbalance, List.flatten_append, openBraces_append]
      simp [openFrom_eq_lineBalance hstray]
    rw [typesBelow, typesBelow, hline, ih hnext hbelow]

/-! ## §3 The search -/

theorem lineBalance_skeleton (depth : Nat) (line : ScannedLine) :
    depth + line.openBraces - line.closeBraces = lineBalance depth line.skeleton := by
  have hopen : line.skeleton.count '{' = line.openBraces := count_skeletonOf (by decide) _
  have hclose : line.skeleton.count '}' = line.closeBraces := count_skeletonOf (by decide) _
  rw [lineBalance, hopen, hclose]

/-- The search takes the types on outer lines. -/
theorem topLevelTypes_eq_typesBelow (state : ScanState) (above lines : List Text) :
    topLevelTypes state (above.foldl lineBalance 0) above.length lines =
      typesBelow isOnOuterLine above ((scanLines state lines).map ScannedLine.skeleton) := by
  induction lines generalizing state above with
  | nil => rfl
  | cons line lines ih =>
    have hrest := ih (state.scan line).state (above ++ [(state.scan line).skeleton])
    rw [List.foldl_append, List.foldl_cons, List.foldl_nil, List.length_append,
      List.length_singleton] at hrest
    rw [topLevelTypes, scanLines, List.map_cons, typesBelow, lineBalance_skeleton, hrest]
    -- all types of an outer line and none of another
    congr 1
    by_cases hzero : above.foldl lineBalance 0 = 0
    · have hall : isOnOuterLine above = fun _ => true := by
        funext found
        simp [isOnOuterLine, hzero]
      simp [hzero, hall, typeNames_eq_map]
    · have hnone : isOnOuterLine above = fun _ => false := by
        funext found
        simp [isOnOuterLine, hzero]
      simp [hzero, hnone]

/-! ## §4 The main type -/

/-- The main type among those found: the first one called `baseName` if that is preferred and there
is one, else the first one, else the base name or a placeholder on no line.  The line of a type is
given if it has a number. -/
inductive IsMainType (found : List (Text × Nat)) (baseName : Text) (preferBaseName : Bool) :
    TextContainer → Prop where
  | named {front back : List (Text × Nat)} {line : Nat} (hprefer : preferBaseName = true)
      (hfound : found = front ++ (baseName, line) :: back)
      (hfirst : ∀ other ∈ front, other.1 ≠ baseName) :
      IsMainType found baseName preferBaseName ⟨baseName, lineNumber? line⟩
  | first {name : Text} {line : Nat} {rest : List (Text × Nat)}
      (hfound : found = (name, line) :: rest)
      (hnone : preferBaseName = true → ∀ other ∈ found, other.1 ≠ baseName) :
      IsMainType found baseName preferBaseName ⟨name, lineNumber? line⟩
  | unnamed (hfound : found = []) (hbase : baseName = []) :
      IsMainType found baseName preferBaseName ⟨placeholderName, none⟩
  | file (hfound : found = []) (hbase : baseName ≠ []) :
      IsMainType found baseName preferBaseName ⟨baseName, none⟩

private theorem findContainer_isMainType_topLevelTypes (lines : List Text) (baseName : Text)
    (preferBaseName : Bool) :
    IsMainType (topLevelTypes {} 0 0 lines) baseName preferBaseName
      (findContainer lines baseName preferBaseName) := by
  unfold findContainer
  generalize topLevelTypes {} 0 0 lines = found
  dsimp only
  split
  case h_1 name line hchosen =>
    rcases Option.or_eq_some_iff.mp hchosen with hnamed | ⟨hnone, hhead⟩
    · -- the first type with the preferred name
      obtain ⟨hprefer, hfind⟩ := Option.ite_none_right_eq_some.mp hnamed
      obtain ⟨hname, front, back, hfound, hfront⟩ := List.find?_eq_some_iff_append.mp hfind
      obtain rfl : name = baseName := by simpa using hname
      exact .named hprefer hfound fun other hmem => by simpa using hfront other hmem
    · -- no type has that name
      obtain ⟨rest, hfound⟩ := List.head?_eq_some_iff.mp hhead
      refine .first hfound ?_
      rintro rfl other hmem
      simpa using List.find?_eq_none.mp hnone other hmem
  case h_2 hchosen =>
    have hfound : found = [] := List.head?_eq_none_iff.mp (Option.or_eq_none_iff.mp hchosen).2
    cases baseName with
    | nil => exact .unnamed hfound rfl
    | cons c cs => exact .file hfound (by simp)

/-- **The main type of a document** is chosen as it should be among the types of the lines that
begin outside braces, the braces of every line being counted as a whole; and where the braces are
laid out for that, among the types at the top level. -/
theorem findContainer_isMainType (lines : List Text) (baseName : Text) (preferBaseName : Bool) :
    IsMainType (typesWhere isOnOuterLine lines) baseName preferBaseName
        (findContainer lines baseName preferBaseName) ∧
      (areLaidOut [] (skeletons lines) = true →
        IsMainType (typesWhere isTopLevel lines) baseName preferBaseName
          (findContainer lines baseName preferBaseName)) := by
  have houter : topLevelTypes {} 0 0 lines = typesWhere isOnOuterLine lines :=
    topLevelTypes_eq_typesBelow {} [] lines
  have hmain := findContainer_isMainType_topLevelTypes lines baseName preferBaseName
  rw [houter] at hmain
  refine ⟨hmain, fun hlaid => ?_⟩
  have htop : typesWhere isOnOuterLine lines = typesWhere isTopLevel lines :=
    typesBelow_isTopLevel rfl hlaid
  rwa [htop] at hmain

/-- Two types outside braces, the first with a type and the text of one in it. -/
def shopLines : List Text :=
  ["class Helper \x7b".toList, "  class Nested \x7b\x7d".toList,
    "  String s = \"class Fake \x7b\";".toList,
    "\x7d".toList, "public class Orders \x7b".toList, "\x7d".toList]

/-- The type named like the file is preferred to the first one. -/
theorem findContainer_shop :
    areLaidOut [] (skeletons shopLines) = true ∧
      typesWhere isTopLevel shopLines = [("Helper".toList, 0), ("Orders".toList, 4)] ∧
      IsMainType (typesWhere isTopLevel shopLines) "Orders" true ⟨"Orders", some 4⟩ := by
  have hlaid : areLaidOut [] (skeletons shopLines) = true := by decide +kernel
  have hfound : findContainer shopLines "Orders" true = ⟨"Orders", some 4⟩ := by decide +kernel
  have hmain := (findContainer_isMainType shopLines "Orders" true).2 hlaid
  rw [hfound] at hmain
  exact ⟨hlaid, by decide +kernel, hmain⟩

/-- A type inside another one on the same line is taken for the main type, though only the outer one
is at the top level. -/
theorem not_forall_isMainType_isTopLevel :
    ¬∀ (lines : List Text) (baseName : Text) (preferBaseName : Bool),
      IsMainType (typesWhere isTopLevel lines) baseName preferBaseName
        (findContainer lines baseName preferBaseName) := by
  intro h
  have hmain := h ["class A \x7b class B \x7b\x7d \x7d".toList] "B" true
  have htop : typesWhere isTopLevel ["class A \x7b class B \x7b\x7d \x7d".toList] =
      [("A".toList, 0)] := by
    decide +kernel
  have hfound : findContainer ["class A \x7b class B \x7b\x7d \x7d".toList] "B" true =
      ⟨"B", some 0⟩ := by
    decide +kernel
  rw [htop, hfound] at hmain
  generalize hcontainer : (⟨"B", some 0⟩ : TextContainer) = container at hmain
  -- the name is neither the preferred one of the list nor its first
  cases hmain with
  | named _ hlist _ => simp [List.cons_eq_append_iff] at hlist
  | first hlist _ =>
    obtain ⟨⟨hname, -⟩, -⟩ : ("A".toList = _ ∧ 0 = _) ∧ _ := by simpa using hlist
    exact absurd (hname.trans (congrArg TextContainer.name hcontainer).symm) (by decide)
  | unnamed hlist _ => simp at hlist
  | file hlist _ => simp at hlist

end DeclDocs
