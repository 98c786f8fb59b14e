import DeclDocs.Model.Locate
import Mathlib.Data.List.Basic

/-!
# Records sorted by line

Records are sorted by their first line so that the one at a line can be found by bisection.  The
bisection keeps a stretch of records in which the boundary between those that satisfy the predicate
and those that do not must lie, and halves it in each round.

* `isStableSort_sortByLine`: the sort puts records in order and keeps the order of those on one line.
* `lt_bisect_iff`: the bisection finds the boundary.
* `locateEnclosing_eq`: the search gives the last record that starts at or above the line, if the
  line is not below its end.
* `locateEnclosing_eq_locateLinearly`: the same as one look at each record from the end.
-/

namespace DeclDocs

/-! ## §1 Sorting -/

section Sorting

variable {α : Type} (line : α → UInt32)

private theorem line_le_trans (a b c : α) (hab : decide (line a ≤ line b) = true)
    (hbc : decide (line b ≤ line c) = true) : decide (line a ≤ line c) = true := by
  rw [decide_eq_true_eq] at hab hbc ⊢
  exact UInt32.le_trans hab hbc

private theorem line_le_total (a b : α) :
    (decide (line a ≤ line b) || decide (line b ≤ line a)) = true := by
  simpa using UInt32.le_total (line a) (line b)

theorem pairwise_sortByLine (records : List α) :
    (sortByLine line records).Pairwise fun a b => line a ≤ line b := by
  have hsorted := List.pairwise_mergeSort (line_le_trans line) (line_le_total line) records
  simpa [sortByLine] using hsorted

theorem sortByLine_perm (records : List α) : (sortByLine line records).Perm records :=
  List.mergeSort_perm records _

/-- The records in the order of their lines; those on one line stay in the order they had. -/
structure IsStableSort (records sorted : List α) : Prop where
  ordered : sorted.Pairwise fun a b => line a ≤ line b
  stable : ∀ n, (sorted.filter fun record => line record == n) =
    records.filter fun record => line record == n

theorem isStableSort_sortByLine (records : List α) :
    IsStableSort line records (sortByLine line records) := by
  refine ⟨pairwise_sortByLine line records, fun n => ?_⟩
  -- the records on line `n` are in order already, so the sort keeps them as a sublist
  have hordered : (records.filter fun record => line record == n).Pairwise
      fun a b => decide (line a ≤ line b) = true := by
    refine List.pairwise_of_forall_mem_list fun a ha b hb => ?_
    have ha := (List.mem_filter.mp ha).2
    have hb := (List.mem_filter.mp hb).2
    simp_all
  have hsublist := List.sublist_mergeSort (line_le_trans line) (line_le_total line) hordered
    List.filter_sublist
  have hkept := hsublist.filter fun record => line record == n
  rw [List.filter_filter] at hkept
  simp only [Bool.and_self] at hkept
  have hlength := ((sortByLine_perm line records).filter fun record => line record == n).length_eq
  exact (hkept.eq_of_length hlength.symm).symm

end Sorting

/-! ## §2 Bisection -/

section Bisection

variable {α : Type} {p : α → Bool} {records : List α} {base size : Nat}

private theorem holdsAt_eq_false {index : Nat} (h : records.length ≤ index) :
    holdsAt p records index = false := by
  rw [holdsAt, List.getElem?_eq_none h, Option.any_none]

/-- The records that satisfy the predicate come first. -/
def ComeFirst (p : α → Bool) (records : List α) : Prop :=
  records.Pairwise fun a b => p b = true → p a = true

theorem ComeFirst.holdsAt (h : ComeFirst p records) {low high : Nat} (hle : low ≤ high)
    (hhigh : holdsAt p records high = true) : holdsAt p records low = true := by
  rcases Nat.eq_or_lt_of_le hle with rfl | hlt
  · exact hhigh
  · obtain ⟨last, hlast, hp⟩ := (Option.any_eq_true ..).mp hhigh
    obtain ⟨hlength, rfl⟩ := List.getElem?_eq_some_iff.mp hlast
    have hlow : low < records.length := Nat.lt_trans hlt hlength
    have hfirst := List.pairwise_iff_getElem.mp h low high hlow hlength hlt hp
    simpa [DeclDocs.holdsAt, hlow] using hfirst

/-- The boundary lies in the stretch of `size` records from `base` on: what stands behind the
stretch does not satisfy the predicate, and the record at `base` does unless it is the first. -/
structure HasBoundary (p : α → Bool) (records : List α) (base size : Nat) : Prop where
  nonempty : 0 < size
  below : base = 0 ∨ holdsAt p records base = true
  above : ∀ index, base + size ≤ index → holdsAt p records index = false

/-- One round keeps the boundary in the stretch. -/
theorem HasBoundary.halve (hfirst : ComeFirst p records) (h : HasBoundary p records base size)
    (hsize : ¬ size ≤ 1) :
    HasBoundary p records
      (if holdsAt p records (base + size / 2) then base + size / 2 else base)
      (size - size / 2) := by
  by_cases hhalf : holdsAt p records (base + size / 2) = true
  · rw [if_pos hhalf]
    exact ⟨by omega, Or.inr hhalf, fun index hle => h.above index (by omega)⟩
  · rw [if_neg hhalf]
    refine ⟨by omega, h.below, fun index hle => ?_⟩
    -- behind a record that does not satisfy the predicate there is none that does
    by_contra hholds
    rw [Bool.not_eq_false] at hholds
    exact hhalf (hfirst.holdsAt (by omega) hholds)

theorem HasBoundary.bisectFrom (hfirst : ComeFirst p records) {fuel : Nat} (hfuel : size ≤ fuel)
    (h : HasBoundary p records base size) :
    HasBoundary p records (DeclDocs.bisectFrom p records fuel base size) 1 := by
  -- every round takes at least one record off the stretch, so the rounds suffice
  induction fuel generalizing base size with
  | zero =>
    have hpositive := h.nonempty
    omega
  | succ fuel ih =>
    unfold DeclDocs.bisectFrom
    split
    case isTrue hsmall =>
      obtain rfl : size = 1 := Nat.le_antisymm hsmall h.nonempty
      exact h
    case isFalse hlarge => exact ih (by omega) (h.halve hfirst hlarge)

/-- **The bisection finds the boundary.** -/
theorem lt_bisect_iff (hfirst : ComeFirst p records) (index : Nat) :
    index < bisect p records ↔ holdsAt p records index = true := by
  unfold bisect
  split
  case isTrue hempty =>
    rw [List.isEmpty_iff.mp hempty]
    simp [holdsAt]
  case isFalse hsome =>
    have hstart : HasBoundary p records 0 records.length := by
      refine ⟨?_, Or.inl rfl, fun index hle => holdsAt_eq_false (by omega)⟩
      exact List.length_pos_iff.mpr fun hnil => hsome (by simp [hnil])
    have hend := hstart.bisectFrom hfirst (Nat.le_refl records.length)
    generalize bisectFrom p records records.length 0 records.length = base at hend ⊢
    dsimp only
    -- one record is left, and whether it satisfies the predicate decides
    by_cases hbase : holdsAt p records base = true
    · rw [if_pos hbase]
      constructor
      · intro hlt
        exact hfirst.holdsAt (by omega) hbase
      · intro hholds
        by_contra hge
        rw [hend.above index (by omega)] at hholds
        simp at hholds
    · -- not even the first record satisfies the predicate
      obtain rfl : base = 0 := hend.below.resolve_right hbase
      rw [if_neg hbase]
      constructor
      · intro hlt
        omega
      · intro hholds
        exact absurd (hfirst.holdsAt (Nat.zero_le index) hholds) hbase

/-- The records that satisfy the predicate are as many in front as the bisection says. -/
theorem filter_eq_take (hfirst : ComeFirst p records) :
    records.filter p = records.take (bisect p records) := by
  have hfront : ∀ record ∈ records.take (bisect p records), p record = true := by
    intro record hmem
    obtain ⟨index, hlt, rfl⟩ := List.mem_take_iff_getElem.mp hmem
    have hholds := (lt_bisect_iff hfirst index).mp (Nat.lt_of_lt_of_le hlt (Nat.min_le_left ..))
    simpa [holdsAt, Nat.lt_of_lt_of_le hlt (Nat.min_le_right ..)] using hholds
  have hback : ∀ record ∈ records.drop (bisect p records), ¬ p record = true := by
    intro record hmem hp
    obtain ⟨index, hlt, rfl⟩ := List.mem_drop_iff_getElem.mp hmem
    have hlength : bisect p records + index < records.length := by omega
    have hbound := (lt_bisect_iff hfirst (bisect p records + index)).mpr
      (by simpa [holdsAt, hlength] using hp)
    omega
  calc records.filter p
      = (records.take (bisect p records)).filter p ++
          (records.drop (bisect p records)).filter p := by
        rw [← List.filter_append, List.take_append_drop]
    _ = records.take (bisect p records) := by
        rw [List.filter_eq_self.mpr hfront, List.filter_eq_nil_iff.mpr hback, List.append_nil]

end Bisection

/-! ## §3 The record at a line -/

section Locate

variable {α : Type} [LineSpan α] {records : List α}

/-- The records are in the order of their first lines. -/
def SortedByStart (records : List α) : Prop :=
  records.Pairwise fun a b => LineSpan.startLine a ≤ LineSpan.startLine b

private theorem SortedByStart.comeFirst (h : SortedByStart records) (line : UInt32) :
    ComeFirst (fun record => decide (LineSpan.startLine record ≤ line)) records := by
  refine h.imp fun {a b} hab hb => ?_
  rw [decide_eq_true_eq] at hb ⊢
  exact UInt32.le_trans hab hb

/-- No record starts above a line that is above the first one. -/
theorem filter_eq_nil_of_lt_first (hsorted : SortedByStart records) {first : α} {line : UInt32}
    (hfirst : records.head? = some first) (h : line < LineSpan.startLine first) :
    records.filter (fun record => LineSpan.startLine record ≤ line) = [] := by
  obtain ⟨rest, rfl⟩ := List.head?_eq_some_iff.mp hfirst
  have hrest := (List.pairwise_cons.mp hsorted).1
  rw [List.filter_eq_nil_iff]
  intro record hmem
  rw [decide_eq_true_eq, UInt32.not_le]
  rcases List.mem_cons.mp hmem with rfl | hmem
  · exact h
  · exact UInt32.lt_of_lt_of_le h (hrest record hmem)

/-- The search without its look at the first and at the last record. -/
def locateUnguarded (records : List α) (line : UInt32) : Option α :=
  match bisect (fun record => LineSpan.startLine record ≤ line) records with
  | 0 => none
  | index + 1 => (records[index]?).filter fun record => line ≤ LineSpan.endLine record

/-- The record in front of the boundary is the last one that starts at or above the line. -/
theorem locateUnguarded_eq (hsorted : SortedByStart records) (line : UInt32) :
    locateUnguarded records line =
      ((records.filter fun record => LineSpan.startLine record ≤ line).getLast?).filter
        fun record => line ≤ LineSpan.endLine record := by
  rw [locateUnguarded, filter_eq_take (hsorted.comeFirst line)]
  cases hindex : bisect (fun record => decide (LineSpan.startLine record ≤ line)) records with
  | zero => simp
  | succ index =>
    -- the record in front of the boundary is there
    have hholds := (lt_bisect_iff (hsorted.comeFirst line) index).mp (by omega)
    obtain ⟨record, hrecord, _⟩ := (Option.any_eq_true ..).mp hholds
    simp [List.getLast?_take, hrecord]

/-- **The search gives the last record that starts at or above the line**, if the line is not below
the end of that record; the last record of all must not end above its own start. -/
theorem locateEnclosing_eq (hsorted : SortedByStart records)
    (hlast : ∀ last, records.getLast? = some last → LineSpan.startLine last ≤ LineSpan.endLine last)
    (line : UInt32) :
    locateEnclosing records line =
      ((records.filter fun record => LineSpan.startLine record ≤ line).getLast?).filter
        fun record => line ≤ LineSpan.endLine record := by
  rcases List.eq_nil_or_concat' records with rfl | ⟨front, last, hrecords⟩
  · rfl
  have hends : records.getLast? = some last := by simp [hrecords]
  obtain ⟨first, hfirst⟩ : ∃ first, records.head? = some first := by
    rw [← Option.isSome_iff_exists, List.isSome_head?, hrecords]
    simp
  rw [locateEnclosing, hfirst, hends]
  dsimp only
  split
  case isTrue hrejected =>
    rw [Bool.or_eq_true, decide_eq_true_eq, decide_eq_true_eq] at hrejected
    rcases hrejected with habove | hbelow
    · rw [filter_eq_nil_of_lt_first hsorted hfirst habove]
      rfl
    · -- the last record starts above the line, and is the candidate that ends too early
      have hstarts : LineSpan.startLine last ≤ line :=
        UInt32.le_trans (hlast last hends) (UInt32.le_of_lt hbelow)
      simp [hrecords, List.filter_append, hstarts, Option.filter_some, UInt32.not_le.mpr hbelow]
  case isFalse => exact locateUnguarded_eq hsorted line

/-- Looks at the records one by one from the last on, for one that starts at or above the line. -/
def locateLinearly (records : List α) (line : UInt32) : Option α :=
  (records.findRev? fun record => LineSpan.startLine record ≤ line).filter
    fun record => line ≤ LineSpan.endLine record

/-- **Bisection agrees with the linear scan**, whether or not records overlap: both give the last
record that starts at or above the line, or nothing if that one ends above it.  The look at the
first start and at the last end never changes the answer. -/
theorem locateEnclosing_eq_locateLinearly (records : List α) (hsorted : SortedByStart records)
    (hlast : ∀ last, records.getLast? = some last → LineSpan.startLine last ≤ LineSpan.endLine last)
    (line : UInt32) :
    locateEnclosing records line = locateLinearly records line ∧
      locateEnclosing records line = locateUnguarded records line := by
  have hscan : locateLinearly records line =
      ((records.filter fun record => LineSpan.startLine record ≤ line).getLast?).filter
        fun record => line ≤ LineSpan.endLine record := by
    rw [locateLinearly, List.findRev?_eq_find?_reverse, List.getLast?_filter]
  rw [hscan, locateUnguarded_eq hsorted]
  exact ⟨locateEnclosing_eq hsorted hlast line, locateEnclosing_eq hsorted hlast line⟩

/-- Of two records on one line inside a longer one the last is taken, and below its end nothing is
found, although the longer one goes on. -/
theorem locateEnclosing_overlapping :
    locateEnclosing [((0, 30) : UInt32 × UInt32), (5, 8), (5, 6)] 6 = some (5, 6) ∧
      locateEnclosing [((0, 30) : UInt32 × UInt32), (5, 8), (5, 6)] 7 = none := by
  have hsorted : SortedByStart [((0, 30) : UInt32 × UInt32), (5, 8), (5, 6)] := by
    simp [SortedByStart, LineSpan.startLine]
  have hscan := locateEnclosing_eq_locateLinearly _ hsorted (by simp [LineSpan.startLine,
    LineSpan.endLine])
  exact ⟨(hscan 6).1.trans (by decide), (hscan 7).1.trans (by decide)⟩

end Locate

/-! ## §4 Records without common lines -/

namespace LineSpan

variable {α : Type} [LineSpan α] {records : List α} {line : UInt32}

/-- The line is one of the lines of the record. -/
def Covers (record : α) (line : UInt32) : Prop :=
  startLine record ≤ line ∧ line ≤ endLine record

instance (record : α) (line : UInt32) : Decidable (Covers record line) :=
  inferInstanceAs (Decidable (_ ∧ _))

/-- One of the records ends above the other. -/
def Apart (a b : α) : Prop :=
  endLine a < startLine b ∨ endLine b < startLine a

instance (a b : α) : Decidable (Apart a b) :=
  inferInstanceAs (Decidable (_ ∨ _))

theorem Apart.symm {a b : α} (h : Apart a b) : Apart b a :=
  Or.symm h

/-- Records that are apart have no line in common. -/
theorem Apart.not_covers {a b : α} (h : Apart a b) (ha : Covers a line) : ¬ Covers b line := by
  intro hb
  rcases h with h | h
  · exact UInt32.not_lt.mpr (UInt32.le_trans hb.1 ha.2) h
  · exact UInt32.not_lt.mpr (UInt32.le_trans ha.1 hb.2) h

/-- Of two records that are apart, the one that starts first ends above the other. -/
theorem Apart.endLine_lt {a b : α} (h : Apart a b) (hle : startLine a ≤ startLine b)
    (hb : startLine b ≤ endLine b) : endLine a < startLine b := by
  rcases h with h | h
  · exact h
  · exact absurd h (UInt32.not_lt.mpr (UInt32.le_trans hle hb))

/-- Of records that are apart at most one covers the line. -/
theorem length_filter_covers (hapart : records.Pairwise Apart) (line : UInt32) :
    (records.filter fun record => Covers record line).length ≤ 1 := by
  have hfilter : (records.filter fun record => Covers record line).Pairwise Apart :=
    hapart.filter _
  have hcovers : ∀ record ∈ records.filter fun record => Covers record line,
      Covers record line := by
    intro record hmem
    exact of_decide_eq_true (List.mem_filter.mp hmem).2
  generalize (records.filter fun record => Covers record line) = covering at hfilter hcovers ⊢
  cases covering with
  | nil => simp
  | cons a rest =>
    cases rest with
    | nil => simp
    | cons b rest =>
      -- two records that are apart cannot both cover the line
      have hab : Apart a b := (List.pairwise_cons.mp hfilter).1 b (by simp)
      exact absurd (hcovers b (by simp)) (hab.not_covers (hcovers a (by simp)))

end LineSpan

/-- **The search finds the one record that covers the line**, among records that are sorted and
apart. -/
theorem locateEnclosing_eq_some {α : Type} [LineSpan α] {records : List α} {line : UInt32}
    {record : α} (hsorted : SortedByStart records) (hapart : records.Pairwise LineSpan.Apart)
    (hspans : ∀ record ∈ records, LineSpan.startLine record ≤ LineSpan.endLine record) :
    locateEnclosing records line = some record ↔
      record ∈ records ∧ LineSpan.Covers record line := by
  rw [locateEnclosing_eq hsorted fun last hlast => hspans last (List.mem_of_getLast? hlast),
    Option.filter_eq_some_iff, decide_eq_true_eq]
  constructor
  · rintro ⟨hlast, hend⟩
    obtain ⟨hmem, hstart⟩ := List.mem_filter.mp (List.mem_of_getLast? hlast)
    exact ⟨hmem, of_decide_eq_true hstart, hend⟩
  · rintro ⟨hmem, hstart, hend⟩
    refine ⟨?_, hend⟩
    have hfound : record ∈ records.filter fun record => LineSpan.startLine record ≤ line :=
      List.mem_filter.mpr ⟨hmem, decide_eq_true hstart⟩
    have hpairs := (hsorted.and hapart).filter fun record => LineSpan.startLine record ≤ line
    have hstarts : ∀ other ∈ records.filter fun record => LineSpan.startLine record ≤ line,
        other ∈ records ∧ LineSpan.startLine other ≤ line := by
      intro other hother
      obtain ⟨hmem, hle⟩ := List.mem_filter.mp hother
      exact ⟨hmem, of_decide_eq_true hle⟩
    generalize (records.filter fun record => LineSpan.startLine record ≤ line) = started
      at hfound hpairs hstarts ⊢
    rcases List.eq_nil_or_concat' started with rfl | ⟨front, last, rfl⟩
    · simp at hfound
    · rw [List.getLast?_concat]
      rcases List.mem_append.mp hfound with hfront | hlast
      · -- a record in front of the last one ends above it, and so above the line
        obtain ⟨hle, habove⟩ := (List.pairwise_append.mp hpairs).2.2 record hfront last
          (List.mem_singleton_self last)
        obtain ⟨hmember, hlastStarts⟩ := hstarts last (by simp)
        have hends := habove.endLine_lt hle (hspans last hmember)
        exact absurd hends (UInt32.not_lt.mpr (UInt32.le_trans hlastStarts hend))
      · rw [List.mem_singleton.mp hlast]

end DeclDocs
