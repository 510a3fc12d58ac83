import Mathlib.Algebra.GroupWithZero.Nat
import Mathlib.Order.Bounds.Defs
import Offside.Proofs.Lexer.Gap
import Offside.Proofs.Text.Slices
import Offside.Source.Origin

/-!
# Lines and columns

A place has an offset, and it has a line and a column. Line and column are found by scans that know
nothing of each other: the line feeds before the place are counted, its column is measured from the
last of them, and the text of its line goes on to the next. Here they are put together. The lines of
a source are what splitting it at its line feeds gives; a place lies on the line that its number
says, at the byte that its column says, and so its offset can be computed from the two.

Results:
* `Source.isGreatest_origin`: the offset that an origin keeps.
* `splitOn_place`: the line that a place cuts in two, among the lines of the text.
* `Position.compare_of_append`: a place further on has a greater position.
* `Source.places_determined`: offsets and positions determine each other.
-/

namespace Offside

open Text

/-- The lines of a source, without the line feeds between them. -/
def Source.lines (s : Source) : List (List Char) := s.chars.splitOn '\n'

/-! ## Offsets -/

theorem Origin.before_origin (s : Source) (n : Nat) :
    (s.origin n).before = takeBytes n s.chars := by
  obtain ⟨rest, hrest⟩ := takeBytes_isPrefix n s.chars
  exact (Origin.before_of_boundary hrest.symm).1

theorem Source.origin_spec (s : Source) (n : Nat) :
    s.chars = (s.origin n).before ++ (s.origin n).after ∧
      (s.origin n).offset = byteLength (s.origin n).before := by
  obtain ⟨rest, hrest⟩ := takeBytes_isPrefix n s.chars
  obtain ⟨hbefore, hafter⟩ := Origin.before_of_boundary hrest.symm
  constructor
  · rw [show (s.origin n).before = _ from hbefore, show (s.origin n).after = _ from hafter, hrest]
  · rw [Origin.before_origin]; rfl

theorem Source.size_eq (s : Source) : s.size = s.text.utf8ByteSize := byteLength_toList s.text

theorem Source.size_eq_offset_add (s : Source) (n : Nat) :
    s.size = (s.origin n).offset + byteLength (s.origin n).after := by
  obtain ⟨htext, hoffset⟩ := s.origin_spec n
  rw [Source.size, htext, byteLength_append, ← hoffset]

/-- **Clamping.** An origin keeps the greatest boundary that is neither after the offset asked for
nor after the end. -/
theorem Source.isGreatest_origin (s : Source) (n : Nat) :
    IsGreatest {b | IsBoundary s.text b ∧ b ≤ min n s.text.utf8ByteSize} (s.origin n).offset := by
  obtain ⟨htext, hoffset⟩ := s.origin_spec n
  obtain ⟨hn, hsize⟩ := s.origin_offset_le n
  rw [s.size_eq] at hsize
  constructor
  · exact ⟨hoffset ▸ isBoundary_of_append htext, Nat.le_min.2 ⟨hn, hsize⟩⟩
  · rintro b ⟨hb, hle⟩
    obtain ⟨p, hp, rfl⟩ := isBoundary_iff.1 hb
    obtain ⟨mid, hmid⟩ := isPrefix_takeBytes hp (Nat.le_min.1 hle).1
    rw [hoffset, Origin.before_origin]
    show _ ≤ byteLength (takeBytes n s.text.toList)
    rw [← hmid, byteLength_append]
    exact Nat.le_add_right _ _

/-! ## Lines -/

theorem splitOn_eq_firstLine (cs : List Char) : ∃ back, cs.splitOn '\n' = firstLine cs :: back := by
  induction cs using lines_induction with
  | last a ha =>
    refine ⟨[], ?_⟩
    have hline : firstLine a = a := by simpa [firstLine] using firstLine_append ha []
    rw [List.splitOn_eq_singleton ha, hline]
  | line a cs ha =>
    refine ⟨cs.splitOn '\n', ?_⟩
    rw [List.splitOn_append_cons_self, List.splitOn_eq_singleton ha, firstLine_append ha]
    simp [firstLine]

/-- A place cuts one of the lines in two. As many lines come before it as there are line feeds, and
each of them takes its bytes and one more. -/
theorem splitOn_place (before after : List Char) :
    ∃ front back, (before ++ after).splitOn '\n' =
        front ++ (lastLine before ++ firstLine after) :: back ∧
      front.length = before.count '\n' ∧
      byteLength before = (front.map (byteLength · + 1)).sum + byteLength (lastLine before) := by
  induction before using lines_induction with
  | last a ha =>
    obtain ⟨back, hback⟩ := splitOn_eq_firstLine (a ++ after)
    refine ⟨[], back, ?_, ?_, ?_⟩
    · rw [hback, firstLine_append ha, lastLine_of_notMem ha]; rfl
    · rw [List.count_eq_zero_of_not_mem ha]; rfl
    · simp [lastLine_of_notMem ha]
  | line a cs ha ih =>
    obtain ⟨front, back, hsplit, hlen, hsize⟩ := ih
    refine ⟨a :: front, back, ?_, ?_, ?_⟩
    · rw [List.append_assoc, List.cons_append, List.splitOn_append_cons_self,
        List.splitOn_eq_singleton ha, hsplit, lastLine_append_feed]
      rfl
    · simp only [List.length_cons, hlen, List.count_append, List.count_eq_zero_of_not_mem ha,
        List.count_cons_self]
      omega
    · have hfeed : '\n'.utf8Size = 1 := rfl
      simp only [byteLength_append, byteLength_cons, hfeed, hsize, lastLine_append_feed,
        List.map_cons, List.sum_cons]
      omega

theorem dropReturn_cases (line : List Char) :
    line = dropReturn line ++ ['\r'] ∨ line.getLast? ≠ some '\r' ∧ dropReturn line = line := by
  unfold dropReturn
  split
  · next h =>
    left
    obtain ⟨front, rfl⟩ := List.getLast?_eq_some_iff.1 h
    simp
  · next h => exact Or.inr ⟨h, rfl⟩

/-! ## Order -/

/-- The position at the end of a text. -/
def Position.atEnd (before : List Char) : Position :=
  ⟨1 + before.count '\n', 1 + byteLength (lastLine before)⟩

theorem Position.compare_self (p : Position) : p.compare p = .eq := by
  simp [Position.compare, Ordering.then]

theorem Position.compare_swap (p q : Position) : (p.compare q).swap = q.compare p := by
  simp [Position.compare, Ordering.swap_then, Nat.compare_swap]

/-- **Order.** A place further on has a greater position: another line has begun, or the line has
grown. -/
theorem Position.compare_of_append (before : List Char) {more : List Char} (h : more ≠ []) :
    (Position.atEnd before).compare (Position.atEnd (before ++ more)) = .lt := by
  unfold Position.compare Position.atEnd
  by_cases hfeed : '\n' ∈ more
  · have hline : 1 + before.count '\n' < 1 + (before ++ more).count '\n' := by
      have := List.count_pos_iff.2 hfeed
      rw [List.count_append]; omega
    rw [Nat.compare_eq_lt.2 hline]; rfl
  · have hline : (before ++ more).count '\n' = before.count '\n' := by
      rw [List.count_append, List.count_eq_zero_of_not_mem hfeed, Nat.add_zero]
    have hcolumn :
        1 + byteLength (lastLine before) < 1 + byteLength (lastLine (before ++ more)) := by
      have := length_le_byteLength more
      have := List.length_pos_iff.2 h
      rw [lastLine_append hfeed, byteLength_append]; omega
    rw [hline, Nat.compare_eq_lt.2 hcolumn, Nat.compare_eq_eq.2 rfl]; rfl

theorem Position.compare_of_isPrefix {a b text : List Char} (ha : a <+: text) (hb : b <+: text) :
    (Position.atEnd a).compare (Position.atEnd b) =
      Ord.compare (byteLength a) (byteLength b) := by
  have hstep : ∀ (a more : List Char), more ≠ [] →
      Ord.compare (byteLength a) (byteLength (a ++ more)) = .lt := by
    intro a more hne
    have := length_le_byteLength more
    have := List.length_pos_iff.2 hne
    rw [Nat.compare_eq_lt, byteLength_append]; omega
  rcases List.prefix_or_prefix_of_prefix ha hb with ⟨more, rfl⟩ | ⟨more, rfl⟩
  · by_cases hne : more = []
    · rw [hne, List.append_nil, Position.compare_self, Nat.compare_eq_eq.2 rfl]
    · rw [Position.compare_of_append a hne, hstep a more hne]
  · by_cases hne : more = []
    · rw [hne, List.append_nil, Position.compare_self, Nat.compare_eq_eq.2 rfl]
    · rw [← Position.compare_swap, ← Nat.compare_swap, Position.compare_of_append b hne,
        hstep b more hne]

/-! ## The main result -/

/-- **Places.** An origin keeps the greatest boundary that is neither after the offset asked for nor
after the end. Its line is one of the lines of the source, its column does not leave that line, its
offset is the sizes of the lines before it and their line feeds, and the bytes before its column.
The text of its line is that line without one carriage return at its end. Positions compare as the
offsets do, and equal positions are those of equal offsets. -/
theorem Source.places_determined (source : Source) :
    (∀ n, IsGreatest {b | IsBoundary source.text b ∧ b ≤ min n source.text.utf8ByteSize}
      (source.origin n).offset) ∧
    (∀ n, ∃ line,
      source.lines[(source.origin n).line - 1]? = some line ∧
      1 ≤ (source.origin n).line ∧ (source.origin n).line ≤ source.lines.length ∧
      1 ≤ (source.origin n).column ∧ (source.origin n).column - 1 ≤ byteLength line ∧
      (source.origin n).offset =
        ((source.lines.take ((source.origin n).line - 1)).map (byteLength · + 1)).sum +
          ((source.origin n).column - 1) ∧
      (line = (source.origin n).lineText.toList ++ ['\r'] ∨
        line.getLast? ≠ some '\r' ∧ (source.origin n).lineText.toList = line)) ∧
    ∀ m n,
      (source.origin m).position.compare (source.origin n).position =
        Ord.compare (source.origin m).offset (source.origin n).offset ∧
      ((source.origin m).position = (source.origin n).position ↔
        (source.origin m).offset = (source.origin n).offset) := by
  refine ⟨source.isGreatest_origin, fun n => ?_, fun m n => ?_⟩
  · obtain ⟨htext, hoffset⟩ := source.origin_spec n
    obtain ⟨front, back, hsplit, hlen, hsize⟩ :=
      splitOn_place (source.origin n).before (source.origin n).after
    rw [← htext] at hsplit
    change source.lines = _ at hsplit
    have hline : (source.origin n).line = 1 + front.length := by rw [hlen]; rfl
    have hindex : (source.origin n).line - 1 = front.length := by omega
    have hcolumn : (source.origin n).column =
        1 + byteLength (lastLine (source.origin n).before) := rfl
    refine ⟨lastLine (source.origin n).before ++ firstLine (source.origin n).after,
      ?_, ?_, ?_, ?_, ?_, ?_, ?_⟩
    · rw [hsplit, hindex, List.getElem?_append_right (Nat.le_refl _)]; simp
    · omega
    · rw [hsplit, hline, List.length_append, List.length_cons]; omega
    · omega
    · rw [hcolumn, byteLength_append]; omega
    · rw [hoffset, hsize, hsplit, hindex, List.take_left, hcolumn, Nat.add_sub_cancel_left]
    · rw [Origin.lineText, String.toList_ofList]
      exact dropReturn_cases _
  · obtain ⟨hm, hoffsetm⟩ := source.origin_spec m
    obtain ⟨hn, hoffsetn⟩ := source.origin_spec n
    have hcompare := Position.compare_of_isPrefix ⟨_, hm.symm⟩ ⟨_, hn.symm⟩
    rw [← hoffsetm, ← hoffsetn] at hcompare
    refine ⟨hcompare, fun heq => ?_, fun heq => ?_⟩
    · rw [show Position.atEnd (source.origin m).before = _ from heq] at hcompare
      rw [show (source.origin n).position = Position.atEnd (source.origin n).before from rfl,
        Position.compare_self] at hcompare
      exact Nat.compare_eq_eq.1 hcompare.symm
    · have hsame : source.origin m = source.origin n := congrArg (Origin.mk source) heq
      rw [hsame]

end Offside
