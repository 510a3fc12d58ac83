import Offside.Text.Basic
import Offside.Text.Written

/-!
# Places in a source text

An origin is a named text and a byte offset on a character boundary. Line and column start at 1, and
columns count bytes.

Results:
* `Source.origin_offset_le`, `Source.origin_of_boundary`: an origin made at any offset stays inside
  the text, and one made at a character boundary keeps its offset.
-/

namespace Offside

open Text

/-- A text and the name it is known by. -/
structure Source where
  name : String
  text : String
  deriving DecidableEq

/-- The characters of a source. -/
def Source.chars (s : Source) : List Char := s.text.toList

/-- The length of a source in bytes. -/
def Source.size (s : Source) : Nat := byteLength s.chars

/-- A line and a column. -/
structure Position where
  line : Nat
  column : Nat
  deriving DecidableEq

/-- Positions are ordered by line, then by column. -/
def Position.compare (a b : Position) : Ordering :=
  (Ord.compare a.line b.line).then (Ord.compare a.column b.column)

def Position.inspect (p : Position) : String :=
  record "Position" [("line", toString p.line), ("column", toString p.column)]

/-- A place in a source. -/
structure Origin where
  source : Source
  offset : Nat
  deriving DecidableEq

/-- The origin at the last character boundary that is not after `offset`. -/
def Source.origin (s : Source) (offset : Nat) : Origin :=
  ⟨s, byteLength (takeBytes offset s.chars)⟩

namespace Origin

/-- The text before an origin. -/
def before (o : Origin) : List Char := takeBytes o.offset o.source.chars

/-- The text from an origin on. -/
def after (o : Origin) : List Char := o.source.chars.drop o.before.length

def line (o : Origin) : Nat := 1 + o.before.count '\n'

def column (o : Origin) : Nat := 1 + byteLength (lastLine o.before)

def position (o : Origin) : Position := ⟨o.line, o.column⟩

/-- The line an origin lies on, without its ending. -/
def lineText (o : Origin) : String :=
  String.ofList (dropReturn (lastLine o.before ++ firstLine o.after))

/-- The text from an origin up to the offset `stop`. It is empty when `stop` lies before the origin
or inside a character. -/
def textTo (o : Origin) (stop : Nat) : String :=
  let size := min stop o.source.size - o.offset
  let cut := takeBytes size o.after
  if byteLength cut = size then String.ofList cut else ""

/-- Name, line and column. -/
def render (o : Origin) : String :=
  o.source.name ++ ":" ++ toString o.line ++ ":" ++ toString o.column

/-- Where an origin is, its line, and a mark under its column. -/
def message (o : Origin) : String :=
  "in " ++ o.source.name ++ " on line " ++ toString o.line ++ " column " ++ toString o.column
    ++ "\n" ++ o.lineText ++ "\n" ++ String.ofList (List.replicate (o.column - 1) ' ') ++ "*\n"

def inspect (o : Origin) : String :=
  partialRecord "SourceOrigin"
    [("filename", quoted o.source.name), ("offset", toString o.offset)]

end Origin

theorem Source.origin_offset_le (s : Source) (n : Nat) :
    (s.origin n).offset ≤ n ∧ (s.origin n).offset ≤ s.size := by
  refine ⟨byteLength_takeBytes_le n s.chars, ?_⟩
  obtain ⟨t, ht⟩ := takeBytes_isPrefix n s.chars
  have := congrArg byteLength ht
  simp only [byteLength_append] at this
  simp only [Source.origin, Source.size]; omega

theorem Source.origin_of_boundary {s : Source} {p : List Char} (h : p <+: s.chars) :
    s.origin (byteLength p) = ⟨s, byteLength p⟩ := by
  obtain ⟨t, ht⟩ := h
  rw [Source.origin, ← ht, takeBytes_byteLength_append]

/-- What stands before and after a character boundary. -/
theorem Origin.before_of_boundary {s : Source} {p rest : List Char} (h : s.chars = p ++ rest) :
    (⟨s, byteLength p⟩ : Origin).before = p ∧ (⟨s, byteLength p⟩ : Origin).after = rest := by
  have hbefore : (⟨s, byteLength p⟩ : Origin).before = p := by
    show takeBytes (byteLength p) s.chars = p
    rw [h, takeBytes_byteLength_append]
  refine ⟨hbefore, ?_⟩
  unfold Origin.after
  rw [hbefore]
  show s.chars.drop p.length = rest
  rw [h, List.drop_left]

end Offside
