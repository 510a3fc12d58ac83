import Offside.Text.Classes

/-!
# Gaps between tokens

A gap is made of blanks and, where they are enabled, comments from `#` to the end of the line. A
line feed ends it unless lines are joined.

Results:
* `gap_isPrefix`: a gap is taken from the front of the text.
-/

namespace Offside

open Text

/-- Where a gap stands: among blanks or inside a comment. -/
inductive Gap where
  | blanks
  | comment
  deriving DecidableEq

/-- The gap at the start of a text. -/
def Gap.scan (joins comments : Bool) : Gap → List Char → List Char
  | _, [] => []
  | g, c :: cs =>
    if c = '\n' then if joins then c :: scan joins comments .blanks cs else []
    else if g = .comment then c :: scan joins comments .comment cs
    else if isBlank c then c :: scan joins comments .blanks cs
    else if comments && c = '#' then c :: scan joins comments .comment cs
    else []

/-- The gap at the start of a text, outside a comment. -/
def gap (joins comments : Bool) (cs : List Char) : List Char :=
  Gap.scan joins comments .blanks cs

theorem Gap.scan_isPrefix (joins comments : Bool) (g : Gap) (cs : List Char) :
    Gap.scan joins comments g cs <+: cs := by
  induction cs generalizing g with
  | nil => simp [Gap.scan]
  | cons c cs ih =>
    simp only [Gap.scan]
    repeat' split
    all_goals first
      | exact (List.prefix_cons_inj c).2 (ih _)
      | exact List.nil_prefix

theorem gap_isPrefix (joins comments : Bool) (cs : List Char) : gap joins comments cs <+: cs :=
  Gap.scan_isPrefix joins comments .blanks cs

end Offside
