/-!
# Open blocks

The widths of the open blocks, innermost first. The outermost block has width 0, is always open and
is not listed. A line wider than the innermost block opens a block; a narrower one closes blocks and
must end on the width of one that is open.
-/

namespace Offside

/-- The widths of the open blocks, innermost first. -/
abbrev Blocks := List Nat

namespace Blocks

/-- The width of the innermost block. -/
def top (blocks : Blocks) : Nat := blocks.headD 0

/-- The open blocks after a line of the given width, unless it lines up with none of them. -/
def enter? (blocks : Blocks) (width : Nat) : Option Blocks :=
  if blocks.top < width then some (width :: blocks)
  else
    let kept : Blocks := blocks.dropWhile (width < ·)
    if kept.top = width then some kept else none

theorem enter?_of_top_lt {blocks : Blocks} {width : Nat} (h : blocks.top < width) :
    blocks.enter? width = some (width :: blocks) := by
  simp [enter?, h]

theorem enter?_top (blocks : Blocks) : blocks.enter? blocks.top = some blocks := by
  have hdrop : blocks.dropWhile (blocks.top < ·) = blocks := by
    cases blocks with
    | nil => rfl
    | cons b bs => exact List.dropWhile_cons_of_neg (by simp [top])
  simp [enter?, hdrop]

theorem length_enter?_le {blocks kept : Blocks} {width : Nat} (h : ¬ blocks.top < width)
    (hk : blocks.enter? width = some kept) : kept.length ≤ blocks.length := by
  simp only [enter?, h, if_false] at hk
  split at hk
  · cases hk; exact (List.dropWhile_sublist _).length_le
  · cases hk

/-- A line that lines up and is not wider than the innermost block either is as wide as it and
changes nothing, or is narrower. -/
theorem enter?_cases {blocks kept : Blocks} {width : Nat} (h : ¬ blocks.top < width)
    (hk : blocks.enter? width = some kept) :
    (kept = blocks ∧ width = blocks.top) ∨
      (width < blocks.top ∧ kept.length < blocks.length) := by
  simp only [enter?, h, if_false] at hk
  split at hk
  · next htop =>
    cases hk
    cases blocks with
    | nil => exact Or.inl ⟨rfl, htop.symm⟩
    | cons b blocks =>
      by_cases hb : width < b
      · right
        have hdrop := (List.dropWhile_sublist (fun x => decide (width < x)) (l := blocks)).length_le
        simp only [List.dropWhile_cons, hb, decide_true, if_true, List.length_cons]
        exact ⟨hb, by omega⟩
      · left
        simp only [List.dropWhile_cons, hb, decide_false, Bool.false_eq_true, if_false] at htop ⊢
        exact ⟨trivial, htop.symm⟩
  · cases hk

end Blocks

end Offside
