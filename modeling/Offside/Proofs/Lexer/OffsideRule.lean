import Mathlib.Data.Finset.Sort
import Offside.Proofs.Lexer.TokenLanguage

/-!
# The off-side rule

What the open blocks are, said without a stack: they are the minima of the suffixes of the widths
of all lines so far, the first width being 0. A line opens a block if it is wider than the line
before, and otherwise closes the blocks that are wider than itself; it must itself be one of the
minima.

Results:
* `Blocks.Tracks.enter`, `Blocks.Tracks.enter?_eq_none_iff`: one line.
* `Lexer.Run.tracks`: the open blocks of every run.
* `Lexer.offside_rule`: the stack, the layout tokens and the failure of every line of every run.
-/

namespace Offside

open Text

/-! ## Suffix minima -/

/-- The least of the widths from the `j`-th on. -/
def minFrom (ws : List Nat) (j : Nat) : Nat := (ws.drop j).min?.getD 0

/-- The minima of the nonempty suffixes. -/
def suffixMinima (ws : List Nat) : Finset Nat := (Finset.range ws.length).image (minFrom ws)

theorem minFrom_snoc {ws : List Nat} {j : Nat} (hj : j < ws.length) (w : Nat) :
    minFrom (ws ++ [w]) j = min (minFrom ws j) w := by
  unfold minFrom
  rw [List.drop_append_of_le_length (Nat.le_of_lt hj)]
  cases hd : ws.drop j with
  | nil => rw [List.drop_eq_nil_iff] at hd; omega
  | cons x xs =>
    rw [List.cons_append, List.min?_cons', List.min?_cons', List.foldl_append]
    rfl

theorem minFrom_length (ws : List Nat) (w : Nat) : minFrom (ws ++ [w]) ws.length = w := by
  simp [minFrom]

/-- A new width cuts the minima down to itself. -/
theorem mem_suffixMinima_snoc {ws : List Nat} {w m : Nat} :
    m ∈ suffixMinima (ws ++ [w]) ↔ m = w ∨ m ∈ suffixMinima ws ∧ m < w := by
  simp only [suffixMinima, Finset.mem_image, Finset.mem_range, List.length_append,
    List.length_singleton]
  constructor
  · rintro ⟨j, hj, rfl⟩
    by_cases hlt : j < ws.length
    · rw [minFrom_snoc hlt]
      rcases Nat.lt_or_ge (minFrom ws j) w with h | h
      · rw [Nat.min_eq_left (Nat.le_of_lt h)]; exact Or.inr ⟨⟨j, hlt, rfl⟩, h⟩
      · exact Or.inl (Nat.min_eq_right h)
    · obtain rfl : j = ws.length := by omega
      exact Or.inl (minFrom_length ws w)
  · rintro (rfl | ⟨⟨j, hj, rfl⟩, h⟩)
    · exact ⟨ws.length, by omega, minFrom_length ws m⟩
    · exact ⟨j, by omega, by rw [minFrom_snoc hj, Nat.min_eq_left (Nat.le_of_lt h)]⟩

/-! ## Nested blocks -/

namespace Blocks

/-- The widths of the open blocks from the outermost, of width 0, to the innermost. -/
def stack (blocks : Blocks) : List Nat := 0 :: blocks.reverse

/-- From the innermost block outwards the widths fall, down to 0. -/
def Nested (blocks : Blocks) : Prop := (blocks ++ [0]).Pairwise (· > ·)

theorem head?_append_zero (blocks : Blocks) : (blocks ++ [0]).head? = some blocks.top := by
  cases blocks <;> rfl

theorem top_mem (blocks : Blocks) : blocks.top ∈ blocks ++ [0] :=
  List.mem_of_head? blocks.head?_append_zero

theorem Nested.le_top {blocks : Blocks} (h : blocks.Nested) {m : Nat} (hm : m ∈ blocks ++ [0]) :
    m ≤ blocks.top := by
  cases blocks with
  | nil => simp at hm; simp [hm]
  | cons b bs =>
    rcases List.mem_cons.1 hm with rfl | hm
    · exact Nat.le_refl _
    · exact Nat.le_of_lt ((List.pairwise_cons.1 h).1 m hm)

/-- What is left when the blocks wider than `w` are closed. -/
theorem Nested.dropWhile_append_zero {blocks : Blocks} (h : blocks.Nested) (w : Nat) :
    blocks.dropWhile (w < ·) ++ [0] = (blocks ++ [0]).filter (· ≤ w) := by
  induction blocks with
  | nil => simp
  | cons b bs ih =>
    obtain ⟨hb, hbs⟩ := List.pairwise_cons.1 h
    by_cases hw : w < b
    · rw [List.dropWhile_cons_of_pos (by simpa using hw), ih hbs, List.cons_append,
        List.filter_cons_of_neg (by simpa using hw)]
    · rw [List.dropWhile_cons_of_neg (by simpa using hw), List.cons_append,
        List.filter_cons_of_pos (by simpa using hw), List.filter_eq_self.2]
      intro m hm
      have := hb m hm
      simp only [decide_eq_true_eq]; omega

theorem Nested.dropWhile {blocks : Blocks} (h : blocks.Nested) (w : Nat) :
    Nested (blocks.dropWhile (w < ·)) := by
  unfold Nested
  rw [h.dropWhile_append_zero]
  exact h.sublist List.filter_sublist

/-- Blocks closed down to `w` end on `w` exactly when one of the blocks has that width. -/
theorem Nested.top_dropWhile_eq_iff {blocks : Blocks} (h : blocks.Nested) (w : Nat) :
    top (blocks.dropWhile (w < ·)) = w ↔ w ∈ blocks ++ [0] := by
  have hmem := top_mem (blocks.dropWhile (w < ·))
  rw [h.dropWhile_append_zero, List.mem_filter, decide_eq_true_eq] at hmem
  constructor
  · intro hw
    rw [← hw]; exact hmem.1
  · intro hw
    have hw' : w ∈ blocks.dropWhile (w < ·) ++ [0] := by
      rw [h.dropWhile_append_zero]; simpa using hw
    exact Nat.le_antisymm hmem.2 ((h.dropWhile w).le_top hw')

theorem Nested.enter?_eq_some_iff {blocks kept : Blocks} {w : Nat} (h : blocks.Nested)
    (hw : ¬ blocks.top < w) :
    blocks.enter? w = some kept ↔ w ∈ blocks ++ [0] ∧ kept = blocks.dropWhile (w < ·) := by
  simp only [enter?, hw, if_false, h.top_dropWhile_eq_iff w]
  split
  · next hm => simp only [Option.some.injEq, hm, true_and]; exact eq_comm
  · next hm => simp [hm]

theorem Nested.enter?_eq_none_iff {blocks : Blocks} {w : Nat} (h : blocks.Nested) :
    blocks.enter? w = none ↔ w < blocks.top ∧ w ∉ blocks ++ [0] := by
  by_cases hw : blocks.top < w
  · rw [enter?_of_top_lt hw]
    simp only [reduceCtorEq, false_iff, not_and]; omega
  · simp only [enter?, hw, if_false, h.top_dropWhile_eq_iff w]
    split
    · next hm => simp [hm]
    · next hm =>
      simp only [hm, not_false_eq_true, and_true, true_iff]
      rcases Nat.lt_or_ge w blocks.top with hlt | hge
      · exact hlt
      · have htop : w = blocks.top := by omega
        exact absurd (htop ▸ blocks.top_mem) hm

/-! ## Blocks and the widths of lines -/

/-- The open blocks after lines of the widths `ws`: the suffix minima, innermost the last width. -/
structure Tracks (ws : List Nat) (blocks : Blocks) : Prop where
  nested : blocks.Nested
  mem : ∀ m, m ∈ blocks ++ [0] ↔ m ∈ suffixMinima ws
  last : ws.getLastD 0 = blocks.top

theorem tracks_start : Tracks [0] [] where
  nested := by simp [Nested]
  mem := by intro m; simp [suffixMinima, minFrom]
  last := rfl

namespace Tracks

variable {ws : List Nat} {blocks kept : Blocks} {w : Nat}

theorem nodup (h : Tracks ws blocks) : (blocks ++ [0]).Nodup :=
  h.nested.imp fun hab => Nat.ne_of_gt hab

theorem toFinset_eq (h : Tracks ws blocks) : (blocks ++ [0]).toFinset = suffixMinima ws := by
  ext m
  rw [List.mem_toFinset, h.mem]

theorem stack_eq (h : Tracks ws blocks) : blocks.stack = (suffixMinima ws).sort := by
  have hrev : blocks.stack = (blocks ++ [0]).reverse := by simp [stack]
  have hsort : blocks.stack.Pairwise (· ≤ ·) := by
    rw [hrev, List.pairwise_reverse]
    exact h.nested.imp fun hab => Nat.le_of_lt hab
  have hnodup : blocks.stack.Nodup := by rw [hrev, List.nodup_reverse]; exact h.nodup
  have hset : blocks.stack.toFinset = suffixMinima ws := by
    rw [hrev, List.toFinset_reverse, h.toFinset_eq]
  rw [← hset]
  exact ((List.toFinset_sort (· ≤ ·) hnodup).2 hsort).symm

theorem getLast?_stack (blocks : Blocks) : blocks.stack.getLast? = some blocks.top := by
  cases blocks with
  | nil => rfl
  | cons b bs =>
    rw [stack, List.reverse_cons, ← List.cons_append, List.getLast?_concat]; rfl

/-- A line fails exactly if it is narrower than the line before and not one of the minima. -/
theorem enter?_eq_none_iff (h : Tracks ws blocks) :
    blocks.enter? w = none ↔ w < ws.getLastD 0 ∧ w ∉ suffixMinima ws := by
  rw [h.nested.enter?_eq_none_iff, h.last, h.mem]

/-- A line that is accepted leaves the suffix minima of all widths, its own included. -/
theorem enter (h : Tracks ws blocks) (hk : blocks.enter? w = some kept) :
    Tracks (ws ++ [w]) kept := by
  by_cases hw : blocks.top < w
  · rw [enter?_of_top_lt hw] at hk
    cases hk
    refine ⟨?_, ?_, ?_⟩
    · refine List.pairwise_cons.2 ⟨?_, h.nested⟩
      intro m hm
      have := h.nested.le_top hm
      omega
    · intro m
      have hlt : m ∈ blocks ++ [0] → m < w := by
        intro hm
        have := h.nested.le_top hm
        omega
      rw [mem_suffixMinima_snoc, ← h.mem, List.cons_append, List.mem_cons]
      exact or_congr_right ⟨fun hm => ⟨hm, hlt hm⟩, fun hm => hm.1⟩
    · simp [top]
  · obtain ⟨hmem, rfl⟩ := (h.nested.enter?_eq_some_iff hw).1 hk
    refine ⟨h.nested.dropWhile w, ?_, ?_⟩
    · intro m
      rw [mem_suffixMinima_snoc, ← h.mem, h.nested.dropWhile_append_zero, List.mem_filter,
        decide_eq_true_eq]
      constructor
      · intro hm
        rcases Nat.lt_or_eq_of_le hm.2 with hlt | heq
        · exact Or.inr ⟨hm.1, hlt⟩
        · exact Or.inl heq
      · intro hm
        rcases hm with rfl | ⟨hm, hlt⟩
        · exact ⟨hmem, Nat.le_refl m⟩
        · exact ⟨hm, Nat.le_of_lt hlt⟩
    · rw [(h.nested.top_dropWhile_eq_iff w).2 hmem]; simp

/-- As many blocks close as there are minima greater than the width of the line. -/
theorem length_eq (h : Tracks ws blocks) (hw : ¬ blocks.top < w)
    (hk : blocks.enter? w = some kept) :
    blocks.length = kept.length + ((suffixMinima ws).filter (w < ·)).card := by
  obtain ⟨-, rfl⟩ := (h.nested.enter?_eq_some_iff hw).1 hk
  have hset : ((blocks ++ [0]).filter (w < ·)).toFinset = (suffixMinima ws).filter (w < ·) := by
    ext m
    simp only [List.mem_toFinset, List.mem_filter, h.mem, Finset.mem_filter, decide_eq_true_eq]
  have hcard := List.toFinset_card_of_nodup (h.nodup.filter fun m => decide (w < m))
  rw [hset] at hcard
  have hsplit := List.length_eq_length_filter_add (l := blocks ++ [0]) (fun m => decide (m ≤ w))
  have hneg : (blocks ++ [0]).filter (fun m => !decide (m ≤ w)) =
      (blocks ++ [0]).filter (w < ·) :=
    List.filter_congr fun m _ => by rw [Bool.eq_iff_iff]; simp
  have hkept := congrArg List.length (h.nested.dropWhile_append_zero w)
  rw [hneg] at hsplit
  simp only [List.length_append, List.length_singleton] at hsplit hkept
  omega

end Tracks

end Blocks

namespace Lexer

/-! ## The open blocks of a run -/

/-- The widths of the open blocks, outermost first. -/
def stack (l : Lexer) : List Nat := l.blocks.stack

/-- 0 and the widths of the lines that the calls in the states `visited` measured. -/
def widths (visited : List Lexer) : List Nat :=
  0 :: visited.filterMap fun m => m.measured?.map Line.width

theorem widths_snoc_some {visited : List Lexer} {m : Lexer} {line : Line}
    (h : m.measured? = some line) : widths (visited ++ [m]) = widths visited ++ [line.width] := by
  simp [widths, h]

theorem widths_snoc_none {visited : List Lexer} {m : Lexer} (h : m.measured? = none) :
    widths (visited ++ [m]) = widths visited := by
  simp [widths, h]

/-- Has the end of the text closed all blocks, with the end of input still queued? -/
def Unwound (l : Lexer) : Prop := ∃ t ∈ l.pending, t.content = .endOfInput

theorem not_unwound_of_pending {l : Lexer} (h : l.pending = []) : ¬ l.Unwound := by
  intro hu
  obtain ⟨t, ht, -⟩ := hu
  rw [h] at ht; cases ht

/-- The call at `m` after lines of the widths of `visited` keeps the blocks in step with them. -/
theorem Move.tracks {visited : List Lexer} {m : Lexer} {s : Step} (h : Move m s)
    (hm : m.Live) (hok : ∃ t, s.result = .ok t ∧ t.content ≠ .endOfInput)
    (ht : m.Unwound ∨ Blocks.Tracks (widths visited) m.blocks) :
    s.lexer.Unwound ∨ Blocks.Tracks (widths (visited ++ [m])) s.lexer.blocks := by
  obtain ⟨t, hresult, hne⟩ := hok
  have htracks : m.pending = [] → Blocks.Tracks (widths visited) m.blocks := fun hq =>
    ht.resolve_left (not_unwound_of_pending hq)
  cases h with
  | dequeue hq =>
    cases hresult
    rw [widths_snoc_none (measured?_of_pending hq)]
    rcases ht with ⟨u, hu, hend⟩ | ht
    · left
      rw [hq] at hu
      rcases List.mem_cons.1 hu with rfl | hu
      · exact absurd hend hne
      · exact ⟨u, hu, hend⟩
    · exact Or.inr ht
  | indent hq hs hl hw =>
    rw [widths_snoc_some (by rw [measured?_of_lineStart hm hq hs, hl])]
    exact Or.inr ((htracks hq).enter (Blocks.enter?_of_top_lt hw))
  | dedent hq hs hl _ hk =>
    rw [widths_snoc_some (by rw [measured?_of_lineStart hm hq hs, hl])]
    exact Or.inr ((htracks hq).enter hk)
  | newline hq hs =>
    rw [widths_snoc_none (measured?_of_inLine hs)]
    exact Or.inr (htracks hq)
  | token hq hs =>
    right
    cases hstart : m.atLineStart with
    | false =>
      rw [widths_snoc_none (measured?_of_inLine hstart)]; exact htracks hq
    | true =>
      -- A line as wide as the innermost block enters it again.
      obtain ⟨line, hl, hw⟩ := Option.map_eq_some_iff.1 (hs hstart)
      rw [widths_snoc_some (by rw [measured?_of_lineStart hm hq hstart, hl]), hw]
      exact (htracks hq).enter (Blocks.enter?_top m.blocks)
  | unwind => exact Or.inl ⟨m.endToken, by simp, rfl⟩
  | badIndent | fail => cases hresult
  | finish => cases hresult; exact absurd rfl hne

theorem Run.tracks {source : Source} {config : Config} {visited : List Lexer} {l : Lexer}
    (h : Run (start source config) visited l) (hl : l.phase = .scanning) :
    l.Unwound ∨ Blocks.Tracks (widths visited) l.blocks := by
  induction h with
  | nil => exact Or.inr Blocks.tracks_start
  | snoc _ hm ih =>
    have hok := (phase_nextToken hm.1).1 hl
    obtain ⟨s, hmove, hresult, hlexer⟩ := exists_move hm.1
    rw [hresult] at hok
    rw [hlexer]; exact hmove.tracks hm hok (ih hm.1)

theorem Run.tracks_of_measured {source : Source} {config : Config} {visited : List Lexer}
    {l : Lexer} {line : Line} (h : Run (start source config) visited l)
    (hline : l.measured? = some line) : Blocks.Tracks (widths visited) l.blocks := by
  obtain ⟨hl, hq, -⟩ := measured?_eq_some.1 hline
  exact (h.tracks hl.1).resolve_left (not_unwound_of_pending hq)

/-! ## The lines of a run -/

/-- A line of the source that holds a token: where it starts, and the width of the blanks before its
first token, as it is measured and as columns. -/
def IsLine (source : Source) (config : Config) (line : Line) : Prop :=
  ∃ before indentation c rest, source.chars = before ++ indentation ++ c :: rest ∧
    AtBreak before ∧ '\n' ∉ indentation ∧ (∀ x ∈ indentation, isBlank x = true) ∧
    beginsToken config.comments c = true ∧ line.start = byteLength before ∧
    (config.width? indentation).map UInt64.toNat = some line.width ∧
    line.width = config.columns indentation

/-- What is measured is a line of the source, outside brackets if these join lines. -/
theorem Run.isLine {source : Source} {config : Config} {visited : List Lexer} {l : Lexer}
    {line : Line} (h : Run (start source config) visited l) (hline : l.measured? = some line) :
    IsLine source config line ∧ (config.joinsLines && 0 < l.depth) = false := by
  obtain ⟨hlive, hq, hs, hl⟩ := measured?_eq_some.1 hline
  obtain ⟨before, hat, hbreak, hdepth⟩ := h.lineStart hs
  obtain ⟨lead, indentation, c, cs, hskip, hlead, hfeed, hblank, hr, hc, rfl⟩ :=
    nextLine?_spec hs hl
  have hfits := hlive.fits hq hs hskip hlead hfeed hblank
  have hconfig : l.config = config := h.config
  rw [hconfig] at hc hdepth hfits
  have htext := (settled_cursorAt hat).text
  refine ⟨⟨before ++ lead, indentation, c, cs, ?_, hlead.append hbreak, hfeed, hblank, hc, ?_, ?_,
    ?_⟩, hdepth⟩
  · rw [htext, hskip, hr]; simp
  · rw [hat.offset, byteLength_append]
  · rw [hconfig]; exact Config.width?_of_fits hfits
  · rw [hconfig]

/-- The steps of `l` give the tokens `marks`, then a visible token or an error, and up to there the
stack is `stack`. -/
def LineSteps (l : Lexer) (marks : List Token) (stack : List Nat) : Prop :=
  ∃ front s more, l.steps = front ++ s :: more ∧
    front.map Step.result = marks.map (fun t => .ok t) ∧
    (∀ t, s.result = .ok t → t.content.isVisible = true) ∧
    ∀ x ∈ front ++ [s], x.lexer.stack = stack

theorem LineSteps.nil {l : Lexer} {stack : List Nat} (hl : l.Live)
    (hvisible : ∀ t, l.nextToken.result = .ok t → t.content.isVisible = true)
    (hstack : l.nextToken.lexer.stack = stack) : LineSteps l [] stack := by
  refine ⟨[], l.nextToken, _, steps_of_live hl, rfl, hvisible, ?_⟩
  intro x hx
  rw [List.mem_singleton.1 hx]; exact hstack

theorem LineSteps.cons {l : Lexer} {t : Token} {marks : List Token} {stack : List Nat}
    (hl : l.Live) (ht : l.nextToken.result = .ok t)
    (hstack : l.nextToken.lexer.stack = stack) (h : LineSteps l.nextToken.lexer marks stack) :
    LineSteps l (t :: marks) stack := by
  obtain ⟨front, s, more, hsteps, hfront, hvisible, hstacks⟩ := h
  refine ⟨l.nextToken :: front, s, more, ?_, ?_, hvisible, ?_⟩
  · rw [steps_of_live hl, hsteps]; rfl
  · rw [List.map_cons, ht, hfront]; rfl
  · intro x hx
    rcases List.mem_cons.1 hx with rfl | hx
    · exact hstack
    · exact hstacks x hx

/-- Where a token begins and dedents are queued, these come first and then that token or an
error. -/
theorem lineSteps_of_queue {l : Lexer} {n : Nat} {d : Token} {c : Char} {cs : List Char}
    (hl : l.phase = .scanning) (hs : l.atLineStart = false) (hq : l.pending = List.replicate n d)
    (hd : d.content = .dedent) (hr : l.cursor.rest = c :: cs)
    (hc : beginsToken l.config.comments c = true) :
    LineSteps l (List.replicate n d) l.stack := by
  induction n generalizing l with
  | zero =>
    obtain ⟨s, hmove, hresult, hlexer⟩ := exists_move hl
    rw [← settled_of_beginsToken hr hc] at hr
    have hread : (∀ t, s.result = .ok t → t.content.isVisible = true) ∧
        s.lexer.blocks = l.blocks := by
      cases hmove with
      | dequeue hq' => rw [hq] at hq'; cases hq'
      | indent _ hs' | dedent _ hs' | badIndent _ hs' => rw [hs] at hs'; cases hs'
      | newline _ _ hr' =>
        rw [hr] at hr'
        cases hr'
        exact absurd rfl (ne_lineFeed_of_beginsToken hc)
      | token _ _ _ _ hok =>
        refine ⟨?_, rfl⟩
        intro t ht
        cases ht
        exact (Lexeme.read_spells hok).isVisible
      | fail => exact ⟨nofun, rfl⟩
      | unwind _ hr' | finish _ hr' => rw [hr] at hr'; cases hr'
    refine LineSteps.nil ⟨hl, overflows_of_inLine hs⟩ (by rw [hresult]; exact hread.1) ?_
    rw [hlexer]
    show s.lexer.blocks.stack = l.blocks.stack
    rw [hread.2]
  | succ n ih =>
    obtain ⟨s, hmove, hresult, hlexer⟩ := exists_move hl
    cases hmove with
    | @dequeue t queue hq' =>
      rw [hq, List.replicate_succ, List.cons.injEq] at hq'
      obtain ⟨rfl, rfl⟩ := hq'
      have hscan : l.nextToken.lexer.phase = .scanning :=
        (phase_nextToken hl).2 ⟨d, hresult, by rw [hd]; simp⟩
      have hrest : LineSteps l.nextToken.lexer (List.replicate n d) l.stack := by
        rw [hlexer] at hscan ⊢
        exact ih hscan hs rfl hr hc
      exact hrest.cons ⟨hl, overflows_of_inLine hs⟩ hresult (by rw [hlexer]; rfl)
    | indent hq' | dedent hq' | badIndent hq' | newline hq' | token hq' | fail hq' | unwind hq'
    | finish hq' => rw [hq] at hq'; cases hq'

/-- The first mark of a line, with the others queued. -/
theorem lineSteps_of_mark {l m : Lexer} {n : Nat} {t d : Token} {c : Char} {cs : List Char}
    (hl : l.Live) (ht : l.nextToken.result = .ok t) (hne : t.content ≠ .endOfInput)
    (hm : l.nextToken.lexer = m) (hs : m.atLineStart = false) (hq : m.pending = List.replicate n d)
    (hd : d.content = .dedent) (hr : m.cursor.rest = c :: cs)
    (hc : beginsToken m.config.comments c = true) :
    LineSteps l (t :: List.replicate n d) m.stack := by
  subst hm
  have hscan := (phase_nextToken hl.1).2 ⟨t, ht, hne⟩
  exact (lineSteps_of_queue hscan hs hq hd hr hc).cons hl ht rfl

/-- The line lines up with no block that lines of the widths `ws` have left open. -/
def Misaligned (ws : List Nat) (w : Nat) : Prop := w < ws.getLastD 0 ∧ w ∉ suffixMinima ws

instance (ws : List Nat) (w : Nat) : Decidable (Misaligned ws w) :=
  inferInstanceAs (Decidable (_ ∧ _))

/-- The layout tokens of a line of width `w` after lines of the widths `ws`. -/
def lineMarks (ws : List Nat) (w : Nat) : List Token.Content :=
  if ws.getLastD 0 < w then [.indent]
  else if w = ws.getLastD 0 then []
  else List.replicate ((suffixMinima ws).filter (w < ·)).card .dedent

section

variable {ws : List Nat} {l : Lexer} {line : Line}

theorem steps_of_misaligned (ht : Blocks.Tracks ws l.blocks) (hline : l.measured? = some line)
    (hbad : Misaligned ws line.width) :
    l.steps = [l.nextToken] ∧ l.nextToken.lexer.stack = l.stack ∧
      l.nextToken.result = .error ⟨.badIndent line.width, l.source.origin line.start⟩ := by
  obtain ⟨hl, hq, hs, hnext⟩ := measured?_eq_some.1 hline
  have hnone := ht.enter?_eq_none_iff.2 hbad
  obtain ⟨-, -, c, cs, -, -, -, -, hr, -⟩ := nextLine?_spec hs hnext
  obtain ⟨s, hmove, hresult, hlexer⟩ := exists_move hl.1
  have hbad : Move l s → s.result = .error ⟨.badIndent line.width, l.source.origin line.start⟩ ∧
      s.lexer.blocks = l.blocks := by
    intro hmove
    cases hmove with
    | badIndent _ _ hl' => rw [hnext] at hl'; cases hl'; exact ⟨rfl, rfl⟩
    | dequeue hq' => rw [hq] at hq'; cases hq'
    | indent _ _ hl' hw =>
      rw [hnext] at hl'
      cases hl'
      rw [Blocks.enter?_of_top_lt hw] at hnone; cases hnone
    | dedent _ _ hl' _ hk =>
      rw [hnext] at hl'
      cases hl'
      rw [hnone] at hk; cases hk
    | newline _ hs' => rw [hs] at hs'; cases hs'
    | token _ hs' | fail _ hs' =>
      have hw := hs' hs
      rw [hnext, Option.map_some, Option.some.injEq] at hw
      rw [hw, Blocks.enter?_top] at hnone; cases hnone
    | unwind _ hr' | finish _ hr' => rw [hr] at hr'; cases hr'
  obtain ⟨herr, hblocks⟩ := hbad hmove
  rw [← hresult] at herr
  refine ⟨?_, ?_, herr⟩
  · rw [steps_of_live hl, steps_of_not_live]
    refine not_live_of_ended fun hscan => ?_
    obtain ⟨t, ht, -⟩ := (phase_nextToken hl.1).1 hscan
    rw [herr] at ht; cases ht
  · rw [hlexer]
    show s.lexer.blocks.stack = l.blocks.stack
    rw [hblocks]

theorem lineMarks_of_same (ht : Blocks.Tracks ws l.blocks) (hnext : l.nextLine? = some line)
    (hw : l.nextLine?.map Line.width = some l.blocks.top) :
    lineMarks ws line.width = [] ∧ Blocks.Tracks (ws ++ [line.width]) l.blocks := by
  rw [hnext, Option.map_some, Option.some.injEq] at hw
  refine ⟨?_, ?_⟩
  · rw [lineMarks, ht.last, hw, if_neg (Nat.lt_irrefl _), if_pos rfl]
  · rw [hw]; exact ht.enter (Blocks.enter?_top l.blocks)

/-- The steps of a line that is accepted: its marks, then a visible token or an error. -/
theorem lineSteps_of_aligned (ht : Blocks.Tracks ws l.blocks) (hline : l.measured? = some line)
    (hok : ¬ Misaligned ws line.width) :
    LineSteps l
      ((lineMarks ws line.width).map fun mark => ⟨mark, l.source.origin line.start⟩)
      (suffixMinima (ws ++ [line.width])).sort := by
  obtain ⟨hl, hq, hs, hnext⟩ := measured?_eq_some.1 hline
  obtain ⟨-, -, c, cs, -, -, -, -, hr, hc, -⟩ := nextLine?_spec hs hnext
  obtain ⟨s, hmove, hresult, hlexer⟩ := exists_move hl.1
  cases hmove with
  | dequeue hq' => rw [hq] at hq'; cases hq'
  | newline _ hs' => rw [hs] at hs'; cases hs'
  | unwind _ hr' | finish _ hr' => rw [hr] at hr'; cases hr'
  | badIndent _ _ hl' hk =>
    rw [hnext] at hl'
    cases hl'
    exact absurd (ht.enter?_eq_none_iff.1 hk) hok
  | indent _ _ hl' hw =>
    rw [hnext] at hl'
    cases hl'
    have hnew := ht.enter (Blocks.enter?_of_top_lt hw)
    have hmarks : lineMarks ws line.width = [.indent] := by
      rw [lineMarks, ht.last, if_pos hw]
    rw [hmarks, ← hnew.stack_eq]
    exact lineSteps_of_mark (n := 0) (d := ⟨.dedent, l.source.origin line.start⟩) hl hresult
      (by simp) hlexer rfl hq rfl hr hc
  | @dedent _ kept n _ _ hl' hw hk hn =>
    rw [hnext] at hl'
    cases hl'
    have hnew := ht.enter hk
    have hcount := ht.length_eq (Nat.lt_asymm hw) hk
    have hmarks : lineMarks ws line.width = List.replicate (n + 1) .dedent := by
      rw [lineMarks, ht.last, if_neg (Nat.lt_asymm hw), if_neg (Nat.ne_of_lt hw)]
      congr 1; omega
    rw [hmarks, ← hnew.stack_eq, List.map_replicate, List.replicate_succ]
    exact lineSteps_of_mark hl hresult (by simp) hlexer rfl rfl rfl hr hc
  | token _ hs' _ _ hread =>
    obtain ⟨hmarks, hnew⟩ := lineMarks_of_same ht hnext (hs' hs)
    rw [hmarks, ← hnew.stack_eq]
    refine LineSteps.nil hl ?_ (by rw [hlexer]; rfl)
    intro t ht
    rw [hresult] at ht
    cases ht
    exact (Lexeme.read_spells hread).isVisible
  | fail _ hs' =>
    obtain ⟨hmarks, hnew⟩ := lineMarks_of_same ht hnext (hs' hs)
    rw [hmarks, ← hnew.stack_eq]
    refine LineSteps.nil hl ?_ (by rw [hlexer]; rfl)
    intro t ht
    rw [hresult] at ht; cases ht

end

/-- **The off-side rule.** Take any run and let `widths visited` be 0 and the widths of the lines
measured so far. If the next call measures a line, the stack is the sorted list of the suffix minima
of these widths. An accepted line returns its marks and then a visible token or an error, and the
stack is that of the widths with its own added. A misaligned line ends the run at once and leaves
the stack alone. No other call fails for its indentation. -/
theorem offside_rule {source : Source} {config : Config} {visited : List Lexer} {l : Lexer}
    (h : Run (start source config) visited l) :
    (∀ line, l.measured? = some line →
      IsLine source config line ∧ (config.joinsLines && 0 < l.depth) = false ∧
      l.stack = (suffixMinima (widths visited)).sort ∧
      l.stack.getLast? = (widths visited).getLast? ∧
      (Misaligned (widths visited) line.width →
        l.steps = [l.nextToken] ∧ l.nextToken.lexer.stack = l.stack) ∧
      (¬ Misaligned (widths visited) line.width →
        LineSteps l
          ((lineMarks (widths visited) line.width).map fun mark => ⟨mark, ⟨source, line.start⟩⟩)
          (suffixMinima (widths visited ++ [line.width])).sort)) ∧
    ∀ width origin,
      (l.Live ∧ l.nextToken.result = .error ⟨.badIndent width, origin⟩) ↔
        ∃ line, l.measured? = some line ∧ line.width = width ∧ origin = ⟨source, line.start⟩ ∧
          Misaligned (widths visited) width := by
  have horigin : ∀ line, l.measured? = some line →
      l.source.origin line.start = ⟨source, line.start⟩ := by
    intro line hline
    obtain ⟨⟨before, indentation, c, rest, htext, -, -, -, -, hstart, -⟩, -⟩ := h.isLine hline
    have hsource : l.source = source := h.source
    rw [hsource, hstart]
    exact Source.origin_of_boundary ⟨indentation ++ c :: rest, by rw [htext]; simp⟩
  constructor
  · intro line hline
    have ht := h.tracks_of_measured hline
    obtain ⟨hisLine, hdepth⟩ := h.isLine hline
    refine ⟨hisLine, hdepth, ht.stack_eq, ?_, ?_, ?_⟩
    · rw [stack, Blocks.Tracks.getLast?_stack, ← ht.last, widths, List.getLastD_eq_getLast?,
        List.getLast?_cons]
      rfl
    · intro hbad
      obtain ⟨hsteps, hstack, -⟩ := steps_of_misaligned ht hline hbad
      exact ⟨hsteps, hstack⟩
    · intro hok
      rw [← horigin line hline]
      exact lineSteps_of_aligned ht hline hok
  · intro width origin
    constructor
    · intro hfail
      obtain ⟨hl, herr⟩ := hfail
      obtain ⟨s, hmove, hresult, -⟩ := exists_move hl.1
      rw [hresult] at herr
      cases hmove with
      | @badIndent line hq hs hnext hk =>
        cases herr
        have hline : l.measured? = some line := measured?_eq_some.2 ⟨hl, hq, hs, hnext⟩
        exact ⟨line, hline, rfl, horigin line hline,
          (h.tracks_of_measured hline).enter?_eq_none_iff.1 hk⟩
      | fail _ _ _ _ hread =>
        cases herr
        rcases Lexeme.read_error hread with hc | hc <;> cases hc
      | dequeue | indent | dedent | newline | token | unwind | finish => cases herr
    · intro hline
      obtain ⟨line, hline, rfl, rfl, hbad⟩ := hline
      obtain ⟨-, -, herr⟩ := steps_of_misaligned (h.tracks_of_measured hline) hline hbad
      rw [horigin line hline] at herr
      exact ⟨(measured?_eq_some.1 hline).1, herr⟩

/-- The third line closes a block to a width between the two that are open. -/
def raggedSample : Source := ⟨"sample", "a\n  b\n c"⟩

theorem offside_rule_raggedSample :
    ∃ visited l, Run (start raggedSample {}) visited l ∧ widths visited = [0, 0, 2] ∧
      l.stack = (suffixMinima [0, 0, 2]).sort ∧
      l.nextToken.result = .error ⟨.badIndent 1, ⟨raggedSample, 6⟩⟩ := by
  have hrun := (((((Run.nil (l := start raggedSample {})).snoc (by decide)).snoc (by decide)).snoc
    (by decide)).snoc (by decide)).snoc (by decide)
  refine ⟨_, _, hrun, by decide, ?_, ?_⟩
  · exact ((offside_rule hrun).1 ⟨6, 1⟩ (by decide)).2.2.1
  · exact (((offside_rule hrun).2 1 ⟨raggedSample, 6⟩).2 ⟨⟨6, 1⟩, by decide, rfl, rfl, by decide⟩).2

end Lexer

end Offside
