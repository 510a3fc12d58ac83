import Offside.Lexer.Run
import Offside.Proofs.Lexer.Gap

/-!
# What one call can do

`Move l s` lists the ways in which a scanning lexer `l` can answer a call, each with its conditions,
what it returns and logs, and the lexer it leaves. Invariants are proved by going through the list
and never open the scanner itself.

Results:
* `Lexer.pull_move`: whatever a call gives is a move.
* `Lexer.Move.pull_eq`: conversely, a move is what the call gives.
* `Lexer.settled_spec`: what a call skips is a gap, and where it stops.
* `Lexer.nextLine?_spec`: the line that is measured at a line start, in terms of the text.
-/

namespace Offside

open Text

@[simp] theorem Cursor.advance_nil (cursor : Cursor) : cursor.advance [] = cursor := rfl

theorem Cursor.rest_advance {cursor : Cursor} {text rest : List Char}
    (h : cursor.rest = text ++ rest) : (cursor.advance text).rest = rest := by
  simp [Cursor.advance, h]

namespace Lexer

/-! ## Skipping -/

/-- Does the next scan skip line feeds? -/
def skipsLines (l : Lexer) : Bool := l.atLineStart || (l.config.joinsLines && 0 < l.depth)

/-- What the next scan skips. -/
def skipped (l : Lexer) : List Char := gap l.skipsLines l.config.comments l.cursor.rest

/-- The lexer where its next scan reads. -/
def settled (l : Lexer) : Lexer :=
  { l with cursor := l.cursor.advance l.skipped, atLineStart := false }

theorem settled_spec (l : Lexer) :
    l.cursor.rest = l.skipped ++ l.settled.cursor.rest ∧
      IsGap l.config.comments l.skipped l.settled.cursor.rest ∧
      GapStops l.skipsLines l.config.comments l.settled.cursor.rest := by
  obtain ⟨rest, hrest, hgap, hstop⟩ := gap_spec l.skipsLines l.config.comments l.cursor.rest
  have hsettled : l.settled.cursor.rest = rest := Cursor.rest_advance hrest
  rw [hsettled]
  exact ⟨hrest, hgap, hstop⟩

theorem settled_of_lineStart {l : Lexer} (h : l.atLineStart = true) : l.settled = l.atNextLine := by
  simp [settled, atNextLine, skipped, skipsLines, leading, h]

theorem settled_of_inLine {l : Lexer} (h : l.atLineStart = false) : l.settled = l.skipGap := by
  simp [settled, skipGap, skipped, skipsLines, h]

theorem settled_of_beginsToken {l : Lexer} {c : Char} {cs : List Char}
    (hr : l.cursor.rest = c :: cs) (hc : beginsToken l.config.comments c = true) :
    l.settled.cursor = l.cursor := by
  have hskip : l.skipped = [] := by unfold skipped; rw [hr]; exact gap_of_beginsToken hc
  show l.cursor.advance l.skipped = l.cursor
  rw [hskip, Cursor.advance_nil]

theorem settled_lineStart {l : Lexer} (h : l.atLineStart = true) :
    l.settled.cursor.rest = [] ∨
      ∃ c cs, l.settled.cursor.rest = c :: cs ∧ beginsToken l.config.comments c = true := by
  obtain ⟨-, -, hstop⟩ := l.settled_spec
  rcases hstop with hnil | ⟨c, cs, hcs, ⟨-, hj⟩ | hc⟩
  · exact Or.inl hnil
  · simp [skipsLines, h] at hj
  · exact Or.inr ⟨c, cs, hcs, hc⟩

/-- Where the scan reads there is nothing more to skip. -/
theorem skipGap_settled {l : Lexer} (h : l.atLineStart = true) : l.settled.skipGap = l.settled := by
  have hgap : gap (l.settled.config.joinsLines && 0 < l.settled.depth) l.settled.config.comments
      l.settled.cursor.rest = [] := by
    rcases settled_lineStart h with hnil | ⟨c, cs, hcs, hc⟩
    · rw [hnil]; rfl
    · rw [hcs]; exact gap_of_beginsToken hc
  unfold skipGap
  rw [hgap]; rfl

theorem leading_eq_skipped {l : Lexer} (hs : l.atLineStart = true) : l.leading = l.skipped := by
  simp [skipped, skipsLines, leading, hs]

theorem overflows_eq_true {l : Lexer} :
    l.overflows = true ↔ l.phase = .scanning ∧ l.pending = [] ∧ l.atLineStart = true ∧
      ∃ line ∈ l.skipped.splitOn '\n', UInt64.size ≤ l.config.columns (indentation line) := by
  simp only [overflows, indentations, Bool.and_eq_true, decide_eq_true_eq, List.isEmpty_iff,
    List.any_map, List.any_eq_true, Function.comp_apply, Option.isNone_iff_eq_none,
    Config.width?_eq_none_iff, and_assoc]
  refine and_congr_right fun _ => and_congr_right fun _ => and_congr_right fun hs => ?_
  rw [leading_eq_skipped hs]

theorem overflows_of_pending {l : Lexer} {t : Token} {queue : List Token}
    (hq : l.pending = t :: queue) : l.overflows = false := by
  simp [overflows, hq]

theorem overflows_of_inLine {l : Lexer} (hs : l.atLineStart = false) : l.overflows = false := by
  simp [overflows, hs]

/-- Where a token starts a line there is nothing to measure. -/
theorem overflows_of_skipped {l : Lexer} (h : l.skipped = []) : l.overflows = false := by
  cases hs : l.atLineStart with
  | false => exact overflows_of_inLine hs
  | true =>
    have hwidth : (l.config.width? []).isNone = false := rfl
    simp [overflows, indentations, leading_eq_skipped hs, h, indentation, hwidth]

theorem overflows_of_ended {l : Lexer} (h : l.phase ≠ .scanning) : l.overflows = false := by
  simp [overflows, h]

/-- The line whose indentation the next call compares with the blocks, if it gets to one. -/
def measured? (l : Lexer) : Option Line :=
  if l.Live ∧ l.pending = [] ∧ l.atLineStart = true then l.nextLine? else none

theorem measured?_eq_some {l : Lexer} {line : Line} :
    l.measured? = some line ↔ l.Live ∧ l.pending = [] ∧ l.atLineStart = true ∧
      l.nextLine? = some line := by
  unfold measured?
  split
  · next h => simp [h]
  · next h =>
    simp only [reduceCtorEq, false_iff]
    rintro ⟨h1, h2, h3, -⟩
    exact h ⟨h1, h2, h3⟩

theorem measured?_of_pending {l : Lexer} {t : Token} {queue : List Token}
    (hq : l.pending = t :: queue) : l.measured? = none := by
  simp [measured?, hq]

theorem measured?_of_inLine {l : Lexer} (hs : l.atLineStart = false) : l.measured? = none := by
  simp [measured?, hs]

theorem measured?_of_lineStart {l : Lexer} (hl : l.Live) (hq : l.pending = [])
    (hs : l.atLineStart = true) : l.measured? = l.nextLine? := by
  simp [measured?, hl, hq, hs]

/-- The text of a line that is measured: the skipped text ends with its indentation, which starts a
line and is blank, and a token follows. -/
theorem nextLine?_spec {l : Lexer} {line : Line} (hs : l.atLineStart = true)
    (h : l.nextLine? = some line) :
    ∃ lead indentation c cs, l.skipped = lead ++ indentation ∧ AtBreak lead ∧
      '\n' ∉ indentation ∧ (∀ x ∈ indentation, isBlank x = true) ∧
      l.settled.cursor.rest = c :: cs ∧ beginsToken l.config.comments c = true ∧
      line = ⟨l.cursor.offset + byteLength lead, l.config.columns indentation⟩ := by
  have hskip := leading_eq_skipped hs
  obtain ⟨-, hgap, -⟩ := l.settled_spec
  obtain ⟨lead, hlead, hbreak, hlast⟩ := exists_lastLine l.skipped
  rcases settled_lineStart hs with hnil | ⟨c, cs, hcs, hc⟩
  · rw [settled_of_lineStart hs] at hnil
    simp [nextLine?, show (l.cursor.advance l.leading).rest = [] from hnil] at h
  · have hne : (l.cursor.advance l.leading).rest.isEmpty = false := by
      rw [settled_of_lineStart hs] at hcs
      rw [show (l.cursor.advance l.leading).rest = c :: cs from hcs]; rfl
    rw [hcs, hlead] at hgap
    refine ⟨lead, lastLine l.skipped, c, cs, hlead, hbreak, hlast, ?_, hcs, hc, ?_⟩
    · exact (hgap.split hbreak).2.isBlank_of_notMem (ne_lineFeed_of_beginsToken hc) hlast
    · simp only [nextLine?, hne, Bool.false_eq_true, if_false, Option.some.injEq] at h
      have hoffset : l.cursor.offset + byteLength l.skipped - byteLength (lastLine l.skipped) =
          l.cursor.offset + byteLength lead := by
        have := congrArg byteLength hlead
        rw [byteLength_append] at this; omega
      rw [← h, hskip, ← hoffset]; rfl

/-- A call that returns has measured every line that it skipped. -/
theorem Live.fits_of_mem {l : Lexer} (hl : l.Live) (hq : l.pending = [])
    (hs : l.atLineStart = true) {line : List Char} (h : line ∈ l.skipped.splitOn '\n') :
    l.config.columns (indentation line) < UInt64.size := by
  have hover := hl.2
  rw [← Bool.not_eq_true, overflows_eq_true] at hover
  by_contra hle
  exact hover ⟨hl.1, hq, hs, line, h, Nat.le_of_not_lt hle⟩

/-- The indentation of the line that a call compares with the blocks has been measured. -/
theorem Live.fits {l : Lexer} (hl : l.Live) (hq : l.pending = []) (hs : l.atLineStart = true)
    {lead blanks : List Char} (hskip : l.skipped = lead ++ blanks) (hlead : AtBreak lead)
    (hfeed : '\n' ∉ blanks) (hblank : ∀ x ∈ blanks, isBlank x = true) :
    l.config.columns blanks < UInt64.size := by
  have hmem : blanks ∈ l.skipped.splitOn '\n' := by
    rw [hskip]
    exact hlead.mem_lines_right (by rw [List.splitOn_eq_singleton hfeed]; simp)
  have hfits := hl.fits_of_mem hq hs hmem
  rwa [indentation_of_isBlank hblank] at hfits

theorem nextLine?_eq_none {l : Lexer} (hs : l.atLineStart = true) (h : l.nextLine? = none) :
    l.settled.cursor.rest = [] := by
  rw [settled_of_lineStart hs]
  by_contra hne
  simp [nextLine?, show (l.cursor.advance l.leading).rest ≠ [] from hne] at h

/-! ## Moves -/

/-- The ways a call can go while the stream is being scanned. -/
inductive Move (l : Lexer) : Step → Prop
  /-- A queued token is returned. -/
  | dequeue {t : Token} {queue : List Token} (hq : l.pending = t :: queue) :
      Move l ⟨.ok t, [], { l with pending := queue }⟩
  /-- A line opens a block. -/
  | indent {line : Line} (hq : l.pending = []) (hs : l.atLineStart = true)
      (hl : l.nextLine? = some line) (hw : l.blocks.top < line.width) :
      Move l ⟨.ok ⟨.indent, l.source.origin line.start⟩, [.indent line.width],
        { l.settled with blocks := line.width :: l.blocks }⟩
  /-- A line closes blocks. -/
  | dedent {line : Line} {kept : Blocks} {n : Nat} (hq : l.pending = [])
      (hs : l.atLineStart = true) (hl : l.nextLine? = some line)
      (hw : line.width < l.blocks.top) (hk : l.blocks.enter? line.width = some kept)
      (hn : l.blocks.length = kept.length + (n + 1)) :
      Move l ⟨.ok ⟨.dedent, l.source.origin line.start⟩,
        List.replicate (n + 1) (.dedent line.width),
        { l.settled with
          blocks := kept
          pending := List.replicate n ⟨.dedent, l.source.origin line.start⟩ }⟩
  /-- A line lines up with no block. -/
  | badIndent {line : Line} (hq : l.pending = []) (hs : l.atLineStart = true)
      (hl : l.nextLine? = some line) (hk : l.blocks.enter? line.width = none) :
      Move l ⟨.error ⟨.badIndent line.width, l.source.origin line.start⟩, [], l.settled⟩
  /-- A line ends. -/
  | newline {cs : List Char} (hq : l.pending = []) (hs : l.atLineStart = false)
      (hr : l.settled.cursor.rest = '\n' :: cs)
      (hj : (l.config.joinsLines && 0 < l.depth) = false) :
      Move l ⟨.ok ⟨.newline, l.source.origin l.settled.cursor.offset⟩, [],
        { l.settled with cursor := l.settled.cursor.advance ['\n'], atLineStart := true }⟩
  /-- A token is read. At a line start the line is as wide as the innermost block. -/
  | token {c : Char} {cs : List Char} {content : Token.Content} (hq : l.pending = [])
      (hs : l.atLineStart = true → l.nextLine?.map Line.width = some l.blocks.top)
      (hr : l.settled.cursor.rest = c :: cs) (hc : beginsToken l.config.comments c = true)
      (hok : (Lexeme.read c cs).content = .ok content) :
      Move l ⟨.ok ⟨content, l.source.origin l.settled.cursor.offset⟩, [],
        { l.settled with
          cursor := l.settled.cursor.advance (Lexeme.read c cs).text
          depth := depthAfter l.depth content }⟩
  /-- No token can be read. -/
  | fail {c : Char} {cs : List Char} {cause : LexError.Cause} (hq : l.pending = [])
      (hs : l.atLineStart = true → l.nextLine?.map Line.width = some l.blocks.top)
      (hr : l.settled.cursor.rest = c :: cs) (hc : beginsToken l.config.comments c = true)
      (herr : (Lexeme.read c cs).content = .error cause) :
      Move l ⟨.error ⟨cause, l.source.origin l.settled.cursor.offset⟩, [],
        { l.settled with cursor := l.settled.cursor.advance (Lexeme.read c cs).text }⟩
  /-- The text ends inside blocks. -/
  | unwind {n : Nat} (hq : l.pending = []) (hr : l.settled.cursor.rest = [])
      (hb : l.blocks.length = n + 1) :
      Move l ⟨.ok ⟨.dedent, l.source.origin l.settled.cursor.offset⟩,
        List.replicate (n + 1) .dedentAtEnd,
        { l.settled with
          blocks := []
          pending := List.replicate n ⟨.dedent, l.source.origin l.settled.cursor.offset⟩ ++
            [l.endToken] }⟩
  /-- The text ends outside blocks. -/
  | finish (hq : l.pending = []) (hr : l.settled.cursor.rest = []) (hb : l.blocks = []) :
      Move l ⟨.ok l.endToken, [], l.settled⟩

theorem finish_move {l : Lexer} (hq : l.pending = []) (hr : l.settled.cursor.rest = []) :
    Move l l.settled.finish := by
  unfold Lexer.finish
  split
  · next hb => exact .finish hq hr (List.length_eq_zero_iff.1 hb)
  · next n hb => exact .unwind hq hr hb

/-- Reading where the gap ends, unless the end of a line is there. -/
theorem readToken_move {l : Lexer} (hq : l.pending = [])
    (hs : l.atLineStart = true → l.nextLine?.map Line.width = some l.blocks.top)
    {c : Char} {cs : List Char} (hr : l.settled.cursor.rest = c :: cs)
    (hc : beginsToken l.config.comments c = true) : Move l l.settled.readToken := by
  have hn := ne_lineFeed_of_beginsToken hc
  unfold readToken
  rw [hr]
  simp only [hn, if_false]
  split
  · next content hok => exact .token hq hs hr hc hok
  · next cause herr => exact .fail hq hs hr hc herr

theorem readToken_eq_finish {l : Lexer} (hr : l.cursor.rest = []) : l.readToken = l.finish := by
  unfold readToken
  rw [hr]

theorem enterLine_move {l : Lexer} {line : Line} (hq : l.pending = []) (hs : l.atLineStart = true)
    (hl : l.nextLine? = some line) :
    (∀ s, l.settled.enterLine line = some s → Move l s) ∧
      (l.settled.enterLine line = none → line.width = l.blocks.top) := by
  unfold enterLine
  simp only [show l.settled.blocks = l.blocks from rfl]
  cases hk : l.blocks.enter? line.width with
  | none =>
    constructor
    · rintro s ⟨⟩; exact .badIndent hq hs hl hk
    · simp
  | some kept =>
    by_cases hw : l.blocks.top < line.width
    · rw [Blocks.enter?_of_top_lt hw] at hk
      cases hk
      simp only [hw, if_true]
      constructor
      · rintro s ⟨⟩; exact .indent hq hs hl hw
      · simp
    · simp only [hw, if_false]
      rcases Blocks.enter?_cases hw hk with ⟨rfl, htop⟩ | ⟨hlt, hlen⟩
      · simp [htop]
      · obtain ⟨n, hn⟩ : ∃ n, l.blocks.length - kept.length = n + 1 :=
          ⟨l.blocks.length - kept.length - 1, by omega⟩
        rw [hn]
        constructor
        · rintro s ⟨⟩; exact .dedent hq hs hl hlt hk (by omega)
        · simp

/-- **Inversion.** Whatever a call gives is a move. -/
theorem pull_move (l : Lexer) : Move l l.pull := by
  unfold pull
  split
  · next t queue hq => exact .dequeue hq
  · next hq =>
    unfold scan
    cases hs : l.atLineStart with
    | false =>
      simp only [Bool.false_eq_true, if_false, scanToken, ← settled_of_inLine hs]
      obtain ⟨-, -, hstop⟩ := l.settled_spec
      rcases hstop with hr | ⟨c, cs, hr, ⟨rfl, hj⟩ | hc⟩
      · rw [readToken_eq_finish hr]; exact finish_move hq hr
      · unfold readToken
        rw [hr]
        exact .newline hq hs hr (by simpa [skipsLines, hs] using hj)
      · exact readToken_move hq (by simp [hs]) hr hc
    | true =>
      simp only [if_true, scanToken, startLine, ← settled_of_lineStart hs, skipGap_settled hs]
      cases hl : l.nextLine? with
      | none =>
        have hr := nextLine?_eq_none hs hl
        simp only [Option.bind_none, Option.getD_none]
        rw [readToken_eq_finish hr]; exact finish_move hq hr
      | some line =>
        obtain ⟨hmove, htop⟩ := enterLine_move hq hs hl
        simp only [Option.bind_some]
        cases he : l.settled.enterLine line with
        | some s => exact hmove s he
        | none =>
          obtain ⟨-, -, c, cs, -, -, -, -, hr, hc, -⟩ := nextLine?_spec hs hl
          exact readToken_move hq (fun _ => by rw [hl, ← htop he]; rfl) hr hc

theorem pull_of_inLine {l : Lexer} (hq : l.pending = []) (hs : l.atLineStart = false) :
    l.pull = l.settled.readToken := by
  simp only [pull, hq, scan, hs, Bool.false_eq_true, if_false, scanToken, settled_of_inLine hs]

theorem pull_of_lineStart {l : Lexer} (hq : l.pending = []) (hs : l.atLineStart = true) :
    l.pull = (l.nextLine?.bind l.settled.enterLine).getD l.settled.readToken := by
  simp only [pull, hq, scan, hs, if_true, scanToken, startLine, ← settled_of_lineStart hs,
    skipGap_settled hs]

/-- A line as wide as the innermost block makes no mark: its first token is read at once. -/
theorem pull_of_same {l : Lexer} (hq : l.pending = [])
    (hs : l.atLineStart = true → l.nextLine?.map Line.width = some l.blocks.top) :
    l.pull = l.settled.readToken := by
  cases hstart : l.atLineStart with
  | false => exact pull_of_inLine hq hstart
  | true =>
    obtain ⟨line, hl, hw⟩ := Option.map_eq_some_iff.1 (hs hstart)
    have hnone : l.settled.enterLine line = none := by
      simp only [enterLine, show l.settled.blocks = l.blocks from rfl, hw, Blocks.enter?_top,
        Nat.lt_irrefl, if_false, Nat.sub_self]
    rw [pull_of_lineStart hq hstart, hl, Option.bind_some, hnone, Option.getD_none]

theorem pull_of_atEnd {l : Lexer} (hq : l.pending = []) (hr : l.settled.cursor.rest = []) :
    l.pull = l.settled.finish := by
  rw [← readToken_eq_finish hr]
  cases hstart : l.atLineStart with
  | false => exact pull_of_inLine hq hstart
  | true =>
    have hnone : l.nextLine? = none := by
      cases hl : l.nextLine? with
      | none => rfl
      | some line =>
        obtain ⟨-, -, c, cs, -, -, -, -, hr', -⟩ := nextLine?_spec hstart hl
        rw [hr] at hr'; cases hr'
    rw [pull_of_lineStart hq hstart, hnone, Option.bind_none, Option.getD_none]

/-- **Determinism.** Conversely, a move is what the call gives. -/
theorem Move.pull_eq {l : Lexer} {s : Step} (h : Move l s) : l.pull = s := by
  cases h with
  | dequeue hq => simp only [pull, hq]
  | indent hq hs hl hw =>
    rw [pull_of_lineStart hq hs, hl, Option.bind_some]
    simp only [enterLine, show l.settled.blocks = l.blocks from rfl, Blocks.enter?_of_top_lt hw,
      hw, if_true, Option.getD_some]
    rfl
  | dedent hq hs hl hw hk hn =>
    rw [pull_of_lineStart hq hs, hl, Option.bind_some]
    simp only [enterLine, show l.settled.blocks = l.blocks from rfl, hk, Nat.lt_asymm hw, if_false,
      hn, Nat.add_sub_cancel_left, Option.getD_some]
    rfl
  | badIndent hq hs hl hk =>
    rw [pull_of_lineStart hq hs, hl, Option.bind_some]
    simp only [enterLine, show l.settled.blocks = l.blocks from rfl, hk, Option.getD_some]
    rfl
  | newline hq hs hr =>
    rw [pull_of_inLine hq hs, readToken]
    simp only [hr, if_true]
    rfl
  | token hq hs hr hc hok =>
    rw [pull_of_same hq hs, readToken]
    simp only [hr, ne_lineFeed_of_beginsToken hc, if_false, hok]
    rfl
  | fail hq hs hr hc herr =>
    rw [pull_of_same hq hs, readToken]
    simp only [hr, ne_lineFeed_of_beginsToken hc, if_false, herr]
    rfl
  | unwind hq hr hb =>
    rw [pull_of_atEnd hq hr, Lexer.finish]
    simp only [show l.settled.blocks = l.blocks from rfl, hb]
    rfl
  | finish hq hr hb =>
    rw [pull_of_atEnd hq hr, Lexer.finish]
    simp only [show l.settled.blocks = l.blocks from rfl, hb, List.length_nil]
    rfl

/-! ## Delivery -/

/-- How the stream stands after a step. -/
def Step.phaseAfter (s : Step) : Phase :=
  match s.result with
  | .ok t => if t.content = .endOfInput then .finished else s.lexer.phase
  | .error e => .failed e

@[simp] theorem Step.deliver_result (s : Step) : s.deliver.result = s.result := by
  unfold Step.deliver; split <;> rfl

theorem Step.deliver_lexer (s : Step) :
    s.deliver.lexer = { s.lexer with phase := s.phaseAfter } := by
  unfold Step.deliver Step.phaseAfter
  cases s.result with
  | ok t => simp only; split <;> rfl
  | error e => rfl

theorem nextToken?_eq_some {l : Lexer} {s : Step} :
    l.nextToken? = some s ↔ l.overflows = false ∧ l.nextToken = s := by
  unfold nextToken?
  cases l.overflows <;> simp

theorem nextToken_eq {l : Lexer} (h : l.phase = .scanning) : l.nextToken = l.pull.deliver := by
  unfold nextToken; rw [h]

end Lexer

end Offside
