import Offside.Proofs.Lexer.Interfaces
import Offside.Proofs.Lexer.Scanner
import Offside.Proofs.Source.Bytes

/-!
# Offsets stay on boundaries

The scanner as a whole: the loops of a lexer of offsets, put together to calls. A call cuts the text
many times, at offsets that were moved by the sizes of characters and of symbols. Every state of the
scanner is the state of a lexer with its text forgotten, and a call of the one is a call of the
other, unless that panics; so no cut fails, no loop goes on for ever, and no origin has to be moved
to a boundary.

Results:
* `Scanner.read_indexed`, `Scanner.enterLine_indexed`: reading a token and entering a line.
* `Scanner.scan_indexed`: one scan of the scanner is one scan of the lexer.
* `Scanner.run_indexed`: any calls of the scanner are those calls of the lexer, if these return.
* `Lexer.slices_defined`: no slice of a source can fail.
-/

namespace Offside

open Text

/-- A lexer that keeps offsets into its text. -/
structure Scanner where
  source : Source
  config : Config
  /-- Where the text is read next. -/
  position : Nat := 0
  /-- Where the token that is being read began. -/
  tokenStart : Nat := 0
  blocks : Blocks := []
  pending : List Token := []
  atLineStart : Bool := true
  depth : Nat := 0
  phase : Lexer.Phase := .scanning

namespace Scanner

/-- What a call gives, and the scanner after it. -/
abbrev Answer := Except LexError Token × Scanner

/-- A scanner at the start of a source. -/
def start (source : Source) (config : Config) : Scanner := { source, config }

/-- The place where the token began, with its offset as it is. -/
def origin (m : Scanner) : Origin := ⟨m.source, m.tokenStart⟩

def endToken (m : Scanner) : Token := ⟨.endOfInput, ⟨m.source, m.source.text.utf8ByteSize⟩⟩

/-- Ends the stream. -/
def finish (m : Scanner) : Answer :=
  match m.blocks.length with
  | 0 => (.ok m.endToken, m)
  | closed + 1 =>
    (.ok ⟨.dedent, m.origin⟩,
      { m with
        blocks := []
        pending := List.replicate closed ⟨.dedent, m.origin⟩ ++ [m.endToken] })

noncomputable section

/-- Returns the token at the position, the end of the line, or the end of the stream. -/
def read (m : Scanner) : Option Answer := do
  match ← peek m.source.text 0 m.position with
  | some c =>
    if c = '\n' then
      let position ← advance m.source.text m.position
      some (.ok ⟨.newline, m.origin⟩, { m with position, atLineStart := true })
    else
      let (content, position) ← lexeme m.source.text c m.position
      match content with
      | .ok content =>
        some (.ok ⟨content, m.origin⟩,
          { m with position, depth := Lexer.depthAfter m.depth content })
      | .error cause => some (.error ⟨cause, m.origin⟩, { m with position })
  | none => some m.finish

/-- Skips the gap before a token, which begins behind it. -/
def scanToken (m : Scanner) : Option Answer := do
  let joins := m.config.joinsLines && 0 < m.depth
  let position ← skipGap joins m.config.comments m.source.text m.position
  read { m with position, tokenStart := position }

/-- Opens or closes blocks for a line of this width, which starts where the token began. -/
def enterLine (m : Scanner) (width : Nat) : Option Answer :=
  match m.blocks.enter? width with
  | none => some (.error ⟨.badIndent width, m.origin⟩, m)
  | some blocks =>
    if m.blocks.top < width then some (.ok ⟨.indent, m.origin⟩, { m with blocks })
    else
      match m.blocks.length - blocks.length with
      | 0 => none
      | closed + 1 =>
        some (.ok ⟨.dedent, m.origin⟩,
          { m with blocks, pending := List.replicate closed ⟨.dedent, m.origin⟩ })

/-- Scans on, nothing being queued. -/
def scan (m : Scanner) : Option Answer := do
  if m.atLineStart then
    let (line, position) ← findLine m.config m.source.text m.position
    let m := { m with position, atLineStart := false }
    match line with
    | some line =>
      match enterLine { m with tokenStart := line.start } line.width with
      | some answer => some answer
      | none => scanToken { m with tokenStart := line.start }
    | none => m.scanToken
  else m.scanToken

/-- Notes whether an answer ends the stream. -/
def deliver : Answer → Answer
  | (.ok t, m) => (.ok t, if t.content = .endOfInput then { m with phase := .finished } else m)
  | (.error e, m) => (.error e, { m with phase := .failed e })

/-- The next token, queued or scanned. -/
def pull (m : Scanner) : Option Answer :=
  match m.pending with
  | t :: queue => some (.ok t, { m with pending := queue })
  | [] => m.scan

def nextToken (m : Scanner) : Option Answer :=
  match m.phase with
  | .failed e => some (.error e, m)
  | .finished => some (.ok m.endToken, m)
  | .scanning => m.pull.map deliver

/-- The answer to a call, and the scanner after it. -/
def call (m : Scanner) : Interface → Option (Option (Except LexError Token) × Scanner)
  | .nextToken => m.nextToken.map fun (result, m) => (some result, m)
  | .next =>
    match m.phase with
    | .scanning => m.nextToken.map fun (result, m) => (some result, m)
    | _ => some (none, m)

/-- The answers to some calls, and the scanner after them. -/
def run (m : Scanner) : List Interface → Option (List (Option (Except LexError Token)) × Scanner)
  | [] => some ([], m)
  | i :: calls => do
    let (answer, m) ← m.call i
    let (answers, m) ← m.run calls
    some (answer :: answers, m)

end

end Scanner

/-! ## The scanner and the lexer -/

namespace Cursor.At

variable {source : Source} {before : List Char} {cursor : Cursor}

theorem isBoundary (h : cursor.At source before) : IsBoundary source.text cursor.offset := by
  have htext : source.text.toList = before ++ cursor.rest := h.text
  rw [h.offset]
  exact isBoundary_of_append htext

theorem size_eq (h : cursor.At source before) :
    source.text.utf8ByteSize = cursor.offset + byteLength cursor.rest := by
  rw [← source.size_eq, Source.size, h.text, byteLength_append, h.offset]

theorem offset_le (h : cursor.At source before) : cursor.offset ≤ source.text.utf8ByteSize := by
  rw [h.size_eq]
  exact Nat.le_add_right _ _

/-- What is left to read is the text from the cursor on. -/
theorem slice?_eq (h : cursor.At source before) :
    slice? source.text cursor.offset source.text.utf8ByteSize =
      some (String.ofList cursor.rest) := by
  have htext : source.text.toList = before ++ (cursor.rest ++ []) := by
    rw [List.append_nil]; exact h.text
  rw [h.size_eq, h.offset]
  exact slice?_of_append htext

end Cursor.At

/-- The scanner in the state of a lexer. -/
def Lexer.indexed (l : Lexer) (tokenStart : Nat) : Scanner :=
  { source := l.source, config := l.config, position := l.cursor.offset, tokenStart,
    blocks := l.blocks, pending := l.pending, atLineStart := l.atLineStart, depth := l.depth,
    phase := l.phase }

/-- What a step of a lexer is to the scanner. -/
def Lexer.Step.indexed (s : Lexer.Step) (tokenStart : Nat) : Scanner.Answer :=
  (s.result, s.lexer.indexed tokenStart)

namespace Scanner

variable {l : Lexer} {before : List Char}

theorem endToken_indexed (l : Lexer) (k : Nat) : (l.indexed k).endToken = l.endToken := by
  have horigin : l.source.origin l.source.size = ⟨l.source, l.source.size⟩ :=
    Source.origin_of_boundary List.prefix_rfl
  rw [Lexer.endToken, horigin, Source.size_eq]
  rfl

/-- An origin at the cursor need not be moved. -/
theorem origin_of_at (h : l.cursor.At l.source before) :
    l.source.origin l.cursor.offset = ⟨l.source, l.cursor.offset⟩ := by
  rw [h.origin, h.offset]

theorem finish_indexed (h : l.cursor.At l.source before) :
    (l.indexed l.cursor.offset).finish = l.finish.indexed l.cursor.offset := by
  unfold finish Lexer.finish
  rw [endToken_indexed, origin_of_at h]
  show (match l.blocks.length with | 0 => _ | closed + 1 => _) = _
  cases l.blocks.length <;> rfl

theorem read_indexed (h : l.cursor.At l.source before) :
    (l.indexed l.cursor.offset).read = some (l.readToken.indexed l.cursor.offset) := by
  have htext : l.source.text.toList = before ++ l.cursor.rest := h.text
  have hpeek : peek l.source.text 0 l.cursor.offset = some l.cursor.rest[0]? := by
    rw [h.offset]; exact peek_of_append htext 0
  show (peek l.source.text 0 l.cursor.offset).bind _ = _
  rw [hpeek, Option.bind_some, Lexer.readToken]
  cases hrest : l.cursor.rest with
  | nil => exact congrArg some (finish_indexed h)
  | cons c cs =>
    rw [hrest] at htext
    simp only [List.getElem?_cons_zero, origin_of_at h]
    by_cases hc : c = '\n'
    · have hadvance : advance l.source.text l.cursor.offset =
          some (l.cursor.advance [c]).offset := by
        rw [h.offset, advance_of_append htext, byteLength_append, ← h.offset]; rfl
      rw [if_pos hc, if_pos hc]
      show (advance l.source.text l.cursor.offset).bind _ = _
      rw [hadvance]; rfl
    · have hlexeme : lexeme l.source.text c l.cursor.offset = some ((Lexeme.read c cs).content,
          (l.cursor.advance (Lexeme.read c cs).text).offset) := by
        rw [h.offset, lexeme_of_append htext, byteLength_append, ← h.offset]; rfl
      rw [if_neg hc, if_neg hc]
      show (lexeme l.source.text c l.cursor.offset).bind _ = _
      rw [hlexeme, Option.bind_some]
      cases (Lexeme.read c cs).content <;> rfl

theorem scanToken_indexed (h : l.cursor.At l.source before) (k : Nat) :
    (l.indexed k).scanToken = some (l.scanToken.indexed l.skipGap.cursor.offset) := by
  have htext : l.source.text.toList = before ++ l.cursor.rest := h.text
  obtain ⟨rest, hrest, -⟩ :=
    gap_spec (l.config.joinsLines && 0 < l.depth) l.config.comments l.cursor.rest
  have hgap : skipGap (l.config.joinsLines && 0 < l.depth) l.config.comments l.source.text
      l.cursor.offset = some l.skipGap.cursor.offset := by
    rw [h.offset, skipGap_of_append _ _ htext, byteLength_append, ← h.offset]; rfl
  have hread : (l.skipGap.indexed l.skipGap.cursor.offset).read = _ :=
    read_indexed (h.advance hrest)
  show (skipGap (l.config.joinsLines && 0 < l.depth) l.config.comments l.source.text
    l.cursor.offset).bind _ = _
  rw [hgap, Option.bind_some]
  exact hread

theorem enterLine_indexed {line : Lexer.Line}
    (h : l.source.origin line.start = ⟨l.source, line.start⟩) :
    (l.indexed line.start).enterLine line.width =
      (l.enterLine line).map (·.indexed line.start) := by
  have hblocks : (l.indexed line.start).blocks = l.blocks := rfl
  simp only [enterLine, Lexer.enterLine, h, hblocks]
  cases l.blocks.enter? line.width with
  | none => rfl
  | some blocks =>
    by_cases hw : l.blocks.top < line.width
    · simp only [hw, if_true]; rfl
    · simp only [hw, if_false]
      cases l.blocks.length - blocks.length <;> rfl

theorem lineAfter_eq (h : l.cursor.At l.source before) :
    lineAfter l.config before l.cursor.rest = l.nextLine? := by
  have hoffset : byteLength (before ++ l.leading) = (l.cursor.advance l.leading).offset := by
    rw [byteLength_append, ← h.offset]; rfl
  simp only [lineAfter, Lexer.nextLine?,
    show gap true l.config.comments l.cursor.rest = l.leading from rfl, hoffset]
  rfl

/-- The offset `k` is where a token that ends before the cursor may have begun. -/
def Begins (l : Lexer) (k : Nat) : Prop := IsBoundary l.source.text k ∧ k ≤ l.cursor.offset

theorem begins_of_at (h : l.cursor.At l.source before) : Begins l l.cursor.offset :=
  ⟨h.isBoundary, Nat.le_refl _⟩

theorem origin_of_begins {k : Nat} (h : Begins l k) : l.source.origin k = ⟨l.source, k⟩ := by
  obtain ⟨p, hp, rfl⟩ := isBoundary_iff.1 h.1
  exact Source.origin_of_boundary hp

theorem begins_of_lineStart (h : l.cursor.At l.source before) (hs : l.atLineStart = true)
    {line : Lexer.Line} (hl : l.nextLine? = some line) : Begins l.atNextLine line.start := by
  obtain ⟨lead, indentation, -, -, hskip, -, -, -, -, -, rfl⟩ := Lexer.nextLine?_spec hs hl
  obtain ⟨hrest, -⟩ := l.settled_spec
  have htext : l.source.text.toList =
      (before ++ lead) ++ (indentation ++ l.settled.cursor.rest) := by
    rw [List.append_assoc, ← List.append_assoc lead, ← hskip, ← hrest]
    exact h.text
  rw [← Lexer.settled_of_lineStart hs]
  constructor
  · show IsBoundary l.source.text (l.cursor.offset + byteLength lead)
    rw [h.offset, ← byteLength_append]
    exact isBoundary_of_append htext
  · show l.cursor.offset + byteLength lead ≤ l.cursor.offset + byteLength l.skipped
    rw [hskip, byteLength_append]
    omega

theorem Begins.readToken {k : Nat} (h : Begins l k) : Begins l.readToken.lexer k := by
  obtain ⟨hk, hle⟩ := h
  have hadvance : ∀ text, k ≤ (l.cursor.advance text).offset := fun text =>
    Nat.le_trans hle (Nat.le_add_right _ _)
  unfold Lexer.readToken
  split
  · unfold Lexer.finish
    split <;> exact ⟨hk, hle⟩
  · split
    · exact ⟨hk, hadvance _⟩
    · simp only
      split <;> exact ⟨hk, hadvance _⟩

theorem Begins.enterLine {k : Nat} (h : Begins l k) {line : Lexer.Line} {s : Lexer.Step}
    (hs : l.enterLine line = some s) : Begins s.lexer k := by
  simp only [Lexer.enterLine] at hs
  split at hs
  · cases hs; exact h
  · split at hs
    · cases hs; exact h
    · split at hs
      · cases hs
      · cases hs; exact h

theorem exists_scanToken (h : l.cursor.At l.source before) (k : Nat) :
    ∃ k', (l.indexed k).scanToken = some (l.scanToken.indexed k') ∧
      Begins l.scanToken.lexer k' := by
  obtain ⟨rest, hrest, -⟩ :=
    gap_spec (l.config.joinsLines && 0 < l.depth) l.config.comments l.cursor.rest
  have hskip : l.skipGap.cursor.At l.skipGap.source _ := h.advance hrest
  exact ⟨_, scanToken_indexed h k, (begins_of_at hskip).readToken⟩

/-- **One scan.** -/
theorem scan_indexed (h : l.cursor.At l.source before) (k : Nat) :
    ∃ k', (l.indexed k).scan = some (l.scan.indexed k') ∧ Begins l.scan.lexer k' := by
  unfold scan Lexer.scan
  rw [show (l.indexed k).atLineStart = l.atLineStart from rfl]
  cases hs : l.atLineStart with
  | false => exact exists_scanToken h k
  | true =>
    have htext : l.source.text.toList = before ++ l.cursor.rest := h.text
    have hline : findLine l.config l.source.text l.cursor.offset =
        some (l.nextLine?, l.atNextLine.cursor.offset) := by
      rw [h.offset, findLine_of_append _ htext, lineAfter_eq h, byteLength_append, ← h.offset]
      rfl
    have hnext : l.atNextLine.cursor.At l.source (before ++ l.skipped) := by
      rw [← Lexer.settled_of_lineStart hs]; exact Lexer.settled_cursorAt h
    show ∃ k', (findLine l.config l.source.text l.cursor.offset).bind _ = _ ∧ _
    rw [hline, Option.bind_some]
    simp only [Lexer.startLine]
    cases hl : l.nextLine? with
    | none => exact exists_scanToken (l := l.atNextLine) hnext k
    | some line =>
      have hbegins := begins_of_lineStart h hs hl
      have hat := origin_of_begins hbegins
      have henter : (l.atNextLine.indexed line.start).enterLine line.width = _ :=
        enterLine_indexed hat
      simp only [Option.bind_some]
      cases hstep : l.atNextLine.enterLine line with
      | some s =>
        rw [hstep] at henter
        refine ⟨line.start, ?_, hbegins.enterLine hstep⟩
        show (match (l.atNextLine.indexed line.start).enterLine line.width with
          | some answer => some answer
          | none => (l.atNextLine.indexed line.start).scanToken) = _
        rw [henter]; rfl
      | none =>
        rw [hstep] at henter
        show ∃ k', (match (l.atNextLine.indexed line.start).enterLine line.width with
          | some answer => some answer
          | none => (l.atNextLine.indexed line.start).scanToken) = _ ∧ _
        rw [henter]
        exact exists_scanToken (l := l.atNextLine) hnext line.start

/-! ## Calls -/

theorem deliver_indexed (s : Lexer.Step) (k : Nat) :
    deliver (s.indexed k) = s.deliver.indexed k := by
  unfold Lexer.Step.deliver Lexer.Step.indexed
  cases s.result with
  | ok t => simp only [deliver]; split <;> rfl
  | error e => rfl

theorem Begins.deliver {s : Lexer.Step} {k : Nat} (h : Begins s.lexer k) :
    Begins s.deliver.lexer k := by
  rw [Lexer.Step.deliver_lexer]; exact h

theorem pull_indexed (h : l.cursor.At l.source before) {k : Nat} (hk : Begins l k) :
    ∃ k', (l.indexed k).pull = some (l.pull.indexed k') ∧ Begins l.pull.lexer k' := by
  unfold pull Lexer.pull
  rw [show (l.indexed k).pending = l.pending from rfl]
  cases l.pending with
  | cons t queue => exact ⟨k, rfl, hk⟩
  | nil => exact scan_indexed h k

theorem nextToken_indexed (h : l.cursor.At l.source before) {k : Nat} (hk : Begins l k) :
    ∃ k', (l.indexed k).nextToken = some (l.nextToken.indexed k') ∧
      Begins l.nextToken.lexer k' := by
  unfold nextToken Lexer.nextToken
  rw [show (l.indexed k).phase = l.phase from rfl]
  cases l.phase with
  | failed e => exact ⟨k, rfl, hk⟩
  | finished => exact ⟨k, congrArg some (by rw [endToken_indexed]; rfl), hk⟩
  | scanning =>
    obtain ⟨k', hpull, hk'⟩ := pull_indexed h hk
    refine ⟨k', ?_, hk'.deliver⟩
    simp only [hpull, Option.map_some, deliver_indexed]

theorem call_indexed_of_ended (hl : l.phase ≠ .scanning) (k : Nat) (i : Interface) :
    (l.indexed k).call i = some (i.repeats (some l.nextToken.result), l.indexed k) := by
  unfold call nextToken Lexer.nextToken
  rw [show (l.indexed k).phase = l.phase from rfl, endToken_indexed]
  cases hphase : l.phase with
  | scanning => exact absurd hphase hl
  | failed e => cases i <;> rfl
  | finished => cases i <;> rfl

theorem call_indexed_of_scanning (hl : l.phase = .scanning) (h : l.cursor.At l.source before)
    {k : Nat} (hk : Begins l k) (i : Interface) :
    ∃ k', (l.indexed k).call i = some (some l.nextToken.result, l.nextToken.lexer.indexed k') ∧
      Begins l.nextToken.lexer k' := by
  obtain ⟨k', hnext, hk'⟩ := nextToken_indexed h hk
  refine ⟨k', ?_, hk'⟩
  unfold call
  rw [show (l.indexed k).phase = l.phase from rfl, hl, hnext]
  cases i <;> rfl

/-- **One call.** A call of the scanner is the call of the lexer, if that returns. -/
theorem call_indexed (h : l.cursor.At l.source before) {k : Nat} (hk : Begins l k)
    (i : Interface) :
    ∃ answer next k', (l.indexed k).call i = some (answer, next.indexed k') ∧ Begins next k' ∧
      (next.source = l.source ∧ ∃ before, next.cursor.At l.source before) ∧
      ∀ given, l.call? i = some given → given = (answer, next) := by
  by_cases hl : l.phase = .scanning
  · obtain ⟨k', hcall, hk'⟩ := call_indexed_of_scanning hl h hk i
    obtain ⟨s, hmove, -, hlexer⟩ := Lexer.exists_move hl
    have hat : l.nextToken.lexer.source = l.source ∧
        ∃ before, l.nextToken.lexer.cursor.At l.source before := by
      rw [hlexer]
      exact ⟨hmove.source, hmove.exists_cursorAt h⟩
    refine ⟨_, _, k', hcall, hk', hat, fun given hgiven => ?_⟩
    rcases l.live_or with hlive | ⟨-, hover⟩ | hended
    · rw [Lexer.call?_of_live hlive] at hgiven
      exact (Option.some.inj hgiven).symm
    · rw [Lexer.call?_of_overflows hover] at hgiven
      cases hgiven
    · exact absurd hl hended
  · refine ⟨_, l, k, call_indexed_of_ended hl k i, hk, ⟨rfl, before, h⟩, fun given hgiven => ?_⟩
    rw [Lexer.call?_of_ended hl] at hgiven
    exact (Option.some.inj hgiven).symm

/-- **Any calls.** -/
theorem run_indexed (h : l.cursor.At l.source before) {k : Nat} (hk : Begins l k)
    (calls : List Interface) :
    ∃ answers last k', (l.indexed k).run calls = some (answers, last.indexed k') ∧
      Begins last k' ∧ (last.source = l.source ∧ ∃ before, last.cursor.At l.source before) ∧
      ∀ given, l.run? calls = some given → given = (answers, last) := by
  induction calls generalizing l k before with
  | nil => exact ⟨[], l, k, rfl, hk, ⟨rfl, before, h⟩, fun given hgiven => by cases hgiven; rfl⟩
  | cons i calls ih =>
    obtain ⟨answer, next, k', hcall, hk', ⟨hsource, before', h'⟩, hgiven⟩ := call_indexed h hk i
    rw [← hsource] at h'
    obtain ⟨answers, last, k'', hrun, hk'', hat, hgivens⟩ := ih h' hk'
    rw [hsource] at hat
    refine ⟨answer :: answers, last, k'', ?_, hk'', hat, ?_⟩
    · simp only [run, hcall, Option.bind_eq_bind, Option.bind_some, hrun]
    · intro given hreturns
      obtain ⟨first, hfirst, hrest⟩ := Option.bind_eq_some_iff.1 hreturns
      obtain ⟨others, hothers, rfl⟩ := Option.map_eq_some_iff.1 hrest
      obtain rfl := hgiven first hfirst
      obtain rfl := hgivens others hothers
      rfl

end Scanner

/-! ## The main result -/

/-- **Slices.** Whatever calls are made, a scanner that keeps nothing of a source but offsets
answers them: every slice that it takes is defined and every loop ends. Then the start of the token
and the position are boundaries, one not after the other and neither after the end, and the text can
be cut at the position. If a lexer answers those calls, none of them panicking, it gives the same
answers, so that its origins, made by clamping and rounding, are the offsets of the scanner as they
are, and it stands at the same place. An origin made at any offset has a line, a column, a line of
text and a message, and no slice or difference that they are made of fails. -/
theorem Lexer.slices_defined (source : Source) (config : Config) :
    (∀ calls : List Interface, ∃ answers m rest,
      (Scanner.start source config).run calls = some (answers, m) ∧
      m.tokenStart ≤ m.position ∧ m.position ≤ source.text.utf8ByteSize ∧
      IsBoundary source.text m.tokenStart ∧ IsBoundary source.text m.position ∧
      slice? source.text m.position source.text.utf8ByteSize = some (String.ofList rest) ∧
      ∀ answers' l, (start source config).run? calls = some (answers', l) →
        answers' = answers ∧ l.cursor = ⟨rest, m.position⟩) ∧
    ∀ n : Nat,
      (source.origin n).line? = some (source.origin n).line ∧
      (source.origin n).column? = some (source.origin n).column ∧
      (source.origin n).lineText? = some (source.origin n).lineText ∧
      (source.origin n).message? = some (source.origin n).message := by
  refine ⟨fun calls => ?_, fun n => ?_⟩
  · have hstart : (start source config).cursor.At (start source config).source [] :=
      start_cursorAt source config
    obtain ⟨answers, last, k, hrun, ⟨hk, hle⟩, ⟨hsource, before, hat⟩, hgiven⟩ :=
      Scanner.run_indexed hstart (Scanner.begins_of_at hstart) calls
    rw [hsource] at hk
    refine ⟨answers, _, last.cursor.rest, hrun, hle, hat.offset_le, hk, hat.isBoundary,
      hat.slice?_eq, fun answers' l hreturns => ?_⟩
    cases hgiven _ hreturns
    exact ⟨rfl, rfl⟩
  · exact ⟨Origin.line?_origin source n, Origin.column?_origin source n,
      Origin.lineText?_origin source n, Origin.message?_origin source n⟩

end Offside
