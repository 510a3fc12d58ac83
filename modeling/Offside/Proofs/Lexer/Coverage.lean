import Mathlib.Data.List.Induction
import Offside.Proofs.Lexer.History
import Offside.Proofs.Lexer.TokenLanguage

/-!
# Coverage of the source

The text of a source is laid out in pieces: a gap and the lexeme after it. Every token but the
layout of blocks has its own piece; the indents and dedents of a line belong to the piece of its
first token and stand where that line starts.

Results:
* `Laid.inOrder`: the tokens of pieces that are laid out stand in the order of the text.
* `Lexer.Run.covered`: a run has laid out the text up to its cursor.
* `Lexer.source_covered`: the whole source, or the part before the error, is laid out.
-/

namespace Offside

open Text

/-! ## Pieces -/

/-- A token that has a text, with the gap before it and the layout of blocks it comes after. -/
structure Piece where
  marks : List Token
  gap : List Char
  lexeme : List Char
  token : Token

namespace Piece

def text (p : Piece) : List Char := p.gap ++ p.lexeme

def tokens (p : Piece) : List Token := p.marks ++ [p.token]

end Piece

/-- The text of pieces, one after the other. -/
def layoutText (pieces : List Piece) : List Char := pieces.flatMap Piece.text

/-- The tokens of pieces, one after the other. -/
def layoutTokens (pieces : List Piece) : List Token := pieces.flatMap Piece.tokens

@[simp] theorem layoutText_snoc (pieces : List Piece) (p : Piece) :
    layoutText (pieces ++ [p]) = layoutText pieces ++ p.gap ++ p.lexeme := by
  simp [layoutText, Piece.text]

@[simp] theorem layoutTokens_snoc (pieces : List Piece) (p : Piece) :
    layoutTokens (pieces ++ [p]) = layoutTokens pieces ++ p.marks ++ [p.token] := by
  simp [layoutTokens, Piece.tokens]

/-- Indents and dedents that stand at the start of the line on which the gap ends. The gap follows
the text `before`. -/
def MarksLine (source : Source) (before gap : List Char) (marks : List Token) : Prop :=
  ∃ lead indentation, gap = lead ++ indentation ∧ AtBreak (before ++ lead) ∧ '\n' ∉ indentation ∧
    ∀ m ∈ marks, (m.content = .indent ∨ m.content = .dedent) ∧
      m.origin = ⟨source, byteLength (before ++ lead)⟩

/-- The piece says what the source has after the text `before`, and its tokens stand there. -/
structure Piece.Fits (source : Source) (comments : Bool) (before : List Char) (p : Piece) :
    Prop where
  gap : IsGap comments p.gap p.lexeme
  lexeme : Spells p.lexeme p.token.content ∨ p.lexeme = ['\n'] ∧ p.token.content = .newline
  origin : p.token.origin = ⟨source, byteLength (before ++ p.gap)⟩
  marks : p.marks = [] ∨
    p.token.content.isVisible = true ∧ MarksLine source before p.gap p.marks

/-- Every piece fits after the text of those before it. -/
def Laid (source : Source) (comments : Bool) (pieces : List Piece) : Prop :=
  ∀ a p b, pieces = a ++ p :: b → p.Fits source comments (layoutText a)

section

variable {source : Source} {comments : Bool} {pieces : List Piece}

theorem laid_nil : Laid source comments [] := by
  intro a p b h
  cases a <;> cases h

theorem Laid.snoc {p : Piece} (h : Laid source comments pieces)
    (hp : p.Fits source comments (layoutText pieces)) : Laid source comments (pieces ++ [p]) := by
  intro a q b hab
  rcases snoc_eq_append_cons hab with ⟨b', hpieces, -⟩ | ⟨rfl, rfl, -⟩
  · exact h a q b' hpieces
  · exact hp

theorem Laid.lexeme_ne_nil (h : Laid source comments pieces) : ∀ p ∈ pieces, p.lexeme ≠ [] := by
  intro p hp
  obtain ⟨a, b, rfl⟩ := List.append_of_mem hp
  rcases (h a p b rfl).lexeme with hs | ⟨hn, -⟩
  · exact hs.ne_nil
  · rw [hn]; simp

theorem Laid.init {p : Piece} (h : Laid source comments (pieces ++ [p])) :
    Laid source comments pieces ∧ p.Fits source comments (layoutText pieces) := by
  refine ⟨?_, h pieces p [] rfl⟩
  intro a q b hab
  exact h a q (b ++ [p]) (by rw [hab]; simp)

end

/-! ## Order -/

/-- The tokens stand in the order of the text, none after the offset `bound`. -/
def InOrder (ts : List Token) (bound : Nat) : Prop :=
  ts.Pairwise (fun s t => s.origin.offset ≤ t.origin.offset) ∧ ∀ t ∈ ts, t.origin.offset ≤ bound

namespace InOrder

variable {ts us : List Token} {m n : Nat}

theorem nil (n : Nat) : InOrder [] n := ⟨.nil, by simp⟩

theorem mono (h : InOrder ts m) (hmn : m ≤ n) : InOrder ts n :=
  ⟨h.1, fun t ht => Nat.le_trans (h.2 t ht) hmn⟩

/-- Tokens that all stand at one place can be added after it. -/
theorem append (h : InOrder ts m) (hmn : m ≤ n) (hus : ∀ u ∈ us, u.origin.offset = n) :
    InOrder (ts ++ us) n := by
  refine ⟨?_, ?_⟩
  · refine List.pairwise_append.2 ⟨h.1, ?_, ?_⟩
    · exact List.pairwise_of_forall_mem_list fun u hu v hv => by rw [hus u hu, hus v hv]
    · intro t ht u hu
      have := h.2 t ht
      rw [hus u hu]; omega
  · intro t ht
    rcases List.mem_append.1 ht with ht | ht
    · exact Nat.le_trans (h.2 t ht) hmn
    · rw [hus t ht]

end InOrder

theorem MarksLine.inOrder {source : Source} {before gap : List Char} {ts marks : List Token}
    (h : MarksLine source before gap marks) (hts : InOrder ts (byteLength before)) :
    InOrder (ts ++ marks) (byteLength (before ++ gap)) := by
  obtain ⟨lead, indentation, rfl, -, -, hmarks⟩ := h
  have hlead : InOrder (ts ++ marks) (byteLength (before ++ lead)) := by
    refine hts.append ?_ fun m hm => by rw [(hmarks m hm).2]
    rw [byteLength_append]; omega
  refine hlead.mono ?_
  simp only [byteLength_append]; omega

theorem Laid.inOrder {source : Source} {comments : Bool} {pieces : List Piece}
    (h : Laid source comments pieces) :
    InOrder (layoutTokens pieces) (byteLength (layoutText pieces)) := by
  induction pieces using List.reverseRecOn with
  | nil => exact InOrder.nil _
  | append_singleton pieces p ih =>
    obtain ⟨hinit, hp⟩ := h.init
    have hmarks : InOrder (layoutTokens pieces ++ p.marks)
        (byteLength (layoutText pieces ++ p.gap)) := by
      rcases hp.marks with hnil | ⟨-, hline⟩
      · rw [hnil, List.append_nil]
        refine (ih hinit).mono ?_
        rw [byteLength_append]; omega
      · exact hline.inOrder (ih hinit)
    have htoken : InOrder (layoutTokens (pieces ++ [p]))
        (byteLength (layoutText pieces ++ p.gap)) := by
      rw [layoutTokens_snoc]
      refine hmarks.append (Nat.le_refl _) ?_
      intro u hu
      rw [List.mem_singleton.1 hu, hp.origin]
    refine htoken.mono ?_
    simp only [layoutText_snoc, byteLength_append]; omega

namespace Lexer

/-! ## Runs -/

/-- The dedent at the end of the text. -/
def lastDedent (source : Source) : Token := ⟨.dedent, ⟨source, source.size⟩⟩

/-- How far the text has been laid out when `ts` has been returned and the lexer is at `l`. -/
inductive Covered (ts : List Token) (l : Lexer) : Prop
  /-- Up to the cursor. -/
  | reading (pieces : List Piece) (hts : ts = layoutTokens pieces)
      (hlaid : Laid l.source l.config.comments pieces)
      (hat : l.cursor.At l.source (layoutText pieces)) (hq : l.pending = [])
      (hs : l.atLineStart = true → AtBreak (layoutText pieces))
  /-- Up to the gap before the first token of a line, whose marks are being returned. -/
  | marking (pieces : List Piece) (marks : List Token) (gap : List Char) (c : Char)
      (cs : List Char) (hts : ts = layoutTokens pieces ++ marks)
      (hlaid : Laid l.source l.config.comments pieces)
      (hat : l.cursor.At l.source (layoutText pieces ++ gap))
      (hgap : IsGap l.config.comments gap l.cursor.rest)
      (hmarks : MarksLine l.source (layoutText pieces) gap (marks ++ l.pending))
      (hs : l.atLineStart = false) (hr : l.cursor.rest = c :: cs)
      (hc : beginsToken l.config.comments c = true)
  /-- Up to the gap at the end of the text. -/
  | closing (pieces : List Piece) (gap : List Char) (m n : Nat)
      (hts : ts = layoutTokens pieces ++ List.replicate m (lastDedent l.source))
      (hlaid : Laid l.source l.config.comments pieces)
      (htext : l.source.chars = layoutText pieces ++ gap) (hgap : IsGap l.config.comments gap [])
      (hq : l.pending = List.replicate n (lastDedent l.source) ++ [l.endToken])

theorem start_covered (source : Source) (config : Config) : Covered [] (start source config) :=
  .reading [] rfl laid_nil (start_cursorAt source config) rfl fun _ => Or.inl rfl

/-- Nothing being queued, the text is laid out up to the gap that the next scan skips. -/
theorem Covered.settled {ts : List Token} {l : Lexer} (h : Covered ts l) (hq : l.pending = []) :
    ∃ pieces marks gap, ts = layoutTokens pieces ++ marks ∧
      Laid l.source l.config.comments pieces ∧
      l.settled.cursor.At l.source (layoutText pieces ++ gap) ∧
      IsGap l.config.comments gap l.settled.cursor.rest ∧
      (marks = [] ∨ MarksLine l.source (layoutText pieces) gap marks ∧
        ∃ c cs, l.settled.cursor.rest = c :: cs ∧ beginsToken l.config.comments c = true) := by
  cases h with
  | reading pieces hts hlaid hat _ hs =>
    obtain ⟨-, hgap, -⟩ := l.settled_spec
    exact ⟨pieces, [], l.skipped, by simpa using hts, hlaid, settled_cursorAt hat, hgap, Or.inl rfl⟩
  | marking pieces marks gap c cs hts hlaid hat hgap hmarks hs hr hc =>
    rw [hq, List.append_nil] at hmarks
    have hcursor := settled_of_beginsToken hr hc
    refine ⟨pieces, marks, gap, hts, hlaid, ?_, ?_, Or.inr ⟨hmarks, c, cs, ?_, hc⟩⟩
    · rw [hcursor]; exact hat
    · rw [hcursor]; exact hgap
    · rw [hcursor]; exact hr
  | closing _ _ _ _ _ _ _ _ hq' => rw [hq] at hq'; simp at hq'

theorem Covered.lineStart {ts : List Token} {l : Lexer} (h : Covered ts l) (hq : l.pending = [])
    (hs : l.atLineStart = true) :
    ∃ pieces, ts = layoutTokens pieces ∧ Laid l.source l.config.comments pieces ∧
      l.cursor.At l.source (layoutText pieces) ∧ AtBreak (layoutText pieces) := by
  cases h with
  | reading pieces hts hlaid hat _ hbreak => exact ⟨pieces, hts, hlaid, hat, hbreak hs⟩
  | marking _ _ _ _ _ _ _ _ _ _ hs' => rw [hs] at hs'; cases hs'
  | closing _ _ _ _ _ _ _ _ hq' => rw [hq] at hq'; simp at hq'

theorem Covered.atEnd {ts : List Token} {l : Lexer} (h : Covered ts l) (hq : l.pending = [])
    (hr : l.settled.cursor.rest = []) :
    ∃ pieces gap, ts = layoutTokens pieces ∧ Laid l.source l.config.comments pieces ∧
      l.settled.cursor.At l.source (layoutText pieces ++ gap) ∧
      IsGap l.config.comments gap [] := by
  obtain ⟨pieces, marks, gap, rfl, hlaid, hat, hgap, rfl | ⟨-, c, cs, hr', -⟩⟩ := h.settled hq
  · rw [hr] at hgap
    exact ⟨pieces, gap, List.append_nil _, hlaid, hat, hgap⟩
  · rw [hr] at hr'; cases hr'

/-- The line that is measured starts in the skipped gap, and what it causes stands there. -/
theorem exists_lineStart {l : Lexer} {line : Line} {before : List Char} (hs : l.atLineStart = true)
    (hl : l.nextLine? = some line) (hat : l.cursor.At l.source before) (hbreak : AtBreak before) :
    ∃ lead indentation, l.skipped = lead ++ indentation ∧ AtBreak (before ++ lead) ∧
      '\n' ∉ indentation ∧
      l.source.origin line.start = ⟨l.source, byteLength (before ++ lead)⟩ := by
  obtain ⟨lead, indentation, c, cs, hskip, hlead, hfeed, -, hr, -, rfl⟩ := nextLine?_spec hs hl
  refine ⟨lead, indentation, hskip, hlead.append hbreak, hfeed, ?_⟩
  have hstart : l.cursor.offset + byteLength lead = byteLength (before ++ lead) := by
    rw [hat.offset, byteLength_append]
  have htext := (settled_cursorAt hat).text
  rw [hskip] at htext
  rw [hstart]
  exact Source.origin_of_boundary ⟨indentation ++ l.settled.cursor.rest, by rw [htext]; simp⟩

theorem endToken_eq (l : Lexer) : l.endToken = ⟨.endOfInput, ⟨l.source, l.source.size⟩⟩ := by
  have horigin : l.source.origin l.source.size = ⟨l.source, l.source.size⟩ :=
    Source.origin_of_boundary List.prefix_rfl
  rw [endToken, horigin]

theorem Covered.read {ts : List Token} {l : Lexer} {lexeme rest : List Char}
    {content : Token.Content} (h : Covered ts l) (hq : l.pending = [])
    (hr : l.settled.cursor.rest = lexeme ++ rest)
    (hlexeme : Spells lexeme content ∨ lexeme = ['\n'] ∧ content = .newline) :
    ∃ pieces before, ts ++ [⟨content, l.source.origin l.settled.cursor.offset⟩] =
        layoutTokens pieces ∧
      Laid l.source l.config.comments pieces ∧ layoutText pieces = before ++ lexeme ∧
      (l.settled.cursor.advance lexeme).At l.source (layoutText pieces) := by
  obtain ⟨pieces, marks, gap, rfl, hlaid, hat, hgap, hmarks⟩ := h.settled hq
  let p : Piece := ⟨marks, gap, lexeme, ⟨content, l.source.origin l.settled.cursor.offset⟩⟩
  have htext : layoutText (pieces ++ [p]) = layoutText pieces ++ gap ++ lexeme :=
    layoutText_snoc pieces p
  refine ⟨pieces ++ [p], layoutText pieces ++ gap, ?_, hlaid.snoc ⟨?_, hlexeme, hat.origin, ?_⟩,
    htext, ?_⟩
  · simp [p]
  · rw [hr] at hgap
    refine hgap.of_head ?_
    rcases hlexeme with hs | ⟨rfl, -⟩
    · obtain ⟨c, cs, rfl⟩ := List.exists_cons_of_ne_nil hs.ne_nil
      rfl
    · rfl
  · -- No line ends right after its marks.
    rcases hmarks with hnil | ⟨hline, c, cs, hr', hc⟩
    · exact Or.inl hnil
    · refine Or.inr ⟨?_, hline⟩
      rcases hlexeme with hs | ⟨rfl, -⟩
      · exact hs.isVisible
      · rw [hr] at hr'
        cases hr'
        exact absurd rfl (ne_lineFeed_of_beginsToken hc)
  · rw [htext]; exact hat.advance hr

/-- At a line start the marks of the line are the first to be returned. -/
theorem Covered.mark {ts queue : List Token} {l : Lexer} {line : Line} {t : Token}
    (h : Covered ts l) (hq : l.pending = []) (hs : l.atLineStart = true)
    (hl : l.nextLine? = some line)
    (hmarks : ∀ m ∈ t :: queue, (m.content = .indent ∨ m.content = .dedent) ∧
      m.origin = l.source.origin line.start) (blocks : Blocks) :
    Covered (ts ++ [t]) { l.settled with blocks, pending := queue } := by
  obtain ⟨pieces, rfl, hlaid, hat, hbreak⟩ := h.lineStart hq hs
  obtain ⟨lead, indentation, hskip, hlead, hfeed, horigin⟩ := exists_lineStart hs hl hat hbreak
  obtain ⟨-, -, c, cs, -, -, -, -, hr, hc, -⟩ := nextLine?_spec hs hl
  obtain ⟨-, hgap, -⟩ := l.settled_spec
  rw [horigin] at hmarks
  exact .marking pieces [t] l.skipped c cs rfl hlaid (settled_cursorAt hat) hgap
    ⟨lead, indentation, hskip, hlead, hfeed, hmarks⟩ rfl hr hc

/-- A move that goes on lays out what it takes. -/
theorem Move.covered {ts : List Token} {l : Lexer} {s : Step} {t : Token} (h : Move l s)
    (ht : s.result = .ok t) (hne : t.content ≠ .endOfInput) (hc : Covered ts l) :
    Covered (ts ++ [t]) s.lexer := by
  cases h with
  | @dequeue _ queue hq =>
    cases ht
    cases hc with
    | reading _ _ _ _ hq' => rw [hq] at hq'; cases hq'
    | marking pieces marks gap c cs hts hlaid hat hgap hmarks hs hr hc =>
      refine .marking pieces (marks ++ [t]) gap c cs ?_ hlaid hat hgap ?_ hs hr hc
      · rw [hts, List.append_assoc]
      · rw [hq] at hmarks; simpa using hmarks
    | closing pieces gap m n hts hlaid htext hgap hq' =>
      rw [hq] at hq'
      cases n with
      | zero => cases hq'; exact absurd rfl hne
      | succ n =>
        rw [List.replicate_succ, List.cons_append] at hq'
        obtain ⟨rfl, hqueue⟩ := List.cons.inj hq'
        refine .closing pieces gap (m + 1) n ?_ hlaid htext hgap hqueue
        rw [hts, List.append_assoc, List.replicate_succ']
  | indent hq hs hl =>
    cases ht
    refine hc.mark hq hs hl ?_ _
    intro m hm
    rw [show l.settled.pending = [] from hq] at hm
    rw [List.mem_singleton.1 hm]
    exact ⟨Or.inl rfl, rfl⟩
  | dedent hq hs hl =>
    cases ht
    refine hc.mark hq hs hl ?_ _
    intro m hm
    rw [← List.replicate_succ] at hm
    rw [List.eq_of_mem_replicate hm]
    exact ⟨Or.inr rfl, rfl⟩
  | newline hq hs hr =>
    cases ht
    obtain ⟨pieces, before, hts, hlaid, htext, hat⟩ := hc.read hq hr (Or.inr ⟨rfl, rfl⟩)
    exact .reading pieces hts hlaid hat hq fun _ => by rw [htext]; exact Or.inr (by simp)
  | @token c cs content hq hs hr _ hok =>
    cases ht
    obtain ⟨rest, hrest⟩ := Lexeme.read_isPrefix c cs
    obtain ⟨pieces, before, hts, hlaid, -, hat⟩ :=
      hc.read hq (hr.trans hrest.symm) (Or.inl (Lexeme.read_spells hok))
    exact .reading pieces hts hlaid hat hq nofun
  | @unwind n hq hr =>
    cases ht
    obtain ⟨pieces, gap, hts, hlaid, hat, hgap⟩ := hc.atEnd hq hr
    obtain ⟨htext, horigin⟩ := hat.atEnd hr
    refine .closing pieces gap 1 n ?_ hlaid htext hgap ?_
    · rw [hts, horigin]; rfl
    · rw [horigin]; rfl
  | finish => cases ht; exact absurd rfl hne
  | badIndent | fail => cases ht

theorem Run.covered {source : Source} {config : Config} {visited : List Lexer} {l : Lexer}
    (h : Run (start source config) visited l) (hl : l.phase = .scanning) :
    Covered (returned (visited.map nextToken)) l :=
  h.returned_induction (start_covered source config)
    (fun hmove ht hne hc => hmove.covered ht hne hc) hl

/-- The call that returns the end of input finds the whole text laid out. -/
theorem Move.covered_end {ts : List Token} {l : Lexer} {s : Step} {t : Token} (h : Move l s)
    (ht : s.result = .ok t) (hend : t.content = .endOfInput) (hc : Covered ts l) :
    ∃ pieces gap n, ts ++ [t] = layoutTokens pieces ++ List.replicate n (lastDedent l.source) ++
        [⟨.endOfInput, ⟨l.source, l.source.size⟩⟩] ∧
      Laid l.source l.config.comments pieces ∧ l.source.chars = layoutText pieces ++ gap ∧
      IsGap l.config.comments gap [] := by
  rw [← endToken_eq]
  cases h with
  | dequeue hq =>
    cases ht
    cases hc with
    | reading _ _ _ _ hq' => rw [hq] at hq'; cases hq'
    | marking _ _ _ _ _ _ _ _ _ hmarks =>
      obtain ⟨lead, _, -, -, -, hmarks⟩ := hmarks
      obtain ⟨hm | hm, -⟩ := hmarks t (by rw [hq]; simp) <;> rw [hend] at hm <;> cases hm
    | closing pieces gap m n hts hlaid htext hgap hq' =>
      rw [hq] at hq'
      cases n with
      | zero => cases hq'; exact ⟨pieces, gap, m, by rw [hts], hlaid, htext, hgap⟩
      | succ n => cases hq'; cases hend
  | finish hq hr =>
    cases ht
    obtain ⟨pieces, gap, hts, hlaid, hat, hgap⟩ := hc.atEnd hq hr
    exact ⟨pieces, gap, 0, by rw [hts]; simp, hlaid, (hat.atEnd hr).1, hgap⟩
  | token _ _ _ _ hok => cases ht; exact absurd hend (Lexeme.read_spells hok).ne_endOfInput
  | indent | dedent | newline | unwind => cases ht; cases hend
  | badIndent | fail => cases ht

/-- A call that fails finds the text laid out up to the place it reports. -/
theorem Move.covered_error {ts : List Token} {l : Lexer} {s : Step} {e : LexError} (h : Move l s)
    (he : s.result = .error e) (hc : Covered ts l) :
    ∃ pieces marks gap rest, ts = layoutTokens pieces ++ marks ∧
      Laid l.source l.config.comments pieces ∧
      l.source.chars = layoutText pieces ++ gap ++ rest ∧ IsGap l.config.comments gap rest ∧
      e.origin = ⟨l.source, byteLength (layoutText pieces ++ gap)⟩ ∧
      (marks = [] ∨ MarksLine l.source (layoutText pieces) gap marks) := by
  cases h with
  | badIndent hq hs hl =>
    cases he
    obtain ⟨pieces, hts, hlaid, hat, hbreak⟩ := hc.lineStart hq hs
    obtain ⟨lead, indentation, hskip, hlead, -, horigin⟩ := exists_lineStart hs hl hat hbreak
    obtain ⟨-, hgap, -⟩ := l.settled_spec
    have htext := (settled_cursorAt hat).text
    rw [hskip] at hgap htext
    exact ⟨pieces, [], lead, indentation ++ l.settled.cursor.rest, by simpa using hts, hlaid,
      by rw [htext]; simp, (hgap.split hlead.of_append).1, horigin, Or.inl rfl⟩
  | fail hq hs hr =>
    cases he
    obtain ⟨pieces, marks, gap, hts, hlaid, hat, hgap, hmarks⟩ := hc.settled hq
    exact ⟨pieces, marks, gap, l.settled.cursor.rest, hts, hlaid, hat.text, hgap, hat.origin,
      hmarks.imp id And.left⟩
  | dequeue | indent | dedent | newline | token | unwind | finish => cases he

/-- **Coverage.** The source of a stream that ends is gaps and lexemes in turn. The lexemes are
those of the tokens, in their order and at their offsets. The indents and dedents of a line stand
where it starts, and what closes the stream stands at the end. If the stream fails, this holds of
the part before the error and of the tokens returned before it. -/
theorem source_covered (source : Source) (config : Config) :
    (∀ ts, tokenize source config = some (.ok ts) →
      ∃ pieces last n, source.chars = layoutText pieces ++ last ∧
        IsGap config.comments last [] ∧ Laid source config.comments pieces ∧
        (∀ p ∈ pieces, p.lexeme ≠ []) ∧
        ts = layoutTokens pieces ++ List.replicate n (lastDedent source) ++
          [⟨.endOfInput, ⟨source, source.size⟩⟩] ∧
        InOrder ts source.size) ∧
    ∀ e, tokenize source config = some (.error e) →
      ∃ pieces last marks rest, source.chars = layoutText pieces ++ last ++ rest ∧
        e.origin = ⟨source, byteLength (layoutText pieces ++ last)⟩ ∧
        IsGap config.comments last rest ∧ Laid source config.comments pieces ∧
        (∀ p ∈ pieces, p.lexeme ≠ []) ∧
        returned (start source config).steps = layoutTokens pieces ++ marks ∧
        (marks = [] ∨ MarksLine source (layoutText pieces) last marks) ∧
        InOrder (returned (start source config).steps) e.origin.offset := by
  refine ⟨?_, ?_⟩
  · intro ts hts
    obtain ⟨visited, l, t, hrun, hl, ht, hend, rfl⟩ := exists_run_of_tokenize_ok hts
    obtain ⟨s, hmove, hresult, -⟩ := exists_move hl.1
    obtain ⟨pieces, last, n, hlast, hlaid, htext, hgap⟩ :=
      hmove.covered_end (hresult.symm.trans ht) hend (hrun.covered hl.1)
    rw [show l.source = source from hrun.source] at hlast hlaid htext
    rw [show l.config = config from hrun.config] at hlaid hgap
    refine ⟨pieces, last, n, htext, hgap, hlaid, hlaid.lexeme_ne_nil, hlast, ?_⟩
    have hsize : byteLength (layoutText pieces) ≤ source.size := by
      rw [Source.size, htext, byteLength_append]; omega
    rw [hlast, List.append_assoc]
    refine hlaid.inOrder.append hsize ?_
    intro u hu
    rcases List.mem_append.1 hu with hu | hu
    · rw [List.eq_of_mem_replicate hu, lastDedent]
    · rw [List.mem_singleton.1 hu]
  · intro e he
    obtain ⟨visited, l, hrun, hl, herr, hreturned⟩ := exists_run_of_tokenize_error he
    obtain ⟨s, hmove, hresult, -⟩ := exists_move hl.1
    obtain ⟨pieces, marks, last, rest, hts, hlaid, htext, hgap, horigin, hmarks⟩ :=
      hmove.covered_error (hresult.symm.trans herr) (hrun.covered hl.1)
    rw [show l.source = source from hrun.source] at hlaid htext horigin hmarks
    rw [show l.config = config from hrun.config] at hlaid hgap
    rw [hreturned]
    refine ⟨pieces, last, marks, rest, htext, horigin, hgap, hlaid, hlaid.lexeme_ne_nil, hts,
      hmarks, ?_⟩
    rw [hts, horigin]
    rcases hmarks with rfl | hmarks
    · rw [List.append_nil]
      refine hlaid.inOrder.mono ?_
      simp only [byteLength_append]; omega
    · exact hmarks.inOrder hlaid.inOrder

/-- A comment, an indented line and a block that the end of the text closes. -/
def commentSample : Source := ⟨"sample", "a # c\n  b\n"⟩

/-- An indented line that starts with a character of no token. -/
def strangeSample : Source := ⟨"sample", "a\n  ?"⟩

def commentTokens : List Token :=
  [⟨.identifier "a", ⟨commentSample, 0⟩⟩, ⟨.newline, ⟨commentSample, 5⟩⟩,
   ⟨.indent, ⟨commentSample, 6⟩⟩, ⟨.identifier "b", ⟨commentSample, 8⟩⟩,
   ⟨.newline, ⟨commentSample, 9⟩⟩, ⟨.dedent, ⟨commentSample, 10⟩⟩,
   ⟨.endOfInput, ⟨commentSample, 10⟩⟩]

theorem source_covered_samples :
    (tokenize commentSample {} = some (.ok commentTokens) ∧
      ∃ pieces last n, commentSample.chars = layoutText pieces ++ last ∧
        IsGap true last [] ∧ Laid commentSample true pieces ∧
        commentTokens = layoutTokens pieces ++ List.replicate n (lastDedent commentSample) ++
          [⟨.endOfInput, ⟨commentSample, 10⟩⟩]) ∧
    tokenize strangeSample {} = some (.error ⟨.unknownSymbol '?', ⟨strangeSample, 4⟩⟩) ∧
      ∃ pieces last marks rest, strangeSample.chars = layoutText pieces ++ last ++ rest ∧
        4 = byteLength (layoutText pieces ++ last) ∧ Laid strangeSample true pieces ∧
        returned (start strangeSample {}).steps = layoutTokens pieces ++ marks := by
  have hok : tokenize commentSample {} = some (.ok commentTokens) := by decide +kernel
  have herr : tokenize strangeSample {} =
      some (.error ⟨.unknownSymbol '?', ⟨strangeSample, 4⟩⟩) := by decide +kernel
  obtain ⟨pieces, last, n, htext, hgap, hlaid, -, hts, -⟩ :=
    (source_covered commentSample {}).1 _ hok
  obtain ⟨pieces', last', marks, rest, htext', horigin, -, hlaid', -, hts', -⟩ :=
    (source_covered strangeSample {}).2 _ herr
  exact ⟨⟨hok, pieces, last, n, htext, hgap, hlaid, hts⟩, herr, pieces', last', marks, rest, htext',
    congrArg Origin.offset horigin, hlaid', hts'⟩

end Lexer

end Offside
