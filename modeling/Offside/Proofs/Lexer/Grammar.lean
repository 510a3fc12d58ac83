import Offside.Proofs.Lexer.Stream

/-!
# The grammar of a run

The tokens that a lexer returns form a well formed stream. `Tallied` ties its open blocks and
brackets to the tokens returned so far, and `Stage` says where in the grammar it stands; every move
keeps both.

Results:
* `Lexer.Run.stage`: where in the grammar a run stands.
* `Lexer.stream_grammar`: a stream that ends is well formed, and one that fails is the start of a
  well formed one.
-/

namespace Offside

namespace Lexer

/-! ## Counts -/

theorem depthAfter_content (depth : Nat) (t : Token) :
    depthAfter depth t.content = bracketStep depth t := by
  unfold bracketStep
  cases t.content with
  | symbol s => cases s <;> rfl
  | _ => rfl

/-- The open blocks and brackets of a lexer are those of the tokens returned, the queued dedents
being yet to come. -/
structure Tallied (ts : List Token) (l : Lexer) : Prop where
  queue : ∀ t ∈ l.pending, t.content = .dedent ∨ t.content = .endOfInput
  nested : Nested ts (l.blocks.length + dedents l.pending)
  depth : l.depth = bracketDepth ts

theorem start_tallied (source : Source) (config : Config) : Tallied [] (start source config) where
  queue := nofun
  nested := nested_nil
  depth := rfl

theorem Move.tallied {ts : List Token} {l : Lexer} {s : Step} {t : Token} (h : Move l s)
    (ht : s.result = .ok t) (hc : Tallied ts l) : Tallied (ts ++ [t]) s.lexer := by
  have hqueue := h.pending_layout hc.queue
  have hnested := hc.nested
  have hdepth := hc.depth
  have hlayout : ∀ {u : Token}, u.content.isVisible = false →
      l.depth = bracketDepth (ts ++ [u]) := by
    intro u hu
    rw [bracketDepth_snoc, bracketStep_of_layout hu, hdepth]
  cases h with
  | @dequeue _ queue hq =>
    cases ht
    have hmem : t ∈ l.pending := by rw [hq]; simp
    refine ⟨hqueue, hnested.snoc ?_, hlayout ?_⟩
    · rw [hq]
      rcases hc.queue t hmem with hcontent | hcontent
      · simp [indents, dedents, hcontent]; omega
      · simp [indents, dedents, hcontent]
    · rcases hc.queue t hmem with hcontent | hcontent <;> rw [hcontent] <;> rfl
  | indent hq =>
    cases ht
    refine ⟨hqueue, hnested.snoc ?_, hlayout rfl⟩
    simp [settled, hq, indents, dedents]
  | @dedent _ kept n hq _ _ _ _ hn =>
    cases ht
    refine ⟨hqueue, hnested.snoc ?_, hlayout rfl⟩
    simp only [hq, hn, dedents_replicate]
    simp [indents, dedents]; omega
  | newline hq =>
    cases ht
    refine ⟨hqueue, hnested.snoc ?_, hlayout rfl⟩
    simp [settled, hq, indents, dedents]
  | @token _ _ content hq _ _ _ hok =>
    cases ht
    have hvisible := (Lexeme.read_spells hok).isVisible
    refine ⟨hqueue, hnested.snoc ?_, ?_⟩
    · have hi : content ≠ .indent := by rintro rfl; cases hvisible
      have hd : content ≠ .dedent := by rintro rfl; cases hvisible
      simp [settled, hq, indents, dedents, hi, hd]
    · rw [bracketDepth_snoc, ← depthAfter_content, ← hdepth]
  | @unwind n hq _ hb =>
    cases ht
    refine ⟨hqueue, hnested.snoc ?_, hlayout rfl⟩
    have hend : dedents [l.endToken] = 0 := by simp [dedents, endToken]
    simp only [hq, hb, dedents_append, dedents_replicate, hend]
    simp [indents, dedents]
  | finish hq _ hb =>
    cases ht
    refine ⟨hqueue, hnested.snoc ?_, hlayout rfl⟩
    simp [settled, endToken, hq, indents, dedents]
  | badIndent | fail => cases ht

/-! ## Stages -/

/-- Where in the grammar the lexer stands after the tokens `ts`. -/
inductive Stage (ts : List Token) (l : Lexer) : Prop
  /-- Before a line. -/
  | lineStart (hts : IsLines l.config.joinsLines ts) (hq : l.pending = [])
      (hs : l.atLineStart = true)
  /-- In the head of a line, with a visible token to come. -/
  | marked (lines marks : List Token) (c : Char) (cs : List Char) (hts : ts = lines ++ marks)
      (hlines : IsLines l.config.joinsLines lines) (hhead : IsHead (marks ++ l.pending))
      (hs : l.atLineStart = false) (hr : l.cursor.rest = c :: cs)
      (hc : beginsToken l.config.comments c = true)
  /-- In a line, after a visible token. -/
  | inside (lines line : List Token) (hts : ts = lines ++ line)
      (hlines : IsLines l.config.joinsLines lines) (hline : IsOpenLine line) (hq : l.pending = [])
      (hs : l.atLineStart = false)
  /-- After all lines. -/
  | closing (lines last closing queue : List Token) (hts : ts = lines ++ last ++ closing)
      (hlines : IsLines l.config.joinsLines lines) (hlast : last = [] ∨ IsOpenLine last)
      (hclosing : ∀ d ∈ closing ++ queue, d.content = .dedent)
      (hq : l.pending = queue ++ [l.endToken]) (hb : l.blocks = [])

theorem start_stage (source : Source) (config : Config) : Stage [] (start source config) :=
  .lineStart (isLines_nil _) rfl rfl

section

variable {ts : List Token} {l : Lexer}

/-- Nothing being queued, a visible token goes on with the line or starts it. -/
theorem Stage.read {t : Token} (h : Stage ts l) (hq : l.pending = [])
    (ht : t.content.isVisible = true) :
    ∃ lines line, ts ++ [t] = lines ++ line ∧ IsLines l.config.joinsLines lines ∧
      IsOpenLine line := by
  have hbody : ∀ u ∈ [t], u.content.isVisible = true := by simpa using ht
  cases h with
  | lineStart hts => exact ⟨ts, [t], rfl, hts, [], [t], rfl, Or.inr nofun, by simp, hbody⟩
  | marked lines marks c cs hts hlines hhead =>
    rw [hq, List.append_nil] at hhead
    exact ⟨lines, marks ++ [t], by rw [hts, List.append_assoc], hlines, marks, [t], rfl, hhead,
      by simp, hbody⟩
  | inside lines line hts hlines hline =>
    obtain ⟨marks, body, rfl, hhead, -, hbody'⟩ := hline
    refine ⟨lines, marks ++ (body ++ [t]), by simp [hts], hlines, marks, body ++ [t], rfl, hhead,
      by simp, ?_⟩
    intro u hu
    rcases List.mem_append.1 hu with hu | hu
    · exact hbody' u hu
    · exact hbody u hu
  | closing _ _ _ _ _ _ _ _ hq' => rw [hq] at hq'; simp at hq'

theorem Stage.isLines (h : Stage ts l) (hq : l.pending = []) (hs : l.atLineStart = true) :
    IsLines l.config.joinsLines ts := by
  cases h with
  | lineStart hts => exact hts
  | marked _ _ _ _ _ _ _ hs' | inside _ _ _ _ _ _ hs' => rw [hs] at hs'; cases hs'
  | closing _ _ _ _ _ _ _ _ hq' => rw [hq] at hq'; simp at hq'

/-- Where no token is to come all lines are whole, but for one that is being read. -/
theorem Stage.lines (h : Stage ts l) (hq : l.pending = [])
    (hr : ∀ c cs, l.settled.cursor.rest = c :: cs → beginsToken l.config.comments c = false) :
    ∃ lines last, ts = lines ++ last ∧ IsLines l.config.joinsLines lines ∧
      (last = [] ∧ l.atLineStart = true ∨ IsOpenLine last) := by
  cases h with
  | lineStart hts _ hs => exact ⟨ts, [], by simp, hts, Or.inl ⟨rfl, hs⟩⟩
  | marked _ _ c cs _ _ _ _ hr' hc =>
    rw [← settled_of_beginsToken hr' hc] at hr'
    rw [hr c cs hr'] at hc; cases hc
  | inside lines line hts hlines hline => exact ⟨lines, line, hts, hlines, Or.inr hline⟩
  | closing _ _ _ _ _ _ _ _ hq' => rw [hq] at hq'; simp at hq'

theorem Stage.atEnd (h : Stage ts l) (hq : l.pending = []) (hr : l.settled.cursor.rest = []) :
    ∃ lines last, ts = lines ++ last ∧ IsLines l.config.joinsLines lines ∧
      (last = [] ∨ IsOpenLine last) := by
  have hnone : ∀ c cs, l.settled.cursor.rest = c :: cs →
      beginsToken l.config.comments c = false := by
    intro c cs hr'
    rw [hr] at hr'; cases hr'
  obtain ⟨lines, last, hts, hlines, hlast⟩ := h.lines hq hnone
  exact ⟨lines, last, hts, hlines, hlast.imp And.left id⟩

end

/-- A move that goes on follows the grammar. -/
theorem Move.stage {ts : List Token} {l : Lexer} {s : Step} {t : Token} (h : Move l s)
    (ht : s.result = .ok t) (hne : t.content ≠ .endOfInput) (htally : Tallied ts l)
    (hstage : Stage ts l) : Stage (ts ++ [t]) s.lexer := by
  cases h with
  | @dequeue _ queue hq =>
    cases ht
    cases hstage with
    | lineStart _ hq' | inside _ _ _ _ _ hq' => rw [hq] at hq'; cases hq'
    | marked lines marks c cs hts hlines hhead hs hr hc =>
      refine .marked lines (marks ++ [t]) c cs ?_ hlines ?_ hs hr hc
      · rw [hts, List.append_assoc]
      · rw [hq] at hhead; simpa using hhead
    | closing lines last closing left hts hlines hlast hclosing hq' hb =>
      rw [hq] at hq'
      cases left with
      | nil => cases hq'; exact absurd rfl hne
      | cons d left =>
        obtain ⟨rfl, hqueue⟩ := List.cons.inj hq'
        refine .closing lines last (closing ++ [t]) left ?_ hlines hlast ?_ hqueue hb
        · rw [hts, List.append_assoc]
        · simpa using hclosing
  | indent hq hs hl =>
    cases ht
    obtain ⟨-, -, c, cs, -, -, -, -, hr, hc, -⟩ := nextLine?_spec hs hl
    refine .marked ts [_] c cs rfl (hstage.isLines hq hs) (Or.inl ?_) rfl hr hc
    rw [show l.settled.pending = [] from hq]; rfl
  | @dedent line _ n hq hs hl =>
    cases ht
    obtain ⟨-, -, c, cs, -, -, -, -, hr, hc, -⟩ := nextLine?_spec hs hl
    refine .marked ts [_] c cs rfl (hstage.isLines hq hs) (Or.inr ?_) rfl hr hc
    intro m hm
    rw [List.singleton_append, ← List.replicate_succ] at hm
    rw [List.eq_of_mem_replicate hm]
  | newline hq hs hr hj =>
    cases ht
    have hfeed : ∀ c cs, l.settled.cursor.rest = c :: cs →
        beginsToken l.config.comments c = false := by
      intro c cs hr'
      rw [hr] at hr'
      cases hr'
      simp [beginsToken, isBlank_lineFeed]
    obtain ⟨lines, line, rfl, hlines, ⟨-, hs'⟩ | hline⟩ := hstage.lines hq hfeed
    · rw [hs] at hs'; cases hs'
    · have hdepth : l.config.joinsLines = true → bracketDepth line = 0 := by
        intro hjoins
        rw [hjoins] at hlines hj
        rw [← bracketDepth_append line hlines.bracketDepth, ← htally.depth]
        simpa using hj
      rw [List.append_assoc]
      exact .lineStart (hlines.snoc ⟨line, _, rfl, hline, rfl, hdepth⟩) hq rfl
  | token hq hs hr _ hok =>
    cases ht
    obtain ⟨lines, line, hts, hlines, hline⟩ :=
      hstage.read (t := ⟨_, l.source.origin l.settled.cursor.offset⟩) hq
        (Lexeme.read_spells hok).isVisible
    exact .inside lines line hts hlines hline hq rfl
  | @unwind n hq hr =>
    cases ht
    obtain ⟨lines, last, rfl, hlines, hlast⟩ := hstage.atEnd hq hr
    refine .closing lines last [_] (List.replicate n _) rfl hlines hlast ?_ rfl rfl
    intro d hd
    rw [List.singleton_append, ← List.replicate_succ] at hd
    rw [List.eq_of_mem_replicate hd]
  | finish => cases ht; exact absurd rfl hne
  | badIndent | fail => cases ht

theorem Run.stage {source : Source} {config : Config} {visited : List Lexer} {l : Lexer}
    (h : Run (start source config) visited l) (hl : l.phase = .scanning) :
    Tallied (returned (visited.map nextToken)) l ∧ Stage (returned (visited.map nextToken)) l :=
  h.returned_induction (motive := fun ts l => Tallied ts l ∧ Stage ts l)
    ⟨start_tallied source config, start_stage source config⟩
    (fun hmove ht hne hc => ⟨hmove.tallied ht hc.1, hmove.stage ht hne hc.1 hc.2⟩) hl

theorem Move.stream_end {ts : List Token} {l : Lexer} {s : Step} {t : Token} (h : Move l s)
    (ht : s.result = .ok t) (hend : t.content = .endOfInput) (htally : Tallied ts l)
    (hstage : Stage ts l) : IsStream l.config.joinsLines (ts ++ [t]) ∧ Nested (ts ++ [t]) 0 := by
  have hnested := (h.tallied ht htally).nested
  cases h with
  | @dequeue _ queue hq =>
    cases ht
    cases hstage with
    | lineStart _ hq' | inside _ _ _ _ _ hq' => rw [hq] at hq'; cases hq'
    | marked _ _ _ _ _ _ hhead =>
      rcases hhead.content (m := t) (by rw [hq]; simp) with hc | hc <;> rw [hend] at hc <;> cases hc
    | closing lines last closing left hts hlines hlast hclosing hq' hb =>
      rw [hq] at hq'
      cases left with
      | nil =>
        cases hq'
        rw [List.append_nil] at hclosing
        exact ⟨⟨lines, last, closing, _, by rw [hts], hlines, hlast, hclosing, rfl⟩,
          by simpa [hb, dedents] using hnested⟩
      | cons d left =>
        obtain ⟨rfl, -⟩ := List.cons.inj hq'
        rw [hclosing t (by simp)] at hend; cases hend
  | finish hq hr hb =>
    cases ht
    obtain ⟨lines, last, hts, hlines, hlast⟩ := hstage.atEnd hq hr
    exact ⟨⟨lines, last, [], _, by rw [hts, List.append_nil], hlines, hlast, by simp, rfl⟩,
      by simpa [settled, hq, hb, dedents] using hnested⟩
  | token _ _ _ _ hok => cases ht; exact absurd hend (Lexeme.read_spells hok).ne_endOfInput
  | indent | dedent | newline | unwind => cases ht; cases hend
  | badIndent | fail => cases ht

/-- With nothing queued the stream can be completed: by a visible token, dedents for the open blocks
and the end of input. -/
theorem Stage.completes {ts : List Token} {l : Lexer} (h : Stage ts l) (htally : Tallied ts l)
    (hq : l.pending = []) :
    ∃ more, IsStream l.config.joinsLines (ts ++ more) ∧ Nested (ts ++ more) 0 := by
  let comma : Token := ⟨.symbol .comma, l.endToken.origin⟩
  let d : Token := ⟨.dedent, l.endToken.origin⟩
  let closing := List.replicate l.blocks.length d
  have hopen : Nested ts l.blocks.length := by simpa [hq, dedents] using htally.nested
  have hcomma : Nested (ts ++ [comma]) l.blocks.length :=
    hopen.snoc (by simp [indents, dedents, comma])
  have hclosed : Nested (ts ++ [comma] ++ closing) 0 := hcomma.close rfl
  obtain ⟨lines, line, hts, hlines, hline⟩ := h.read (t := comma) hq rfl
  refine ⟨[comma] ++ closing ++ [l.endToken], ?_, ?_⟩
  · refine ⟨lines, line, closing, l.endToken, ?_, hlines, Or.inr hline, ?_, rfl⟩
    · rw [← hts]; simp
    · intro u hu
      rw [List.eq_of_mem_replicate hu]
  · have hall : Nested (ts ++ [comma] ++ closing ++ [l.endToken]) 0 :=
      hclosed.snoc (by simp [indents, dedents, endToken])
    simpa using hall

/-- What a run has returned is the start of a well formed stream, nothing being queued. -/
theorem Run.completes {source : Source} {config : Config} {visited : List Lexer} {l : Lexer}
    (h : Run (start source config) visited l) (hl : l.phase = .scanning) (hq : l.pending = []) :
    ∃ more, WellFormed config.joinsLines (returned (visited.map nextToken) ++ more) := by
  obtain ⟨htally, hstage⟩ := h.stage hl
  obtain ⟨more, hstream, hnested⟩ := hstage.completes htally hq
  rw [show l.config = config from h.config] at hstream
  exact ⟨more, hstream.wellFormed hnested⟩

theorem Move.pending_of_error {l : Lexer} {s : Step} {e : LexError} (h : Move l s)
    (he : s.result = .error e) : l.pending = [] := by
  cases h with
  | badIndent hq | fail hq => exact hq
  | dequeue | indent | dedent | newline | token | unwind | finish => cases he

/-- **Grammar.** The tokens of a stream that ends are well formed. If a stream fails or panics, the
tokens returned before are the start of a well formed stream. -/
theorem stream_grammar (source : Source) (config : Config) :
    (∀ ts, tokenize source config = some (.ok ts) → WellFormed config.joinsLines ts) ∧
    (∀ e, tokenize source config = some (.error e) →
      ∃ more, WellFormed config.joinsLines (returned (start source config).steps ++ more)) ∧
    (tokenize source config = none →
      ∃ more, WellFormed config.joinsLines (returned (start source config).steps ++ more)) := by
  refine ⟨?_, ?_, ?_⟩
  · intro ts hts
    obtain ⟨visited, l, t, hrun, hl, ht, hend, rfl⟩ := exists_run_of_tokenize_ok hts
    obtain ⟨s, hmove, hresult, -⟩ := exists_move hl.1
    obtain ⟨htally, hstage⟩ := hrun.stage hl.1
    obtain ⟨hstream, hnested⟩ := hmove.stream_end (hresult.symm.trans ht) hend htally hstage
    rw [show l.config = config from hrun.config] at hstream
    exact hstream.wellFormed hnested
  · intro e he
    obtain ⟨visited, l, hrun, hl, herr, hreturned⟩ := exists_run_of_tokenize_error he
    obtain ⟨s, hmove, hresult, -⟩ := exists_move hl.1
    rw [hreturned]
    exact hrun.completes hl.1 (hmove.pending_of_error (hresult.symm.trans herr))
  · intro hnone
    obtain ⟨visited, l, hrun, hover, hsteps⟩ := exists_run_of_tokenize_none hnone
    obtain ⟨hl, hq, -⟩ := overflows_eq_true.1 hover
    rw [hsteps]
    exact hrun.completes hl hq

/-- A bracket that joins two lines, and a block that the end of the text closes. -/
def joinedSample : Source := ⟨"sample", "f(\n)\n  g"⟩

/-- Unlike the first, the second line closes its block to a width that no block has. -/
def unalignedSample : Source := ⟨"sample", "  (\n)\n a"⟩

/-- Two tabs are one column too wide for a word. -/
def halfWordTabs : Config := { tabWidth := 0x8000000000000000 }

/-- With such tabs the first line can be measured and the second cannot. -/
def wideSample : Source := ⟨"sample", "\ta\n\t\tb"⟩

def joinedTokens : List Token :=
  [⟨.identifier "f", ⟨joinedSample, 0⟩⟩, ⟨.symbol .leftParen, ⟨joinedSample, 1⟩⟩,
   ⟨.symbol .rightParen, ⟨joinedSample, 3⟩⟩, ⟨.newline, ⟨joinedSample, 4⟩⟩,
   ⟨.indent, ⟨joinedSample, 5⟩⟩, ⟨.identifier "g", ⟨joinedSample, 7⟩⟩,
   ⟨.dedent, ⟨joinedSample, 8⟩⟩, ⟨.endOfInput, ⟨joinedSample, 8⟩⟩]

theorem stream_grammar_samples :
    (tokenize joinedSample {} = some (.ok joinedTokens) ∧ WellFormed true joinedTokens) ∧
    (tokenize unalignedSample {} = some (.error ⟨.badIndent 1, ⟨unalignedSample, 6⟩⟩) ∧
      ∃ more, WellFormed true (returned (start unalignedSample {}).steps ++ more)) ∧
    tokenize wideSample halfWordTabs = none ∧
      ∃ more, WellFormed true (returned (start wideSample halfWordTabs).steps ++ more) := by
  have hok : tokenize joinedSample {} = some (.ok joinedTokens) := by decide +kernel
  have herr : tokenize unalignedSample {} =
      some (.error ⟨.badIndent 1, ⟨unalignedSample, 6⟩⟩) := by decide +kernel
  have hnone : tokenize wideSample halfWordTabs = none := by decide +kernel
  exact ⟨⟨hok, (stream_grammar joinedSample {}).1 _ hok⟩,
    ⟨herr, (stream_grammar unalignedSample {}).2.1 _ herr⟩, hnone,
    (stream_grammar wideSample halfWordTabs).2.2 hnone⟩

end Lexer

end Offside
