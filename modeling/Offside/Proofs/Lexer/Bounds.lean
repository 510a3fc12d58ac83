import Offside.Proofs.Lexer.Offsets
import Offside.Proofs.Lexer.Skipping

/-!
# How long a stream is

Indents, dedents and the end of input take no text when they are returned, so the cursor alone does
not bound a stream. A line that opens a block has a blank of its own, though, and a block is closed
once: a byte that is left pays for two items, and an open block for one. Every call spends at least
one, and the end of the stream, or the call that panics, comes on top.

Results:
* `Lexer.Move.reserve_le`: what one call spends.
* `Lexer.length_items_le`: the items of a stream.
* `Lexer.Move.takes`, `Lexer.Move.takes_indentation`: the text that a token takes.
* `Lexer.pairwise_taken`: no text is taken twice.
* `Scanner.loops_end`: the loops of a scanner end.
* `Lexer.stream_bounded`: every stream ends or panics, after at most two items for each byte and
  one.
-/

namespace Offside

open Text

theorem Cursor.byteLength_advance {cursor : Cursor} {text rest : List Char}
    (h : cursor.rest = text ++ rest) :
    byteLength cursor.rest = byteLength text + byteLength (cursor.advance text).rest := by
  rw [Cursor.rest_advance h, h, byteLength_append]

theorem byteLength_pos {cs : List Char} (h : cs ≠ []) : 0 < byteLength cs :=
  Nat.lt_of_lt_of_le (List.length_pos_iff.2 h) (length_le_byteLength cs)

/-- An indent takes blanks, dedents and the end of input take nothing, and all else its text. -/
theorem Token.Content.kinds (content : Token.Content) :
    content = .indent ∨ (content = .dedent ∨ content = .endOfInput) ∨
      (content = .newline ∨ content.isVisible = true) := by
  cases content <;> simp [isVisible]

namespace Lexer

/-! ## What is left to return -/

/-- The items that the state of a lexer can pay for, but for the last: two for each byte, and one
for each block that is open or whose dedent is queued. -/
def reserve (l : Lexer) : Nat :=
  2 * byteLength l.cursor.rest + l.blocks.length + dedents l.pending

@[simp] theorem settled_pending (l : Lexer) : l.settled.pending = l.pending := rfl

@[simp] theorem settled_blocks (l : Lexer) : l.settled.blocks = l.blocks := rfl

theorem byteLength_settled (l : Lexer) :
    byteLength l.cursor.rest = byteLength l.skipped + byteLength l.settled.cursor.rest :=
  Cursor.byteLength_advance l.settled_spec.1

section

variable {l : Lexer} {s : Step}

theorem indentation_pos {line : Line} (hs : l.atLineStart = true) (hl : l.nextLine? = some line)
    (hw : l.blocks.top < line.width) : 0 < byteLength l.skipped := by
  obtain ⟨lead, indentation, -, -, hskip, -, -, -, -, -, rfl⟩ := nextLine?_spec hs hl
  have hne : indentation ≠ [] := by
    rintro rfl
    exact absurd hw (Nat.not_lt_zero _)
  have := byteLength_pos hne
  rw [hskip, byteLength_append]
  omega

/-- **One call.** Every call spends something, unless it ends the stream. -/
theorem Move.reserve_le (h : Move l s) (hqueue : l.Queued) :
    s.lexer.reserve ≤ l.reserve ∧
      ∀ t, s.result = .ok t → t.content ≠ .endOfInput → s.lexer.reserve < l.reserve := by
  have hsettled := l.byteLength_settled
  cases h with
  | @dequeue t queue hq =>
    rcases hqueue.cases hq with ⟨hd, -⟩ | ⟨rfl, rfl, -⟩
    · have hcount : dedents (t :: queue) = dedents queue + 1 := by simp [dedents, hd]
      simp only [reserve, hq, hcount]
      exact ⟨by omega, fun _ _ _ => by omega⟩
    · simp only [reserve, hq]
      refine ⟨by simp [dedents], fun t ht hne => ?_⟩
      cases ht
      exact absurd rfl hne
  | @indent line hq hs hl hw =>
    have hpos := indentation_pos hs hl hw
    have hspend : reserve { l.settled with blocks := line.width :: l.blocks } < l.reserve := by
      simp only [reserve, settled_pending, hq, List.length_cons]
      omega
    exact ⟨Nat.le_of_lt hspend, fun _ _ _ => hspend⟩
  | @dedent line kept n hq hs hl hw hk hn =>
    have hspend : 2 * byteLength l.settled.cursor.rest + kept.length +
        dedents (List.replicate n ⟨.dedent, l.source.origin line.start⟩) < l.reserve := by
      rw [dedents_replicate rfl, reserve, hq]
      omega
    exact ⟨Nat.le_of_lt hspend, fun _ _ _ => hspend⟩
  | badIndent =>
    have hkeep : l.settled.reserve ≤ l.reserve := by
      simp only [reserve, settled_pending, settled_blocks]; omega
    exact ⟨hkeep, by intros; contradiction⟩
  | @newline cs hq hs hr =>
    have hfeed : l.settled.cursor.rest = ['\n'] ++ cs := hr
    have hread := Cursor.byteLength_advance hfeed
    have hpos : byteLength ['\n'] = 1 := rfl
    have hspend : 2 * byteLength (l.settled.cursor.advance ['\n']).rest + l.blocks.length +
        dedents l.pending < l.reserve := by
      rw [reserve]; omega
    exact ⟨Nat.le_of_lt hspend, fun _ _ _ => hspend⟩
  | @token c cs content hq hs hr hc hok =>
    obtain ⟨rest, hrest⟩ := Lexeme.read_isPrefix c cs
    have hread := Cursor.byteLength_advance (hr.trans hrest.symm)
    have hpos := byteLength_pos (Lexeme.read_ne_nil hok)
    have hspend : 2 * byteLength (l.settled.cursor.advance (Lexeme.read c cs).text).rest +
        l.blocks.length + dedents l.pending < l.reserve := by
      rw [reserve]; omega
    exact ⟨Nat.le_of_lt hspend, fun _ _ _ => hspend⟩
  | @fail c cs cause hq hs hr =>
    obtain ⟨rest, hrest⟩ := Lexeme.read_isPrefix c cs
    have hread := Cursor.byteLength_advance (hr.trans hrest.symm)
    have hkeep : 2 * byteLength (l.settled.cursor.advance (Lexeme.read c cs).text).rest +
        l.blocks.length + dedents l.pending ≤ l.reserve := by
      rw [reserve]; omega
    exact ⟨hkeep, by intros; contradiction⟩
  | @unwind n hq hr hb =>
    have hcount : dedents (List.replicate n ⟨.dedent, l.source.origin l.settled.cursor.offset⟩ ++
        [l.endToken]) = n := by
      rw [dedents_append, dedents_replicate rfl]
      rfl
    have hspend : 2 * byteLength l.settled.cursor.rest + 0 +
        dedents (List.replicate n ⟨.dedent, l.source.origin l.settled.cursor.offset⟩ ++
          [l.endToken]) < l.reserve := by
      rw [hcount, reserve, hq, hb]
      omega
    exact ⟨Nat.le_of_lt hspend, fun _ _ _ => hspend⟩
  | finish =>
    have hkeep : l.settled.reserve ≤ l.reserve := by
      simp only [reserve, settled_pending, settled_blocks]; omega
    refine ⟨hkeep, fun t ht hne => ?_⟩
    cases ht
    exact absurd rfl hne

/-- What a lexer may still be asked for. -/
def credit (l : Lexer) : Nat := l.reserve + if l.phase = .scanning then 1 else 0

theorem credit_nextToken (hl : l.phase = .scanning) (hqueue : l.Queued) :
    l.nextToken.lexer.credit < l.credit := by
  obtain ⟨s, hmove, hresult, hlexer⟩ := exists_move hl
  obtain ⟨hkeep, hspend⟩ := hmove.reserve_le hqueue
  have hreserve : l.nextToken.lexer.reserve = s.lexer.reserve := by rw [hlexer]; rfl
  unfold credit
  rw [hreserve, if_pos hl]
  by_cases hnext : l.nextToken.lexer.phase = .scanning
  · obtain ⟨t, ht, hne⟩ := (phase_nextToken hl).1 hnext
    have := hspend t (hresult.symm.trans ht) hne
    rw [if_pos hnext]; omega
  · rw [if_neg hnext]; omega

theorem Queued.nextToken (h : l.Queued) (hl : l.phase = .scanning) : l.nextToken.lexer.Queued := by
  obtain ⟨s, hmove, -, hlexer⟩ := exists_move hl
  rw [hlexer]
  exact hmove.queued h

/-- **All calls.** A call that panics is paid for as well. -/
theorem length_items_le (l : Lexer) (hqueue : l.Queued) :
    l.items.length + (if l.panics then 1 else 0) ≤ l.credit := by
  rcases l.live_or with hl | ⟨hphase, hover⟩ | hended
  · have hlt := credit_nextToken hl.1 hqueue
    have hrest := length_items_le l.nextToken.lexer (hqueue.nextToken hl.1)
    rw [items_of_live hl, panics_of_live hl, List.length_cons]
    omega
  · rw [items_of_not_live (not_live_of_overflows hover), credit, if_pos hphase]
    split <;> simp
  · rw [items_of_not_live (not_live_of_ended hended), panics_of_ended hended]
    exact Nat.zero_le _
termination_by l.credit

/-! ## The text that a token takes -/

/-- From where to where a call takes text for the token that it returns. Dedents and the end of
input take none. -/
def taken? (l : Lexer) : Option (Nat × Nat) :=
  l.nextToken?.bind fun s =>
    match s.result with
    | .ok t =>
      if t.content = .dedent ∨ t.content = .endOfInput then none
      else some (t.origin.offset, s.lexer.cursor.offset)
    | .error _ => none

theorem taken?_of_ok {t : Token} (hl : l.overflows = false) (ht : l.nextToken.result = .ok t)
    (hcontent : ¬ (t.content = .dedent ∨ t.content = .endOfInput)) :
    l.taken? = some (t.origin.offset, l.nextToken.lexer.cursor.offset) := by
  rw [taken?, nextToken?_eq_some.2 ⟨hl, rfl⟩, Option.bind_some, ht]
  exact if_neg hcontent

theorem taken?_eq_some {range : Nat × Nat} (h : l.taken? = some range) :
    l.overflows = false ∧ ∃ t, l.nextToken.result = .ok t ∧
      ¬ (t.content = .dedent ∨ t.content = .endOfInput) ∧
      range = (t.origin.offset, l.nextToken.lexer.cursor.offset) := by
  obtain ⟨s, hs, hrange⟩ := Option.bind_eq_some_iff.1 h
  obtain ⟨hl, rfl⟩ := nextToken?_eq_some.1 hs
  refine ⟨hl, ?_⟩
  cases ht : l.nextToken.result with
  | error e => rw [ht] at hrange; cases hrange
  | ok t =>
    simp only [ht, Option.ite_none_left_eq_some, Option.some.injEq] at hrange
    exact ⟨t, rfl, hrange.1, hrange.2.symm⟩

/-- The blanks that an indent takes: all of them before the first token of a line. -/
theorem Move.takes_indentation (h : Move l s) (hqueue : l.Queued) {t : Token}
    (ht : s.result = .ok t) (hindent : t.content = .indent) {source : Source} {before : List Char}
    (hsource : l.source = source) (hat : l.cursor.At source before)
    (hbreak : l.atLineStart = true → AtBreak before) :
    ∃ front blanks rest, source.chars = front ++ (blanks ++ rest) ∧ AtBreak front ∧
      blanks ≠ [] ∧ (∀ c ∈ blanks, isBlank c = true ∧ c ≠ '\n') ∧
      before <+: front ∧ t.origin.offset = byteLength front ∧
      s.lexer.cursor.offset = byteLength (front ++ blanks) := by
  cases h with
  | dequeue hq =>
    cases ht
    rcases hqueue.cases hq with ⟨hd, -⟩ | ⟨rfl, -⟩
    · rw [hd] at hindent; cases hindent
    · cases hindent
  | @indent line hq hs hl hw =>
    cases ht
    obtain ⟨lead, indentation, c, cs, hskip, hlead, hfeed, hblank, hr, -, rfl⟩ :=
      nextLine?_spec hs hl
    have hset := settled_cursorAt hat
    have htext : source.chars = (before ++ lead) ++ (indentation ++ l.settled.cursor.rest) := by
      rw [hset.text, hskip]; simp
    refine ⟨before ++ lead, indentation, _, htext, hlead.append (hbreak hs), ?_, ?_,
      List.prefix_append _ _, ?_, ?_⟩
    · rintro rfl
      exact absurd hw (Nat.not_lt_zero _)
    · exact fun c hc => ⟨hblank c hc, fun h => hfeed (h ▸ hc)⟩
    · show (l.source.origin (l.cursor.offset + byteLength lead)).offset = _
      rw [hsource, hat.offset, ← byteLength_append, Source.origin_of_boundary ⟨_, htext.symm⟩]
    · show l.settled.cursor.offset = _
      rw [hset.offset, hskip, List.append_assoc]
  | dedent | newline | unwind | finish => cases ht; cases hindent
  | @token _ _ content _ _ _ _ hok =>
    cases ht
    obtain rfl : content = .indent := hindent
    cases (Lexeme.read_spells hok).isVisible
  | badIndent | fail => cases ht

/-- The end of a line and a visible token take what the cursor moves over behind the gap. -/
theorem Move.takes (h : Move l s) (hqueue : l.Queued) {t : Token} (ht : s.result = .ok t)
    (hkind : t.content = .newline ∨ t.content.isVisible = true) {source : Source}
    {before : List Char} (hsource : l.source = source) (hat : l.cursor.At source before) :
    l.cursor.offset ≤ t.origin.offset ∧ t.origin.offset < s.lexer.cursor.offset := by
  have hset := settled_cursorAt hat
  have hgap : l.cursor.offset ≤ l.settled.cursor.offset := Nat.le_add_right _ _
  have horigin : (l.source.origin l.settled.cursor.offset).offset = l.settled.cursor.offset := by
    rw [hsource, hset.origin, hset.offset]
  cases h with
  | dequeue hq =>
    cases ht
    rcases hqueue.cases hq with ⟨hd, -⟩ | ⟨rfl, -⟩
    · simp [hd, Token.Content.isVisible] at hkind
    · simp [endToken, Token.Content.isVisible] at hkind
  | newline =>
    cases ht
    refine ⟨horigin.symm ▸ hgap, ?_⟩
    show (l.source.origin l.settled.cursor.offset).offset < l.settled.cursor.offset + 1
    omega
  | @token c cs content _ _ _ _ hok =>
    cases ht
    have hpos := byteLength_pos (Lexeme.read_ne_nil hok)
    refine ⟨horigin.symm ▸ hgap, ?_⟩
    show (l.source.origin l.settled.cursor.offset).offset <
      l.settled.cursor.offset + byteLength (Lexeme.read c cs).text
    omega
  | indent | dedent | unwind | finish =>
    cases ht
    simp [endToken, Token.Content.isVisible] at hkind
  | badIndent | fail => cases ht

end

section

variable {source : Source} {config : Config} {visited : List Lexer} {l : Lexer}

theorem Run.takes_indentation (h : Run (start source config) visited l) (hl : l.Live)
    {t : Token} (ht : l.nextToken.result = .ok t) (hindent : t.content = .indent) :
    ∃ front blanks rest, source.chars = front ++ (blanks ++ rest) ∧ AtBreak front ∧
      blanks ≠ [] ∧ (∀ c ∈ blanks, isBlank c = true ∧ c ≠ '\n') ∧
      l.cursor.offset ≤ byteLength front ∧
      l.taken? = some (byteLength front, byteLength (front ++ blanks)) := by
  obtain ⟨s, hmove, hresult, hlexer⟩ := exists_move hl.1
  obtain ⟨before, hat⟩ := h.exists_cursorAt
  have hbreak : l.atLineStart = true → AtBreak before := by
    intro hs
    obtain ⟨before', hat', hbreak, -⟩ := h.lineStart hs
    obtain rfl : before = before' := List.append_cancel_right (hat.text.symm.trans hat'.text)
    exact hbreak
  obtain ⟨front, blanks, rest, htext, hfront, hne, hblank, hprefix, horigin, hoffset⟩ :=
    hmove.takes_indentation h.queued (hresult.symm.trans ht) hindent h.source hat hbreak
  refine ⟨front, blanks, rest, htext, hfront, hne, hblank, ?_, ?_⟩
  · obtain ⟨lead, rfl⟩ := hprefix
    rw [hat.offset, byteLength_append]
    omega
  · have hafter : l.nextToken.lexer.cursor.offset = byteLength (front ++ blanks) := by
      rw [hlexer]; exact hoffset
    rw [taken?_of_ok hl.2 ht (by simp [hindent]), horigin, hafter]

theorem Run.takes (h : Run (start source config) visited l) (hl : l.phase = .scanning) {t : Token}
    (ht : l.nextToken.result = .ok t) (hkind : t.content = .newline ∨ t.content.isVisible = true) :
    l.cursor.offset ≤ t.origin.offset ∧ t.origin.offset < l.nextToken.lexer.cursor.offset := by
  obtain ⟨s, hmove, hresult, hlexer⟩ := exists_move hl
  obtain ⟨before, hat⟩ := h.exists_cursorAt
  rw [hlexer]
  exact hmove.takes h.queued (hresult.symm.trans ht) hkind h.source hat

/-- What a call takes lies between the cursor before it and the cursor after it. -/
theorem Run.taken_spec (h : Run (start source config) visited l) (hl : l.phase = .scanning)
    {range : Nat × Nat} (htaken : l.taken? = some range) :
    l.cursor.offset ≤ range.1 ∧ range.1 < range.2 ∧ range.2 = l.nextToken.lexer.cursor.offset := by
  obtain ⟨hover, t, ht, hlayout, rfl⟩ := taken?_eq_some htaken
  rcases t.content.kinds with hindent | hkind | hkind
  · obtain ⟨front, blanks, rest, -, -, hne, -, hle, hrange⟩ :=
      h.takes_indentation ⟨hl, hover⟩ ht hindent
    have hpos := byteLength_pos hne
    rw [htaken, Option.some.injEq, Prod.mk.injEq] at hrange
    rw [byteLength_append] at hrange
    exact ⟨by omega, by omega, rfl⟩
  · exact absurd hkind hlayout
  · obtain ⟨hle, hlt⟩ := h.takes hl ht hkind
    exact ⟨hle, hlt, rfl⟩

end

theorem pairwise_calls (l : Lexer) :
    l.calls.Pairwise fun v w => v.nextToken.lexer.cursor.offset ≤ w.cursor.offset := by
  rcases l.live_or with hl | ⟨-, hover⟩ | hended
  · have hlt : l.nextToken.lexer.weight < l.weight := weight_nextToken_lt hl.1
    rw [calls_of_live hl, List.pairwise_cons]
    refine ⟨fun w hw => ?_, pairwise_calls _⟩
    obtain ⟨-, visited, hrun⟩ := mem_calls_iff.1 hw
    exact hrun.offset_le.1
  · rw [calls_of_overflows hover]; exact List.pairwise_singleton _ _
  · rw [calls_of_ended hended]; exact .nil
termination_by l.weight

/-- **No text is taken twice.** What the calls of a stream take lies in the order of the calls. -/
theorem pairwise_taken (source : Source) (config : Config) :
    ((start source config).calls.filterMap taken?).Pairwise fun a b => a.2 ≤ b.1 := by
  have hcalls := List.Pairwise.and_mem.1 (pairwise_calls (start source config))
  refine hcalls.filterMap _ ?_
  rintro v w ⟨hv, hw, hle⟩ a ha b hb
  obtain ⟨hv, _, hrunv⟩ := mem_calls_iff.1 hv
  obtain ⟨hw, _, hrunw⟩ := mem_calls_iff.1 hw
  have hstop := (hrunv.taken_spec hv ha).2.2
  have hstart := (hrunw.taken_spec hw hb).1
  omega

/-- No part of a stream from its start on closes more blocks than it opens. -/
theorem dedents_le_indents (source : Source) (config : Config) {p : List Token}
    (hp : p <+: returned (start source config).steps) : dedents p ≤ indents p := by
  obtain ⟨visited, l, hrun, hl, hover | ⟨hlive, hend⟩⟩ := exists_last_call (start source config) rfl
  · rw [(hrun.steps_of_overflows hover).1] at hp
    exact (hrun.stage hl).1.nested.1 p hp
  obtain ⟨s, hmove, hresult, -⟩ := exists_move hl
  have htally := (hrun.stage hl).1
  rw [(hrun.steps_of_last hlive hend).1, returned_append] at hp
  cases hs : s.result with
  | ok t =>
    rw [returned_ok (hresult.trans hs)] at hp
    exact (hmove.tallied hs htally).nested.1 p hp
  | error e =>
    rw [returned_error (hresult.trans hs), List.append_nil] at hp
    exact htally.nested.1 p hp

end Lexer

/-! ## Loops -/

namespace Scanner

theorem isSome_stringEnd (raw : Bool) (q : Char) {text : String} {before rest : List Char}
    (h : text.toList = before ++ rest) (value : List Char) :
    (stringEnd raw q text value (byteLength before)).isSome = true := by
  induction hn : rest.length using Nat.strongRecOn generalizing before rest value with
  | ind n ih =>
    cases rest with
    | nil => rw [stringEnd_of_endsComment raw q value h (Or.inl rfl)]; rfl
    | cons c cs =>
      by_cases hfeed : c = '\n'
      · rw [stringEnd_of_endsComment raw q value h (Or.inr (by rw [hfeed]; rfl))]; rfl
      · by_cases hquote : c = q
        · subst hquote
          rw [stringEnd_of_quote raw hfeed value h]; rfl
        · by_cases hslash : c = '\\'
          · subst hslash
            cases cs with
            | nil => rw [stringEnd_of_slash raw hquote value h (Or.inl rfl)]; rfl
            | cons d ds =>
              by_cases hend : d = '\n'
              · rw [stringEnd_of_slash raw hquote value h (Or.inr (by rw [hend]; rfl))]; rfl
              · have htext : text.toList = before ++ ['\\', d] ++ ds := by rw [h]; simp
                rw [stringEnd_of_pair raw hquote hend value h]
                exact ih ds.length (by rw [← hn, List.length_cons, List.length_cons]; omega) htext _
                  rfl
          · rw [stringEnd_of_char raw ⟨hslash, hquote, hfeed⟩ value h]
            exact ih cs.length (by simp [← hn]) (append_of_cons h) _ rfl

/-- **Loops.** From every boundary of every text each loop ends. -/
theorem loops_end (config : Config) {text : String} {position : Nat}
    (h : IsBoundary text position) :
    (findLine config text position).isSome = true ∧
      (∀ joins, (skipGap joins config.comments text position).isSome = true) ∧
      (skipComment text position).isSome = true ∧
      (∀ dotted, (numberEnd text dotted position).isSome = true) ∧
      (∀ raw q value, (stringEnd raw q text value position).isSome = true) ∧
      (skipWhile isWordChar text position).isSome = true := by
  obtain ⟨before, ⟨rest, htext⟩, rfl⟩ := isBoundary_iff.1 h
  have htext : text.toList = before ++ rest := htext.symm
  refine ⟨?_, fun joins => ?_, ?_, fun dotted => ?_, fun raw q value => ?_, ?_⟩
  · rw [findLine_of_append config htext]; rfl
  · rw [skipGap_of_append joins config.comments htext]; rfl
  · rw [skipComment_of_append htext]; rfl
  · cases dotted with
    | false => rw [numberEnd_of_append htext]; rfl
    | true => rw [numberEnd_of_dotted htext]; rfl
  · exact isSome_stringEnd raw q htext value
  · rw [skipWhile_of_append isWordChar htext]; rfl

end Scanner

/-! ## The main result -/

/-- **Length.** Of a source a lexer returns tokens and one last item, the end of input or an error,
or none if a call panics, for which some line has to be too wide for a word. There are at most as
many tokens before it as twice the bytes of the source, and after so many calls and one more the
stream has ended, if they return. A call that returns the end of a line or a visible token moves the
cursor on. An indent takes the blanks at the start of its line, of which there is at least one, and
what the tokens take lies in their order, so that none of it is taken twice. Never are there more
dedents than indents. From every boundary of every text all loops of a scanner end. -/
theorem Lexer.stream_bounded (source : Source) (config : Config) :
    (∃ (own : List Token) (last : Option (Except LexError Token)),
      (start source config).items = own.map .ok ++ last.toList ∧
      own.length ≤ 2 * source.text.utf8ByteSize ∧
      (∀ t, last = some (.ok t) → t.content = .endOfInput) ∧
      (last = none →
        ∃ line ∈ source.chars.splitOn '\n', UInt64.size ≤ config.columns (indentation line)) ∧
      ∀ made : List Interface, 2 * source.text.utf8ByteSize + 1 ≤ made.length →
        ((start source config).run? made = none ↔ last = none) ∧
        ∀ answers l, (start source config).run? made = some (answers, l) →
          l.call? .next = some (none, l)) ∧
    (∀ v ∈ (start source config).calls, ∀ s t, v.nextToken? = some s → s.result = .ok t →
      (t.content = .newline ∨ t.content.isVisible = true →
        v.cursor.offset < s.lexer.cursor.offset) ∧
      (t.content = .indent →
        ∃ front blanks rest, source.chars = front ++ (blanks ++ rest) ∧ AtBreak front ∧
          blanks ≠ [] ∧ (∀ c ∈ blanks, isBlank c = true ∧ c ≠ '\n') ∧
          v.taken? = some (byteLength front, byteLength (front ++ blanks)))) ∧
    (((start source config).calls.filterMap taken?).Pairwise fun a b => a.2 ≤ b.1) ∧
    (∀ p, p <+: returned (start source config).steps → dedents p ≤ indents p) ∧
    ∀ (text : String) (position : Nat), IsBoundary text position →
      (Scanner.findLine config text position).isSome = true ∧
      (∀ joins, (Scanner.skipGap joins config.comments text position).isSome = true) ∧
      (Scanner.skipComment text position).isSome = true ∧
      (∀ dotted, (Scanner.numberEnd text dotted position).isSome = true) ∧
      (∀ raw q value, (Scanner.stringEnd raw q text value position).isSome = true) ∧
      (Scanner.skipWhile isWordChar text position).isSome = true := by
  refine ⟨?_, ?_, pairwise_taken source config, fun p => dedents_le_indents source config,
    fun text position => Scanner.loops_end config⟩
  · have hlength : (start source config).items.length +
        (if (start source config).panics then 1 else 0) ≤ 2 * source.text.utf8ByteSize + 1 := by
      rw [← source.size_eq]
      exact length_items_le _ (queued_of_nil rfl)
    obtain ⟨own, last, hitems, -, hlast, hpanics, -⟩ := exists_items source config
    refine ⟨own, last, hitems, ?_, hlast, fun hnone => exists_wide_line (hpanics.1 hnone), ?_⟩
    · cases last with
      | some item => rw [hitems] at hlength; simp at hlength; omega
      | none => rw [hpanics.1 rfl, hitems] at hlength; simpa using hlength
    · intro made hmade
      have hlong : (start source config).panics = true →
          (start source config).items.length < made.length := by
        intro hp
        rw [if_pos hp] at hlength; omega
      refine ⟨?_, fun answers l hrun => ?_⟩
      · rw [run?_eq_none_iff, hpanics]
        exact ⟨And.left, fun hp => ⟨hp, hlong hp⟩⟩
      · have hended : l.phase ≠ .scanning := by
          intro hscan
          rcases (run?_spec hrun).2.1.1 hscan with hlt | hp
          · omega
          · rw [(run?_eq_none_iff _ made).2 ⟨hp, hlong hp⟩] at hrun
            cases hrun
        rw [call?_of_ended hended]; rfl
  · intro v hv s t hs ht
    obtain ⟨hscan, visited, hrun⟩ := mem_calls_iff.1 hv
    obtain ⟨hover, rfl⟩ := nextToken?_eq_some.1 hs
    refine ⟨fun hkind => ?_, fun hindent => ?_⟩
    · obtain ⟨hle, hlt⟩ := hrun.takes hscan ht hkind
      omega
    · obtain ⟨front, blanks, rest, htext, hbreak, hne, hblank, -, htaken⟩ :=
        hrun.takes_indentation ⟨hscan, hover⟩ ht hindent
      exact ⟨front, blanks, rest, htext, hbreak, hne, hblank, htaken⟩

/-- A line, and a block that the end of the text closes. -/
def steppedSample : Source := ⟨"sample", "a\n\tb"⟩

theorem Lexer.stream_bounded_steppedSample :
    (∃ answers l, (start steppedSample {}).run? (List.replicate 9 .nextToken) = some (answers, l) ∧
      l.call? .next = some (none, l)) ∧
    (start steppedSample {}).cursor.offset <
      (start steppedSample {}).nextToken.lexer.cursor.offset ∧
    (∃ front blanks rest, steppedSample.chars = front ++ (blanks ++ rest) ∧ AtBreak front ∧
      blanks ≠ [] ∧ (start steppedSample {}).nextToken.lexer.nextToken.lexer.taken? =
        some (byteLength front, byteLength (front ++ blanks))) ∧
    dedents (returned (start steppedSample {}).steps) ≤
      indents (returned (start steppedSample {}).steps) ∧
    (Scanner.skipComment "é#\n" 2).isSome = true := by
  obtain ⟨⟨own, last, -, -, -, -, hended⟩, hcalls, -, hcount, hloops⟩ :=
    stream_bounded steppedSample {}
  have hfirst : Run (start steppedSample {}) [] (start steppedSample {}) := .nil
  have hthird := (hfirst.snoc (by decide +kernel)).snoc (by decide +kernel)
  have hsome : ((start steppedSample {}).run? (List.replicate 9 .nextToken)).isSome = true := by
    decide +kernel
  obtain ⟨⟨answers, l⟩, hrun⟩ := Option.isSome_iff_exists.1 hsome
  obtain ⟨hmoves, -⟩ := hcalls _ (mem_calls_iff.2 ⟨rfl, _, hfirst⟩) _
    ⟨.identifier "a", ⟨steppedSample, 0⟩⟩ (nextToken?_eq_some.2 ⟨by decide +kernel, rfl⟩)
    (by decide +kernel)
  obtain ⟨-, htakes⟩ := hcalls _ (mem_calls_iff.2 ⟨by decide +kernel, _, hthird⟩) _
    ⟨.indent, ⟨steppedSample, 2⟩⟩ (nextToken?_eq_some.2 ⟨by decide +kernel, rfl⟩)
    (by decide +kernel)
  obtain ⟨front, blanks, rest, htext, hbreak, hne, -, htaken⟩ := htakes rfl
  exact ⟨⟨answers, l, hrun, (hended _ (by decide +kernel)).2 answers l hrun⟩, hmoves (Or.inr rfl),
    ⟨front, blanks, rest, htext, hbreak, hne, htaken⟩, hcount _ List.prefix_rfl,
    (hloops "é#\n" 2 (by decide +kernel)).2.2.1⟩

/-- A stream that is never used up: the fourth call for an item does not return, and no other has
answered nothing. -/
theorem Lexer.stream_panics_wideSample :
    (((start wideSample halfWordTabs).run? (List.replicate 3 .next)).map fun a =>
      a.1.all Option.isSome) = some true ∧
    (start wideSample halfWordTabs).run? (List.replicate 4 .next) = none := by
  decide +kernel

end Offside
