import Offside.Proofs.Lexer.Concatenation
import Offside.Proofs.Lexer.Interfaces
import Offside.Proofs.Lexer.Lookahead

/-!
# Lexical errors

An error stands where the text cannot be read on, and all tokens before it are decided by the text
before it. Where a line fails to line up, they are the tokens of the text up to that line, but for
the dedents that end every text. Where a character or a string cannot be read, they are the tokens
of the text up to there with a semicolon in its place, but for the semicolon and what ends the text.

The proof compares the failing run with that of the text that was cut, call by call. Nothing that is
read before the cut depends on what comes after it: a lexeme that goes on up to the cut is the
longest one in both texts.

Results:
* `Lexeme.read_semicolon`: a lexeme stays when a semicolon is put after it, or further on.
* `Lexer.agree_before_cut`: one call before the cut.
* `Lexer.Run.tokens_of_cut`, `Lexer.Run.tokens_of_misaligned`: the tokens of the text that was cut.
* `Lexer.errors_located`: where each error stands, and the tokens before it.
-/

namespace Offside

open Text

/-! ## Semicolons -/

/-- No longer lexeme ends with a semicolon. -/
theorem not_isLexeme_semicolon (c : Char) (cs : List Char) : ¬ IsLexeme (c :: (cs ++ [';'])) := by
  have hmem : ';' ∈ c :: (cs ++ [';']) := by simp
  have hlast : (c :: (cs ++ [';'])).getLast? = some ';' := by simp [List.getLast?_cons]
  rintro (⟨s, hs⟩ | ⟨d, ds, htext, hd, hds⟩ | ⟨whole, hwhole, hnum⟩ | ⟨q, body, hq, -, hstr⟩)
  · have hlong : 2 ≤ s.letters.length := by rw [← hs]; simp
    rw [hs] at hlast
    cases s with
    | semicolon => simp [Symbol.letters] at hlong
    | _ => cases hlast
  · rw [htext] at hmem
    rcases List.mem_cons.1 hmem with rfl | hmem
    · exact absurd hd (by decide)
    · exact absurd (hds _ hmem) (by decide)
  · rcases hnum with ⟨-, htext⟩ | ⟨fraction, -, hfraction, htext⟩
    · exact absurd (hwhole _ (htext ▸ hmem)) (by decide)
    · rw [htext] at hmem
      simp only [List.mem_append, List.mem_cons, Char.reduceEq, false_or] at hmem
      rcases hmem with hmem | hmem
      · exact absurd (hwhole _ hmem) (by decide)
      · exact absurd (hfraction _ hmem) (by decide)
  · have hquote : some q = some ';' := by
      rw [← hlast]
      rcases hstr with htext | htext <;> simp [htext, List.getLast?_cons]
    cases hquote
    exact absurd hq (by decide)

namespace Lexeme

/-- Two texts that each start with the lexeme of the other are read alike. -/
theorem read_eq_of_isPrefix {c : Char} {cs cs' : List Char} {content content' : Token.Content}
    (hok : (read c cs).content = .ok content) (hok' : (read c cs').content = .ok content')
    (h : (read c cs).text <+: c :: cs') (h' : (read c cs').text <+: c :: cs) :
    read c cs' = read c cs := by
  have hspells := read_spells hok
  have hspells' := read_spells hok'
  have hle := length_le_of_isLexeme hok' h (isLexeme_iff.2 ⟨_, hspells⟩)
  have hge := length_le_of_isLexeme hok h' (isLexeme_iff.2 ⟨_, hspells'⟩)
  have htext : (read c cs').text = (read c cs).text :=
    (List.prefix_of_prefix_length_le h' (read_isPrefix c cs) hge).eq_of_length
      (Nat.le_antisymm hge hle)
  rw [htext] at hspells'
  have hcontent : (read c cs').content = (read c cs).content := by
    rw [hok, hok', hspells'.unique hspells]
  generalize read c cs' = a at htext hcontent ⊢
  generalize read c cs = b at htext hcontent ⊢
  cases a; cases b
  simp_all

/-- Where no string starts, a text that starts with a lexeme can be read. -/
theorem exists_content_of_isLexeme {c : Char} {cs p : List Char} (hquote : isQuote c = false)
    (hraw : rawQuote? c cs = none) (hl : IsLexeme p) (hp : p <+: c :: cs) :
    ∃ content, (read c cs).content = .ok content := by
  unfold read
  rw [hraw]
  simp only [hquote, Bool.false_eq_true, if_false]
  split
  · exact ⟨_, rfl⟩
  · next hn =>
    split
    · exact ⟨_, rfl⟩
    · next hw =>
      rcases hl with ⟨s, rfl⟩ | hword | hnum | hstr
      · unfold symbol
        split
        · exact ⟨_, rfl⟩
        · next hnone =>
          exact absurd (List.isPrefixOf_iff_prefix.2 hp) (List.find?_eq_none.1 hnone s s.mem_all)
      · exact absurd (hword.head_of_prefix hp) hw
      · exact absurd (hnum.head_of_prefix hp) hn
      · rcases hstr.head_of_prefix hp with h | ⟨q, qs, h⟩
        · rw [hquote] at h; cases h
        · rw [hraw] at h; cases h

/-- A string that is closed in `u` is read whatever comes after `u`. -/
theorem exists_content_of_string {raw : Bool} {opening u x : List Char} {q : Char}
    {content : Token.Content} (hq : isQuote q = true)
    (hok : (string raw opening q (u ++ x)).content = .ok content)
    (htext : (string raw opening q (u ++ x)).text <+: opening ++ u) (y : List Char) :
    ∃ content, (string raw opening q (u ++ y)).content = .ok content := by
  obtain ⟨hb, hclosed, -⟩ := string_ok hq hok
  rw [hclosed, List.append_assoc, List.prefix_append_right_inj] at htext
  generalize body q (u ++ x) = b at hb htext
  obtain ⟨rest, rfl⟩ := htext
  exact ⟨_, (string_content_ok_iff hq).2 ⟨b, rest ++ y, hb, by simp, rfl⟩⟩

/-- A lexeme that lies in `u` stays when a semicolon follows `u`. -/
theorem read_semicolon {c : Char} {u x : List Char} {content : Token.Content}
    (hok : (read c (u ++ x)).content = .ok content) (htext : (read c (u ++ x)).text <+: c :: u) :
    read c (u ++ [';']) = read c (u ++ x) := by
  have hprefix : (read c (u ++ x)).text <+: c :: (u ++ [';']) :=
    htext.trans ⟨[';'], rfl⟩
  obtain ⟨content', hok'⟩ : ∃ content', (read c (u ++ [';'])).content = .ok content' := by
    rcases string_start_cases c (u ++ [';']) with hq | ⟨q, qs, rfl, hqs, hq⟩ | ⟨hq, hraw⟩
    · rw [read_quote hq] at hok htext ⊢
      exact exists_content_of_string hq hok htext _
    · cases u with
      | nil => cases hqs; exact absurd hq (by decide)
      | cons d u =>
        obtain ⟨rfl, rfl⟩ := List.cons.inj hqs
        rw [List.cons_append, read_rawQuote hq] at hok htext ⊢
        have hprefix : (string true ['r', d] d (u ++ x)).text <+: ['r', d] ++ u := htext
        exact exists_content_of_string hq hok hprefix _
    · exact exists_content_of_isLexeme hq hraw (isLexeme_iff.2 ⟨_, read_spells hok⟩) hprefix
  refine read_eq_of_isPrefix hok hok' hprefix ?_
  -- The semicolon itself is no part of what is read.
  have hwhole : (read c (u ++ [';'])).text <+: (c :: u) ++ [';'] := read_isPrefix c _
  rcases List.prefix_concat_iff.1 hwhole with hall | hshort
  · have hl := isLexeme_iff.2 ⟨_, read_spells hok'⟩
    rw [hall] at hl
    exact absurd hl (not_isLexeme_semicolon c u)
  · exact hshort.trans ⟨x, rfl⟩

theorem read_unknownSymbol {c d : Char} {cs : List Char}
    (h : (read c cs).content = .error (.unknownSymbol d)) :
    d = c ∧ isQuote c = false ∧ c.isDigit = false ∧ isWordStart c = false ∧
      ∀ s : Symbol, ¬ s.letters <+: c :: cs := by
  unfold read at h
  split at h
  · cases h
  · next hn =>
    split at h
    · cases string_error h
    · next hq =>
      split at h
      · cases string_error h
      · split at h
        · cases h
        · next hw =>
          unfold symbol at h
          split at h
          · cases h
          · next hnone =>
            cases h
            refine ⟨rfl, by simpa using hq, ?_, by simpa using hw, ?_⟩
            · simp only [Bool.or_eq_true, not_or] at hn
              simpa using hn.1
            · intro s hs
              exact List.find?_eq_none.1 hnone s s.mem_all (List.isPrefixOf_iff_prefix.2 hs)

/-- A lexeme does not depend on the lines after its own. -/
theorem read_of_atBreak {c : Char} {w : List Char} (h : AtBreak (c :: w)) (hc : c ≠ '\n')
    (x y : List Char) : read c (w ++ x) = read c (w ++ y) := by
  have hmem : '\n' ∈ w := by
    by_contra hw
    cases h.eq_nil_of_notMem (by simp [Ne.symm hc, hw])
  refine read_congr_line ?_
  rw [firstLine_append_of_mem hmem, firstLine_append_of_mem hmem]

end Lexeme

theorem beginsToken_iff {comments : Bool} {c : Char} :
    beginsToken comments c = true ↔ isBlank c = false ∧ (comments = true → c ≠ '#') := by
  cases comments <;> simp [beginsToken]

/-- A token without its text: what it is and the offset it stands at. -/
def Token.spot (t : Token) : Token.Content × Nat := (t.content, t.origin.offset)

/-- The text before a place, with `tail` in place of what follows it. -/
def Origin.cut (o : Origin) (tail : List Char) : Source :=
  ⟨o.source.name, String.ofList (o.before ++ tail)⟩

@[simp] theorem Origin.chars_cut (o : Origin) (tail : List Char) :
    (o.cut tail).chars = o.before ++ tail := String.toList_ofList

theorem Likeness.map_spot {ts us : List Token}
    (h : List.Forall₂ (moved fun o o' => o'.offset = o.offset).Items (ts.map .ok) (us.map .ok)) :
    us.map Token.spot = ts.map Token.spot := by
  rw [List.forall₂_map_left_iff, List.forall₂_map_right_iff] at h
  induction h with
  | nil => rfl
  | cons hitem _ ih =>
    cases hitem with
    | ok ht => rw [List.map_cons, List.map_cons, ih]; exact congrArg (· :: _) (Prod.ext ht.1 ht.2)

theorem IsLines.getLast?_content {joins : Bool} {ts : List Token} (h : IsLines joins ts) :
    ∀ t ∈ ts.getLast?, t.content = .newline := by
  obtain ⟨lines, rfl, hlines⟩ := h
  intro t ht
  rcases List.eq_nil_or_concat lines with rfl | ⟨front, line, rfl⟩
  · cases ht
  · obtain ⟨body, last, rfl, -, hlast, -⟩ := hlines line (by simp)
    have hend : last = t := by simpa using ht
    rw [← hend, hlast]

namespace Lexer

/-! ## Before the cut -/

/-- A scan that finds something, and no mark to make, takes it. -/
theorem Move.length_rest_lt {l : Lexer} {s : Step} {t : Token} (h : Move l s) (hq : l.pending = [])
    (hreads : l.Reads) (hr : l.settled.cursor.rest ≠ []) (ht : s.result = .ok t) :
    s.lexer.cursor.rest.length < l.settled.cursor.rest.length := by
  cases h with
  | dequeue hq' => rw [hq] at hq'; cases hq'
  | @indent line _ hs hl hw =>
    have hwidth := hreads hs
    rw [hl, Option.map_some, Option.some.injEq] at hwidth
    omega
  | @dedent line _ _ _ hs hl hw =>
    have hwidth := hreads hs
    rw [hl, Option.map_some, Option.some.injEq] at hwidth
    omega
  | newline _ _ hr' => rw [Cursor.length_advance, hr']; simp
  | token _ _ hr' _ hok =>
    have hpos := List.length_pos_iff.2 (Lexeme.read_ne_nil hok)
    rw [Cursor.length_advance, hr', List.length_cons]
    omega
  | unwind _ hr' | finish _ hr' => exact absurd hr' hr
  | badIndent | fail => cases ht

section

variable {first second : Source} {config : Config} {visited visited' : List Lexer} {l l' : Lexer}
  {x y : List Char}

/-- A call that does not move behind the cut looks for its token no further. -/
theorem exists_settled_cut (hq : l.pending = []) (hl : l.phase = .scanning)
    (htwins : Twins (.moved fun o o' => o'.offset = o.offset) (Shares x y) l l')
    (hlen : x.length ≤ l.nextToken.lexer.cursor.rest.length) :
    ∃ w, l.settled.cursor.rest = w ++ x := by
  rw [nextToken_eq hl, Step.deliver_lexer] at hlen
  have hlen : x.length ≤ l.pull.lexer.cursor.rest.length := hlen
  obtain ⟨u, hu, -⟩ := htwins.cursor
  obtain ⟨w, -, hw⟩ := exists_cut (hu.symm.trans l.settled_spec.1)
    (Nat.le_trans hlen (l.pull_move.length_rest_le.2 hq))
  exact ⟨w, hw⟩

/-- A call before the cut measures the same in both texts. -/
theorem overflows_before_cut (hconfig : l'.config = l.config) (hl : l.Live)
    (hl' : l'.phase = .scanning)
    (htwins : Twins (.moved fun o o' => o'.offset = o.offset) (Shares x y) l l')
    (hlen : x.length ≤ l.nextToken.lexer.cursor.rest.length)
    (hcut : l.settled.cursor.rest = x → l'.skipped = l.skipped) : l'.overflows = false := by
  rw [htwins.overflows_eq (hl'.trans hl.1.symm) (by rw [hconfig]) fun hq _ => ?_]
  · exact hl.2
  · obtain ⟨w, hw⟩ := exists_settled_cut hq hl.1 htwins hlen
    cases w with
    | nil => exact hcut hw
    | cons c w => exact (settled_of_common hconfig htwins hw).1

/-- **One call before the cut.** It answers alike in both texts, provided that tokens are read
alike, and marks of the line that the cut lies on are made alike. -/
theorem agree_before_cut (hrun : Run (start first config) visited l)
    (hrun' : Run (start second config) visited' l') (hl : l.phase = .scanning)
    (htwins : Twins (.moved fun o o' => o'.offset = o.offset) (Shares x y) l l') (hx : x ≠ [])
    {t : Token} (ht : l.nextToken.result = .ok t)
    (hlen : x.length ≤ l.nextToken.lexer.cursor.rest.length)
    (hread : ∀ {c w content}, l.settled.cursor.rest = c :: w ++ x → c ≠ '\n' →
      (Lexeme.read c (w ++ x)).content = .ok content → (Lexeme.read c (w ++ x)).text <+: c :: w →
      Lexeme.read c (w ++ y) = Lexeme.read c (w ++ x))
    (hmark : l.pending = [] → l.settled.cursor.rest = x → ¬ l.Reads →
      Agree (.moved fun o o' => o'.offset = o.offset) (Shares x y) l l') :
    Agree (.moved fun o o' => o'.offset = o.offset) (Shares x y) l l' := by
  by_cases hq : l.pending = []
  · obtain ⟨w, hw⟩ := exists_settled_cut hq hl htwins hlen
    rw [nextToken_eq hl, Step.deliver_result] at ht
    rw [nextToken_eq hl, Step.deliver_lexer] at hlen
    have hlen : x.length ≤ l.pull.lexer.cursor.rest.length := hlen
    have hmove := l.pull_move
    cases w with
    | nil =>
      refine hmark hq hw fun hreads => ?_
      have hlt := hmove.length_rest_lt hq hreads (by rw [hw]; exact hx) ht
      rw [hw, List.nil_append] at hlt
      omega
    | cons c w =>
      refine htwins.pull fun _ => meets_of_common hrun hrun' htwins hw fun hreads hc => ?_
      have htext := rest_of_reads hq hreads hw hc
      obtain ⟨r, hcommon, -⟩ := exists_cut (u := c :: w) htext hlen
      have hprefix : (Lexeme.read c (w ++ x)).text <+: c :: w := ⟨r, hcommon.symm⟩
      have hbegins := beginsToken_of_settled hw hc
      cases hcontent : (Lexeme.read c (w ++ x)).content with
      | ok content => exact ⟨hread hw hc hcontent hprefix, hprefix⟩
      | error cause =>
        rw [(Move.fail hq hreads hw hbegins hcontent).pull_eq] at ht
        cases ht
  · exact htwins.pull fun hq' => absurd hq' hq

/-- Where the first lexer finds the token that was cut off, the second finds what was put there. -/
theorem settled_of_cut (hconfig : l'.config = l.config)
    (htwins : Twins (.moved fun o o' => o'.offset = o.offset) (Shares x y) l l') {c d : Char}
    {cs ds : List Char} (hx : x = c :: cs) (hy : y = d :: ds) (hc : c ≠ '\n')
    (hd : beginsToken l.config.comments d = true) (hr : l.settled.cursor.rest = x) :
    l'.skipped = l.skipped ∧ l'.settled.cursor = ⟨y, l.settled.cursor.offset⟩ := by
  have hskips := htwins.skipsLines_eq (by rw [hconfig])
  obtain ⟨hrest, hgap, -⟩ := l.settled_spec
  obtain ⟨u, hu, hcursor⟩ := htwins.cursor
  obtain rfl : u = l.skipped := by
    rw [hrest, hr] at hu
    exact (List.append_cancel_right hu).symm
  rw [hr, hx] at hgap
  have hrest' : l'.cursor.rest = l.skipped ++ y := by rw [hcursor]
  obtain ⟨hskip, hset⟩ := settled_of_gap hrest' (by rw [hconfig]; exact hgap.of_token hc y)
    (by rw [hconfig, hy]; exact Or.inr ⟨d, ds, rfl, Or.inr hd⟩)
    (by rw [hskips]; exact lineFeed_notMem_skipped)
  refine ⟨hskip, ?_⟩
  rw [hset, hcursor]
  rfl

theorem nextLine?_of_cut (hconfig : l'.config = l.config)
    (htwins : Twins (.moved fun o o' => o'.offset = o.offset) (Shares x y) l l') {c d : Char}
    {cs ds : List Char} (hx : x = c :: cs) (hy : y = d :: ds) (hc : c ≠ '\n')
    (hd : beginsToken l.config.comments d = true) (hr : l.settled.cursor.rest = x)
    (hs : l.atLineStart = true) : l'.nextLine? = l.nextLine? := by
  obtain ⟨hskip, hset⟩ := settled_of_cut hconfig htwins hx hy hc hd hr
  rw [nextLine?_of_settled hs (hr.trans hx),
    nextLine?_of_settled (htwins.lineStart.trans hs) (by rw [hset, hy]), hskip, hset, hconfig]

/-- The marks of the line on which the cut lies are the same, whatever token comes after them. -/
theorem agree_of_mark (hrun : Run (start first config) visited l)
    (hrun' : Run (start second config) visited' l')
    (htwins : Twins (.moved fun o o' => o'.offset = o.offset) (Shares x y) l l') {c d : Char}
    {cs ds : List Char} (hx : x = c :: cs) (hy : y = d :: ds) (hc : c ≠ '\n')
    (hd : beginsToken config.comments d = true) (hq : l.pending = [])
    (hr : l.settled.cursor.rest = x) (hmark : ¬ l.Reads) :
    Agree (.moved fun o o' => o'.offset = o.offset) (Shares x y) l l' := by
  have hconfig : l'.config = l.config := hrun'.config.trans hrun.config.symm
  have hd : beginsToken l.config.comments d = true := hrun.config ▸ hd
  obtain ⟨hskip, hset⟩ := settled_of_cut hconfig htwins hx hy hc hd hr
  have hs : l.atLineStart = true := by
    by_contra hs
    exact hmark fun h => absurd h hs
  have hl := nextLine?_of_settled hs (hr.trans hx)
  have hl' := (nextLine?_of_cut hconfig htwins hx hy hc hd hr hs).trans hl
  refine htwins.pull_line hq hs hl hl' rfl ?_ ⟨[], by simpa using hr, by rw [hset]; rfl⟩ ?_
  · have hline := hrun.origin_offset.2
    have hline' := hrun'.origin_offset.2
    rw [hskip, hset] at hline'
    exact hline'.trans hline.symm
  · intro hwidth
    refine absurd (fun _ => ?_) hmark
    rw [hl]
    exact congrArg some hwidth

end

/-! ## The text that was cut -/

/-- The tokens that end a text inside `n` blocks. -/
def closing (source : Source) (n : Nat) : List Token :=
  List.replicate n (lastDedent source) ++ [⟨.endOfInput, ⟨source, source.size⟩⟩]

section

variable {source second : Source} {config : Config} {visited : List Lexer} {l : Lexer}

theorem settled_of_nil (h : l.cursor.rest = []) : l.settled.cursor.rest = [] := by
  simp [settled, Cursor.advance, h]

theorem Run.items_of_atEnd (h : Run (start source config) visited l) (hl : l.Live)
    (hq : l.pending = []) (hr : l.settled.cursor.rest = []) :
    l.items = (closing source l.blocks.length).map .ok ∧ l.panics = false := by
  obtain ⟨before, hat⟩ := h.exists_cursorAt
  have hsource : l.source = source := h.source
  obtain ⟨hitems, hpanics⟩ := Lexer.items_of_atEnd hl hq hr
  refine ⟨?_, hpanics⟩
  rw [hitems, endToken_eq, hsource, ((settled_cursorAt hat).atEnd hr).2, closing, lastDedent,
    List.map_append, List.map_replicate]
  rfl

/-- What two lexers that go together have returned. -/
theorem spots_of_lockstep {visited' : List Lexer} {l' : Lexer}
    (h : Run (start source config) visited l) (hl : l.phase = .scanning)
    (h' : Run (start second config) visited' l') (hl' : l'.phase = .scanning)
    (hitems : List.Forall₂ (Likeness.moved fun o o' => o'.offset = o.offset).Items
      (visited.map fun v => v.nextToken.result) (visited'.map fun v => v.nextToken.result)) :
    ∃ own : List Token, (visited'.map fun v => v.nextToken.result) = own.map .ok ∧
      own.map Token.spot = (returned (visited.map nextToken)).map Token.spot := by
  obtain ⟨ts, hts, -⟩ := h.exists_tokens hl
  obtain ⟨own, hown, -⟩ := h'.exists_tokens hl'
  refine ⟨own, hown, ?_⟩
  rw [returned_of_results (by rw [List.map_map]; exact hts)]
  rw [hts, hown] at hitems
  exact Likeness.map_spot hitems

/-- **A token that is cut off.** With a semicolon in place of what the call reads and of all that
follows, the text gives the same tokens, the semicolon and what ends the text. -/
theorem Run.tokens_of_cut (hrun : Run (start source config) visited l) (hl : l.Live)
    (hq : l.pending = []) (hreads : l.Reads) {c : Char} {cs before : List Char}
    (hr : l.settled.cursor.rest = c :: cs) (hc : c ≠ '\n')
    (hat : l.settled.cursor.At source before) (hsecond : second.chars = before ++ [';']) :
    ∃ own n, tokenize second config =
        some (.ok (own ++ ⟨.symbol .semicolon, ⟨second, byteLength before⟩⟩ :: closing second n)) ∧
      own.map Token.spot = (returned (visited.map nextToken)).map Token.spot := by
  have hsemicolon : ∀ comments, beginsToken comments ';' = true := by decide
  have htext : source.chars = before ++ c :: cs := by rw [hat.text, hr]
  have hstart : Twins (.moved fun o o' => o'.offset = o.offset) (Shares (c :: cs) [';'])
      (start source config) (start second config) :=
    start_twins ⟨before, htext, by rw [hsecond]⟩
  have hlen : (c :: cs).length ≤ l.cursor.rest.length := by
    rw [← hr, l.settled_spec.1, List.length_append]; omega
  obtain ⟨visited', l', hrun', hl', htwins, hitems⟩ := hrun.lockstep hl.1 hstart rfl
    (fun {_ v _ v'} hv hrunv hlive hrunv' hscan' htw =>
      have hconfig : v'.config = v.config := hrunv'.config.trans hrunv.config.symm
      overflows_before_cut hconfig hlive hscan' htw (Nat.le_trans hlen (hrun.length_rest_le v hv))
        fun hvr => (settled_of_cut hconfig htw rfl rfl hc (hsemicolon _) hvr).1)
    fun {_ v _ v'} hv hrunv hscan hrunv' _ htw => by
      obtain ⟨t, ht, -⟩ := hrun.result_of_scanning hl.1 v hv
      exact agree_before_cut hrunv hrunv' hscan htw (by simp) ht
        (Nat.le_trans hlen (hrun.length_rest_le v hv))
        (fun _ _ hok hprefix => Lexeme.read_semicolon hok hprefix)
        (fun hvq hvr hmark =>
          agree_of_mark hrunv hrunv' htw rfl rfl hc (hsemicolon _) hvq hvr hmark)
  obtain ⟨own, hown, hspots⟩ := spots_of_lockstep hrun hl.1 hrun' hl' hitems
  have hconfig : l'.config = l.config := hrun'.config.trans hrun.config.symm
  obtain ⟨hskip, hset⟩ := settled_of_cut hconfig htwins rfl rfl hc (hsemicolon _) hr
  have hlive' : l'.Live := by
    refine ⟨hl', ?_⟩
    rw [htwins.overflows_eq (hl'.trans hl.1.symm) (by rw [hconfig]) fun _ _ => hskip]
    exact hl.2
  -- The second lexer makes no mark either, and reads the semicolon.
  have hreads' : l'.Reads := by
    intro hs'
    have hs := htwins.lineStart.symm.trans hs'
    rw [nextLine?_of_cut hconfig htwins rfl rfl hc (hsemicolon _) hr hs, hreads hs, htwins.blocks,
      Blocks.top_map rfl]
    rfl
  have hr' : l'.settled.cursor.rest = ';' :: [] := by rw [hset]
  have hmove := Move.token (l := l') (htwins.pending_nil hq) hreads' hr' (hsemicolon _)
    (show (Lexeme.read ';' []).content = .ok (.symbol .semicolon) by decide)
  have horigin : l'.source.origin l'.settled.cursor.offset = ⟨second, byteLength before⟩ := by
    rw [hset, hrun'.source, hat.offset]
    exact Source.origin_of_boundary ⟨[';'], hsecond.symm⟩
  obtain ⟨hitems', hsame⟩ := items_of_move hmove hlive' rfl (by simp)
  have hnext : Run (start second config) (visited' ++ [l']) l'.nextToken.lexer := hrun'.snoc hlive'
  have hlexer : l'.nextToken.lexer = { l'.settled with
      cursor := l'.settled.cursor.advance (Lexeme.read ';' []).text
      depth := depthAfter l'.depth (.symbol .semicolon) } := by
    rw [nextToken_eq hl', hmove.pull_eq, Step.deliver_lexer]
    simp [Step.phaseAfter]
  rw [hlexer] at hnext
  obtain ⟨hend, hpanics⟩ := hnext.items_of_atEnd ⟨hl', overflows_of_inLine rfl⟩
    (htwins.pending_nil hq) (settled_of_nil (by rw [hset]; rfl))
  refine ⟨own, l'.blocks.length, tokenize_of_items ?_ ?_, hspots⟩
  · rw [hrun'.items_eq, hown, hitems', hend, horigin, List.map_append, List.map_cons]
    rfl
  · rw [hrun'.panics, hsame, hpanics]

theorem settled_rest_ne (l : Lexer) {d : Char} (hblank : isBlank d = true) (hfeed : d ≠ '\n')
    (ds : List Char) : l.settled.cursor.rest ≠ d :: ds := by
  intro hr
  obtain ⟨-, -, hstop⟩ := l.settled_spec
  rw [hr] at hstop
  rcases hstop with h | ⟨c, cs, h, ⟨rfl, -⟩ | hc⟩
  · cases h
  · exact hfeed (List.cons.inj h).1
  · rw [← (List.cons.inj h).1, beginsToken, hblank] at hc
    cases hc

theorem indentation_ne_nil (hrun : Run (start source config) visited l) (hl : l.phase = .scanning)
    (hq : l.pending = []) {indentation : List Char}
    (hk : l.blocks.enter? (l.config.columns indentation) = none) : indentation ≠ [] := by
  rintro rfl
  have hnested := ((hrun.tracks hl).resolve_left (not_unwound_of_pending hq)).nested
  rw [Config.columns_nil, hnested.enter?_zero] at hk
  cases hk

/-- Without the last of the lines that a call skips there is no more to measure. -/
theorem overflows_of_lead {l' : Lexer} (hconfig : l'.config = l.config) (hl : l.Live)
    (hq : l.pending = []) (hs : l.atLineStart = true) {lead blanks : List Char}
    (hskip : l.skipped = lead ++ blanks) (hlead : AtBreak lead) (hskip' : l'.skipped = lead) :
    l'.overflows = false := by
  refine Bool.eq_false_iff.2 fun hover => ?_
  obtain ⟨-, -, -, line, hline, hle⟩ := overflows_eq_true.1 hover
  rw [hskip'] at hline
  rw [hconfig] at hle
  rcases hlead.mem_lines_left blanks hline with rfl | hline
  · exact absurd hle (by simp [indentation, UInt64.size])
  · rw [← hskip] at hline
    exact absurd (hl.fits_of_mem hq hs hline) (Nat.not_lt.2 hle)

/-- **A line that is cut off.** Without a line that lines up with no block, and all that follows,
the text gives the same tokens and what ends the text. The last of these tokens ends a line. -/
theorem Run.tokens_of_misaligned (hrun : Run (start source config) visited l)
    (hl : l.Live) (hq : l.pending = []) (hs : l.atLineStart = true)
    {before lead indentation : List Char} (hat : l.cursor.At source before)
    (hbreak : AtBreak before) (hskip : l.skipped = lead ++ indentation) (hlead : AtBreak lead)
    (hfeed : '\n' ∉ indentation) (hblank : ∀ x ∈ indentation, isBlank x = true)
    (hk : l.blocks.enter? (l.config.columns indentation) = none)
    (hsecond : second.chars = before ++ lead) :
    ∃ own n, tokenize second config = some (.ok (own ++ closing second n)) ∧
      own.map Token.spot = (returned (visited.map nextToken)).map Token.spot ∧
      ∀ t ∈ own.getLast?, t.content = .newline := by
  obtain ⟨hrest, hgap, -⟩ := l.settled_spec
  rw [hskip] at hrest hgap
  obtain ⟨d, ds, hd⟩ := List.exists_cons_of_ne_nil (indentation_ne_nil hrun hl.1 hq hk)
  generalize hx : indentation ++ l.settled.cursor.rest = x at *
  have htext : source.chars = (before ++ lead) ++ x := by
    rw [hat.text, hrest, ← hx]; simp
  have hstart : Twins (.moved fun o o' => o'.offset = o.offset) (Shares x [])
      (start source config) (start second config) :=
    start_twins ⟨before ++ lead, htext, by rw [hsecond, List.append_nil]⟩
  have hlen : x.length ≤ l.cursor.rest.length := by
    rw [hrest, ← hx]; simp
  have hnever : ∀ v : Lexer, v.settled.cursor.rest ≠ x := by
    intro v
    rw [← hx, hd]
    exact v.settled_rest_ne (hblank d (by simp [hd])) (fun hn => hfeed (by simp [hd, hn])) _
  obtain ⟨visited', l', hrun', hl', htwins, hitems⟩ := hrun.lockstep hl.1 hstart rfl
    (fun {_ v _ v'} hv hrunv hlive hrunv' hscan' htw =>
      overflows_before_cut (hrunv'.config.trans hrunv.config.symm) hlive hscan' htw
        (Nat.le_trans hlen (hrun.length_rest_le v hv)) fun hvr => absurd hvr (hnever v))
    fun {_ v _ v'} hv hrunv hscan hrunv' _ htw => by
      obtain ⟨t, ht, -⟩ := hrun.result_of_scanning hl.1 v hv
      refine agree_before_cut hrunv hrunv' hscan htw (by rw [← hx, hd]; simp) ht
        (Nat.le_trans hlen (hrun.length_rest_le v hv)) ?_ ?_
      · -- The line of a token ends before the cut, so the token does not depend on what follows it.
        intro c w _ hw hc _ _
        obtain ⟨b, hatv⟩ := hrunv.exists_cursorAt
        have hsplit := (settled_cursorAt hatv).text
        rw [htext, hw, ← List.append_assoc] at hsplit
        refine Lexeme.read_of_atBreak (AtBreak.of_append (a := b ++ v.skipped) ?_) hc _ _
        rw [← List.append_cancel_right hsplit]
        exact hlead.append hbreak
      · exact fun _ hvr _ => absurd hvr (hnever v)
  obtain ⟨own, hown, hspots⟩ := spots_of_lockstep hrun hl.1 hrun' hl' hitems
  have hq' := htwins.pending_nil hq
  have hconfig : l'.config = l.config := hrun'.config.trans hrun.config.symm
  have hend : l'.skipped = lead ∧ l'.settled.cursor.rest = [] := by
    obtain ⟨u, hu, hcursor⟩ := htwins.cursor
    obtain rfl : u = lead := by
      rw [hrest, List.append_assoc, hx] at hu
      exact (List.append_cancel_right hu).symm
    have hskips : l'.skipsLines = true := by rw [skipsLines, htwins.lineStart, hs, Bool.true_or]
    have hrest' : l'.cursor.rest = u ++ [] := by rw [hcursor]
    obtain ⟨hskip', hset⟩ := settled_of_gap hrest'
      (by rw [hconfig]; exact (hgap.split hlead).1.of_break hlead []) (Or.inl rfl)
      (by simp [hskips])
    exact ⟨hskip', by rw [hset]⟩
  obtain ⟨hskip', hr'⟩ := hend
  have hlive' : l'.Live := ⟨hl', overflows_of_lead hconfig hl hq hs hskip hlead hskip'⟩
  obtain ⟨hclosing, hpanics⟩ := hrun'.items_of_atEnd hlive' hq' hr'
  refine ⟨own, l'.blocks.length, tokenize_of_items ?_ (hrun'.panics.trans hpanics), hspots, ?_⟩
  · rw [hrun'.items_eq, hown, hclosing, List.map_append]
  · have hlines := (hrun'.stage hl').2.isLines hq' (htwins.lineStart.trans hs)
    rw [returned_of_results (by rw [List.map_map]; exact hown)] at hlines
    exact hlines.getLast?_content

end

/-! ## Errors -/

/-- **Errors.** An unknown symbol is a character that is not blank, starts no comment and starts no
lexeme of any class. A bad indentation stands where a line starts whose blanks have that width and
which goes on with a token. The tokens before an error are decided by the text before it: they are
the tokens of the text up to a line that lines up with no block, or those of the text up to what
cannot be read with a semicolon there, without the semicolon, the last dedents and the end of
input. -/
theorem errors_located {source : Source} {config : Config} {e : LexError}
    (h : tokenize source config = some (.error e)) :
    e.origin.source = source ∧
    (∀ c, e.cause = .unknownSymbol c →
      ∃ rest, e.origin.after = c :: rest ∧ isBlank c = false ∧ isQuote c = false ∧
        c.isDigit = false ∧ isWordStart c = false ∧ (config.comments = true → c ≠ '#') ∧
        ∀ s : Symbol, ¬ s.letters <+: c :: rest) ∧
    (∀ width, e.cause = .badIndent width →
      AtBreak e.origin.before ∧
      (∃ indentation d rest, e.origin.after = indentation ++ d :: rest ∧
        (∀ x ∈ indentation, isBlank x = true ∧ x ≠ '\n') ∧ config.columns indentation = width ∧
        isBlank d = false ∧ (config.comments = true → d ≠ '#')) ∧
      ∃ own n, tokenize (e.origin.cut []) config =
          some (.ok (own ++ closing (e.origin.cut []) n)) ∧
        own.map Token.spot = (returned (start source config).steps).map Token.spot ∧
        ∀ t ∈ own.getLast?, t.content = .newline) ∧
    ((∀ width, e.cause ≠ .badIndent width) →
      ∃ own n, tokenize (e.origin.cut [';']) config =
          some (.ok (own ++ ⟨.symbol .semicolon, ⟨e.origin.cut [';'], e.origin.offset⟩⟩ ::
            closing (e.origin.cut [';']) n)) ∧
        own.map Token.spot = (returned (start source config).steps).map Token.spot) := by
  obtain ⟨visited, l, hrun, hl, herr, hreturned⟩ := exists_run_of_tokenize_error h
  obtain ⟨s, hmove, hresult, -⟩ := exists_move hl.1
  have he := hresult.symm.trans herr
  have hsource : l.source = source := hrun.source
  have hconfig : l.config = config := hrun.config
  rw [hreturned]
  cases hmove with
  | @badIndent line hq hs hline hk =>
    cases he
    obtain ⟨before, hat, hbreak, -⟩ := hrun.lineStart hs
    obtain ⟨lead, indentation, d, rest, hskip, hlead, hfeed, hblank, hr, hd, rfl⟩ :=
      nextLine?_spec hs hline
    have htext : source.chars = (before ++ lead) ++ (indentation ++ d :: rest) := by
      rw [(settled_cursorAt hat).text, hskip, hr]; simp
    have horigin : l.source.origin (l.cursor.offset + byteLength lead) =
        ⟨source, byteLength (before ++ lead)⟩ := by
      rw [hsource, hat.offset, ← byteLength_append]
      exact Source.origin_of_boundary ⟨_, htext.symm⟩
    obtain ⟨hbefore, hafter⟩ := Origin.before_of_boundary htext
    simp only [horigin, hbefore, hafter]
    have hcut : ((⟨source, byteLength (before ++ lead)⟩ : Origin).cut []).chars =
        before ++ lead := by rw [Origin.chars_cut, hbefore, List.append_nil]
    refine ⟨trivial, nofun, ?_, fun hne => absurd rfl (hne _)⟩
    rintro width ⟨⟩
    refine ⟨hlead.append hbreak, ⟨indentation, d, rest, rfl, ?_, ?_, ?_⟩,
      hrun.tokens_of_misaligned hl hq hs hat hbreak hskip hlead hfeed hblank hk hcut⟩
    · exact fun x hx => ⟨hblank x hx, fun hn => hfeed (hn ▸ hx)⟩
    · rw [hconfig]
    · rw [hconfig] at hd
      exact beginsToken_iff.1 hd
  | @fail c rest cause hq hreads hr hc hcause =>
    cases he
    obtain ⟨before, hat⟩ := hrun.exists_cursorAt
    have hset := settled_cursorAt hat
    obtain ⟨hbefore, hafter⟩ := Origin.before_of_boundary hset.text
    simp only [hsource, hset.origin, hbefore, hafter, hr]
    have hcut : ((⟨source, byteLength (before ++ l.skipped)⟩ : Origin).cut [';']).chars =
        before ++ l.skipped ++ [';'] := by rw [Origin.chars_cut, hbefore]
    refine ⟨trivial, ?_, ?_, fun _ =>
      hrun.tokens_of_cut hl hq hreads hr (ne_lineFeed_of_beginsToken hc) hset hcut⟩
    · rintro d rfl
      obtain ⟨rfl, hquote, hdigit, hword, hsymbols⟩ := Lexeme.read_unknownSymbol hcause
      rw [hconfig] at hc
      obtain ⟨hblank, hhash⟩ := beginsToken_iff.1 hc
      exact ⟨rest, rfl, hblank, hquote, hdigit, hword, hhash, hsymbols⟩
    · rintro width rfl
      rcases Lexeme.read_error hcause with hother | hother <;> cases hother
  | dequeue | indent | dedent | newline | token | unwind | finish => cases he

/-- The first character of a deeper line starts no token. -/
def oddSample : Source := ⟨"sample", "f(\n\té)\n\t\t!x"⟩

/-- The last line has a width between those of the open blocks. -/
def staggeredSample : Source := ⟨"sample", "a:\n    b # é\n\n  # c\n  d"⟩

/-- A string without an end stands right behind a point. -/
def danglingSample : Source := ⟨"sample", "x = 1.'abc"⟩

theorem errors_located_samples :
    (tokenize oddSample {} = some (.error ⟨.unknownSymbol '!', ⟨oddSample, 10⟩⟩) ∧
      (∀ s : Symbol, ¬ s.letters <+: ['!', 'x']) ∧
      ∃ own n, tokenize ((⟨oddSample, 10⟩ : Origin).cut [';']) {} =
          some (.ok (own ++ ⟨.symbol .semicolon, ⟨(⟨oddSample, 10⟩ : Origin).cut [';'], 10⟩⟩ ::
            closing ((⟨oddSample, 10⟩ : Origin).cut [';']) n)) ∧
        own.map Token.spot = (returned (start oddSample {}).steps).map Token.spot) ∧
    (tokenize staggeredSample {} = some (.error ⟨.badIndent 2, ⟨staggeredSample, 21⟩⟩) ∧
      AtBreak (⟨staggeredSample, 21⟩ : Origin).before ∧
      ∃ own n, tokenize ((⟨staggeredSample, 21⟩ : Origin).cut []) {} =
          some (.ok (own ++ closing ((⟨staggeredSample, 21⟩ : Origin).cut []) n)) ∧
        own.map Token.spot = (returned (start staggeredSample {}).steps).map Token.spot) ∧
    (tokenize danglingSample {} = some (.error ⟨.unterminatedString, ⟨danglingSample, 6⟩⟩) ∧
      ∃ own n, tokenize ((⟨danglingSample, 6⟩ : Origin).cut [';']) {} =
          some (.ok (own ++ ⟨.symbol .semicolon, ⟨(⟨danglingSample, 6⟩ : Origin).cut [';'], 6⟩⟩ ::
            closing ((⟨danglingSample, 6⟩ : Origin).cut [';']) n)) ∧
        own.map Token.spot = (returned (start danglingSample {}).steps).map Token.spot) := by
  have hodd : tokenize oddSample {} = some (.error ⟨.unknownSymbol '!', ⟨oddSample, 10⟩⟩) := by
    decide +kernel
  have hstaggered : tokenize staggeredSample {} =
      some (.error ⟨.badIndent 2, ⟨staggeredSample, 21⟩⟩) := by decide +kernel
  have hdangling : tokenize danglingSample {} =
      some (.error ⟨.unterminatedString, ⟨danglingSample, 6⟩⟩) := by decide +kernel
  obtain ⟨-, hsymbol, -, hcut⟩ := errors_located hodd
  obtain ⟨rest, hafter, -, -, -, -, -, hsymbols⟩ := hsymbol '!' rfl
  have hrest : (⟨oddSample, 10⟩ : Origin).after = ['!', 'x'] := by decide +kernel
  rw [← hafter, hrest] at hsymbols
  obtain ⟨-, -, hline, -⟩ := errors_located hstaggered
  obtain ⟨hbreak, -, own, n, hok, hspots, -⟩ := hline 2 rfl
  obtain ⟨-, -, -, hstring⟩ := errors_located hdangling
  exact ⟨⟨hodd, hsymbols, hcut nofun⟩, ⟨hstaggered, hbreak, own, n, hok, hspots⟩,
    hdangling, hstring nofun⟩

end Lexer

end Offside
