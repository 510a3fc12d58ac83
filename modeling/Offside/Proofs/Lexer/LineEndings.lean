import Offside.Proofs.Lexer.Coverage
import Offside.Proofs.Lexer.Locality
import Offside.Proofs.Lexer.Lockstep

/-!
# Line endings

A carriage return is blank, so a text whose lines end in a carriage return and a line feed is read
like one whose lines end in a line feed alone. Every carriage return is skipped: with the gap before
the line feed that ends a line, or inside a longer gap.

Results:
* `Lexer.settled_of_returns`: what becomes of a gap.
* `Lexer.marksFeed_of_mem_items`: the ends of lines are the items that stand at a line feed.
* `Lexer.items_withReturns`: the two streams, their errors included.
-/

namespace Offside

open Text

/-- A text with a carriage return before every line feed. -/
def withReturns (cs : List Char) : List Char :=
  cs.flatMap fun c => if c = '\n' then ['\r', '\n'] else [c]

@[simp] theorem withReturns_append (a b : List Char) :
    withReturns (a ++ b) = withReturns a ++ withReturns b := List.flatMap_append

theorem withReturns_feed (cs : List Char) :
    withReturns ('\n' :: cs) = '\r' :: '\n' :: withReturns cs := rfl

theorem withReturns_of_notMem {a : List Char} (ha : '\n' ∉ a) : withReturns a = a := by
  induction a with
  | nil => rfl
  | cons c a ih =>
    simp only [List.mem_cons, not_or] at ha
    have htail := ih ha.2
    unfold withReturns at htail ⊢
    rw [List.flatMap_cons, if_neg (Ne.symm ha.1), htail, List.singleton_append]

theorem withReturns_line {a : List Char} (ha : '\n' ∉ a) (cs : List Char) :
    withReturns (a ++ '\n' :: cs) = a ++ '\r' :: '\n' :: withReturns cs := by
  rw [withReturns_append, withReturns_of_notMem ha, withReturns_feed]

theorem withReturns_cons {c : Char} (hc : c ≠ '\n') (cs : List Char) :
    withReturns (c :: cs) = c :: withReturns cs := by
  have hsingle : withReturns [c] = [c] := withReturns_of_notMem (by simpa using Ne.symm hc)
  rw [← List.singleton_append, withReturns_append, hsingle, List.singleton_append]

/-- What `withReturns` puts in front of a text. -/
def returnBefore (cs : List Char) : List Char := if cs.head? = some '\n' then ['\r'] else []

theorem returnBefore_of_head? {cs : List Char} (h : cs.head? ≠ some '\n') : returnBefore cs = [] :=
  if_neg h

theorem head?_line {line : List Char} (hline : '\n' ∉ line) {c : Char} (hc : c ≠ '\n')
    (cs : List Char) : (line ++ c :: cs).head? ≠ some '\n' := by
  cases line with
  | nil => exact fun h => hc (Option.some.inj h)
  | cons x line => exact fun h => hline (Option.some.inj h ▸ List.mem_cons_self)

theorem lineFeed_notMem_returnBefore (cs : List Char) : '\n' ∉ returnBefore cs := by
  unfold returnBefore
  split <;> simp

theorem exists_withReturns (cs : List Char) :
    ∃ cs', withReturns cs = returnBefore cs ++ cs' ∧ cs'.head? = cs.head? := by
  cases cs with
  | nil => exact ⟨[], rfl, rfl⟩
  | cons c cs =>
    by_cases hc : c = '\n'
    · subst hc
      exact ⟨'\n' :: withReturns cs, rfl, rfl⟩
    · refine ⟨c :: withReturns cs, ?_, rfl⟩
      rw [withReturns_cons hc, returnBefore_of_head? (by simpa using hc), List.nil_append]

theorem count_withReturns (cs : List Char) : (withReturns cs).count '\n' = cs.count '\n' := by
  induction cs using lines_induction with
  | last a ha => rw [withReturns_of_notMem ha]
  | line a cs ha ih => rw [withReturns_line ha]; simp [ih]

theorem lastLine_withReturns (cs : List Char) : lastLine (withReturns cs) = lastLine cs := by
  induction cs using lines_induction with
  | last a ha => rw [withReturns_of_notMem ha]
  | line a cs ha ih =>
    rw [withReturns_line ha, List.append_cons, lastLine_append_feed, lastLine_append_feed, ih]

theorem isBlank_return : ∀ x ∈ ['\r'], isBlank x = true := List.forall_mem_singleton.2 (by decide)

/-- The line that is being read may get a carriage return at its end. -/
theorem firstLine_withReturns (cs : List Char) :
    ∃ pad, (∀ x ∈ pad, isBlank x = true) ∧
      firstLine (withReturns cs) = firstLine cs ++ pad := by
  induction cs using lines_induction with
  | last a ha => exact ⟨[], by simp, by rw [withReturns_of_notMem ha, List.append_nil]⟩
  | line a cs ha _ =>
    refine ⟨['\r'], isBlank_return, ?_⟩
    rw [withReturns_line ha, firstLine_append ha, firstLine_append ha]
    simp [firstLine]

/-- A gap stays one: a carriage return is blank, or goes on with a comment. -/
theorem isGap_withReturns {comments : Bool} {g next : List Char} (h : IsGap comments g next) :
    IsGap comments (withReturns g) next := by
  induction g using lines_induction with
  | last a ha => rw [withReturns_of_notMem ha]; exact h
  | line a cs ha ih =>
    rw [List.append_cons] at h
    obtain ⟨hfirst, hrest⟩ := h.split (atBreak_snoc a)
    have htail := IsGap.blank isBlank_lineFeed (ih hrest)
    have hline : IsGap comments (a ++ ['\r']) ('\n' :: withReturns cs ++ next) :=
      (hfirst.init.pad (Or.inr rfl) (.of_isBlank isBlank_return _) (by simp)).of_head rfl
    rw [withReturns_line ha, List.append_cons]
    exact hline.append htail

theorem isGap_returnBefore {comments : Bool} {g next next' : List Char} (h : IsGap comments g next)
    (hhead : next'.head? = next.head?) :
    IsGap comments (withReturns g ++ returnBefore next) next' := by
  have hgap := (isGap_withReturns h).of_head hhead.symm
  unfold returnBefore
  split
  · next hfeed =>
    exact hgap.pad (Or.inr (hhead.trans hfeed)) (.of_isBlank isBlank_return _) (by simp)
  · rw [List.append_nil]; exact hgap

/-! ## Places -/

/-- The same line and column, but for the carriage return before a line feed. -/
structure Origin.Returned (o o' : Origin) : Prop where
  line : o'.line = o.line
  column : o'.column = o.column + if o.after.head? = some '\n' then 1 else 0

theorem Cursor.At.returned {source source' : Source} {before : List Char} {cursor cursor' : Cursor}
    (hat : cursor.At source before)
    (hat' : cursor'.At source' (withReturns before ++ returnBefore cursor.rest)) :
    (source.origin cursor.offset).Returned (source'.origin cursor'.offset) := by
  obtain ⟨hbefore, hafter⟩ := Origin.before_of_boundary hat.text
  obtain ⟨hbefore', -⟩ := Origin.before_of_boundary hat'.text
  have hfeed := lineFeed_notMem_returnBefore cursor.rest
  rw [hat.origin, hat'.origin]
  constructor
  · unfold Origin.line
    rw [hbefore, hbefore', List.count_append, count_withReturns, List.count_eq_zero.2 hfeed,
      Nat.add_zero]
  · unfold Origin.column
    rw [hbefore, hbefore', hafter, lastLine_append hfeed, lastLine_withReturns, byteLength_append]
    unfold returnBefore
    split <;> rfl

/-! ## Ends of lines -/

namespace Lexer

/-- An item ends a line exactly if it stands at a line feed. -/
def MarksFeed (item : Except LexError Token) : Prop :=
  bare item = .ok .newline ↔ (place item).after.head? = some '\n'

theorem marksFeed_of_ne {item : Except LexError Token} (hbare : bare item ≠ .ok .newline)
    (hplace : (place item).after.head? ≠ some '\n') : MarksFeed item :=
  ⟨fun h => absurd h hbare, fun h => absurd h hplace⟩

section

variable {source : Source} {before : List Char} {l : Lexer}

theorem after_settled (hsource : l.source = source) (hat : l.cursor.At source before) :
    (l.source.origin l.settled.cursor.offset).after = l.settled.cursor.rest := by
  have hset := settled_cursorAt hat
  rw [hsource, hset.origin]
  exact (Origin.before_of_boundary hset.text).2

theorem offset_lineStart {lead line : List Char} (h : l.skipped = lead ++ line) :
    l.settled.cursor.offset - byteLength line = (l.cursor.advance lead).offset := by
  show l.cursor.offset + byteLength l.skipped - byteLength line = l.cursor.offset + byteLength lead
  rw [h, byteLength_append]
  omega

theorem head?_after_lineStart (hsource : l.source = source) (hat : l.cursor.At source before)
    (hs : l.atLineStart = true) {line : Line} (hl : l.nextLine? = some line) :
    (l.source.origin line.start).after.head? ≠ some '\n' := by
  obtain ⟨lead, indentation, c, cs, hskip, -, hfeed, -, hr, hc, rfl⟩ := nextLine?_spec hs hl
  have hrest : l.cursor.rest = lead ++ (indentation ++ c :: cs) := by
    rw [l.settled_spec.1, hskip, hr, List.append_assoc]
  have hstart := hat.advance hrest
  have hafter : (source.origin (l.cursor.offset + byteLength lead)).after =
      indentation ++ c :: cs := by
    rw [show l.cursor.offset + byteLength lead = (l.cursor.advance lead).offset from rfl,
      hstart.origin, (Origin.before_of_boundary hstart.text).2, Cursor.rest_advance hrest]
  rw [hsource, hafter]
  exact head?_line hfeed (ne_lineFeed_of_beginsToken hc) cs

/-- Only the end of a line stands at a line feed. -/
theorem Move.marksFeed {s : Step} (h : Move l s) (hsource : l.source = source)
    (hat : l.cursor.At source before) (hqueue : ∀ t ∈ l.pending, MarksFeed (.ok t)) :
    MarksFeed s.result ∧ ∀ t ∈ s.lexer.pending, MarksFeed (.ok t) := by
  have hafter := after_settled hsource hat
  have hread : ∀ {c cs}, l.settled.cursor.rest = c :: cs →
      beginsToken l.config.comments c = true →
      (l.source.origin l.settled.cursor.offset).after.head? ≠ some '\n' := by
    intro c cs hr hc
    rw [hafter, hr]
    exact head?_line List.not_mem_nil (ne_lineFeed_of_beginsToken hc) cs
  have hend : MarksFeed (.ok l.endToken) := by
    refine marksFeed_of_ne (by simp [bare, endToken]) ?_
    show l.endToken.origin.after.head? ≠ _
    rw [endToken_eq]
    have hnil : (⟨l.source, l.source.size⟩ : Origin).after = [] :=
      (Origin.before_of_boundary (List.append_nil l.source.chars).symm).2
    simp [hnil]
  cases h with
  | dequeue hq =>
    rw [hq] at hqueue
    exact ⟨hqueue _ List.mem_cons_self, fun t ht => hqueue t (List.mem_cons_of_mem _ ht)⟩
  | indent hq hs hl | badIndent hq hs hl =>
    exact ⟨marksFeed_of_ne (by simp [bare]) (head?_after_lineStart hsource hat hs hl), hqueue⟩
  | dedent hq hs hl =>
    have hdedent := head?_after_lineStart hsource hat hs hl
    refine ⟨marksFeed_of_ne (by simp [bare]) hdedent, fun t ht => ?_⟩
    rw [List.eq_of_mem_replicate ht]
    exact marksFeed_of_ne (by simp [bare]) hdedent
  | newline hq hs hr =>
    refine ⟨iff_of_true rfl ?_, hqueue⟩
    show (l.source.origin l.settled.cursor.offset).after.head? = _
    rw [hafter, hr]; rfl
  | token hq hs hr hc hok =>
    refine ⟨marksFeed_of_ne ?_ (hread hr hc), hqueue⟩
    intro hbare
    have hvisible := (Lexeme.read_spells hok).isVisible
    obtain rfl := Except.ok.inj hbare
    cases hvisible
  | fail hq hs hr hc => exact ⟨marksFeed_of_ne (by simp [bare]) (hread hr hc), hqueue⟩
  | unwind hq hr =>
    have hdedent : MarksFeed (.ok ⟨.dedent, l.source.origin l.settled.cursor.offset⟩) := by
      refine marksFeed_of_ne (by simp [bare]) ?_
      show (l.source.origin l.settled.cursor.offset).after.head? ≠ _
      rw [hafter, hr]
      simp
    refine ⟨hdedent, fun t ht => ?_⟩
    rcases List.mem_append.1 ht with ht | ht
    · rw [List.eq_of_mem_replicate ht]; exact hdedent
    · rw [List.mem_singleton.1 ht]; exact hend
  | finish => exact ⟨hend, hqueue⟩

end

section

variable {source : Source} {config : Config}

theorem Run.marksFeed {visited : List Lexer} {l : Lexer} (h : Run (start source config) visited l) :
    ∀ t ∈ l.pending, MarksFeed (.ok t) := by
  induction h with
  | nil => exact fun t ht => absurd ht List.not_mem_nil
  | snoc hrun hm ih =>
    obtain ⟨before, hat⟩ := hrun.exists_cursorAt
    obtain ⟨s, hmove, -, hlexer⟩ := exists_move hm.1
    rw [hlexer]; exact (hmove.marksFeed hrun.source hat ih).2

theorem marksFeed_of_mem_items {item : Except LexError Token}
    (h : item ∈ (start source config).items) : MarksFeed item := by
  obtain ⟨visited, l, hrun, hl, rfl⟩ := exists_call_of_mem_items h
  obtain ⟨before, hat⟩ := hrun.exists_cursorAt
  obtain ⟨s, hmove, hresult, -⟩ := exists_move hl.1
  rw [hresult]; exact (hmove.marksFeed hrun.source hat hrun.marksFeed).1

/-! ## Streams -/

/-- The second lexer reads what the first reads, with carriage returns. -/
def Returns (_ : Bool) (cursor cursor' : Cursor) : Prop := cursor'.rest = withReturns cursor.rest

/-- The texts before two such cursors correspond, too. -/
theorem Returns.cursorAt {s : Bool} {cursor cursor' : Cursor} {before : List Char}
    (h : Returns s cursor cursor') (hat : cursor.At source before)
    (hat' : ∃ before', cursor'.At (source.edit withReturns) before') :
    cursor'.At (source.edit withReturns) (withReturns before) := by
  obtain ⟨before', hat'⟩ := hat'
  have htext := hat'.text
  rw [Source.chars_edit, hat.text, withReturns_append, show cursor'.rest = _ from h] at htext
  rw [List.append_cancel_right htext]; exact hat'

/-- The carriage returns of a gap are skipped with it, and so is the one before the line feed that
stops the scan. -/
theorem settled_of_returns {l l' : Lexer} (hconfig : l'.config = l.config)
    (hskips : l'.skipsLines = l.skipsLines) (h : Returns l.atLineStart l.cursor l'.cursor) :
    l'.skipped = withReturns l.skipped ++ returnBefore l.settled.cursor.rest ∧
      withReturns l.settled.cursor.rest =
        returnBefore l.settled.cursor.rest ++ l'.settled.cursor.rest ∧
      l'.settled.cursor.rest.head? = l.settled.cursor.rest.head? := by
  obtain ⟨hrest, hgap, hstop⟩ := l.settled_spec
  obtain ⟨next', hnext, hhead⟩ := exists_withReturns l.settled.cursor.rest
  have hrest' : l'.cursor.rest =
      withReturns l.skipped ++ returnBefore l.settled.cursor.rest ++ next' := by
    rw [List.append_assoc, ← hnext, ← withReturns_append, ← hrest]; exact h
  obtain ⟨hskip, hset⟩ := settled_of_gap hrest'
    (by rw [hconfig]; exact isGap_returnBefore hgap hhead)
    (by rw [hconfig, hskips]; exact hstop.of_head hhead)
    (by
      intro hj
      have hfeed := lineFeed_notMem_skipped (hskips ▸ hj)
      rw [withReturns_of_notMem hfeed, List.mem_append, not_or]
      exact ⟨hfeed, lineFeed_notMem_returnBefore _⟩)
  rw [hset]
  exact ⟨hskip, hnext, hhead⟩

theorem returned_lineStart {source' : Source} {before : List Char} {l l' : Lexer} {c : Char}
    {cs : List Char} (hat : l.cursor.At source before)
    (hat' : l'.cursor.At source' (withReturns before)) (hskip : l'.skipped = withReturns l.skipped)
    (hr : l.settled.cursor.rest = c :: cs) (hc : c ≠ '\n') :
    (source.origin (l.settled.cursor.offset - byteLength (lastLine l.skipped))).Returned
      (source'.origin (l'.settled.cursor.offset - byteLength (lastLine l.skipped))) := by
  obtain ⟨lead, hlead, -, hfeed⟩ := exists_lastLine l.skipped
  generalize lastLine l.skipped = line at hlead hfeed ⊢
  have hlead' : l'.skipped = withReturns lead ++ line := by
    rw [hskip, hlead, withReturns_append, withReturns_of_notMem hfeed]
  have hrest : l.cursor.rest = lead ++ (line ++ c :: cs) := by
    rw [l.settled_spec.1, hlead, hr, List.append_assoc]
  have hrest' : l'.cursor.rest = withReturns lead ++ (line ++ l'.settled.cursor.rest) := by
    rw [l'.settled_spec.1, hlead', List.append_assoc]
  have hstart := hat.advance hrest
  have hstart' := hat'.advance hrest'
  have hnone : returnBefore (l.cursor.advance lead).rest = [] := by
    rw [Cursor.rest_advance hrest]
    exact returnBefore_of_head? (head?_line hfeed hc cs)
  rw [offset_lineStart hlead, offset_lineStart hlead']
  apply hstart.returned
  rw [hnone, List.append_nil, withReturns_append]
  exact hstart'

/-- A token is read as before, and so is what cannot be read. -/
theorem read_withReturns (c : Char) (cs : List Char) :
    (Lexeme.read c (withReturns cs)).content = (Lexeme.read c cs).content ∧
      ∀ content, (Lexeme.read c cs).content = .ok content →
        Lexeme.read c (withReturns cs) = Lexeme.read c cs := by
  obtain ⟨pad, hpad, hline⟩ := firstLine_withReturns cs
  rw [← Lexeme.read_firstLine c cs, ← Lexeme.read_firstLine c (withReturns cs), hline]
  exact ⟨Lexeme.read_content_append hpad, fun content hok =>
    Lexeme.read_append_of_ok hok (Lexeme.upToStop_of_isBlank hpad)⟩

theorem meets_of_returns {visited visited' : List Lexer} {l l' : Lexer}
    (hrun : Run (start source config) visited l)
    (hrun' : Run (start (source.edit withReturns) config) visited' l')
    (htwins : Twins (.moved Origin.Returned) Returns l l') :
    Meets (.moved Origin.Returned) Returns l l' := by
  have hconfig : l'.config = l.config := hrun'.config.trans hrun.config.symm
  have hsource : l.source = source := hrun.source
  have hsource' : l'.source = source.edit withReturns := hrun'.source
  obtain ⟨hskip, hnext, hhead⟩ :=
    settled_of_returns hconfig (htwins.skipsLines_eq (by rw [hconfig])) htwins.cursor
  obtain ⟨before, hat⟩ := hrun.exists_cursorAt
  have hat' := htwins.cursor.cursorAt hat hrun'.exists_cursorAt
  have hset := settled_cursorAt hat
  have hset' : l'.settled.cursor.At (source.edit withReturns)
      (withReturns (before ++ l.skipped) ++ returnBefore l.settled.cursor.rest) := by
    have h := settled_cursorAt hat'
    rw [hskip, ← List.append_assoc, ← withReturns_append] at h
    exact h
  have hplace : (l.source.origin l.settled.cursor.offset).Returned
      (l'.source.origin l'.settled.cursor.offset) := by
    rw [hsource, hsource']; exact hset.returned hset'
  cases hr : l.settled.cursor.rest with
  | nil =>
    rw [hr] at hhead
    have hr' := List.head?_eq_none_iff.1 hhead
    have hend : l.endToken.origin.Returned l'.endToken.origin := by
      rw [hsource, hsource', (hset.atEnd hr).2, (hset'.atEnd hr').2] at hplace
      rw [endToken_eq, endToken_eq, hsource, hsource']
      exact hplace
    exact .atEnd hr hr' hplace hend (show _ = _ by rw [hr, hr']; rfl)
  | cons c cs =>
    rw [hr] at hhead hnext hskip
    obtain ⟨cs', hr'⟩ := List.head?_eq_some_iff.1 hhead
    by_cases hc : c = '\n'
    · subst hc
      refine .newline hr hr' hplace ?_
      unfold Returns
      rw [Cursor.rest_advance (show _ = ['\n'] ++ cs from hr),
        Cursor.rest_advance (show _ = ['\n'] ++ cs' from hr')]
      rw [hr', withReturns_feed] at hnext
      simpa [returnBefore] using hnext.symm
    · have hnone := returnBefore_of_head? (head?_line List.not_mem_nil hc cs)
      rw [List.nil_append] at hnone
      rw [hnone, List.append_nil] at hskip
      rw [hnone, List.nil_append] at hnext
      obtain rfl : withReturns cs = cs' := by
        rw [withReturns_cons hc, hr'] at hnext
        exact (List.cons.inj hnext).2
      have htext : Returns false l.settled.cursor l'.settled.cursor := by
        unfold Returns
        rw [hr, hnext]
      refine .token hr hr' hc hplace ?_ htext ?_
      · intro _
        have hline : lastLine l'.skipped = lastLine l.skipped := by
          rw [hskip, lastLine_withReturns]
        rw [hline, hconfig, hsource, hsource']
        exact ⟨rfl, returned_lineStart hat hat' hskip hr hc⟩
      · intro _
        obtain ⟨hcontent, hread⟩ := read_withReturns c cs
        refine ⟨hcontent, fun content hok => ?_⟩
        obtain ⟨rest, hrest⟩ := Lexeme.read_isPrefix c cs
        have hrest' : l'.settled.cursor.rest = (Lexeme.read c cs).text ++ withReturns rest := by
          rw [← hnext, ← hrest, withReturns_append,
            withReturns_of_notMem (Lexeme.lineFeed_notMem_read hc cs)]
        unfold Returns
        rw [hread content hok, Cursor.rest_advance (hr.trans hrest.symm),
          Cursor.rest_advance hrest']

/-- **Line endings.** A text and the same with a carriage return before every line feed give the
same items without their places, unless a width leaves the words: the same tokens, and the same
error if they fail. The items stand on the same lines and in the same columns, but the end of a line
is one column further right. -/
theorem items_withReturns (source : Source) (config : Config)
    (hpanics : (start source config).panics = false)
    (hpanics' : (start (source.edit withReturns) config).panics = false) :
    (start (source.edit withReturns) config).items.map bare =
        (start source config).items.map bare ∧
      List.Forall₂ (fun item item' =>
          (place item').line = (place item).line ∧
          (place item').column =
            (place item).column + if bare item = .ok .newline then 1 else 0)
        (start source config).items (start (source.edit withReturns) config).items := by
  have htext : Returns true ⟨source.chars, 0⟩ ⟨(source.edit withReturns).chars, 0⟩ := by
    simp only [Returns, Source.chars_edit]
  have htwins : Twins (.moved Origin.Returned) Returns (start source config)
      (start (source.edit withReturns) config) := start_twins htext
  obtain ⟨halike, -⟩ := htwins.items_alike rfl rfl
    (fun hrun hl hrun' hl' _ => overflows_eq_of_panics hpanics hpanics' hrun hl hrun' hl')
    fun hrun _ hrun' _ _ htwins => meets_of_returns hrun hrun' htwins
  obtain ⟨hbare, hplaces⟩ := Likeness.moved_spec halike
  refine ⟨hbare, ?_⟩
  have hmarked := (List.forall₂_and_left _ _).2 ⟨fun _ => marksFeed_of_mem_items, hplaces⟩
  refine hmarked.imp fun item item' h => ⟨h.2.line, ?_⟩
  have hfeed : bare item = .ok .newline ↔ (place item).after.head? = some '\n' := h.1
  rw [h.2.column]
  simp only [hfeed]

end

/-- A blank line, a block and a comment, and at last a line that lines up with no block. -/
def endingSample : Source := ⟨"sample", "a\n \n\tb # c\n d"⟩

theorem items_withReturns_endingSample :
    (endingSample.edit withReturns).text = "a\r\n \r\n\tb # c\r\n d" ∧
      (start (endingSample.edit withReturns) {}).items.map bare =
        [.ok (.identifier "a"), .ok .newline, .ok .indent, .ok (.identifier "b"), .ok .newline,
         .error (.badIndent 1)] := by
  refine ⟨by decide +kernel, ?_⟩
  rw [(items_withReturns endingSample {} (by decide +kernel) (by decide +kernel)).1]
  decide +kernel

end Lexer

end Offside
