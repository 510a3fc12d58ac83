import Offside.Proofs.Lexer.Coverage
import Offside.Proofs.Lexer.Grammar
import Offside.Proofs.Lexer.Locality
import Offside.Proofs.Lexer.Lockstep

/-!
# Where logical lines end

A line feed ends a logical line if it stands outside brackets and a visible token comes before it on
that line. `EndsLine` says this of the tokens of a stream and a place in its text. The newlines of
the stream stand at just these line feeds.

The proof follows a run. `Lined` says that all line feeds before the cursor are settled, and whether
the line at the cursor has begun; every move keeps it.

Results:
* `Lexer.Run.lined`: a run has settled the line feeds before its cursor.
* `Lexer.newlines_end_lines`: the newlines of a stream, and those between two visible tokens.
-/

namespace Offside

open Text

/-! ## Places in a text -/

/-- The tokens that start before an offset. -/
def startedBefore (ts : List Token) (offset : Nat) : List Token :=
  ts.filter (·.origin.offset < offset)

/-- No bracket that joins lines is open at an offset. -/
def OutsideBrackets (joins : Bool) (ts : List Token) (offset : Nat) : Prop :=
  joins = false ∨ bracketDepth (startedBefore ts offset) = 0

/-- Before an offset and after the newlines before it a visible token starts. -/
def LineBegun (ts : List Token) (offset : Nat) : Prop :=
  ∃ t ∈ startedBefore ts offset, t.content.isVisible = true ∧
    ∀ n ∈ startedBefore ts offset, n.content = .newline → n.origin.offset < t.origin.offset

/-- A line feed at the offset ends a logical line. -/
def EndsLine (joins : Bool) (ts : List Token) (offset : Nat) : Prop :=
  OutsideBrackets joins ts offset ∧ LineBegun ts offset

/-- Does the token stand for a part of the text, unlike the layout of blocks? -/
def Token.HasText (t : Token) : Prop := t.content.isVisible = true ∨ t.content = .newline

section

variable {joins : Bool} {ts : List Token} {t : Token} {offset : Nat}

theorem mem_startedBefore : t ∈ startedBefore ts offset ↔ t ∈ ts ∧ t.origin.offset < offset := by
  simp [startedBefore]

theorem startedBefore_snoc_of_le (h : offset ≤ t.origin.offset) :
    startedBefore (ts ++ [t]) offset = startedBefore ts offset := by
  simp [startedBefore, h]

/-- Tokens that are no brackets do not matter to the depth. -/
theorem bracketDepth_filter {f : Token → Bool}
    (h : ∀ t ∈ ts, f t = false → t.content.isVisible = false) :
    bracketDepth (ts.filter f) = bracketDepth ts := by
  induction ts using List.reverseRecOn with
  | nil => rfl
  | append_singleton ts t ih =>
    have hts := ih fun u hu => h u (List.mem_append_left _ hu)
    rw [List.filter_append, bracketDepth_snoc]
    cases ht : f t with
    | true => rw [List.filter_cons_of_pos ht, List.filter_nil, bracketDepth_snoc, hts]
    | false =>
      rw [List.filter_cons_of_neg (by simp [ht]), List.filter_nil, List.append_nil, hts,
        bracketStep_of_layout (h t (by simp) ht)]

theorem endsLine_snoc_of_mark (h : ¬ t.HasText) :
    EndsLine joins (ts ++ [t]) offset ↔ EndsLine joins ts offset := by
  have hvisible : t.content.isVisible = false := by
    simpa using fun hv => h (Or.inl hv)
  have hnewline : t.content ≠ .newline := fun hn => h (Or.inr hn)
  by_cases hle : offset ≤ t.origin.offset
  · simp only [EndsLine, OutsideBrackets, LineBegun, startedBefore_snoc_of_le hle]
  · have hsnoc : startedBefore (ts ++ [t]) offset = startedBefore ts offset ++ [t] := by
      simp [startedBefore, Nat.lt_of_not_le hle]
    have hdepth : bracketDepth (startedBefore ts offset ++ [t]) =
        bracketDepth (startedBefore ts offset) := by
      rw [bracketDepth_snoc, bracketStep_of_layout hvisible]
    have hbegun : LineBegun (ts ++ [t]) offset ↔ LineBegun ts offset := by
      simp only [LineBegun, hsnoc, List.mem_append, List.mem_singleton, or_and_right, exists_or,
        exists_eq_left, hvisible, Bool.false_eq_true, false_and, or_false, or_imp, forall_and,
        forall_eq, hnewline, false_imp_iff, and_true]
    rw [EndsLine, EndsLine, OutsideBrackets, OutsideBrackets, hsnoc, hdepth, hbegun]

theorem endsLine_snoc_of_le (h : offset ≤ t.origin.offset) :
    EndsLine joins (ts ++ [t]) offset ↔ EndsLine joins ts offset := by
  simp only [EndsLine, OutsideBrackets, LineBegun, startedBefore_snoc_of_le h]

end

/-! ## Settled line feeds -/

/-- The newline at a line feed. -/
def feedToken (source : Source) (before : List Char) : Token :=
  ⟨.newline, ⟨source, byteLength before⟩⟩

/-- The tokens have a newline at just those line feeds before `bound` that end a line. -/
def FeedsSettled (joins : Bool) (source : Source) (ts : List Token) (bound : Nat) : Prop :=
  ∀ before rest, source.chars = before ++ '\n' :: rest → byteLength before < bound →
    (feedToken source before ∈ ts ↔ EndsLine joins ts (byteLength before))

/-- A newline of pieces that are laid out stands at a line feed of their text. -/
theorem Laid.exists_feed {source : Source} {comments : Bool} {pieces : List Piece} {n : Token}
    (h : Laid source comments pieces) (hn : n ∈ layoutTokens pieces)
    (hnewline : n.content = .newline) :
    ∃ before rest, layoutText pieces = before ++ '\n' :: rest ∧ n = feedToken source before := by
  obtain ⟨p, hp, hnp⟩ := List.mem_flatMap.1 hn
  obtain ⟨a, b, rfl⟩ := List.append_of_mem hp
  have hfits := h a p b rfl
  rcases List.mem_append.1 hnp with hmark | htoken
  · rcases hfits.marks with hnil | ⟨-, lead, indentation, -, -, -, hmarks⟩
    · rw [hnil] at hmark; cases hmark
    · rcases (hmarks n hmark).1 with hc | hc <;> rw [hnewline] at hc <;> cases hc
  · rw [List.mem_singleton] at htoken
    subst htoken
    rcases hfits.lexeme with hspells | ⟨hlexeme, -⟩
    · have hvisible := hspells.isVisible
      rw [hnewline] at hvisible; cases hvisible
    · refine ⟨layoutText a ++ p.gap, layoutText b, ?_, ?_⟩
      · simp [layoutText, Piece.text, hlexeme]
      · rw [feedToken, ← hfits.origin, ← hnewline]

/-- Of tokens whose texts follow one another, those between two are those whose texts are. -/
theorem mem_between {a mid b : List Token} {t u x : Token}
    (horder : (a ++ t :: (mid ++ u :: b)).Pairwise fun s t =>
      s.HasText → t.HasText → s.origin.offset < t.origin.offset)
    (ht : t.HasText) (hu : u.HasText) (hx : x.HasText) (hmem : x ∈ a ++ t :: (mid ++ u :: b)) :
    x ∈ mid ↔ t.origin.offset < x.origin.offset ∧ x.origin.offset < u.origin.offset := by
  obtain ⟨-, htail, hfront⟩ := List.pairwise_append.1 horder
  obtain ⟨hbehind, hinner⟩ := List.pairwise_cons.1 htail
  obtain ⟨-, hback, hmid⟩ := List.pairwise_append.1 hinner
  obtain ⟨hlast, -⟩ := List.pairwise_cons.1 hback
  constructor
  · intro hxmid
    exact ⟨hbehind x (by simp [hxmid]) ht hx, hmid x hxmid u (by simp) hx hu⟩
  · intro hplace
    simp only [List.mem_append, List.mem_cons] at hmem
    rcases hmem with hxa | rfl | hxmid | rfl | hxb
    · have := hfront x hxa t (by simp) hx ht
      omega
    · omega
    · exact hxmid
    · omega
    · have := hlast x hxb hu hx
      omega

namespace FeedsSettled

variable {joins : Bool} {source : Source} {ts : List Token} {t : Token} {bound : Nat}

theorem mark (h : FeedsSettled joins source ts bound) (ht : ¬ t.HasText) :
    FeedsSettled joins source (ts ++ [t]) bound := by
  intro before rest hchars hlt
  have hne : feedToken source before ≠ t := by
    rintro rfl; exact ht (Or.inr rfl)
  rw [endsLine_snoc_of_mark ht, ← h before rest hchars hlt]
  simp [hne]

theorem snoc (h : FeedsSettled joins source ts bound) (ht : bound ≤ t.origin.offset) :
    FeedsSettled joins source (ts ++ [t]) bound := by
  intro before rest hchars hlt
  have hne : feedToken source before ≠ t := by
    rintro rfl; exact Nat.not_lt.2 ht hlt
  rw [endsLine_snoc_of_le (by omega), ← h before rest hchars hlt]
  simp [hne]

/-- The cursor is moved over text whose line feeds are settled. -/
theorem advance {cursor : Cursor} {before text rest : List Char}
    (h : FeedsSettled joins source ts cursor.offset) (hat : cursor.At source before)
    (hrest : cursor.rest = text ++ rest)
    (hfeeds : ∀ p q, text = p ++ '\n' :: q →
      (feedToken source (before ++ p) ∈ ts ↔ EndsLine joins ts (byteLength (before ++ p)))) :
    FeedsSettled joins source ts (cursor.advance text).offset := by
  intro b r hchars hlt
  rw [(hat.advance hrest).offset] at hlt
  have hcut : before ++ (text ++ rest) = b ++ '\n' :: r := by
    rw [← hrest, ← hat.text, hchars]
  rcases append_eq_append_cons hcut with ⟨b', rfl, -⟩ | ⟨p, rfl, hp⟩
  · refine h b r hchars ?_
    rw [hat.offset]
    simp only [byteLength_append, byteLength_cons]
    have := Char.utf8Size_pos '\n'
    omega
  · rcases append_eq_append_cons hp with ⟨q, htext, -⟩ | ⟨p', rfl, -⟩
    · exact hfeeds p q htext
    · simp only [byteLength_append] at hlt
      omega

end FeedsSettled

namespace Lexer

/-- The line feeds before the cursor are settled, and so is whether its line has begun. -/
structure Lined (ts : List Token) (l : Lexer) : Prop where
  inText : ∃ before, l.cursor.At l.source before
  /-- Tokens with a text stand before the cursor, in their order. -/
  bound : ∀ t ∈ ts, t.HasText → t.origin.offset < l.cursor.offset
  order : ts.Pairwise fun s t => s.HasText → t.HasText → s.origin.offset < t.origin.offset
  feeds : FeedsSettled l.config.joinsLines l.source ts l.cursor.offset
  /-- At a line start every visible token has a newline after it. -/
  ended : l.atLineStart = true → ∀ t ∈ ts, t.content.isVisible = true →
    ∃ n ∈ ts, n.content = .newline ∧ t.origin.offset < n.origin.offset
  /-- Elsewhere a token begins or the text ends, or a visible token stands after all newlines. -/
  begun : l.atLineStart = false → l.cursor.rest = [] ∨
    (∃ c cs, l.cursor.rest = c :: cs ∧ beginsToken l.config.comments c = true) ∨
    ∃ t ∈ ts, t.content.isVisible = true ∧
      ∀ n ∈ ts, n.content = .newline → n.origin.offset < t.origin.offset
  queue : ∀ t ∈ l.pending, ¬ t.HasText ∧ (t.content = .endOfInput → l.cursor.rest = [])

theorem start_lined (source : Source) (config : Config) : Lined [] (start source config) where
  inText := ⟨[], start_cursorAt source config⟩
  bound := by simp
  order := .nil
  feeds := fun _ _ _ h => absurd h (Nat.not_lt_zero _)
  ended := by simp
  begun := by simp [start]
  queue := by simp [start]

section

variable {ts : List Token} {l : Lexer}

/-- The brackets that are open behind the cursor are those of the tokens before it. -/
theorem Lined.depth_startedBefore (h : Lined ts l) (htally : Tallied ts l) {offset : Nat}
    (hle : l.cursor.offset ≤ offset) : bracketDepth (startedBefore ts offset) = l.depth := by
  rw [htally.depth]
  refine bracketDepth_filter fun t ht hlate => ?_
  by_contra hvisible
  have hbound := h.bound t ht (Or.inl (by simpa using hvisible))
  rw [decide_eq_false_iff_not] at hlate
  omega

theorem Lined.not_endsLine (h : Lined ts l) (htally : Tallied ts l) (hskips : l.skipsLines = true)
    {offset : Nat} (hle : l.cursor.offset ≤ offset) :
    ¬ EndsLine l.config.joinsLines ts offset := by
  rintro ⟨houtside, t, ht, hvisible, hnewlines⟩
  rcases Bool.or_eq_true_iff.1 hskips with hs | hj
  · obtain ⟨n, hn, hnewline, hlt⟩ := h.ended hs t (mem_startedBefore.1 ht).1 hvisible
    have hbound := h.bound n hn (Or.inr hnewline)
    have hback := hnewlines n (mem_startedBefore.2 ⟨hn, by omega⟩) hnewline
    omega
  · rw [OutsideBrackets, h.depth_startedBefore htally hle] at houtside
    rw [Bool.and_eq_true, decide_eq_true_eq] at hj
    rcases houtside with hjoins | hzero
    · rw [hj.1] at hjoins; cases hjoins
    · omega

theorem Lined.endsLine {cs : List Char} (h : Lined ts l) (htally : Tallied ts l)
    (hs : l.atLineStart = false) (hr : l.cursor.rest = '\n' :: cs)
    (hj : (l.config.joinsLines && 0 < l.depth) = false) :
    EndsLine l.config.joinsLines ts l.cursor.offset := by
  refine ⟨?_, ?_⟩
  · rw [OutsideBrackets, h.depth_startedBefore htally (Nat.le_refl _)]
    refine (Bool.and_eq_false_iff.1 hj).imp_right fun hdepth => ?_
    simpa using hdepth
  · rcases h.begun hs with hr' | ⟨c, cs', hr', hc⟩ | ⟨t, ht, hvisible, hnewlines⟩
    · rw [hr] at hr'; cases hr'
    · rw [hr] at hr'
      cases hr'
      exact absurd rfl (ne_lineFeed_of_beginsToken hc)
    · refine ⟨t, mem_startedBefore.2 ⟨ht, h.bound t ht (Or.inl hvisible)⟩, hvisible, ?_⟩
      exact fun n hn => hnewlines n (mem_startedBefore.1 hn).1

theorem Lined.feeds_settled (h : Lined ts l) (htally : Tallied ts l) :
    FeedsSettled l.config.joinsLines l.source ts l.settled.cursor.offset := by
  obtain ⟨before, hat⟩ := h.inText
  refine h.feeds.advance hat l.settled_spec.1 fun p q hskip => ?_
  have hle : l.cursor.offset ≤ byteLength (before ++ p) := by
    rw [hat.offset, byteLength_append]; omega
  have hskips : l.skipsLines = true := by
    by_contra hskips
    exact lineFeed_notMem_skipped (by simpa using hskips) (by rw [hskip]; simp)
  refine iff_of_false (fun hmem => ?_) (h.not_endsLine htally hskips hle)
  exact absurd (h.bound _ hmem (Or.inr rfl)) (Nat.not_lt.2 hle)

/-- Skipping settles the line feeds that are skipped and nothing else. -/
theorem Lined.settled (h : Lined ts l) (htally : Tallied ts l) : Lined ts l.settled := by
  obtain ⟨before, hat⟩ := h.inText
  have hle : l.cursor.offset ≤ l.settled.cursor.offset := Nat.le_add_right _ _
  have hend : l.cursor.rest = [] → l.settled.cursor.rest = [] := by
    intro hr
    have hrest := l.settled_spec.1
    rw [hr] at hrest
    exact (List.append_eq_nil_iff.1 hrest.symm).2
  refine ⟨⟨_, settled_cursorAt hat⟩, fun t ht htext => ?_, h.order, h.feeds_settled htally, nofun,
    fun _ => ?_, fun t ht => ⟨(h.queue t ht).1, fun he => hend ((h.queue t ht).2 he)⟩⟩
  · exact Nat.lt_of_lt_of_le (h.bound t ht htext) hle
  · cases hs : l.atLineStart with
    | true => exact (settled_lineStart hs).imp_right Or.inl
    | false =>
      rcases h.begun hs with hr | ⟨c, cs, hr, hc⟩ | hbegun
      · exact Or.inl (hend hr)
      · exact Or.inr (Or.inl ⟨c, cs, by rw [settled_of_beginsToken hr hc, hr], hc⟩)
      · exact Or.inr (Or.inr hbegun)

theorem Lined.mark {t : Token} (h : Lined ts l) (ht : ¬ t.HasText) : Lined (ts ++ [t]) l := by
  have htext : ∀ {u}, u ∈ ts ++ [t] → u.HasText → u ∈ ts := by
    intro u hu hutext
    rcases List.mem_append.1 hu with hu | hu
    · exact hu
    · rw [List.mem_singleton.1 hu] at hutext
      exact absurd hutext ht
  refine ⟨h.inText, fun u hu hutext => h.bound u (htext hu hutext) hutext, ?_, h.feeds.mark ht, ?_,
    ?_, h.queue⟩
  · refine List.pairwise_append.2 ⟨h.order, List.pairwise_singleton _ _, ?_⟩
    intro u _ v hv _ hvtext
    rw [List.mem_singleton.1 hv] at hvtext
    exact absurd hvtext ht
  · intro hs u hu hvisible
    obtain ⟨n, hn, hnewline⟩ := h.ended hs u (htext hu (Or.inl hvisible)) hvisible
    exact ⟨n, List.mem_append_left _ hn, hnewline⟩
  · intro hs
    refine (h.begun hs).imp_right (Or.imp_right ?_)
    rintro ⟨u, hu, hvisible, hnewlines⟩
    exact ⟨u, List.mem_append_left _ hu, hvisible,
      fun n hn hnewline => hnewlines n (htext hn (Or.inr hnewline)) hnewline⟩

theorem Lined.requeue (h : Lined ts l) (blocks : Blocks) {queue : List Token}
    (hqueue : ∀ t ∈ queue, ¬ t.HasText ∧ (t.content = .endOfInput → l.cursor.rest = [])) :
    Lined ts { l with blocks, pending := queue } :=
  ⟨h.inText, h.bound, h.order, h.feeds, h.ended, h.begun, hqueue⟩

theorem Lined.read {t : Token} {text rest : List Char} {lineStart : Bool} (h : Lined ts l)
    (hq : l.pending = []) (hrest : l.cursor.rest = text ++ rest) (hne : text ≠ [])
    (ht : t.HasText) (horigin : t.origin = l.source.origin l.cursor.offset)
    (hs : lineStart = true ↔ t.content = .newline)
    (hfeeds : ∀ before p q, l.cursor.At l.source before → text = p ++ '\n' :: q →
      (feedToken l.source (before ++ p) ∈ ts ++ [t] ↔
        EndsLine l.config.joinsLines (ts ++ [t]) (byteLength (before ++ p)))) (depth : Nat) :
    Lined (ts ++ [t])
      { l with cursor := l.cursor.advance text, depth, atLineStart := lineStart } := by
  obtain ⟨before, hat⟩ := h.inText
  have hplace : t.origin.offset = l.cursor.offset := by rw [horigin, hat.origin, hat.offset]
  have hlt : l.cursor.offset < (l.cursor.advance text).offset :=
    Nat.lt_add_of_pos_right
      (Nat.lt_of_lt_of_le (List.length_pos_iff.2 hne) (length_le_byteLength text))
  have hlast : ∀ u ∈ ts ++ [t], u ∈ ts ∨ u = t := by simp
  refine ⟨⟨_, hat.advance hrest⟩, ?_, ?_, ?_, ?_, ?_, by rw [hq]; simp⟩
  · intro u hu hutext
    rcases hlast u hu with hu | rfl
    · exact Nat.lt_trans (h.bound u hu hutext) hlt
    · rw [hplace]; exact hlt
  · refine List.pairwise_append.2 ⟨h.order, List.pairwise_singleton _ _, ?_⟩
    intro u hu v hv hutext _
    rw [List.mem_singleton.1 hv, hplace]
    exact h.bound u hu hutext
  · exact (h.feeds.snoc (Nat.le_of_eq hplace.symm)).advance hat hrest
      fun p q => hfeeds before p q hat
  · intro hstart u hu hvisible
    have hnewline := hs.1 hstart
    refine ⟨t, by simp, hnewline, ?_⟩
    rcases hlast u hu with hu | rfl
    · rw [hplace]; exact h.bound u hu (Or.inl hvisible)
    · rw [hnewline] at hvisible; cases hvisible
  · intro hstart
    have hnewline : t.content ≠ .newline := fun hn => by
      rw [show lineStart = true from hs.2 hn] at hstart; cases hstart
    refine Or.inr (Or.inr ⟨t, by simp, ht.resolve_right hnewline, ?_⟩)
    intro n hn hn'
    rcases hlast n hn with hn | rfl
    · rw [hplace]; exact h.bound n hn (Or.inr hn')
    · exact absurd hn' hnewline

theorem not_hasText {t : Token} (h : t.content = .indent ∨ t.content = .dedent ∨
    t.content = .endOfInput) : ¬ t.HasText := by
  rcases h with h | h | h <;> simp [Token.HasText, h, Token.Content.isVisible]

/-- A move settles the line feeds it passes. The one that returns the end of input passes all. -/
theorem Move.lined {s : Step} {t : Token} (h : Move l s) (ht : s.result = .ok t)
    (htally : Tallied ts l) (hlined : Lined ts l) :
    Lined (ts ++ [t]) s.lexer ∧ (t.content = .endOfInput → s.lexer.cursor.rest = []) := by
  have hsettled := hlined.settled htally
  cases h with
  | @dequeue _ queue hq =>
    cases ht
    have hqueue := hlined.queue
    rw [hq, List.forall_mem_cons] at hqueue
    exact ⟨(hlined.mark hqueue.1.1).requeue l.blocks hqueue.2, hqueue.1.2⟩
  | indent hq =>
    cases ht
    refine ⟨(hsettled.mark (not_hasText (by simp))).requeue _ ?_, by simp⟩
    rw [show l.settled.pending = [] from hq]; simp
  | dedent hq =>
    cases ht
    refine ⟨(hsettled.mark (not_hasText (by simp))).requeue _ ?_, by simp⟩
    intro u hu
    rw [List.eq_of_mem_replicate hu]
    exact ⟨not_hasText (by simp), by simp⟩
  | newline hq hs hr hj =>
    cases ht
    have htally' : Tallied ts l.settled := ⟨htally.queue, htally.nested, htally.depth⟩
    have hends := hsettled.endsLine htally' rfl hr hj
    refine ⟨hsettled.read hq (show _ = ['\n'] ++ _ from hr) (by simp) (Or.inr rfl) rfl (by simp)
      ?_ _, by simp⟩
    intro before p q hat htext
    obtain ⟨rfl, -⟩ : p = [] ∧ q = [] := by
      cases p with
      | nil => simpa using htext.symm
      | cons c p => simp at htext
    have horigin : l.source.origin l.settled.cursor.offset = ⟨l.source, byteLength before⟩ :=
      hat.origin
    rw [List.append_nil, horigin]
    refine iff_of_true (List.mem_append_right _ (List.mem_singleton.2 rfl))
      ((endsLine_snoc_of_le (Nat.le_refl _)).2 ?_)
    rw [← hat.offset]; exact hends
  | @token c cs content hq _ hr hc hok =>
    cases ht
    have hspells := Lexeme.read_spells hok
    obtain ⟨rest, hrest⟩ := Lexeme.read_isPrefix c cs
    have hfeed := Lexeme.lineFeed_notMem_read (ne_lineFeed_of_beginsToken hc) cs
    refine ⟨hsettled.read hq (hr.trans hrest.symm) hspells.ne_nil (Or.inl hspells.isVisible) rfl ?_
      ?_ _, fun he => absurd he hspells.ne_endOfInput⟩
    · refine iff_of_false (by simp [Lexer.settled]) ?_
      rintro rfl
      cases hspells.isVisible
    · intro before p q _ htext
      rw [htext] at hfeed
      simp at hfeed
  | unwind hq hr =>
    cases ht
    refine ⟨(hsettled.mark (not_hasText (by simp))).requeue _ ?_, by simp⟩
    intro u hu
    refine ⟨not_hasText ?_, fun _ => hr⟩
    rcases List.mem_append.1 hu with hu | hu
    · rw [List.eq_of_mem_replicate hu]; simp
    · rw [List.mem_singleton.1 hu]; simp [endToken]
  | finish hq hr =>
    cases ht
    exact ⟨hsettled.mark (not_hasText (by simp [endToken])), fun _ => hr⟩
  | badIndent | fail => cases ht

end

theorem Run.lined {source : Source} {config : Config} {visited : List Lexer} {l : Lexer}
    (h : Run (start source config) visited l) (hl : l.phase = .scanning) :
    Tallied (returned (visited.map nextToken)) l ∧ Lined (returned (visited.map nextToken)) l :=
  h.returned_induction (motive := fun ts l => Tallied ts l ∧ Lined ts l)
    ⟨start_tallied source config, start_lined source config⟩
    (fun hmove ht _ hc => ⟨hmove.tallied ht hc.1, (hmove.lined ht hc.1 hc.2).1⟩) hl

theorem lined_of_tokenize_ok {source : Source} {config : Config} {ts : List Token}
    (hts : tokenize source config = some (.ok ts)) :
    (ts.Pairwise fun s t => s.HasText → t.HasText → s.origin.offset < t.origin.offset) ∧
    ∀ before rest, source.chars = before ++ '\n' :: rest →
      (feedToken source before ∈ ts ↔ EndsLine config.joinsLines ts (byteLength before)) := by
  obtain ⟨visited, l, t, hrun, hl, ht, hend, rfl⟩ := exists_run_of_tokenize_ok hts
  obtain ⟨s, hmove, hresult, -⟩ := exists_move hl.1
  obtain ⟨htally, hlined⟩ := hrun.lined hl.1
  obtain ⟨hlast, hrest⟩ := hmove.lined (hresult.symm.trans ht) htally hlined
  have hsource : s.lexer.source = source := hmove.source.trans hrun.source
  have hconfig : s.lexer.config = config := hmove.config.trans hrun.config
  obtain ⟨all, hat⟩ := hlast.inText
  have hfeeds := hlast.feeds
  rw [hsource] at hat hfeeds
  rw [hconfig] at hfeeds
  refine ⟨hlast.order, fun before rest hchars => hfeeds before rest hchars ?_⟩
  rw [hat.offset, ← (hat.atEnd (hrest hend)).1, hchars, byteLength_append, byteLength_cons]
  have := Char.utf8Size_pos '\n'
  omega

theorem exists_feed_of_tokenize_ok {source : Source} {config : Config} {ts : List Token}
    (hts : tokenize source config = some (.ok ts)) {n : Token} (hn : n ∈ ts)
    (hnewline : n.content = .newline) :
    ∃ before rest, source.chars = before ++ '\n' :: rest ∧ n = feedToken source before := by
  obtain ⟨visited, l, t, hrun, hl, ht, hend, rfl⟩ := exists_run_of_tokenize_ok hts
  obtain ⟨s, hmove, hresult, -⟩ := exists_move hl.1
  obtain ⟨pieces, gap, k, hall, hlaid, htext, -⟩ :=
    hmove.covered_end (hresult.symm.trans ht) hend (hrun.covered hl.1)
  rw [show l.source = source from hrun.source] at hall hlaid htext
  rw [hall] at hn
  rcases List.mem_append.1 hn with hn | hn
  · rcases List.mem_append.1 hn with hn | hn
    · obtain ⟨before, rest, hpieces, hfeed⟩ := hlaid.exists_feed hn hnewline
      exact ⟨before, rest ++ gap, by rw [htext, hpieces]; simp, hfeed⟩
    · rw [List.eq_of_mem_replicate hn] at hnewline
      cases hnewline
  · rw [List.mem_singleton.1 hn] at hnewline
    cases hnewline

/-- **Newlines.** Let lexing succeed. Each newline stands at a line feed. A line feed has a newline
if and only if it ends a logical line: no bracket that joins lines is open there, and a visible
token starts after the newlines before it. So two visible tokens with no other between them have a
newline between them if and only if a line feed outside brackets stands there. -/
theorem newlines_end_lines {source : Source} {config : Config} {ts : List Token}
    (hts : tokenize source config = some (.ok ts)) :
    (∀ n ∈ ts, n.content = .newline →
      ∃ before rest, source.chars = before ++ '\n' :: rest ∧ n = feedToken source before) ∧
    (∀ before rest, source.chars = before ++ '\n' :: rest →
      (feedToken source before ∈ ts ↔ EndsLine config.joinsLines ts (byteLength before))) ∧
    ∀ a t mid u b, ts = a ++ t :: (mid ++ u :: b) → t.content.isVisible = true →
      u.content.isVisible = true → (∀ m ∈ mid, m.content.isVisible = false) →
      ((∃ n ∈ mid, n.content = .newline) ↔
        ∃ before rest, source.chars = before ++ '\n' :: rest ∧
          t.origin.offset < byteLength before ∧ byteLength before < u.origin.offset ∧
          OutsideBrackets config.joinsLines ts (byteLength before)) := by
  obtain ⟨horder, hfeeds⟩ := lined_of_tokenize_ok hts
  refine ⟨fun n => exists_feed_of_tokenize_ok hts, hfeeds, ?_⟩
  intro a t mid u b heq ht hu hmid
  have hbetween : ∀ n ∈ ts, n.content = .newline →
      (n ∈ mid ↔ t.origin.offset < n.origin.offset ∧ n.origin.offset < u.origin.offset) := by
    intro n hn hnewline
    rw [heq] at horder hn
    exact mem_between horder (Or.inl ht) (Or.inl hu) (Or.inr hnewline) hn
  constructor
  · intro hnewlines
    obtain ⟨n, hn, hnewline⟩ := hnewlines
    have hnts : n ∈ ts := by rw [heq]; simp [hn]
    obtain ⟨before, rest, hchars, rfl⟩ := exists_feed_of_tokenize_ok hts hnts hnewline
    obtain ⟨hlt, hgt⟩ := (hbetween _ hnts hnewline).1 hn
    exact ⟨before, rest, hchars, hlt, hgt, ((hfeeds before rest hchars).1 hnts).1⟩
  · intro hfeed
    obtain ⟨before, rest, hchars, hlt, hgt, houtside⟩ := hfeed
    -- The line feed itself, unless an earlier one behind `t` has ended its line.
    by_cases hearlier : ∃ n ∈ ts, n.content = .newline ∧ t.origin.offset < n.origin.offset ∧
        n.origin.offset < byteLength before
    · obtain ⟨n, hn, hnewline, hnlt, hngt⟩ := hearlier
      exact ⟨n, (hbetween n hn hnewline).2 ⟨hnlt, by omega⟩, hnewline⟩
    · have hbegun : LineBegun ts (byteLength before) := by
        refine ⟨t, mem_startedBefore.2 ⟨by rw [heq]; simp, hlt⟩, ht, ?_⟩
        intro n hn hnewline
        obtain ⟨hnts, hnlt⟩ := mem_startedBefore.1 hn
        have hsplit := hnts
        rw [heq] at horder hsplit
        obtain ⟨-, htail, hfront⟩ := List.pairwise_append.1 horder
        rcases List.mem_append.1 hsplit with hna | hnt
        · exact hfront n hna t (by simp) (Or.inr hnewline) (Or.inl ht)
        · rcases List.mem_cons.1 hnt with rfl | hnt
          · rw [hnewline] at ht; cases ht
          · have hbehind := (List.pairwise_cons.1 htail).1 n hnt (Or.inl ht) (Or.inr hnewline)
            exact absurd ⟨n, hnts, hnewline, hbehind, hnlt⟩ hearlier
      have hmem := (hfeeds before rest hchars).2 ⟨houtside, hbegun⟩
      exact ⟨_, (hbetween _ hmem rfl).2 ⟨hlt, hgt⟩, rfl⟩

/-- A line that a bracket joins to the next, and lines without tokens. -/
def brokenSample : Source := ⟨"sample", "a)(\n\n  b]\r\n\n# é\nc"⟩

def brokenTokens : List Token :=
  [⟨.identifier "a", ⟨brokenSample, 0⟩⟩, ⟨.symbol .rightParen, ⟨brokenSample, 1⟩⟩,
   ⟨.symbol .leftParen, ⟨brokenSample, 2⟩⟩, ⟨.identifier "b", ⟨brokenSample, 7⟩⟩,
   ⟨.symbol .rightBracket, ⟨brokenSample, 8⟩⟩, ⟨.newline, ⟨brokenSample, 10⟩⟩,
   ⟨.identifier "c", ⟨brokenSample, 17⟩⟩, ⟨.endOfInput, ⟨brokenSample, 18⟩⟩]

theorem newlines_end_lines_brokenSample :
    tokenize brokenSample {} = some (.ok brokenTokens) ∧
    ¬ EndsLine true brokenTokens 4 ∧ EndsLine true brokenTokens 10 ∧
    ¬ EndsLine true brokenTokens 11 ∧
    ∃ before rest, brokenSample.chars = before ++ '\n' :: rest ∧ 8 < byteLength before ∧
      byteLength before < 17 ∧ OutsideBrackets true brokenTokens (byteLength before) := by
  have hok : tokenize brokenSample {} = some (.ok brokenTokens) := by decide +kernel
  obtain ⟨-, hfeeds, hbetween⟩ := newlines_end_lines hok
  have hfeed : ∀ n, brokenSample.chars[n]? = some '\n' →
      byteLength (brokenSample.chars.take n) = n →
      (⟨.newline, ⟨brokenSample, n⟩⟩ ∈ brokenTokens ↔ EndsLine true brokenTokens n) := by
    intro n hn hsize
    obtain ⟨hlt, hchar⟩ := List.getElem?_eq_some_iff.1 hn
    have h := hfeeds (brokenSample.chars.take n) (brokenSample.chars.drop (n + 1))
      (by rw [← hchar, List.getElem_cons_drop, List.take_append_drop])
    rw [feedToken, hsize] at h
    exact h
  refine ⟨hok, ?_, ?_, ?_, ?_⟩
  · exact (hfeed 4 (by decide +kernel) (by decide +kernel)).not.1 (by decide)
  · exact (hfeed 10 (by decide +kernel) (by decide +kernel)).1 (by decide)
  · exact (hfeed 11 (by decide +kernel) (by decide +kernel)).not.1 (by decide)
  · refine (hbetween (brokenTokens.take 4) _ [⟨.newline, ⟨brokenSample, 10⟩⟩] _ _ rfl rfl rfl
      ?_).1 ?_
    · simp [Token.Content.isVisible]
    · simp

end Lexer

end Offside
