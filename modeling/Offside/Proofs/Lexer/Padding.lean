import Mathlib.Logic.Relation
import Offside.Proofs.Lexer.Locality
import Offside.Proofs.Lexer.Lockstep

/-!
# Idle layout

Blanks and comments at the end of a line mean nothing, and neither does a line of nothing else.
`Pads` is one such change of a text, at any place. A lexer of the changed text reads what its twin
reads, with the padding somewhere ahead, until the two have passed it: padding in a gap becomes a
part of the gap, and padding behind a token does not run into it.

Results:
* `PadsAhead.exists_gap`: what becomes of a gap.
* `PadsAhead.read`: a token is read as before.
* `Lexer.padded_tokens`: any number of such changes leaves the contents of the stream as they are.
-/

namespace Offside

open Text

/-- What can stand at the end of a line, or on a line of its own, without a meaning: blanks and then
perhaps a comment. -/
def IsPadding (pad : List Char) : Prop :=
  ∃ blanks note, pad = blanks ++ note ∧ (∀ c ∈ blanks, isBlank c = true ∧ c ≠ '\n') ∧
    (note = [] ∨ ∃ text, note = '#' :: text ∧ '\n' ∉ text)

/-- One change of idle layout, in a text at whose front a line may start. -/
inductive Pads (atLineStart : Bool) : List Char → List Char → Prop
  /-- A line is padded, before its line feed or at the end of the text. -/
  | lineEnd {a pad b : List Char} (hpad : IsPadding pad) (hb : EndsComment b) :
      Pads atLineStart (a ++ b) (a ++ (pad ++ b))
  /-- A line of padding is put where a line starts. -/
  | lineStart {a pad b : List Char} (hpad : IsPadding pad) (ha : AtBreak a)
      (hs : a = [] → atLineStart = true) : Pads atLineStart (a ++ b) (a ++ (pad ++ '\n' :: b))

namespace IsPadding

variable {pad : List Char}

theorem lineFeed_notMem (h : IsPadding pad) : '\n' ∉ pad := by
  obtain ⟨blanks, note, rfl, hblanks, hnote⟩ := h
  intro hmem
  rcases List.mem_append.1 hmem with hmem | hmem
  · exact (hblanks _ hmem).2 rfl
  · rcases hnote with rfl | ⟨text, rfl, htext⟩
    · cases hmem
    · simp [htext] at hmem

/-- Padding that a line feed or the end of the text follows is a gap. -/
theorem isGap (h : IsPadding pad) {next : List Char} (hnext : EndsComment next) :
    IsGap true pad next := by
  obtain ⟨blanks, note, rfl, hblanks, hnote⟩ := h
  refine IsGap.blanks_append (fun c hc => (hblanks c hc).1) ?_
  rcases hnote with rfl | ⟨text, rfl, htext⟩
  · exact .nil next
  · have hcomment : IsGap true ('#' :: (text ++ [])) next := .comment rfl htext hnext (.nil next)
    rw [List.append_nil] at hcomment
    exact hcomment

theorem upToStop (h : IsPadding pad) : Lexeme.upToStop pad = [] := by
  obtain ⟨blanks, note, rfl, hblanks, hnote⟩ := h
  unfold Lexeme.upToStop
  cases blanks with
  | cons c blanks =>
    have hc := (hblanks c List.mem_cons_self).1
    exact List.takeWhile_cons_of_neg (by simp [isStop, hc])
  | nil =>
    rcases hnote with rfl | ⟨text, rfl, -⟩
    · rfl
    · exact List.takeWhile_cons_of_neg (by decide)

end IsPadding

/-! ## Padding ahead -/

/-- The second text is the first, or it has padding somewhere ahead. -/
def PadsAhead (atLineStart : Bool) (cs cs' : List Char) : Prop :=
  cs' = cs ∨ Pads atLineStart cs cs'

/-- What becomes of a gap `g` before `next` when there is padding ahead: it is `g'`, before
`next'`. -/
structure PadsGap (joins : Bool) (g next g' next' : List Char) : Prop where
  gap : IsGap true g' next'
  head : next'.head? = next.head?
  ahead : PadsAhead false next next'
  feeds : joins = false → '\n' ∉ g'
  line : ∀ c, next.head? = some c → c ≠ '\n' → lastLine g' = lastLine g

namespace PadsAhead

variable {s : Bool} {g next cs cs' : List Char} {c : Char}

/-- Padding in a gap is a part of it, and padding behind it leaves it alone. -/
theorem exists_gap {joins : Bool} (h : PadsAhead s (g ++ next) cs') (hgap : IsGap true g next)
    (hjoins : s = true → joins = true) (hfeeds : joins = false → '\n' ∉ g) :
    ∃ g' next', cs' = g' ++ next' ∧ PadsGap joins g next g' next' := by
  rcases h with rfl | h
  · exact ⟨g, next, rfl, hgap, rfl, Or.inl rfl, hfeeds, fun _ _ _ => rfl⟩
  generalize hcs : g ++ next = cs at h
  cases h with
  | @lineEnd a pad b hpad hb =>
    rcases append_eq_append_cases hcs.symm with ⟨m, rfl, rfl⟩ | ⟨c, a', rfl, rfl⟩
    · obtain ⟨hfirst, hrest⟩ := hgap.split_end hb
      have hpadded := (hfirst.pad hb (hpad.isGap hb) hpad.lineFeed_notMem).append hrest
      refine ⟨a ++ pad ++ m, next, by simp, hpadded, rfl, Or.inl rfl, ?_, ?_⟩
      · intro hj
        have hfeed := hfeeds hj
        simp only [List.mem_append, not_or] at hfeed ⊢
        exact ⟨⟨hfeed.1, hpad.lineFeed_notMem⟩, hfeed.2⟩
      · intro c hc hne
        -- A line ends where the padding is, so the token stands on a later line.
        cases m with
        | nil =>
          rcases hb with hb | hb
          · rw [List.nil_append] at hb; rw [hb] at hc; cases hc
          · rw [List.nil_append, hc] at hb; exact absurd (Option.some.inj hb) hne
        | cons d m =>
          obtain rfl : d = '\n' := by simpa [EndsComment] using hb
          rw [lastLine_append_feed, lastLine_append_feed]
    · refine ⟨g, c :: (a' ++ (pad ++ b)), by simp, hgap.of_head rfl, rfl, Or.inr ?_, hfeeds,
        fun _ _ _ => rfl⟩
      exact .lineEnd (a := c :: a') hpad hb
  | @lineStart a pad b hpad ha hs =>
    rcases append_eq_append_cases hcs.symm with ⟨m, rfl, rfl⟩ | ⟨c, a', rfl, rfl⟩
    · obtain ⟨hfirst, hrest⟩ := hgap.split ha
      have hline : IsGap true (pad ++ '\n' :: m) next :=
        (hpad.isGap (Or.inr rfl)).append (.blank isBlank_lineFeed hrest)
      refine ⟨a ++ (pad ++ '\n' :: m), next, by simp, (hfirst.of_break ha _).append hline, rfl,
        Or.inl rfl, ?_, ?_⟩
      · intro hj
        have hfeed := hfeeds hj
        simp only [List.mem_append, not_or] at hfeed
        rw [hjoins (hs (ha.eq_nil_of_notMem hfeed.1))] at hj
        cases hj
      · intro _ _ _
        rw [← List.append_assoc, lastLine_append_feed, ha.lastLine_append]
    · refine ⟨g, c :: (a' ++ (pad ++ '\n' :: b)), by simp, hgap.of_head rfl, rfl, Or.inr ?_, hfeeds,
        fun _ _ _ => rfl⟩
      exact .lineStart (a := c :: a') hpad ha.of_append (by simp)

/-- Inside a line, the first character of both texts can be passed. -/
theorem tail {s' : Bool} (h : PadsAhead false (c :: cs) (c :: cs')) (hs : c = '\n' → s' = true) :
    PadsAhead s' cs cs' := by
  rcases h with h | h
  · exact Or.inl (List.cons.inj h).2
  generalize hcs : c :: cs = text at h
  generalize hcs' : c :: cs' = text' at h
  cases h with
  | @lineEnd a pad b hpad hb =>
    cases a with
    | nil =>
      rw [List.nil_append] at hcs hcs'
      subst hcs
      obtain rfl : c = '\n' := by simpa [EndsComment] using hb
      cases pad with
      | nil => exact Or.inl (List.cons.inj hcs').2
      | cons d pad =>
        obtain ⟨rfl, -⟩ := List.cons.inj hcs'
        exact absurd List.mem_cons_self hpad.lineFeed_notMem
    | cons d a =>
      obtain ⟨-, rfl⟩ := List.cons.inj hcs
      obtain ⟨-, rfl⟩ := List.cons.inj hcs'
      exact Or.inr (.lineEnd hpad hb)
  | @lineStart a pad b hpad ha hs' =>
    cases a with
    | nil => cases hs' rfl
    | cons d a =>
      obtain ⟨rfl, rfl⟩ := List.cons.inj hcs
      obtain ⟨-, rfl⟩ := List.cons.inj hcs'
      refine Or.inr (.lineStart hpad (ha.of_append (a := [c])) ?_)
      rintro rfl
      exact hs (by simpa [AtBreak] using ha)

theorem drop {a : List Char} (h : PadsAhead false (a ++ cs) (a ++ cs')) (ha : '\n' ∉ a) :
    PadsAhead false cs cs' := by
  induction a with
  | nil => exact h
  | cons c a ih =>
    simp only [List.mem_cons, not_or] at ha
    exact ih (h.tail fun hc => absurd hc.symm ha.1) ha.2

theorem firstLine (h : PadsAhead false cs cs') :
    ∃ pad, Lexeme.upToStop pad = [] ∧ firstLine cs' = Text.firstLine cs ++ pad := by
  rcases h with rfl | h
  · exact ⟨[], rfl, (List.append_nil _).symm⟩
  cases h with
  | @lineEnd a pad b hpad hb =>
    by_cases ha : '\n' ∈ a
    · refine ⟨[], rfl, ?_⟩
      rw [firstLine_append_of_mem ha, firstLine_append_of_mem ha, List.append_nil]
    · refine ⟨pad, hpad.upToStop, ?_⟩
      rw [firstLine_append ha, firstLine_append ha, firstLine_append hpad.lineFeed_notMem,
        hb.firstLine, List.append_nil, List.append_nil]
  | @lineStart a pad b hpad ha hs =>
    have hfeed : '\n' ∈ a := by
      by_contra hfeed
      cases hs (ha.eq_nil_of_notMem hfeed)
    exact ⟨[], rfl, by
      rw [firstLine_append_of_mem hfeed, firstLine_append_of_mem hfeed, List.append_nil]⟩

theorem read {content : Token.Content} (h : PadsAhead false cs cs')
    (hok : (Lexeme.read c cs).content = .ok content) : Lexeme.read c cs' = Lexeme.read c cs := by
  obtain ⟨pad, hpad, hline⟩ := h.firstLine
  rw [← Lexeme.read_firstLine c cs] at hok ⊢
  rw [← Lexeme.read_firstLine c cs', hline, Lexeme.read_append_of_ok hok hpad]

end PadsAhead

namespace Lexer

/-! ## Streams -/

section

variable {source source' : Source} {config : Config}

/-- The second lexer reads what the first reads, perhaps with padding ahead. -/
def Padded (atLineStart : Bool) (cursor cursor' : Cursor) : Prop :=
  PadsAhead atLineStart cursor.rest cursor'.rest

theorem meets_of_padded {l l' : Lexer} {t : Token} (hq : l.pending = [])
    (hcomments : l.config.comments = true) (hconfig : l'.config = l.config)
    (ht : l.pull.result = .ok t)
    (htwins : Twins (.moved fun _ _ => True) Padded l l') :
    Meets (.moved fun _ _ => True) Padded l l' := by
  have hskips := htwins.skipsLines_eq (by rw [hconfig])
  obtain ⟨hrest, hgap, hstop⟩ := l.settled_spec
  have hahead : PadsAhead l.atLineStart (l.skipped ++ l.settled.cursor.rest) l'.cursor.rest := by
    rw [← hrest]; exact htwins.cursor
  rw [hcomments] at hgap
  obtain ⟨g', next', htext, hpads⟩ := hahead.exists_gap hgap
    (fun hs => by simp [skipsLines, hs]) lineFeed_notMem_skipped
  obtain ⟨hskip, hset⟩ := settled_of_gap htext
    (by rw [hconfig, hcomments]; exact hpads.gap)
    (by rw [hconfig, hskips]; exact hstop.of_head hpads.head)
    (by rw [hskips]; exact hpads.feeds)
  have hnext : l'.settled.cursor.rest = next' := by rw [hset]
  have hcursor : Padded false l.settled.cursor l'.settled.cursor := by
    unfold Padded
    rw [hnext]; exact hpads.ahead
  cases hr : l.settled.cursor.rest with
  | nil =>
    have hr' : l'.settled.cursor.rest = [] := by
      have hhead := hpads.head
      rw [hr] at hhead
      rw [hnext]; exact List.head?_eq_none_iff.1 hhead
    exact .atEnd hr hr' trivial trivial hcursor
  | cons c cs =>
    obtain ⟨cs', hcs'⟩ : ∃ cs', next' = c :: cs' := by
      have hhead := hpads.head
      rw [hr] at hhead
      exact List.head?_eq_some_iff.1 hhead
    have hr' := hnext.trans hcs'
    have hin := hpads.ahead
    rw [hr, hcs'] at hin
    by_cases hc : c = '\n'
    · subst hc
      refine .newline hr hr' trivial ?_
      unfold Padded
      rw [Cursor.rest_advance (show _ = ['\n'] ++ cs from hr),
        Cursor.rest_advance (show _ = ['\n'] ++ cs' from hr')]
      exact hin.tail fun _ => rfl
    · refine .token hr hr' hc trivial ?_ hcursor ?_
      · intro _
        rw [hskip, hconfig, hpads.line c (by rw [hr]; rfl) hc]
        exact ⟨rfl, trivial⟩
      · intro hreads
        have hbegins := beginsToken_of_settled hr hc
        cases hcontent : (Lexeme.read c cs).content with
        | error cause =>
          rw [(Move.fail hq hreads hr hbegins hcontent).pull_eq] at ht
          cases ht
        | ok content =>
          have hline : PadsAhead false cs cs' := hin.tail fun h => absurd h hc
          have hread := hline.read hcontent
          rw [hread]
          refine ⟨hcontent, fun _ _ => ?_⟩
          obtain ⟨rest, htext⟩ := Lexeme.read_isPrefix c cs
          obtain ⟨rest', htext'⟩ := Lexeme.read_isPrefix c cs'
          rw [hread] at htext'
          unfold Padded
          rw [Cursor.rest_advance (hr.trans htext.symm),
            Cursor.rest_advance (hr'.trans htext'.symm)]
          rw [← htext, ← htext'] at hin
          exact hin.drop (Lexeme.lineFeed_notMem_read hc cs)

/-- The second lexer reads what the first reads after any number of changes ahead. -/
def PaddedOften (atLineStart : Bool) (cursor cursor' : Cursor) : Prop :=
  Relation.ReflTransGen (PadsAhead atLineStart) cursor.rest cursor'.rest

theorem moved_trans {a b c : List Token}
    (h : List.Forall₂ (Likeness.moved fun _ _ => True).Tokens a b)
    (h' : List.Forall₂ (Likeness.moved fun _ _ => True).Tokens b c) :
    List.Forall₂ (Likeness.moved fun _ _ => True).Tokens a c := by
  induction h generalizing c with
  | nil => exact h'
  | cons ht _ ih =>
    obtain ⟨t, rest, ht', hrest, rfl⟩ := List.forall₂_cons_left_iff.1 h'
    exact .cons ⟨ht'.1.trans ht.1, trivial⟩ (ih hrest)

theorem Twins.padded {l m l' : Lexer} (h : Twins (.moved fun _ _ => True) PaddedOften l m)
    (hlast : Twins (.moved fun _ _ => True) Padded m l') (hconfig : m.config = l.config) :
    Twins (.moved fun _ _ => True) PaddedOften l l' where
  blocks := by rw [hlast.blocks, h.blocks, List.map_map]; rfl
  pending := moved_trans h.pending hlast.pending
  lineStart := hlast.lineStart.trans h.lineStart
  depth hj := (hlast.depth (by rw [hconfig]; exact hj)).trans (h.depth hj)
  cursor := by
    have hcursor := hlast.cursor
    rw [h.lineStart] at hcursor
    exact h.cursor.tail hcursor

/-- However much padding is ahead, two lexers agree on a call that returns a token. The lexers of
the texts in between are not run: they only say how one call would go. -/
theorem agree_of_paddedOften {l l' : Lexer} {t : Token} (hcomments : l.config.comments = true)
    (hconfig : l'.config = l.config) (ht : l.pull.result = .ok t)
    (htwins : Twins (.moved fun _ _ => True) PaddedOften l l') :
    Agree (.moved fun _ _ => True) PaddedOften l l' := by
  have hpads : Relation.ReflTransGen (PadsAhead l.atLineStart) l.cursor.rest l'.cursor.rest :=
    htwins.cursor
  generalize hcs : l'.cursor.rest = cs at hpads
  induction hpads generalizing l' with
  | refl =>
    have hone : Twins (.moved fun _ _ => True) Padded l l' :=
      ⟨htwins.blocks, htwins.pending, htwins.lineStart, htwins.depth, Or.inl hcs⟩
    obtain ⟨hitems, hnext⟩ := hone.pull fun hq => meets_of_padded hq hcomments hconfig ht hone
    refine ⟨hitems, fun u hu => ?_⟩
    have htwins := hnext u hu
    exact ⟨htwins.blocks, htwins.pending, htwins.lineStart, htwins.depth, .single htwins.cursor⟩
  | @tail b cs hfront hlast ih =>
    let m : Lexer := { l with cursor := ⟨b, 0⟩ }
    have hfirst : Twins (.moved fun _ _ => True) PaddedOften l m :=
      ⟨(List.map_id _).symm, List.forall₂_same.2 fun _ _ => ⟨rfl, trivial⟩, rfl, fun _ => rfl,
        hfront⟩
    have hone : Twins (.moved fun _ _ => True) Padded m l' :=
      ⟨htwins.blocks, htwins.pending, htwins.lineStart, htwins.depth, by
        show PadsAhead _ b _
        rw [hcs]; exact hlast⟩
    obtain ⟨hitems, hnext⟩ := ih (show m.config = l.config from rfl) hfirst rfl
    have htwins' := hnext t ht
    rw [ht] at hitems
    cases hm : m.pull.result with
    | error e => rw [hm] at hitems; cases hitems
    | ok t' =>
      obtain ⟨hitems', hnext'⟩ := hone.pull fun hq => meets_of_padded hq hcomments hconfig hm hone
      rw [hm] at hitems hitems'
      refine ⟨?_, fun _ _ => ?_⟩
      · rw [ht]
        cases hitems with
        | ok htoken =>
          cases h' : l'.pull.result with
          | error e => rw [h'] at hitems'; cases hitems'
          | ok t'' =>
            rw [h'] at hitems'
            cases hitems' with
            | ok htoken' => exact .ok ⟨htoken'.1.trans htoken.1, trivial⟩
      · exact htwins'.padded (hnext' t' hm) (m.pull_move.config.trans l.pull_move.config.symm)

/-- **Idle layout.** Let comments be enabled and a text have no lexical errors. However often its
lines are padded with blanks and comments, and lines of nothing else are put between them, the
lexer returns the same contents in the same order, unless a width in the new text leaves the
words. -/
theorem padded_tokens (hcomments : config.comments = true) {ts : List Token}
    (hok : tokenize source config = some (.ok ts))
    (hpads : Relation.ReflTransGen (Pads true) source.chars source'.chars)
    (hpanics : (start source' config).panics = false) :
    ∃ ts', tokenize source' config = some (.ok ts') ∧
      ts'.map Token.content = ts.map Token.content := by
  have htwins : Twins (.moved fun _ _ => True) PaddedOften (start source config)
      (start source' config) :=
    start_twins (Relation.ReflTransGen.mono (fun _ _ => Or.inr) _ _ hpads)
  obtain ⟨halike, -⟩ := htwins.items_alike_of_agree rfl rfl
    (fun hrun hl hrun' hl' _ =>
      overflows_eq_of_panics (tokenize_eq_some.1 hok).1 hpanics hrun hl hrun' hl')
    fun hrun hl hrun' _ htwins => by
      have hconfig := hrun.config
      obtain ⟨t, ht⟩ := hrun.result_of_tokenize_ok hl hok
      rw [nextToken_eq hl, Step.deliver_result] at ht
      exact agree_of_paddedOften (by rw [hconfig]; exact hcomments)
        (hrun'.config.trans hconfig.symm) ht htwins
  rw [items_of_tokenize_ok hok] at halike
  obtain ⟨ts', hitems, hcontents⟩ := Likeness.exists_tokens halike
  exact ⟨ts', tokenize_of_items hitems hpanics, hcontents⟩

end

/-- A bracket that joins two lines, and a block that the end of the text closes. -/
def plainSample : Source := ⟨"sample", "g[\na]\n\tb"⟩

/-- The same after three changes: a comment in the bracket, a blank line before the block and a
comment at the end. -/
def idleSample : Source := ⟨"sample", "g[ # \"\na]\n\t\n\tb#"⟩

def plainTokens : List Token :=
  [⟨.identifier "g", ⟨plainSample, 0⟩⟩, ⟨.symbol .leftBracket, ⟨plainSample, 1⟩⟩,
   ⟨.identifier "a", ⟨plainSample, 3⟩⟩, ⟨.symbol .rightBracket, ⟨plainSample, 4⟩⟩,
   ⟨.newline, ⟨plainSample, 5⟩⟩, ⟨.indent, ⟨plainSample, 6⟩⟩, ⟨.identifier "b", ⟨plainSample, 7⟩⟩,
   ⟨.dedent, ⟨plainSample, 8⟩⟩, ⟨.endOfInput, ⟨plainSample, 8⟩⟩]

theorem padded_tokens_idleSample :
    ∃ ts, tokenize idleSample {} = some (.ok ts) ∧
      ts.map Token.content = plainTokens.map Token.content := by
  have hok : tokenize plainSample {} = some (.ok plainTokens) := by decide +kernel
  have hbracket : Pads true (['g', '['] ++ "\na]\n\tb".toList)
      (['g', '['] ++ (" # \"".toList ++ "\na]\n\tb".toList)) :=
    .lineEnd
      ⟨[' '], ['#', ' ', '"'], rfl, List.forall_mem_singleton.2 (by decide),
        Or.inr ⟨[' ', '"'], rfl, by simp⟩⟩
      (Or.inr rfl)
  have hblank : Pads true ("g[ # \"\na]\n".toList ++ "\tb".toList)
      ("g[ # \"\na]\n".toList ++ (['\t'] ++ '\n' :: "\tb".toList)) :=
    .lineStart ⟨['\t'], [], rfl, List.forall_mem_singleton.2 (by decide), Or.inl rfl⟩ (Or.inr rfl)
      (by simp)
  have hend : Pads true ("g[ # \"\na]\n\t\n\tb".toList ++ [])
      ("g[ # \"\na]\n\t\n\tb".toList ++ (['#'] ++ [])) :=
    .lineEnd ⟨[], ['#'], rfl, by simp, Or.inr ⟨[], rfl, by simp⟩⟩ (Or.inl rfl)
  refine padded_tokens rfl hok (((Relation.ReflTransGen.single ?_).tail hblank).tail ?_)
    (by decide +kernel)
  · simpa [plainSample, Source.chars] using hbracket
  · simpa [idleSample, Source.chars] using hend

end Lexer

end Offside
