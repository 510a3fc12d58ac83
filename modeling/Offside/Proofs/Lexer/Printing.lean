import Offside.Proofs.Decimal.Numerals
import Offside.Proofs.Lexer.Locality
import Offside.Proofs.Lexer.Lockstep
import Offside.Value.Show

/-!
# Printing tokens

Visible tokens can be written down again: symbols and keywords by their spelling, identifiers by
their name, numbers and strings as their values are written in a source. With one space between the
texts the scanner finds the same tokens again.

Results:
* `Token.Content.spells_written`: what is written for a token is a lexeme that stands for it.
* `Spells.read_append`: in front of a blank a lexeme is read as it is read alone.
* `Lexer.printed_tokens`: printing and scanning gives the tokens back.
-/

namespace Offside

open Text

/-! ## Writing -/

/-- The value of a literal is written like the literal, whatever the heap holds. -/
theorem Heap.written_makeLiteral (h : Heap) (r : Registry) (literal : Literal) :
    h.written (r.makeLiteral literal) = literal.written := by
  cases literal <;> rfl

namespace Token.Content

/-- What is written for a token: its spelling, its name, or the value of its literal as it is
written in a source. A layout token has no text. -/
def written (h : Heap) (r : Registry) : Content → String
  | symbol s => s.spelling
  | keyword k => k.spelling
  | identifier name => name
  | number x => h.written (r.makeLiteral (.number x))
  | string s => h.written (r.makeLiteral (.string s))
  | indent | dedent | newline | endOfInput => ""

/-- Can the token be written? An identifier must be a word and no keyword, a number finite and
without a sign. -/
def Writable : Content → Prop
  | symbol _ | keyword _ | string _ => True
  | identifier name => IsWord name.toList ∧ ∀ k : Keyword, k.letters ≠ name.toList
  | number x => x.isFinite = true ∧ x.toBits.toNat < Decimal.signBit
  | indent | dedent | newline | endOfInput => False

end Token.Content

/-- The texts of the tokens, with one space between them. -/
def printed (h : Heap) (r : Registry) (contents : List Token.Content) : String :=
  " ".intercalate (contents.map (Token.Content.written h r))

/-- The texts of the tokens, with a space before each. -/
def spaced (h : Heap) (r : Registry) (contents : List Token.Content) : List Char :=
  contents.flatMap fun content => ' ' :: (content.written h r).toList

theorem toList_printed_cons (h : Heap) (r : Registry) (content : Token.Content)
    (contents : List Token.Content) :
    (printed h r (content :: contents)).toList =
      (content.written h r).toList ++ spaced h r contents := by
  induction contents generalizing content with
  | nil => simp [printed, spaced]
  | cons next contents ih =>
    have hrest := ih next
    unfold printed at hrest ⊢
    rw [List.map_cons, List.map_cons, String.intercalate_cons_cons]
    rw [List.map_cons] at hrest
    simp [hrest, spaced]

theorem upToStop_spaced (h : Heap) (r : Registry) (contents : List Token.Content) :
    Lexeme.upToStop (spaced h r contents) = [] := by
  cases contents with
  | nil => rfl
  | cons content contents =>
    have hspace : isStop ' ' = true := by decide
    simp [spaced, Lexeme.upToStop, hspace]

/-! ## What is written spells the token -/

/-- An escaped text can stand between double quotes: the quote, the backslash and the line feed are
among the characters that are written with a letter. -/
theorem isBody_escape (cs : List Char) : IsBody '"' (escape cs) := by
  induction cs with
  | nil => exact .nil
  | cons c cs ih =>
    rw [escape]
    split
    · next letter hletter =>
      refine .pair ?_ ih
      rintro rfl
      have hback := unescapeLetter?_of_escapeLetter? hletter
      simp [unescapeLetter?] at hback
    · next hnone =>
      refine .char ?_ ?_ ?_ ih
      · rintro rfl; simp [escapeLetter?] at hnone
      · rintro rfl; simp [escapeLetter?] at hnone
      · rintro rfl; simp [escapeLetter?] at hnone

theorem Token.Content.spells_written (h : Heap) (r : Registry) {content : Token.Content}
    (hw : content.Writable) : Spells (content.written h r).toList content := by
  cases content with
  | symbol s =>
    rw [Token.Content.written, Symbol.spelling, String.toList_ofList]
    exact .symbol s
  | keyword k =>
    rw [Token.Content.written, Keyword.spelling, String.toList_ofList]
    exact .keyword k
  | identifier name =>
    obtain ⟨hword, hkeyword⟩ := hw
    have hspells := Spells.identifier hword hkeyword
    rwa [String.ofList_toList] at hspells
  | number x =>
    obtain ⟨hfinite, hsign⟩ := hw
    obtain ⟨hnumeral, hparse⟩ := Decimal.parse?_render hfinite hsign
    rw [Token.Content.written, Heap.written_makeLiteral]
    exact .number hnumeral hparse
  | string s =>
    have hspells := Spells.string (q := '"') (by decide) (isBody_escape s.toList)
    rw [unescape_escape, String.ofList_toList] at hspells
    rw [Token.Content.written, Heap.written_makeLiteral, Literal.written, Literal.quote,
      String.toList_ofList]
    exact hspells
  | indent | dedent | newline | endOfInput => exact hw.elim

theorem Token.Content.Writable.same {content : Token.Content} (h : content.Writable)
    (origin origin' : Origin) : Token.same ⟨content, origin⟩ ⟨content, origin'⟩ = true := by
  cases content with
  | number x => simp [Token.same, Token.kind, Token.literal?, Token.Content.literal?, Literal.same,
      Decimal.beq_self_of_isFinite h.1]
  | _ => simp [Token.same, Token.kind, Token.literal?, Token.Content.literal?, Literal.same]

/-! ## Lexemes before a blank -/

theorem Spells.not_isStop {c : Char} {cs : List Char} {content : Token.Content}
    (h : Spells (c :: cs) content) : isStop c = false := by
  have hquote : ∀ {q : Char}, isQuote q = true → isStop q = false := by
    intro q hq
    rcases eq_or_eq_of_isQuote hq with rfl | rfl <;> decide
  generalize htext : c :: cs = text at h
  cases h with
  | symbol s => exact s.isStop_letters c (by rw [← htext]; simp)
  | keyword k =>
    obtain ⟨d, ds, hd, hstart, -⟩ := k.isWord_letters
    rw [hd] at htext
    cases htext
    exact not_isStop_of_isWordChar (isWordChar_of_isWordStart hstart)
  | identifier hw =>
    obtain ⟨d, ds, rfl, hstart, -⟩ := hw
    cases htext
    exact not_isStop_of_isWordChar (isWordChar_of_isWordStart hstart)
  | number hnum =>
    subst htext
    have hhead := hnum.head_of_prefix (List.prefix_refl _)
    simp only [Bool.or_eq_true, Bool.and_eq_true, decide_eq_true_eq] at hhead
    rcases hhead with hdigit | ⟨rfl, -⟩
    · exact not_isStop_of_isDigit hdigit
    · decide
  | string hq => cases htext; exact hquote hq
  | rawString => cases htext; decide

/-- **Locality.** Before a blank, a number sign or the end of the text a lexeme is read as it is
read alone: as a whole, and as the content that it spells. -/
theorem Spells.read_append {c : Char} {cs tail : List Char} {content : Token.Content}
    (h : Spells (c :: cs) content) (htail : Lexeme.upToStop tail = []) :
    Lexeme.read c (cs ++ tail) = ⟨c :: cs, .ok content⟩ := by
  have hok := h.read
  -- Maximal munch: alone, a lexeme is read to its end.
  have hle : (c :: cs).length ≤ (Lexeme.read c cs).text.length :=
    Lexeme.length_le_of_isLexeme hok (List.prefix_refl _) (isLexeme_iff.2 ⟨content, h⟩)
  have htext := (Lexeme.read_isPrefix c cs).eq_of_length_le hle
  rw [Lexeme.read_append_of_ok hok htail]
  cases hread : Lexeme.read c cs with
  | mk text result => rw [hread] at hok htext; rw [← hok, ← htext]

namespace Lexer

/-! ## Scanning what is printed -/

/-- Between two tokens, with no block open. -/
structure Unblocked (l : Lexer) : Prop where
  scanning : l.phase = .scanning
  queue : l.pending = []
  blocks : l.blocks = []

/-- **Step.** A lexeme, after a space or at the start of the text, and what the next call then
finds. -/
theorem Unblocked.token {l : Lexer} (h : l.Unblocked) {pad text tail : List Char}
    {content : Token.Content} (hrest : l.cursor.rest = pad ++ (text ++ tail))
    (hpad : pad = [] ∨ pad = [' '] ∧ l.atLineStart = false) (hspells : Spells text content)
    (htail : Lexeme.upToStop tail = []) :
    ∃ (origin : Origin) (next : Lexer), l.items = .ok ⟨content, origin⟩ :: next.items ∧
      l.panics = next.panics ∧ next.Unblocked ∧ next.cursor.rest = tail ∧
      next.atLineStart = false := by
  obtain ⟨c, cs, rfl⟩ := List.exists_cons_of_ne_nil hspells.ne_nil
  have hbegins : beginsToken l.config.comments c = true := by
    have hstop := hspells.not_isStop
    simp only [isStop, Bool.or_eq_false_iff, decide_eq_false_iff_not] at hstop
    simp [beginsToken, hstop]
  have hblank : ∀ x ∈ pad, isBlank x = true ∧ x ≠ '\n' := by
    rcases hpad with rfl | ⟨rfl, -⟩
    · simp
    · have hspace : isBlank ' ' = true := by decide
      simp [hspace]
  obtain ⟨hskip, hcursor⟩ := settled_of_gap hrest (.of_isBlank (fun x hx => (hblank x hx).1) _)
    (.inr ⟨c, cs ++ tail, rfl, .inr hbegins⟩) (fun _ hx => (hblank _ hx).2 rfl)
  have hr : l.settled.cursor.rest = c :: (cs ++ tail) := by rw [hcursor]; rfl
  have hread := hspells.read_append htail
  have hlive : l.Live := by
    refine ⟨h.scanning, ?_⟩
    rcases hpad with rfl | ⟨-, hline⟩
    · exact overflows_of_skipped hskip
    · exact overflows_of_inLine hline
  have hmove := Move.token (l := l) h.queue ?_ hr hbegins (by rw [hread])
  · obtain ⟨hitems, hpanics⟩ := items_of_move hmove hlive rfl hspells.ne_endOfInput
    refine ⟨_, _, hitems, hpanics, ⟨h.scanning, h.queue, h.blocks⟩, ?_, rfl⟩
    rw [hread]
    exact Cursor.rest_advance hr
  · -- At the start of the text the line is not indented, and no block is open.
    intro hstart
    have hnil : pad = [] := by
      rcases hpad with hnil | ⟨-, hline⟩
      · exact hnil
      · rw [hline] at hstart; cases hstart
    rw [nextLine?_of_settled hstart hr, hskip, hnil, h.blocks]
    rfl

theorem Unblocked.finish {l : Lexer} (h : l.Unblocked) (hrest : l.cursor.rest = []) :
    ∃ last, l.items = [.ok last] ∧ l.panics = false ∧ last.content = .endOfInput := by
  obtain ⟨hskip, hcursor⟩ := settled_of_gap (g := []) hrest (.nil _) (.inl rfl) (by simp)
  have hmove := Move.finish (l := l) h.queue (by rw [hcursor]) h.blocks
  obtain ⟨hitems, hpanics⟩ := items_of_end hmove ⟨h.scanning, overflows_of_skipped hskip⟩ rfl rfl
  exact ⟨l.endToken, hitems, hpanics, rfl⟩

section Printed

variable (h : Heap) (r : Registry)

/-- **Run.** Inside a line, tokens with a space before each are found one after the other. -/
theorem Unblocked.spaced {contents : List Token.Content}
    (hw : ∀ content ∈ contents, content.Writable) {l : Lexer} (hl : l.Unblocked)
    (hline : l.atLineStart = false) (hrest : l.cursor.rest = spaced h r contents) :
    ∃ us last, l.items = (us ++ [last]).map .ok ∧ l.panics = false ∧
      us.map Token.content = contents ∧ last.content = .endOfInput := by
  induction contents generalizing l with
  | nil =>
    obtain ⟨last, hitems, hpanics, hlast⟩ := hl.finish hrest
    exact ⟨[], last, hitems, hpanics, rfl, hlast⟩
  | cons content contents ih =>
    have hsplit : l.cursor.rest =
        [' '] ++ ((content.written h r).toList ++ Offside.spaced h r contents) := by
      rw [hrest]; simp [Offside.spaced]
    obtain ⟨origin, next, hitems, hsame, hnext, htail, hinline⟩ :=
      hl.token hsplit (.inr ⟨rfl, hline⟩)
      (Token.Content.spells_written h r (hw content (by simp))) (upToStop_spaced h r contents)
    obtain ⟨us, last, hus, hpanics, hcontents, hlast⟩ :=
      ih (fun content hc => hw content (by simp [hc])) hnext hinline htail
    exact ⟨⟨content, origin⟩ :: us, last, by rw [hitems, hus]; rfl, hsame.trans hpanics,
      by simp [hcontents], hlast⟩

theorem Unblocked.printed {contents : List Token.Content}
    (hw : ∀ content ∈ contents, content.Writable) {l : Lexer} (hl : l.Unblocked)
    (hrest : l.cursor.rest = (printed h r contents).toList) :
    ∃ us last, l.items = (us ++ [last]).map .ok ∧ l.panics = false ∧
      us.map Token.content = contents ∧ last.content = .endOfInput := by
  cases contents with
  | nil =>
    obtain ⟨last, hitems, hpanics, hlast⟩ := hl.finish hrest
    exact ⟨[], last, hitems, hpanics, rfl, hlast⟩
  | cons content contents =>
    rw [toList_printed_cons, ← List.nil_append (_ ++ _)] at hrest
    obtain ⟨origin, next, hitems, hsame, hnext, htail, hinline⟩ := hl.token hrest (.inl rfl)
      (Token.Content.spells_written h r (hw content (by simp))) (upToStop_spaced h r contents)
    obtain ⟨us, last, hus, hpanics, hcontents, hlast⟩ :=
      hnext.spaced h r (fun content hc => hw content (by simp [hc])) hinline htail
    exact ⟨⟨content, origin⟩ :: us, last, by rw [hitems, hus]; rfl, hsame.trans hpanics,
      by simp [hcontents], hlast⟩

end Printed

theorem forall₂_same {ts us : List Token} (hw : ∀ t ∈ ts, t.content.Writable)
    (h : us.map Token.content = ts.map Token.content) :
    List.Forall₂ (fun t u => u.content = t.content ∧ t.same u = true) ts us := by
  induction ts generalizing us with
  | nil =>
    rw [List.map_eq_nil_iff.1 h]
    exact .nil
  | cons t ts ih =>
    cases us with
    | nil => cases h
    | cons u us =>
      rw [List.map_cons, List.map_cons, List.cons.injEq] at h
      obtain ⟨hcontent, hrest⟩ := h
      refine .cons ⟨hcontent, ?_⟩ (ih (fun t ht => hw t (by simp [ht])) hrest)
      obtain ⟨content, origin⟩ := u
      cases hcontent
      exact (hw t (by simp)).same t.origin origin

/-- **Printing.** Write down any list of symbols, keywords, identifiers, strings and finite numbers
without a sign, with one space between the texts. Whatever the settings, scanning that text gives
the same tokens and the end of input: no error, no layout, and no two tokens that run together. -/
theorem printed_tokens (h : Heap) (r : Registry) (name : String) (config : Config)
    {ts : List Token} (hw : ∀ t ∈ ts, t.content.Writable) :
    ∃ us last,
      tokenize ⟨name, printed h r (ts.map Token.content)⟩ config = some (.ok (us ++ [last])) ∧
      List.Forall₂ (fun t u => u.content = t.content ∧ t.same u = true) ts us ∧
      last.content = .endOfInput := by
  have hcontents : ∀ content ∈ ts.map Token.content, content.Writable := by
    intro content hc
    obtain ⟨t, ht, rfl⟩ := List.mem_map.1 hc
    exact hw t ht
  obtain ⟨us, last, hitems, hpanics, hus, hlast⟩ :=
    Unblocked.printed h r hcontents (l := start ⟨name, printed h r (ts.map Token.content)⟩ config)
      ⟨rfl, rfl, rfl⟩ rfl
  exact ⟨us, last, tokenize_of_items hitems hpanics, forall₂_same hw hus, hlast⟩

/-- Tokens that would run together without a space, and a string that needs escapes. -/
def crampedTokens : List Token :=
  [.symbol .dot, .number 5, .symbol .ellipsis, .number (.ofBits 0x3FB999999999999A), .keyword .and,
    .identifier "r", .string "\"\\\n# é\x00", .symbol .equal,
    .symbol .equal].map (⟨·, ⟨⟨"", ""⟩, 0⟩⟩)

theorem printed_tokens_crampedTokens :
    (∀ t ∈ crampedTokens, t.content.Writable) ∧
    ∃ us last,
      tokenize ⟨"", ". 5 ... 0.1 and r \"\\\"\\\\\\n# é\\0\" = ="⟩ {} = some (.ok (us ++ [last])) ∧
      List.Forall₂ (fun t u => u.content = t.content ∧ t.same u = true) crampedTokens us ∧
      last.content = .endOfInput := by
  have hw : ∀ t ∈ crampedTokens, t.content.Writable := by
    have hword : IsWord "r".toList ∧ ∀ k : Keyword, k.letters ≠ "r".toList :=
      ⟨⟨'r', [], by decide, by decide, by simp⟩, by intro k; cases k <;> decide⟩
    have hfive : Token.Content.Writable (.number 5) := by constructor <;> decide +kernel
    have htenth : Token.Content.Writable (.number (.ofBits 0x3FB999999999999A)) := by
      constructor <;> decide +kernel
    simp only [crampedTokens, List.map_cons, List.map_nil, List.forall_mem_cons]
    exact ⟨trivial, hfive, trivial, htenth, trivial, hword, trivial, trivial, trivial, by simp⟩
  have hprinted : printed {} ⟨0, 0, 0, 0, 0, 0⟩ (crampedTokens.map Token.content) =
      ". 5 ... 0.1 and r \"\\\"\\\\\\n# é\\0\" = =" := by decide +kernel
  have h := printed_tokens {} ⟨0, 0, 0, 0, 0, 0⟩ "" {} hw
  rw [hprinted] at h
  exact ⟨hw, h⟩

end Lexer

end Offside
