import Mathlib.Algebra.Group.Nat.Even
import Offside.Proofs.Lexer.Locality
import Offside.Proofs.Lexer.Lockstep

/-!
# String literals

Where a string ends is said by counting: it ends at the first quote of its kind that comes after an
even number of backslashes. What it stands for is said by pairs: each backslash goes with the
character after it.

Results:
* `isBody_iff`: what the scanner takes between two quotes, by counting backslashes.
* `IsBody.decodes`, `Decodes.unescape_eq`: what such a text stands for.
* `Lexer.string_literals`: which calls scan a string, where it ends, what it stands for, and when it
  has no end.
-/

namespace Offside

open Text

/-! ## Where a string ends -/

/-- The number of backslashes that a text ends with. -/
def trailingBackslashes (text : List Char) : Nat := (text.reverse.takeWhile (· = '\\')).length

theorem trailingBackslashes_le (text : List Char) : trailingBackslashes text ≤ text.length := by
  have hle := (List.takeWhile_prefix (l := text.reverse) (· = '\\')).length_le
  rwa [List.length_reverse] at hle

theorem trailingBackslashes_cons (c : Char) (cs : List Char) :
    trailingBackslashes (c :: cs) =
      if c = '\\' ∧ trailingBackslashes cs = cs.length then cs.length + 1
      else trailingBackslashes cs := by
  unfold trailingBackslashes
  rw [List.reverse_cons, List.takeWhile_append, List.length_reverse]
  by_cases hall : (cs.reverse.takeWhile (· = '\\')).length = cs.length
  · by_cases hc : c = '\\' <;> simp [hall, hc]
  · simp [hall]

theorem trailingBackslashes_char {c : Char} (hc : c ≠ '\\') (cs : List Char) :
    trailingBackslashes (c :: cs) = trailingBackslashes cs := by
  simp [trailingBackslashes_cons, hc]

/-- A backslash and the character after it leave the parity as it is. -/
theorem even_trailingBackslashes_pair (c : Char) (cs : List Char) :
    Even (trailingBackslashes ('\\' :: c :: cs)) ↔ Even (trailingBackslashes cs) := by
  have hle := trailingBackslashes_le cs
  by_cases hall : c = '\\' ∧ trailingBackslashes cs = cs.length
  · have htwo : trailingBackslashes ('\\' :: c :: cs) = trailingBackslashes cs + 2 := by
      simp [trailingBackslashes_cons, hall]
    rw [htwo, Nat.even_add]
    exact iff_true_right (by decide)
  · have hsame : trailingBackslashes (c :: cs) = trailingBackslashes cs := by
      rw [trailingBackslashes_cons, if_neg hall]
    rw [trailingBackslashes_cons, hsame, if_neg]
    rintro ⟨-, hlen⟩
    rw [List.length_cons] at hlen
    omega

/-- The body of a string up to a quote: no line feed in it, and every quote `q` in it, but not its
end, comes after an odd number of backslashes. -/
theorem isBody_iff {q : Char} (hq : isQuote q = true) {text : List Char} :
    IsBody q text ↔ '\n' ∉ text ∧ Even (trailingBackslashes text) ∧
      ∀ a b, text = a ++ q :: b → ¬ Even (trailingBackslashes a) := by
  obtain ⟨hslash, -⟩ := isQuote_spec hq
  constructor
  · intro h
    induction h with
    | nil => exact ⟨by simp, by simp [trailingBackslashes], by simp⟩
    | @char c cs hcq hcb hcn _ ih =>
      obtain ⟨hfeed, heven, hodd⟩ := ih
      refine ⟨by simp [hfeed, Ne.symm hcn], by rwa [trailingBackslashes_char hcb], ?_⟩
      intro a b hab
      cases a with
      | nil => exact absurd (List.cons.inj hab).1 hcq
      | cons d a =>
        obtain ⟨rfl, hcs⟩ := List.cons.inj hab
        rw [trailingBackslashes_char hcb]
        exact hodd a b hcs
    | @pair c cs hcn _ ih =>
      obtain ⟨hfeed, heven, hodd⟩ := ih
      refine ⟨by simp [hfeed, Ne.symm hcn], (even_trailingBackslashes_pair c cs).2 heven, ?_⟩
      intro a b hab
      -- The quote is not the backslash; it may be the other half of the pair.
      rcases a with - | ⟨d, - | ⟨e, a⟩⟩
      · exact absurd (List.cons.inj hab).1.symm hslash
      · obtain ⟨rfl, -⟩ := List.cons.inj hab
        decide
      · obtain ⟨rfl, hab'⟩ := List.cons.inj hab
        obtain ⟨rfl, hcs⟩ := List.cons.inj hab'
        rw [even_trailingBackslashes_pair]
        exact hodd a b hcs
  · rintro ⟨hfeed, heven, hodd⟩
    induction hlen : text.length using Nat.strongRecOn generalizing text with
    | ind n ih =>
      match text with
      | [] => exact .nil
      | c :: cs =>
        simp only [List.mem_cons, not_or] at hfeed
        by_cases hc : c = '\\'
        · subst hc
          match cs with
          | [] => exact absurd heven (by decide)
          | d :: ds =>
            simp only [List.mem_cons, not_or] at hfeed
            rw [even_trailingBackslashes_pair] at heven
            refine .pair (Ne.symm hfeed.2.1) (ih ds.length ?_ hfeed.2.2 heven ?_ rfl)
            · simp only [List.length_cons] at hlen; omega
            · intro a b hab
              have hpair := hodd ('\\' :: d :: a) b (by rw [hab]; rfl)
              rwa [even_trailingBackslashes_pair] at hpair
        · rw [trailingBackslashes_char hc] at heven
          refine .char ?_ hc (Ne.symm hfeed.1) (ih cs.length ?_ hfeed.2 heven ?_ rfl)
          · rintro rfl
            exact hodd [] cs rfl (by decide)
          · simp only [List.length_cons] at hlen; omega
          · intro a b hab
            have hchar := hodd (c :: a) b (by rw [hab]; rfl)
            rwa [trailingBackslashes_char hc] at hchar

/-- The first quote `q` of `body` that comes after an even number of backslashes stands between
`text` and `rest`. -/
structure Closes (q : Char) (body text rest : List Char) : Prop where
  split : body = text ++ q :: rest
  even : Even (trailingBackslashes text)
  first : ∀ a b, text = a ++ q :: b → ¬ Even (trailingBackslashes a)

theorem closes_iff_isBody {q : Char} (hq : isQuote q = true) {body text rest : List Char} :
    Closes q body text rest ∧ '\n' ∉ text ↔ body = text ++ q :: rest ∧ IsBody q text := by
  rw [isBody_iff hq]
  constructor
  · rintro ⟨⟨hsplit, heven, hfirst⟩, hfeed⟩
    exact ⟨hsplit, hfeed, heven, hfirst⟩
  · rintro ⟨hsplit, hfeed, heven, hfirst⟩
    exact ⟨⟨hsplit, heven, hfirst⟩, hfeed⟩

/-! ## What a string stands for -/

/-- The value of a text between quotes, read from left to right: each backslash goes with the
character after it. -/
inductive Decodes : List Char → List Char → Prop
  | nil : Decodes [] []
  | char {c : Char} {cs value : List Char} (hc : c ≠ '\\') (h : Decodes cs value) :
      Decodes (c :: cs) (c :: value)
  /-- A letter for a control character. -/
  | control {c d : Char} {cs value : List Char}
      (hd : (c, d) ∈ [('n', '\n'), ('t', '\t'), ('r', '\r'), ('0', '\x00')])
      (h : Decodes cs value) : Decodes ('\\' :: c :: cs) (d :: value)
  /-- A character that would not stand for itself alone. -/
  | shielded {c : Char} {cs value : List Char} (hc : c ∈ ['\\', '"', '\'']) (h : Decodes cs value) :
      Decodes ('\\' :: c :: cs) (c :: value)
  /-- Any other pair. -/
  | kept {c : Char} {cs value : List Char} (hc : c ∉ ['n', 't', 'r', '0', '\\', '"', '\''])
      (h : Decodes cs value) : Decodes ('\\' :: c :: cs) ('\\' :: c :: value)

theorem unescapeLetter?_of_notMem {c : Char} (hc : c ∉ ['n', 't', 'r', '0', '\\', '"', '\'']) :
    unescapeLetter? c = none := by
  unfold unescapeLetter?
  split <;> first | rfl | exact absurd (by simp) hc

theorem Decodes.unescape_eq {text value : List Char} (h : Decodes text value) :
    unescape text = value := by
  induction h with
  | nil => rfl
  | char hc _ ih => rw [unescape_cons_of_ne hc, ih]
  | control hd _ ih =>
    simp only [List.mem_cons, Prod.mk.injEq, List.not_mem_nil, or_false] at hd
    rcases hd with ⟨rfl, rfl⟩ | ⟨rfl, rfl⟩ | ⟨rfl, rfl⟩ | ⟨rfl, rfl⟩ <;>
      simp [unescape, unescapeLetter?, ih]
  | shielded hc _ ih =>
    simp only [List.mem_cons, List.not_mem_nil, or_false] at hc
    rcases hc with rfl | rfl | rfl <;> simp [unescape, unescapeLetter?, ih]
  | kept hc _ ih => simp [unescape, unescapeLetter?_of_notMem hc, ih]

theorem exists_decodes_pair (c : Char) {cs value : List Char} (h : Decodes cs value) :
    ∃ v, Decodes ('\\' :: c :: cs) v := by
  by_cases hshield : c ∈ ['\\', '"', '\'']
  · exact ⟨_, .shielded hshield h⟩
  · by_cases hkept : c ∈ ['n', 't', 'r', '0']
    · simp only [List.mem_cons, List.not_mem_nil, or_false] at hkept
      rcases hkept with rfl | rfl | rfl | rfl
      · exact ⟨'\n' :: value, .control (by simp) h⟩
      · exact ⟨'\t' :: value, .control (by simp) h⟩
      · exact ⟨'\r' :: value, .control (by simp) h⟩
      · exact ⟨'\x00' :: value, .control (by simp) h⟩
    · refine ⟨_, .kept ?_ h⟩
      simp only [List.mem_cons, List.not_mem_nil, or_false, not_or] at hshield hkept ⊢
      tauto

theorem IsBody.decodes {q : Char} {text : List Char} (h : IsBody q text) :
    Decodes text (unescape text) := by
  have hvalue : ∃ value, Decodes text value := by
    induction h with
    | nil => exact ⟨[], .nil⟩
    | char _ hb _ _ ih =>
      obtain ⟨value, hvalue⟩ := ih
      exact ⟨_, .char hb hvalue⟩
    | @pair c _ _ _ ih =>
      obtain ⟨value, hvalue⟩ := ih
      exact exists_decodes_pair c hvalue
  obtain ⟨value, hvalue⟩ := hvalue
  rw [hvalue.unescape_eq]; exact hvalue

/-- What a string with the body `text` stands for. A raw one stands for its body. -/
def Denotes (raw : Bool) (text value : List Char) : Prop :=
  if raw then value = text else Decodes text value

theorem IsBody.denotes_iff {q : Char} {raw : Bool} {text value : List Char} (h : IsBody q text) :
    Denotes raw text value ↔ value = if raw then text else unescape text := by
  cases raw with
  | true => rfl
  | false => exact ⟨fun hvalue => hvalue.unescape_eq.symm, fun hvalue => hvalue ▸ h.decodes⟩

/-! ## Reading a string -/

/-- What a string starts with. -/
def stringOpening (raw : Bool) (q : Char) : List Char := if raw then ['r', q] else [q]

namespace Lexeme

theorem read_stringOpening {raw : Bool} {q c : Char} {body cs : List Char}
    (hq : isQuote q = true) (h : c :: cs = stringOpening raw q ++ body) :
    c ≠ '\n' ∧ read c cs = string raw (stringOpening raw q) q body := by
  cases raw with
  | false =>
    cases h
    exact ⟨(isQuote_spec hq).2.1, read_quote hq body⟩
  | true =>
    cases h
    exact ⟨by decide, read_rawQuote hq body⟩

/-- Nothing but a string is read as one, or for want of an end not at all. -/
theorem exists_stringOpening {c : Char} {cs : List Char}
    (h : (∃ s, (read c cs).content = .ok (.string s)) ∨
      (read c cs).content = .error .unterminatedString) :
    ∃ raw q body, isQuote q = true ∧ c :: cs = stringOpening raw q ++ body := by
  rcases string_start_cases c cs with hq | ⟨q, qs, rfl, rfl, hq⟩ | ⟨hq, hraw⟩
  · exact ⟨false, c, cs, hq, rfl⟩
  · exact ⟨true, q, qs, hq, rfl⟩
  · exfalso
    have hword : ∀ {word s}, Token.Content.ofWord word ≠ .string s := by
      intro word s
      unfold Token.Content.ofWord
      split <;> simp
    simp only [read, hq, hraw, Bool.false_eq_true, if_false] at h
    split at h
    · simp [number] at h
    · split at h
      · simp [word, hword] at h
      · unfold symbol at h
        split at h <;> simp at h

theorem string_content_error_iff {raw : Bool} {opening cs : List Char} {q : Char}
    (hq : isQuote q = true) :
    (string raw opening q cs).content = .error .unterminatedString ↔
      ∀ text rest, Closes q cs text rest → '\n' ∈ text := by
  have hclosed : (∃ content, (string raw opening q cs).content = .ok content) ↔
      ∃ text rest, Closes q cs text rest ∧ '\n' ∉ text := by
    simp only [string_content_ok_iff hq, closes_iff_isBody hq]
    constructor
    · rintro ⟨-, text, rest, hb, hcs, -⟩
      exact ⟨text, rest, hcs, hb⟩
    · rintro ⟨text, rest, hcs, hb⟩
      exact ⟨_, text, rest, hb, hcs, rfl⟩
  have hopen : (string raw opening q cs).content = .error .unterminatedString ↔
      ¬ ∃ content, (string raw opening q cs).content = .ok content := by
    unfold string
    simp only
    split <;> simp
  rw [hopen, hclosed]
  push Not
  rfl

end Lexeme

namespace Lexer

/-- The next call scans a string: nothing is queued, no mark of a line comes first, and where the
gap ends there is a quote, or an `r` and a quote. -/
structure StartsString (l : Lexer) (raw : Bool) (q : Char) (body : List Char) : Prop where
  idle : l.pending = []
  reads : l.Reads
  quote : isQuote q = true
  text : l.settled.cursor.rest = stringOpening raw q ++ body

section

variable {l : Lexer} {raw : Bool} {q : Char} {body : List Char}

theorem StartsString.exists_read (h : l.StartsString raw q body) :
    ∃ c cs, l.settled.cursor.rest = c :: cs ∧ beginsToken l.config.comments c = true ∧
      Lexeme.read c cs = Lexeme.string raw (stringOpening raw q) q body := by
  have hne : l.settled.cursor.rest ≠ [] := by
    rw [h.text]
    cases raw <;> simp [stringOpening]
  obtain ⟨c, cs, hr⟩ := List.exists_cons_of_ne_nil hne
  obtain ⟨hc, hread⟩ := Lexeme.read_stringOpening h.quote (hr.symm.trans h.text)
  exact ⟨c, cs, hr, beginsToken_of_settled hr hc, hread⟩

/-- A string with an end is returned, and the lexer goes on after it. -/
theorem StartsString.token (h : l.StartsString raw q body) (hl : l.phase = .scanning)
    {content : Token.Content}
    (hok : (Lexeme.string raw (stringOpening raw q) q body).content = .ok content) :
    l.nextToken.result = .ok ⟨content, l.source.origin l.settled.cursor.offset⟩ ∧
      l.nextToken.lexer.cursor =
        l.settled.cursor.advance (Lexeme.string raw (stringOpening raw q) q body).text := by
  obtain ⟨c, cs, hr, hc, hread⟩ := h.exists_read
  rw [← hread] at hok ⊢
  rw [nextToken_eq hl, (Move.token h.idle h.reads hr hc hok).pull_eq, Step.deliver_result,
    Step.deliver_lexer]
  exact ⟨rfl, rfl⟩

theorem StartsString.fail (h : l.StartsString raw q body) (hl : l.phase = .scanning)
    {cause : LexError.Cause}
    (herr : (Lexeme.string raw (stringOpening raw q) q body).content = .error cause) :
    l.nextToken.result = .error ⟨cause, l.source.origin l.settled.cursor.offset⟩ := by
  obtain ⟨c, cs, hr, hc, hread⟩ := h.exists_read
  rw [← hread] at herr
  rw [nextToken_eq hl, (Move.fail h.idle h.reads hr hc herr).pull_eq, Step.deliver_result]

theorem StartsString.result_eq_error_iff (h : l.StartsString raw q body)
    (hl : l.phase = .scanning) :
    l.nextToken.result =
        .error ⟨.unterminatedString, l.source.origin l.settled.cursor.offset⟩ ↔
      (Lexeme.string raw (stringOpening raw q) q body).content = .error .unterminatedString := by
  refine ⟨?_, h.fail hl⟩
  intro herr
  cases hcontent : (Lexeme.string raw (stringOpening raw q) q body).content with
  | ok content =>
    rw [(h.token hl hcontent).1] at herr
    cases herr
  | error cause => rw [Lexeme.string_error hcontent]

end

/-- Nothing but a string is returned as one, or fails for want of an end. -/
theorem Run.startsString {source : Source} {config : Config} {visited : List Lexer} {l : Lexer}
    (h : Run (start source config) visited l) (hl : l.phase = .scanning)
    (hresult : (∃ s o, l.nextToken.result = .ok ⟨.string s, o⟩) ∨
      ∃ o, l.nextToken.result = .error ⟨.unterminatedString, o⟩) :
    ∃ raw q body, l.StartsString raw q body := by
  have hstart : ∀ {c cs}, l.pending = [] → l.Reads → l.settled.cursor.rest = c :: cs →
      ((∃ s, (Lexeme.read c cs).content = .ok (.string s)) ∨
        (Lexeme.read c cs).content = .error .unterminatedString) →
      ∃ raw q body, l.StartsString raw q body := by
    intro c cs hq hs hr hread
    obtain ⟨raw, q, body, hquote, htext⟩ := Lexeme.exists_stringOpening hread
    exact ⟨raw, q, body, hq, hs, hquote, hr.trans htext⟩
  obtain ⟨s, hmove, hmoved, -⟩ := exists_move hl
  rw [hmoved] at hresult
  cases hmove with
  | @dequeue t _ hq =>
    rcases hresult with ⟨s, o, hs⟩ | ⟨o, ho⟩
    · cases hs
      rcases h.pending_layout _ (by rw [hq]; exact List.mem_cons_self) with hc | hc <;> cases hc
    · cases ho
  | token hq hs hr _ hok =>
    rcases hresult with ⟨s, o, hs'⟩ | ⟨o, ho⟩
    · cases hs'
      exact hstart hq hs hr (Or.inl ⟨s, hok⟩)
    · cases ho
  | fail hq hs hr _ herr =>
    rcases hresult with ⟨s, o, hs'⟩ | ⟨o, ho⟩
    · cases hs'
    · cases ho
      exact hstart hq hs hr (Or.inr herr)
  | indent | dedent | badIndent | newline | unwind | finish =>
    rcases hresult with ⟨s, o, hs'⟩ | ⟨o, ho⟩
    · cases hs'
    · cases ho

/-- **String literals.** A call returns a string, or fails for want of its end, exactly where a
quote, or an `r` and a quote, is to be read. The string ends at the first quote of its kind that
comes after an even number of backslashes, and it stands for the text up to there, decoded unless it
is raw. If there is no such quote, or a line feed comes before it, the call fails at the place where
the string starts, and only then. -/
theorem string_literals {source : Source} {config : Config} {visited : List Lexer} {l : Lexer}
    (h : Run (start source config) visited l) (hl : l.Live) :
    ((∃ raw q body, l.StartsString raw q body) ↔
      (∃ s o, l.nextToken.result = .ok ⟨.string s, o⟩) ∨
        ∃ o, l.nextToken.result = .error ⟨.unterminatedString, o⟩) ∧
    ∀ raw q body, l.StartsString raw q body →
      ∃ before, source.chars = before ++ stringOpening raw q ++ body ∧
        (∀ text rest, Closes q body text rest → '\n' ∉ text →
          ∃ value, (∀ v, Denotes raw text v ↔ v = value) ∧
            l.nextToken.result = .ok ⟨.string (String.ofList value), ⟨source, byteLength before⟩⟩ ∧
            l.nextToken.lexer.cursor =
              ⟨rest, byteLength (before ++ (stringOpening raw q ++ text ++ [q]))⟩) ∧
        (l.nextToken.result = .error ⟨.unterminatedString, ⟨source, byteLength before⟩⟩ ↔
          ∀ text rest, Closes q body text rest → '\n' ∈ text) := by
  obtain ⟨before, hat⟩ := h.exists_cursorAt
  have hset := settled_cursorAt hat
  have horigin : l.source.origin l.settled.cursor.offset =
      ⟨source, byteLength (before ++ l.skipped)⟩ := by
    rw [show l.source = source from h.source, hset.origin]
  refine ⟨⟨?_, h.startsString hl.1⟩, ?_⟩
  · rintro ⟨raw, q, body, hstart⟩
    cases hcontent : (Lexeme.string raw (stringOpening raw q) q body).content with
    | ok content =>
      obtain ⟨b, rest, -, -, rfl⟩ := (Lexeme.string_content_ok_iff hstart.quote).1 hcontent
      exact Or.inl ⟨_, _, (hstart.token hl.1 hcontent).1⟩
    | error cause =>
      obtain rfl := Lexeme.string_error hcontent
      exact Or.inr ⟨_, hstart.fail hl.1 hcontent⟩
  · intro raw q body hstart
    have htext := hset.text
    rw [hstart.text, ← List.append_assoc] at htext
    refine ⟨before ++ l.skipped, htext, ?_, ?_⟩
    · intro text rest hcloses hfeed
      obtain ⟨rfl, hbody⟩ := (closes_iff_isBody hstart.quote).1 ⟨hcloses, hfeed⟩
      have hstring := Lexeme.string_of_isBody raw (stringOpening raw q) hstart.quote hbody rest
      obtain ⟨hresult, hcursor⟩ := hstart.token hl.1 (by rw [hstring])
      have hrest : l.settled.cursor.rest = stringOpening raw q ++ text ++ [q] ++ rest := by
        rw [hstart.text]; simp
      have hnext := hset.advance hrest
      refine ⟨_, fun v => hbody.denotes_iff, by rw [hresult, horigin], ?_⟩
      rw [hcursor, hstring, ← hnext.offset, ← Cursor.rest_advance hrest]
    · rw [← horigin, hstart.result_eq_error_iff hl.1, Lexeme.string_content_error_iff hstart.quote]

/-- A string with a quote that a backslash shields and two backslashes before its end, and a raw one
whose only other quote is shielded. -/
def shieldedSample : Source := ⟨"sample", "'\\'é\\\\' r\"a\\\""⟩

def shieldedBody : List Char := ['\\', '\'', 'é', '\\', '\\']

def unclosedBody : List Char := ['a', '\\', '"']

theorem string_literals_shieldedSample :
    (∃ value, (∀ v, Denotes false shieldedBody v ↔ v = value) ∧
      (start shieldedSample {}).nextToken.result =
        .ok ⟨.string (String.ofList value), ⟨shieldedSample, 0⟩⟩) ∧
    (start shieldedSample {}).nextToken.lexer.nextToken.result =
      .error ⟨.unterminatedString, ⟨shieldedSample, 9⟩⟩ := by
  constructor
  · have hstart : (start shieldedSample {}).StartsString false '\''
        (shieldedBody ++ '\'' :: (' ' :: 'r' :: '"' :: unclosedBody)) :=
      ⟨rfl, by unfold Reads; decide +kernel, rfl, by decide +kernel⟩
    obtain ⟨before, htext, hclosed, -⟩ := (string_literals .nil (by decide +kernel)).2 _ _ _ hstart
    have hbody : IsBody '\'' shieldedBody :=
      .pair (by decide) (.char (by decide) (by decide) (by decide) (.pair (by decide) .nil))
    obtain ⟨hcloses, hfeed⟩ := (closes_iff_isBody hstart.quote).2 ⟨rfl, hbody⟩
    obtain ⟨value, hvalue, hresult, -⟩ := hclosed _ _ hcloses hfeed
    have hbefore : before = [] := by
      have hchars : shieldedSample.chars = [] ++ stringOpening false '\'' ++
          (shieldedBody ++ '\'' :: (' ' :: 'r' :: '"' :: unclosedBody)) := by decide +kernel
      rw [hchars] at htext
      exact (List.append_cancel_right (List.append_cancel_right htext)).symm
    rw [hbefore] at hresult
    exact ⟨value, hvalue, hresult⟩
  · have hrun : Run (start shieldedSample {}) [start shieldedSample {}]
        (start shieldedSample {}).nextToken.lexer := Run.nil.snoc (by decide +kernel)
    have hstart : (start shieldedSample {}).nextToken.lexer.StartsString true '"' unclosedBody :=
      ⟨by decide +kernel, by unfold Reads; decide +kernel, rfl, by decide +kernel⟩
    obtain ⟨before, htext, -, hopen⟩ :=
      (string_literals hrun (by decide +kernel)).2 _ _ _ hstart
    have hbefore : before = "'\\'é\\\\' ".toList := by
      have hchars : shieldedSample.chars =
          "'\\'é\\\\' ".toList ++ stringOpening true '"' ++ unclosedBody := by decide +kernel
      rw [hchars] at htext
      exact (List.append_cancel_right (List.append_cancel_right htext)).symm
    rw [hbefore] at hopen
    refine hopen.2 ?_
    rintro text rest ⟨hsplit, heven, -⟩
    exfalso
    rcases text with - | ⟨a, - | ⟨b, - | ⟨c, text⟩⟩⟩ <;>
      simp [unclosedBody] at hsplit
    obtain ⟨rfl, rfl, -⟩ := hsplit
    exact absurd heven (by decide)

end Lexer

end Offside
