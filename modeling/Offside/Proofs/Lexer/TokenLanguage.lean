import Mathlib.Data.List.TakeWhile
import Offside.Proofs.Decimal.Nearest
import Offside.Proofs.Lexer.History

/-!
# The token language and maximal munch

The language of visible tokens, given by its grammar: symbols, words, numerals and strings.
`Spells text content` adds to each lexeme the one content it stands for.

Results:
* `Lexeme.read_spells`, `Lexeme.length_le_of_isLexeme`: reading takes a lexeme, classifies it, and
  no longer prefix of the text is a lexeme of any class.
* `Spells.read`: a lexeme that stands alone is read as what it spells, so a text spells at most one
  content.
* `Lexer.maximal_munch`: the same for every visible token of every run.
-/

namespace Offside

open Text

/-- Does a token of this content show in the text, other than by its layout? -/
def Token.Content.isVisible : Token.Content → Bool
  | .symbol _ | .keyword _ | .identifier _ | .number _ | .string _ => true
  | _ => false

/-! ## Grammar -/

/-- A word: a letter or `_`, then letters, numeric characters or `_`. -/
def IsWord (text : List Char) : Prop :=
  ∃ c cs, text = c :: cs ∧ isWordStart c = true ∧ ∀ x ∈ cs, isWordChar x = true

/-- A numeral: digits, or digits that may be missing, a point and at least one more digit. -/
def IsNumeral (text : List Char) : Prop :=
  ∃ whole, (∀ x ∈ whole, x.isDigit = true) ∧
    (whole ≠ [] ∧ text = whole ∨
      ∃ fraction, fraction ≠ [] ∧ (∀ x ∈ fraction, x.isDigit = true) ∧
        text = whole ++ '.' :: fraction)

/-- What can stand between two quotes `q`: characters other than `q`, the backslash and the line
feed, and pairs of a backslash and any character but the line feed. -/
inductive IsBody (q : Char) : List Char → Prop
  | nil : IsBody q []
  | char {c : Char} {cs : List Char} (hq : c ≠ q) (hb : c ≠ '\\') (hn : c ≠ '\n')
      (h : IsBody q cs) : IsBody q (c :: cs)
  | pair {c : Char} {cs : List Char} (hn : c ≠ '\n') (h : IsBody q cs) : IsBody q ('\\' :: c :: cs)

/-- A string: `r` or nothing, then a body between two equal quotes. -/
def IsString (text : List Char) : Prop :=
  ∃ q body, isQuote q = true ∧ IsBody q body ∧
    (text = q :: (body ++ [q]) ∨ text = 'r' :: q :: (body ++ [q]))

/-- The language of visible tokens. -/
def IsLexeme (text : List Char) : Prop :=
  (∃ s : Symbol, text = s.letters) ∨ IsWord text ∨ IsNumeral text ∨ IsString text

/-- The content that a lexeme stands for. -/
inductive Spells : List Char → Token.Content → Prop
  | symbol (s : Symbol) : Spells s.letters (.symbol s)
  | keyword (k : Keyword) : Spells k.letters (.keyword k)
  | identifier {text : List Char} (hw : IsWord text) (hk : ∀ k : Keyword, k.letters ≠ text) :
      Spells text (.identifier (String.ofList text))
  /-- The numeral is one that can be read, and the token carries what is read. -/
  | number {text : List Char} {x : Float} (h : IsNumeral text) (hx : Decimal.parse? text = some x) :
      Spells text (.number x)
  | string {q : Char} {body : List Char} (hq : isQuote q = true) (hb : IsBody q body) :
      Spells (q :: (body ++ [q])) (.string (String.ofList (unescape body)))
  | rawString {q : Char} {body : List Char} (hq : isQuote q = true) (hb : IsBody q body) :
      Spells ('r' :: q :: (body ++ [q])) (.string (String.ofList body))

/-! ## First characters -/

theorem isAlphabetic_of_lt {c : Char} (h : c.toNat < 0x41) : isAlphabetic c = false := by
  have hranges : alphabeticRanges = (0x41, 0x5A) :: alphabeticRanges.tail := rfl
  rw [isAlphabetic, hranges, inRanges, if_pos (by omega), decide_eq_false_iff_not]
  omega

theorem isWordStart_of_isDigit {c : Char} (h : c.isDigit = true) : isWordStart c = false := by
  have hc : 48 ≤ c.toNat ∧ c.toNat ≤ 57 := by
    simpa [Char.isDigit, UInt32.le_iff_toNat_le] using h
  have hne : c ≠ '_' := by rintro rfl; simp at hc
  simp [isWordStart, isAlphabetic_of_lt (show c.toNat < 0x41 by omega), hne]

theorem eq_or_eq_of_isQuote {c : Char} (h : isQuote c = true) : c = '"' ∨ c = '\'' := by
  simpa [isQuote] using h

theorem isQuote_spec {q : Char} (h : isQuote q = true) :
    q ≠ '\\' ∧ q ≠ '\n' ∧ q ≠ '.' ∧ q ≠ 'r' ∧ q.isDigit = false ∧ isWordStart q = false ∧
      isWordChar q = false := by
  rcases eq_or_eq_of_isQuote h with rfl | rfl <;> decide

theorem isWordChar_of_isWordStart {c : Char} (h : isWordStart c = true) : isWordChar c = true := by
  simp only [isWordStart, Bool.or_eq_true] at h
  rcases h with h | h <;> simp [isWordChar, h]

/-- No symbol starts like a word, a numeral without its point or a string, and no symbol has a
digit. -/
theorem Symbol.letters_spec (s : Symbol) :
    (∃ c cs, s.letters = c :: cs ∧ c.isDigit = false ∧ isWordStart c = false ∧
      isQuote c = false) ∧ ∀ x ∈ s.letters, x.isDigit = false := by
  have hdigit : s.letters.all (fun x => !x.isDigit) = true := by cases s <;> decide
  refine ⟨?_, by simpa using hdigit⟩
  cases s <;> exact ⟨_, _, rfl, by decide⟩

theorem Keyword.isWord_letters (k : Keyword) : IsWord k.letters := by
  have hword : k.letters.all isWordChar = true := by cases k <;> decide
  have hstart : (k.letters.head?.map isWordStart) = some true := by cases k <;> decide
  obtain ⟨c, hc, hstart⟩ := Option.map_eq_some_iff.1 hstart
  obtain ⟨cs, hcs⟩ := List.head?_eq_some_iff.1 hc
  refine ⟨c, cs, hcs, hstart, ?_⟩
  intro x hx
  exact List.all_eq_true.1 hword x (by rw [hcs]; simp [hx])

theorem Symbol.not_prefix_of_head {s : Symbol} {c : Char} {cs : List Char}
    (h : s.letters <+: c :: cs) :
    c.isDigit = false ∧ isWordStart c = false ∧ isQuote c = false := by
  obtain ⟨⟨d, ds, hd, hspec⟩, -⟩ := s.letters_spec
  rw [hd] at h
  rw [← (List.cons_prefix_cons.1 h).1]; exact hspec

theorem IsWord.head_of_prefix {p cs : List Char} {c : Char} (h : IsWord p) (hp : p <+: c :: cs) :
    isWordStart c = true := by
  obtain ⟨d, ds, rfl, hd, -⟩ := h
  rw [← (List.cons_prefix_cons.1 hp).1]; exact hd

/-- Where a numeral starts there is a digit, or a point and a digit. -/
theorem IsNumeral.head_of_prefix {p cs : List Char} {c : Char} (h : IsNumeral p)
    (hp : p <+: c :: cs) : (c.isDigit || (c = '.' && Lexeme.digitFollows cs)) = true := by
  obtain ⟨whole, hwhole, h⟩ := h
  cases whole with
  | cons d ds =>
    have hd : d = c := by
      rcases h with ⟨-, rfl⟩ | ⟨fraction, -, -, rfl⟩
      · exact (List.cons_prefix_cons.1 hp).1
      · exact (List.cons_prefix_cons.1 hp).1
    subst hd
    simp [hwhole d (by simp)]
  | nil =>
    rcases h with ⟨hne, -⟩ | ⟨fraction, hne, hfraction, rfl⟩
    · exact absurd rfl hne
    · obtain ⟨rfl, hp'⟩ := List.cons_prefix_cons.1 hp
      cases fraction with
      | nil => exact absurd rfl hne
      | cons d ds =>
        obtain ⟨t, rfl⟩ := hp'
        simp [Lexeme.digitFollows, hfraction d (by simp)]

/-- Where a string starts there is a quote, or an `r` and a quote. -/
theorem IsString.head_of_prefix {p cs : List Char} {c : Char} (h : IsString p)
    (hp : p <+: c :: cs) : isQuote c = true ∨ ∃ q qs, Lexeme.rawQuote? c cs = some (q, qs) := by
  obtain ⟨q, body, hq, -, rfl | rfl⟩ := h
  · left
    rw [← (List.cons_prefix_cons.1 hp).1]; exact hq
  · right
    obtain ⟨rfl, hp'⟩ := List.cons_prefix_cons.1 hp
    obtain ⟨t, rfl⟩ := hp'
    exact ⟨q, body ++ [q] ++ t, by simp [Lexeme.rawQuote?, hq]⟩

/-! ## Longest matches, class by class -/

theorem length_le_takeWhile {p cs : List Char} {f : Char → Bool} (hp : p <+: cs)
    (hf : ∀ x ∈ p, f x = true) : p.length ≤ (cs.takeWhile f).length := by
  obtain ⟨t, rfl⟩ := hp
  rw [List.takeWhile_append_of_pos hf, List.length_append]; omega

theorem takeWhile_append_point {whole rest : List Char} (h : ∀ x ∈ whole, x.isDigit = true) :
    (whole ++ '.' :: rest).takeWhile Char.isDigit = whole := by
  rw [List.takeWhile_append_of_pos h, List.takeWhile_cons_of_neg (by decide), List.append_nil]

namespace Lexeme

theorem numeral_append_point {whole ds : List Char} {d : Char}
    (h : ∀ x ∈ whole, x.isDigit = true) (hd : d.isDigit = true) :
    numeral (whole ++ '.' :: d :: ds) = whole ++ '.' :: (d :: ds).takeWhile Char.isDigit := by
  unfold numeral
  simp only [takeWhile_append_point h, List.drop_left, hd, if_true]

theorem length_takeWhile_le_numeral (cs : List Char) :
    (cs.takeWhile Char.isDigit).length ≤ (numeral cs).length := by
  unfold numeral
  simp only
  split
  · split
    · simp
    · exact Nat.le_refl _
  · exact Nat.le_refl _

theorem length_le_numeral {p cs : List Char} (h : IsNumeral p) (hp : p <+: cs) :
    p.length ≤ (numeral cs).length := by
  obtain ⟨whole, hwhole, ⟨-, rfl⟩ | ⟨fraction, hne, hfraction, rfl⟩⟩ := h
  · exact Nat.le_trans (length_le_takeWhile hp hwhole) (length_takeWhile_le_numeral cs)
  · cases fraction with
    | nil => exact absurd rfl hne
    | cons d ds =>
      obtain ⟨t, rfl⟩ := hp
      have hlen : (d :: ds).length ≤ ((d :: (ds ++ t)).takeWhile Char.isDigit).length :=
        length_le_takeWhile ⟨t, rfl⟩ hfraction
      rw [List.append_assoc, List.cons_append, List.cons_append,
        numeral_append_point hwhole (hfraction d (by simp))]
      simp only [List.length_append, List.length_cons] at hlen ⊢
      omega

theorem isNumeral_numeral {c : Char} {cs : List Char}
    (h : (c.isDigit || (c = '.' && digitFollows cs)) = true) : IsNumeral (numeral (c :: cs)) := by
  have hne := numeral_ne_nil h
  have hwhole : ∀ x ∈ (c :: cs).takeWhile Char.isDigit, x.isDigit = true :=
    fun x hx => List.mem_takeWhile_imp hx
  unfold numeral at hne ⊢
  simp only at hne ⊢
  refine ⟨(c :: cs).takeWhile Char.isDigit, hwhole, ?_⟩
  split
  · next d ds hd =>
    split
    · next hdig =>
      refine Or.inr ⟨(d :: ds).takeWhile Char.isDigit, ?_, ?_, rfl⟩
      · simp [hdig]
      · exact fun x hx => List.mem_takeWhile_imp hx
    · next hdig => simp only [hd, hdig] at hne; exact Or.inl ⟨hne, rfl⟩
  · next hno =>
    left
    refine ⟨?_, rfl⟩
    intro hnil
    -- Without digits in front the text starts with a point and a digit, the case before.
    rw [hnil] at hno
    cases hc : c.isDigit with
    | true => simp [hc] at hnil
    | false =>
      simp only [hc, Bool.false_or, Bool.and_eq_true, decide_eq_true_eq] at h
      obtain ⟨rfl, hcs⟩ := h
      cases cs with
      | nil => simp [digitFollows] at hcs
      | cons d ds => exact hno d ds rfl

/-! ### Strings -/

theorem body_of_isBody {q : Char} {b : List Char} (hq : isQuote q = true) (h : IsBody q b)
    (rest : List Char) : body q (b ++ q :: rest) = b := by
  obtain ⟨hb, -⟩ := isQuote_spec hq
  induction h with
  | nil => rw [List.nil_append, body.eq_def]; split <;> simp_all
  | char hcq hcb hcn _ ih =>
    rw [List.cons_append, body.eq_def]
    split <;> simp_all
  | pair hcn _ ih => simp [body, hcn, ih]

theorem isBody_body {q : Char} {cs : List Char} (hq : isQuote q = true)
    (h : (cs.drop (body q cs).length).head? = some q) : IsBody q (body q cs) := by
  obtain ⟨-, hn, -⟩ := isQuote_spec hq
  fun_induction body q cs with
  | case1 => exact .nil
  | case2 => simp at h
  | case3 cs => simp at h; exact absurd h.symm hn
  | case4 c cs hc ih => exact .pair hc (ih (by simpa using h))
  | case5 => exact .nil
  | case6 c cs h1 h2 hc ih =>
    simp only [Bool.or_eq_true, decide_eq_true_eq, not_or] at hc
    refine .char hc.1 ?_ hc.2 (ih (by simpa using h))
    rintro rfl
    cases cs with
    | nil => exact h1 rfl rfl
    | cons d ds => exact h2 d ds rfl rfl

theorem string_ok {raw : Bool} {opening : List Char} {q : Char} {cs : List Char}
    {content : Token.Content} (hq : isQuote q = true)
    (h : (string raw opening q cs).content = .ok content) :
    IsBody q (body q cs) ∧ (string raw opening q cs).text = opening ++ body q cs ++ [q] ∧
      content = .string (String.ofList (if raw then body q cs else unescape (body q cs))) := by
  unfold string at h ⊢
  simp only at h ⊢
  split at h
  · next hend =>
    cases h
    rw [if_pos hend]
    exact ⟨isBody_body hq hend, rfl, rfl⟩
  · cases h

/-- A string fails for want of an end only. -/
theorem string_error {raw : Bool} {opening : List Char} {q : Char} {cs : List Char}
    {cause : LexError.Cause} (h : (string raw opening q cs).content = .error cause) :
    cause = .unterminatedString := by
  unfold string at h
  simp only at h
  split at h
  · cases h
  · cases h; rfl

theorem string_of_isBody (raw : Bool) (opening : List Char) {q : Char} {b : List Char}
    (hq : isQuote q = true) (hb : IsBody q b) (rest : List Char) :
    string raw opening q (b ++ q :: rest) =
      ⟨opening ++ b ++ [q], .ok (.string (String.ofList (if raw then b else unescape b)))⟩ := by
  simp [string, body_of_isBody hq hb]

/-- All strings that a text starts with after its opening are as long as the one that is read. -/
theorem length_eq_string {raw : Bool} {opening : List Char} {q : Char} {b cs : List Char}
    (hq : isQuote q = true) (hb : IsBody q b) (hp : b ++ [q] <+: cs) :
    (string raw opening q cs).text.length = (opening ++ b ++ [q]).length := by
  obtain ⟨t, rfl⟩ := hp
  rw [List.append_assoc, List.singleton_append, string_of_isBody raw opening hq hb]

/-! ## Reading -/

theorem isNumeral_of_isNumeral {text : List Char} (h : IsNumeral text) :
    Decimal.isNumeral text = true := by
  have hcount : ∀ ds : List Char, (∀ x ∈ ds, x.isDigit = true) → ds.count '.' = 0 := by
    intro ds hds
    refine List.count_eq_zero.2 fun hmem => ?_
    exact absurd (hds '.' hmem) (by decide)
  obtain ⟨whole, hwhole, ⟨hne, rfl⟩ | ⟨fraction, hne, hfraction, rfl⟩⟩ := h
  · obtain ⟨d, hd⟩ := List.exists_mem_of_ne_nil _ hne
    simp only [Decimal.isNumeral, Bool.and_eq_true, List.all_eq_true, List.any_eq_true,
      decide_eq_true_eq, Bool.or_eq_true]
    exact ⟨⟨fun x hx => Or.inl (hwhole x hx), by rw [hcount _ hwhole]; omega⟩, d, hd, hwhole d hd⟩
  · obtain ⟨d, hd⟩ := List.exists_mem_of_ne_nil _ hne
    simp only [Decimal.isNumeral, Bool.and_eq_true, List.all_eq_true, List.any_eq_true,
      decide_eq_true_eq, Bool.or_eq_true, List.mem_append, List.mem_cons]
    refine ⟨⟨?_, ?_⟩, d, Or.inr (Or.inr hd), hfraction d hd⟩
    · rintro x (hx | rfl | hx)
      · exact Or.inl (hwhole x hx)
      · exact Or.inr rfl
      · exact Or.inl (hfraction x hx)
    · rw [List.count_append, List.count_cons_self, hcount _ hwhole, hcount _ hfraction]

/-- The fallback of a number that cannot be read is never taken. -/
theorem number_ok {text : List Char} (h : IsNumeral text) :
    Decimal.parse? text = some ((Decimal.parse? text).getD 0) := by
  simp [Decimal.parse?, isNumeral_of_isNumeral h]

theorem isWord_takeWhile {c : Char} (cs : List Char) (h : isWordStart c = true) :
    IsWord ((c :: cs).takeWhile isWordChar) := by
  rw [List.takeWhile_cons_of_pos (isWordChar_of_isWordStart h)]
  exact ⟨c, _, rfl, h, fun x hx => List.mem_takeWhile_imp hx⟩

theorem spells_ofWord {text : List Char} (h : IsWord text) : Spells text (.ofWord text) := by
  unfold Token.Content.ofWord
  split
  · next k hk =>
    rw [← Keyword.ofWord?_eq_some_iff.1 hk]; exact .keyword k
  · next hk =>
    refine .identifier h fun k hkw => ?_
    rw [Keyword.ofWord?_eq_some_iff.2 hkw] at hk; cases hk

/-- **Classification.** What is read is a lexeme and the content it spells. -/
theorem read_spells {c : Char} {cs : List Char} {content : Token.Content}
    (h : (read c cs).content = .ok content) : Spells (read c cs).text content := by
  unfold read at h ⊢
  split at h
  · next hn =>
    rw [if_pos hn]
    cases h
    have hnum := isNumeral_numeral hn
    exact .number hnum (number_ok hnum)
  · next hn =>
    rw [if_neg hn]
    split at h
    · next hq =>
      rw [if_pos hq]
      obtain ⟨hb, htext, rfl⟩ := string_ok hq h
      rw [htext]; exact .string hq hb
    · next hq =>
      rw [if_neg hq]
      split at h
      · next q qs hraw =>
        obtain ⟨rfl, hq', rfl⟩ := rawQuote?_eq_some hraw
        obtain ⟨hb, htext, rfl⟩ := string_ok hq' h
        rw [htext]; exact .rawString hq' hb
      · split at h
        · next hw =>
          rw [if_pos hw]
          cases h
          exact spells_ofWord (isWord_takeWhile cs hw)
        · next hw =>
          rw [if_neg hw]
          unfold symbol at h ⊢
          split at h
          · next s hs => cases h; exact .symbol s
          · cases h

/-- What cannot be read is a character that starts nothing or a string without an end. -/
theorem read_error {c : Char} {cs : List Char} {cause : LexError.Cause}
    (h : (read c cs).content = .error cause) :
    cause = .unknownSymbol c ∨ cause = .unterminatedString := by
  unfold read at h
  split at h
  · cases h
  split at h
  · exact Or.inr (string_error h)
  split at h
  · exact Or.inr (string_error h)
  split at h
  · cases h
  unfold symbol at h
  split at h
  · cases h
  · cases h; exact Or.inl rfl

/-! ## Maximal munch

One lemma for each class that can be read: no lexeme, of whatever class, is longer. -/

section

variable {p cs : List Char} {c : Char}

theorem length_le_number (hn : (c.isDigit || (c = '.' && digitFollows cs)) = true)
    (hp : p <+: c :: cs) (hl : IsLexeme p) : p.length ≤ (numeral (c :: cs)).length := by
  have hc : c.isDigit = true ∨ c = '.' ∧ digitFollows cs = true := by simpa using hn
  rcases hl with ⟨s, rfl⟩ | hw | hnum | hs
  · obtain ⟨hdigit, -⟩ := Symbol.not_prefix_of_head hp
    rcases hc with hc | ⟨rfl, hcs⟩
    · rw [hdigit] at hc; cases hc
    · have hpos := List.length_pos_iff.2 (numeral_ne_nil hn)
      obtain ⟨-, hdigits⟩ := s.letters_spec
      -- The character after the point is a digit, which no symbol has.
      cases hletters : s.letters with
      | nil => simp
      | cons a as =>
        cases as with
        | nil => exact hpos
        | cons b bs =>
          rw [hletters] at hp hdigits
          obtain ⟨t, rfl⟩ := (List.cons_prefix_cons.1 hp).2
          simp [digitFollows, hdigits b (by simp)] at hcs
  · have hstart := hw.head_of_prefix hp
    rcases hc with hc | ⟨rfl, -⟩
    · rw [isWordStart_of_isDigit hc] at hstart; cases hstart
    · exact absurd hstart (by decide)
  · exact length_le_numeral hnum hp
  · exfalso
    rcases hs.head_of_prefix hp with hq | ⟨q, qs, hraw⟩
    · obtain ⟨-, -, hpoint, -, hdigit, -⟩ := isQuote_spec hq
      rcases hc with hc | ⟨rfl, -⟩
      · rw [hdigit] at hc; cases hc
      · exact hpoint rfl
    · obtain ⟨rfl, -⟩ := rawQuote?_eq_some hraw
      simp at hn

theorem length_le_quoted (hn : ¬ (c.isDigit || (c = '.' && digitFollows cs)) = true)
    (hq : isQuote c = true) (hp : p <+: c :: cs) (hl : IsLexeme p) :
    p.length ≤ (string false [c] c cs).text.length := by
  obtain ⟨-, -, -, hr, -, hstart, -⟩ := isQuote_spec hq
  rcases hl with ⟨s, rfl⟩ | hw | hnum | ⟨q, b, hq', hb, rfl | rfl⟩
  · rw [(Symbol.not_prefix_of_head hp).2.2] at hq; cases hq
  · rw [hw.head_of_prefix hp] at hstart; cases hstart
  · exact absurd (hnum.head_of_prefix hp) hn
  · obtain ⟨rfl, hp'⟩ := List.cons_prefix_cons.1 hp
    rw [length_eq_string hq hb hp']; simp
  · exact absurd (List.cons_prefix_cons.1 hp).1.symm hr

theorem length_le_raw {q : Char} {qs : List Char}
    (hn : ¬ (c.isDigit || (c = '.' && digitFollows cs)) = true)
    (hraw : rawQuote? c cs = some (q, qs)) (hp : p <+: c :: cs) (hl : IsLexeme p) :
    p.length ≤ (string true [c, q] q qs).text.length := by
  obtain ⟨rfl, hq, rfl⟩ := rawQuote?_eq_some hraw
  obtain ⟨-, -, -, hr, -, -, hword⟩ := isQuote_spec hq
  rcases hl with ⟨s, rfl⟩ | ⟨d, ds, rfl, -, hds⟩ | hnum | ⟨q', b, hq', hb, rfl | rfl⟩
  · exact absurd (Symbol.not_prefix_of_head hp).2.1 (by decide)
  · obtain ⟨rfl, hp'⟩ := List.cons_prefix_cons.1 hp
    cases ds with
    | nil => exact List.length_pos_iff.2 (string_text_ne_nil (by simp) q qs)
    | cons x xs =>
      obtain ⟨rfl, -⟩ := List.cons_prefix_cons.1 hp'
      rw [hds x (by simp)] at hword; cases hword
  · exact absurd (hnum.head_of_prefix hp) hn
  · obtain ⟨rfl, -⟩ := List.cons_prefix_cons.1 hp
    exact absurd hq' (by decide)
  · obtain ⟨-, hp'⟩ := List.cons_prefix_cons.1 hp
    obtain ⟨rfl, hp''⟩ := List.cons_prefix_cons.1 hp'
    rw [length_eq_string hq hb hp'']; simp

theorem length_le_word (hn : ¬ (c.isDigit || (c = '.' && digitFollows cs)) = true)
    (hq : ¬ isQuote c = true) (hraw : rawQuote? c cs = none) (hw : isWordStart c = true)
    (hp : p <+: c :: cs) (hl : IsLexeme p) :
    p.length ≤ ((c :: cs).takeWhile isWordChar).length := by
  rcases hl with ⟨s, rfl⟩ | ⟨d, ds, rfl, hd, hds⟩ | hnum | hs
  · rw [(Symbol.not_prefix_of_head hp).2.1] at hw; cases hw
  · refine length_le_takeWhile hp fun x hx => ?_
    rcases List.mem_cons.1 hx with rfl | hx
    · exact isWordChar_of_isWordStart hd
    · exact hds x hx
  · exact absurd (hnum.head_of_prefix hp) hn
  · rcases hs.head_of_prefix hp with h | ⟨q, qs, h⟩
    · exact absurd h hq
    · rw [hraw] at h; cases h

theorem length_le_symbol {s : Symbol} (hn : ¬ (c.isDigit || (c = '.' && digitFollows cs)) = true)
    (hq : ¬ isQuote c = true) (hraw : rawQuote? c cs = none) (hw : ¬ isWordStart c = true)
    (hs : Symbol.longest? (c :: cs) = some s) (hp : p <+: c :: cs) (hl : IsLexeme p) :
    p.length ≤ s.letters.length := by
  rcases hl with ⟨s', rfl⟩ | hword | hnum | hstr
  · exact Symbol.length_le_of_longest? hs hp
  · exact absurd (hword.head_of_prefix hp) hw
  · exact absurd (hnum.head_of_prefix hp) hn
  · rcases hstr.head_of_prefix hp with h | ⟨q, qs, h⟩
    · exact absurd h hq
    · rw [hraw] at h; cases h

/-- **Maximal munch.** No longer prefix of the text is a lexeme. -/
theorem length_le_of_isLexeme {content : Token.Content} (h : (read c cs).content = .ok content)
    (hp : p <+: c :: cs) (hl : IsLexeme p) : p.length ≤ (read c cs).text.length := by
  unfold read at h ⊢
  split at h
  · next hn => rw [if_pos hn]; exact length_le_number hn hp hl
  · next hn =>
    rw [if_neg hn]
    split at h
    · next hq => rw [if_pos hq]; exact length_le_quoted hn hq hp hl
    · next hq =>
      rw [if_neg hq]
      split at h
      · next q qs hraw => exact length_le_raw hn hraw hp hl
      · next hraw =>
        split at h
        · next hw => rw [if_pos hw]; exact length_le_word hn hq hraw hw hp hl
        · next hw =>
          rw [if_neg hw]
          unfold symbol at h ⊢
          split at h
          · next s hs => exact length_le_symbol hn hq hraw hw hs hp hl
          · cases h

end

end Lexeme

/-! ## A lexeme alone -/

theorem IsWord.not_number {c : Char} {cs : List Char} (hw : isWordStart c = true) :
    ¬ (c.isDigit || (c = '.' && Lexeme.digitFollows cs)) = true := by
  intro h
  have hc : c.isDigit = true ∨ c = '.' ∧ Lexeme.digitFollows cs = true := by simpa using h
  rcases hc with hc | ⟨rfl, -⟩
  · rw [isWordStart_of_isDigit hc] at hw; cases hw
  · exact absurd hw (by decide)

theorem Lexeme.read_word {c : Char} {cs : List Char} (hw : isWordStart c = true)
    (hcs : ∀ x ∈ cs, isWordChar x = true) :
    Lexeme.read c cs = ⟨c :: cs, .ok (.ofWord (c :: cs))⟩ := by
  have hq : ¬ isQuote c = true := by
    intro hq
    rw [(isQuote_spec hq).2.2.2.2.2.1] at hw; cases hw
  have hraw : Lexeme.rawQuote? c cs = none := by
    cases h : Lexeme.rawQuote? c cs with
    | none => rfl
    | some x =>
      obtain ⟨-, hq', rfl⟩ := Lexeme.rawQuote?_eq_some h
      have hword := hcs x.1 (by simp)
      rw [(isQuote_spec hq').2.2.2.2.2.2] at hword; cases hword
  have hall : (c :: cs).takeWhile isWordChar = c :: cs := by
    rw [List.takeWhile_eq_self_iff]
    intro x hx
    rcases List.mem_cons.1 hx with rfl | hx
    · exact isWordChar_of_isWordStart hw
    · exact hcs x hx
  unfold Lexeme.read
  rw [if_neg (IsWord.not_number hw), if_neg hq, hraw]
  simp only [hw, if_true, Lexeme.word, hall]

theorem Spells.read {c : Char} {cs : List Char} {content : Token.Content}
    (h : Spells (c :: cs) content) : (Lexeme.read c cs).content = .ok content := by
  generalize htext : c :: cs = text at h
  cases h with
  | symbol s => cases s <;> cases htext <;> decide
  | keyword k => cases k <;> cases htext <;> decide
  | identifier hw hk =>
    obtain ⟨d, ds, rfl, hd, hds⟩ := hw
    cases htext
    have hnone : Keyword.ofWord? (c :: cs) = none := by
      cases hkw : Keyword.ofWord? (c :: cs) with
      | none => rfl
      | some k => exact absurd (Keyword.ofWord?_eq_some_iff.1 hkw) (hk k)
    rw [Lexeme.read_word hd hds, Token.Content.ofWord, hnone]
  | number hnum hx =>
    subst htext
    have hn := hnum.head_of_prefix List.prefix_rfl
    have hall : Lexeme.numeral (c :: cs) = c :: cs :=
      (Lexeme.numeral_isPrefix _).eq_of_length_le (Lexeme.length_le_numeral hnum List.prefix_rfl)
    unfold Lexeme.read
    simp only [hn, if_true, Lexeme.number, hall, hx, Option.getD_some]
  | @string q b hq hb =>
    cases htext
    obtain ⟨-, -, hpoint, -, hdigit, -⟩ := isQuote_spec hq
    unfold Lexeme.read
    simp only [hdigit, hpoint, hq, decide_false, Bool.false_and, Bool.or_false,
      Bool.false_eq_true, if_false, if_true, Lexeme.string_of_isBody false _ hq hb]
  | @rawString q b hq hb =>
    cases htext
    have hraw : Lexeme.rawQuote? 'r' (q :: (b ++ [q])) = some (q, b ++ [q]) := by
      simp [Lexeme.rawQuote?, hq]
    unfold Lexeme.read
    rw [hraw, if_neg (by simp), if_neg (by decide)]
    simp only [Lexeme.string_of_isBody true _ hq hb, if_true]

theorem Spells.ne_nil {text : List Char} {content : Token.Content} (h : Spells text content) :
    text ≠ [] := by
  cases h with
  | symbol s => exact s.letters_ne_nil
  | keyword k => cases k <;> decide
  | identifier hw _ => obtain ⟨c, cs, rfl, -⟩ := hw; simp
  | number hnum _ =>
    obtain ⟨whole, -, ⟨hne, rfl⟩ | ⟨fraction, -, -, rfl⟩⟩ := hnum
    · exact hne
    · simp
  | string | rawString => simp

theorem Spells.unique {text : List Char} {a b : Token.Content} (ha : Spells text a)
    (hb : Spells text b) : a = b := by
  cases text with
  | nil => exact absurd rfl ha.ne_nil
  | cons c cs =>
    have hread := ha.read.symm.trans hb.read
    exact Except.ok.inj hread

theorem Spells.isVisible {text : List Char} {content : Token.Content} (h : Spells text content) :
    content.isVisible = true := by
  cases h <;> rfl

theorem Spells.ne_endOfInput {text : List Char} {content : Token.Content}
    (h : Spells text content) : content ≠ .endOfInput := by
  cases h <;> simp

/-- A numeral stands for the double nearest to its value. -/
theorem Spells.number_nearest {text : List Char} {x : Float} (h : Spells text (.number x)) :
    ∃ bits, x = Float.ofBits (UInt64.ofNat bits) ∧
      Decimal.IsNearest bits (Decimal.numeralValue text) := by
  generalize hcontent : Token.Content.number x = content at h
  cases h with
  | number _ hx => cases hcontent; exact Decimal.parse?_nearest hx
  | _ => cases hcontent

theorem isLexeme_iff {text : List Char} : IsLexeme text ↔ ∃ content, Spells text content := by
  constructor
  · rintro (⟨s, rfl⟩ | hw | hn | ⟨q, b, hq, hb, rfl | rfl⟩)
    · exact ⟨_, .symbol s⟩
    · exact ⟨_, Lexeme.spells_ofWord hw⟩
    · exact ⟨_, .number hn (Lexeme.number_ok hn)⟩
    · exact ⟨_, .string hq hb⟩
    · exact ⟨_, .rawString hq hb⟩
  · rintro ⟨content, h⟩
    cases h with
    | symbol s => exact Or.inl ⟨s, rfl⟩
    | keyword k => exact Or.inr (Or.inl k.isWord_letters)
    | identifier hw _ => exact Or.inr (Or.inl hw)
    | number hn _ => exact Or.inr (Or.inr (Or.inl hn))
    | string hq hb => exact Or.inr (Or.inr (Or.inr ⟨_, _, hq, hb, Or.inl rfl⟩))
    | rawString hq hb => exact Or.inr (Or.inr (Or.inr ⟨_, _, hq, hb, Or.inr rfl⟩))

/-! ## Visible tokens of a run -/

namespace Lexer

/-- A call that returns a visible token has read it where the skipped gap ends. -/
theorem Run.visible {source : Source} {config : Config} {visited : List Lexer} {l : Lexer}
    {t : Token} (h : Run (start source config) visited l) (ht : l.nextToken.result = .ok t)
    (hv : t.content.isVisible = true) :
    ∃ c cs, l.settled.cursor.rest = c :: cs ∧ (Lexeme.read c cs).content = .ok t.content ∧
      t.origin = source.origin l.settled.cursor.offset ∧
      l.nextToken.lexer.cursor = l.settled.cursor.advance (Lexeme.read c cs).text := by
  have hphase : l.phase = .scanning := by
    unfold nextToken at ht
    split at ht
    · cases ht
    · cases ht; cases hv
    · next hp => exact hp
  obtain ⟨s, hmove, hresult, hlexer⟩ := exists_move hphase
  rw [hresult] at ht
  cases hmove with
  | dequeue hq =>
    cases ht
    rcases h.pending_layout t (by rw [hq]; simp) with hc | hc <;> rw [hc] at hv <;> cases hv
  | token _ _ hr _ hok =>
    cases ht
    exact ⟨_, _, hr, hok, by rw [show l.source = source from h.source], by rw [hlexer]⟩
  | indent | dedent | newline | unwind | finish => cases ht; cases hv
  | badIndent | fail => cases ht

/-- **Maximal munch.** The text of a visible token, from its origin to where the lexer stands after
the call, is the longest prefix of the text from there on that is a lexeme, and the token is what
this lexeme spells: for a numeral, the double nearest to its value. -/
theorem maximal_munch {source : Source} {config : Config} {visited : List Lexer} {l : Lexer}
    {s : Step} {t : Token} (h : Run (start source config) visited l) (hs : l.nextToken? = some s)
    (ht : s.result = .ok t) (hv : t.content.isVisible = true) :
    ∃ before lexeme rest, source.chars = before ++ lexeme ++ rest ∧
      t.origin = ⟨source, byteLength before⟩ ∧
      s.lexer.cursor = ⟨rest, byteLength (before ++ lexeme)⟩ ∧
      IsLexeme lexeme ∧
      (∀ p, p <+: lexeme ++ rest → IsLexeme p → p.length ≤ lexeme.length) ∧
      (∀ content, Spells lexeme content ↔ t.content = content) ∧
      ∀ x, t.content = .number x → ∃ bits, x = Float.ofBits (UInt64.ofNat bits) ∧
        Decimal.IsNearest bits (Decimal.numeralValue lexeme) := by
  obtain ⟨-, rfl⟩ := nextToken?_eq_some.1 hs
  obtain ⟨before, hat⟩ := h.exists_cursorAt
  obtain ⟨c, cs, hr, hok, horigin, hcursor⟩ := h.visible ht hv
  have hset := settled_cursorAt hat
  have hspells := Lexeme.read_spells hok
  obtain ⟨rest, hrest⟩ := Lexeme.read_isPrefix c cs
  have hadv := hset.advance (hr.trans hrest.symm)
  have hcur : l.nextToken.lexer.cursor.rest = rest := by
    rw [hcursor]; exact Cursor.rest_advance (hr.trans hrest.symm)
  refine ⟨before ++ l.skipped, (Lexeme.read c cs).text, rest, ?_, ?_, ?_, ?_, ?_, ?_, ?_⟩
  · rw [← hcur, hcursor]; exact hadv.text
  · rw [horigin]; exact hset.origin
  · rw [← hcur, hcursor, ← hadv.offset]
  · exact isLexeme_iff.2 ⟨_, hspells⟩
  · rw [hrest]
    exact fun p hp hl => Lexeme.length_le_of_isLexeme hok hp hl
  · intro content
    exact ⟨fun hc => hspells.unique hc, fun hc => hc ▸ hspells⟩
  · intro x hx
    rw [hx] at hspells
    exact hspells.number_nearest

/-- A raw string with a quote that a backslash shields, and a symbol right after it. -/
def rawSample : Source := ⟨"sample", "r'a\\'b'=="⟩

/-- A numeral with a second point after it. -/
def numeralSample : Source := ⟨"sample", "2.50.1"⟩

theorem maximal_munch_samples :
    (∃ s, (start rawSample {}).nextToken? = some s ∧
      s.result = .ok ⟨.string "a\\'b", ⟨rawSample, 0⟩⟩ ∧
      ∃ before lexeme rest, rawSample.chars = before ++ lexeme ++ rest ∧
        (⟨rawSample, 0⟩ : Origin) = ⟨rawSample, byteLength before⟩ ∧
        s.lexer.cursor = ⟨rest, byteLength (before ++ lexeme)⟩ ∧
        IsLexeme lexeme ∧
        (∀ p, p <+: lexeme ++ rest → IsLexeme p → p.length ≤ lexeme.length) ∧
        ∀ content, Spells lexeme content ↔ .string "a\\'b" = content) ∧
    ∃ s, (start numeralSample {}).nextToken? = some s ∧
      s.result = .ok ⟨.number (Decimal.nearest 250 100), ⟨numeralSample, 0⟩⟩ ∧
      ∃ before lexeme rest, numeralSample.chars = before ++ lexeme ++ rest ∧
        s.lexer.cursor = ⟨rest, byteLength (before ++ lexeme)⟩ ∧
        (∀ p, p <+: lexeme ++ rest → IsLexeme p → p.length ≤ lexeme.length) ∧
        ∃ bits, Decimal.nearest 250 100 = Float.ofBits (UInt64.ofNat bits) ∧
          Decimal.IsNearest bits (Decimal.numeralValue lexeme) := by
  have hstep : ∀ source, (start source {}).overflows = false →
      (start source {}).nextToken? = some (start source {}).nextToken :=
    fun source h => nextToken?_eq_some.2 ⟨h, rfl⟩
  have hraw := hstep rawSample (by decide)
  have hnumeral := hstep numeralSample (by decide)
  have hstring : (start rawSample {}).nextToken.result =
      .ok ⟨.string "a\\'b", ⟨rawSample, 0⟩⟩ := by decide
  have hnumber : (start numeralSample {}).nextToken.result =
      .ok ⟨.number (Decimal.nearest 250 100), ⟨numeralSample, 0⟩⟩ := rfl
  obtain ⟨before, lexeme, rest, htext, horigin, hcursor, hlexeme, hlongest, hspells, -⟩ :=
    maximal_munch .nil hraw hstring rfl
  obtain ⟨before', lexeme', rest', htext', -, hcursor', -, hlongest', -, hnearest⟩ :=
    maximal_munch .nil hnumeral hnumber rfl
  exact ⟨⟨_, hraw, hstring, before, lexeme, rest, htext, horigin, hcursor, hlexeme, hlongest,
      hspells⟩,
    _, hnumeral, hnumber, before', lexeme', rest', htext', hcursor', hlongest', hnearest _ rfl⟩

end Lexer

end Offside
