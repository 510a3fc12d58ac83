import Offside.Lexer.Error
import Offside.Text.Classes
import Offside.Token.Basic

/-!
# Lexemes

The text of a visible token, read off the front of a text that starts with none of a blank, a line
feed or the end. The first character, together with the second for `.` and `r`, decides the class;
the class then takes as much as it can.

Results:
* `Lexeme.read_isPrefix`: a lexeme is taken from the front of the text.
* `Lexeme.read_ne_nil`: reading a token takes at least one character.
-/

namespace Offside

open Text

/-- Can `c` start a word? -/
def isWordStart (c : Char) : Bool := isAlphabetic c || c = '_'

/-- Can `c` continue a word? -/
def isWordChar (c : Char) : Bool := isAlphabetic c || isNumeric c || c = '_'

/-- Does `c` open a string? -/
def isQuote (c : Char) : Bool := c = '"' || c = '\''

/-- A text taken from the front of a source and what it was found to be. -/
structure Lexeme where
  text : List Char
  content : Except LexError.Cause Token.Content

namespace Lexeme

/-! ## Numbers -/

/-- The numeral at the front of a text: digits, then a point only if a digit follows it. -/
def numeral (cs : List Char) : List Char :=
  let whole := cs.takeWhile Char.isDigit
  match cs.drop whole.length with
  | '.' :: d :: ds => if d.isDigit then whole ++ '.' :: (d :: ds).takeWhile Char.isDigit else whole
  | _ => whole

def number (cs : List Char) : Lexeme :=
  let text := numeral cs
  ⟨text, .ok (.number ((Decimal.parse? text).getD 0))⟩

/-! ## Words -/

def word (cs : List Char) : Lexeme :=
  let text := cs.takeWhile isWordChar
  ⟨text, .ok (.ofWord text)⟩

/-! ## Strings -/

/-- The body of a string: up to the quote `q`, a line feed or the end, a backslash shielding the
character after it. A backslash before a line feed or the end is still taken. -/
def body (q : Char) : List Char → List Char
  | [] => []
  | ['\\'] => ['\\']
  | '\\' :: c :: cs => if c = '\n' then ['\\'] else '\\' :: c :: body q cs
  | c :: cs => if c = q || c = '\n' then [] else c :: body q cs

/-- A string whose opening, with the quote `q`, stands before `cs`. In a raw string every backslash
stands for itself. -/
def string (raw : Bool) (opening : List Char) (q : Char) (cs : List Char) : Lexeme :=
  let text := body q cs
  if (cs.drop text.length).head? = some q then
    ⟨opening ++ text ++ [q], .ok (.string (String.ofList (if raw then text else unescape text)))⟩
  else ⟨opening ++ text, .error .unterminatedString⟩

/-! ## Symbols -/

/-- The longest symbol at the front of a text that starts with `c`. -/
def symbol (c : Char) (cs : List Char) : Lexeme :=
  match Symbol.longest? (c :: cs) with
  | some s => ⟨s.letters, .ok (.symbol s)⟩
  | none => ⟨[], .error (.unknownSymbol c)⟩

/-! ## All classes -/

/-- Does `cs` start with a digit? -/
def digitFollows (cs : List Char) : Bool := cs.head?.any Char.isDigit

/-- The quote of a raw string that `c :: cs` starts, and what follows it. -/
def rawQuote? (c : Char) (cs : List Char) : Option (Char × List Char) :=
  match cs with
  | q :: qs => if c = 'r' && isQuote q then some (q, qs) else none
  | [] => none

/-- The lexeme at the front of `c :: cs`. -/
def read (c : Char) (cs : List Char) : Lexeme :=
  if c.isDigit || (c = '.' && digitFollows cs) then number (c :: cs)
  else if isQuote c then string false [c] c cs
  else
    match rawQuote? c cs with
    | some (q, qs) => string true [c, q] q qs
    | none => if isWordStart c then word (c :: cs) else symbol c cs

/-! ## What a lexeme takes -/

theorem numeral_isPrefix (cs : List Char) : numeral cs <+: cs := by
  obtain ⟨t, ht⟩ := List.takeWhile_prefix (l := cs) Char.isDigit
  unfold numeral
  generalize hw : cs.takeWhile Char.isDigit = whole at ht
  subst ht
  simp only [List.drop_left]
  split
  · split
    · refine (List.prefix_append_right_inj _).2 ((List.prefix_cons_inj _).2 ?_)
      exact List.takeWhile_prefix _
    · exact List.prefix_append _ _
  · exact List.prefix_append _ _

theorem numeral_ne_nil {c : Char} {cs : List Char}
    (h : (c.isDigit || (c = '.' && digitFollows cs)) = true) : numeral (c :: cs) ≠ [] := by
  unfold numeral
  by_cases hd : c.isDigit = true
  · simp only [List.takeWhile_cons, hd, if_true]
    split <;> (try split) <;> simp
  · simp only [hd, Bool.false_or, Bool.and_eq_true, decide_eq_true_eq] at h
    obtain ⟨rfl, h⟩ := h
    cases cs with
    | nil => simp [digitFollows] at h
    | cons d ds => simp [digitFollows] at h; simp [h]

theorem body_isPrefix (q : Char) (cs : List Char) : body q cs <+: cs := by
  fun_induction body q cs with
  | case1 => exact List.nil_prefix
  | case2 => exact List.prefix_rfl
  | case3 cs => exact (List.prefix_cons_inj _).2 List.nil_prefix
  | case4 c cs _ ih => exact (List.prefix_cons_inj _).2 ((List.prefix_cons_inj _).2 ih)
  | case5 => exact List.nil_prefix
  | case6 c cs _ _ _ ih => exact (List.prefix_cons_inj _).2 ih

theorem string_isPrefix (raw : Bool) (opening : List Char) (q : Char) (cs : List Char) :
    (string raw opening q cs).text <+: opening ++ cs := by
  obtain ⟨t, ht⟩ := body_isPrefix q cs
  unfold string
  generalize body q cs = text at *
  subst ht
  simp only [List.drop_left]
  split
  · next h =>
    cases t with
    | nil => simp at h
    | cons c t =>
      simp only [List.head?_cons, Option.some.injEq] at h
      subst h
      exact ⟨t, by simp⟩
  · exact ⟨t, by simp⟩

theorem string_text_ne_nil {raw : Bool} {opening : List Char} (h : opening ≠ []) (q : Char)
    (cs : List Char) : (string raw opening q cs).text ≠ [] := by
  unfold string; simp only; split <;> simp [h]

theorem rawQuote?_eq_some {c q : Char} {cs qs : List Char} (h : rawQuote? c cs = some (q, qs)) :
    c = 'r' ∧ isQuote q = true ∧ cs = q :: qs := by
  unfold rawQuote? at h
  split at h
  · split at h
    · next hc => simp at hc h; obtain ⟨rfl, rfl⟩ := h; exact ⟨hc.1, hc.2, rfl⟩
    · cases h
  · cases h

theorem read_isPrefix (c : Char) (cs : List Char) : (read c cs).text <+: c :: cs := by
  unfold read
  split
  · exact numeral_isPrefix _
  · split
    · exact string_isPrefix false [c] c cs
    · split
      · next q qs h =>
        obtain ⟨-, -, rfl⟩ := rawQuote?_eq_some h
        exact string_isPrefix true [c, q] q qs
      · split
        · exact List.takeWhile_prefix _
        · unfold symbol
          split
          · next s h => exact Symbol.letters_isPrefix_of_longest? h
          · exact List.nil_prefix

theorem read_ne_nil {c : Char} {cs : List Char} {content : Token.Content}
    (h : (read c cs).content = .ok content) : (read c cs).text ≠ [] := by
  unfold read at *
  split at h
  · next hn => rw [if_pos hn]; exact numeral_ne_nil hn
  · next hn =>
    rw [if_neg hn]
    split at h
    · next hq => rw [if_pos hq]; exact string_text_ne_nil (by simp) c cs
    · next hq =>
      rw [if_neg hq]
      split at h
      · next q qs _ => exact string_text_ne_nil (by simp) q qs
      · split at h
        · next hw =>
          rw [if_pos hw]
          simp only [isWordStart, Bool.or_eq_true] at hw
          have : isWordChar c = true := by
            rcases hw with hw | hw <;> simp_all [isWordChar]
          simp [word, this]
        · next hw =>
          rw [if_neg hw]
          unfold symbol at *
          split at h
          · next s _ => exact s.letters_ne_nil
          · cases h

end Lexeme

end Offside
