/-!
# Symbols

The fixed spellings of punctuation. A text is read as the longest symbol it starts with.

Results:
* `Symbol.letters_injective`: no two symbols are spelled alike.
* `Symbol.longest?_eq_some_iff`: the symbol found at the start of a text is the one, among those
  that fit, whose spelling is longest.
-/

namespace Offside

/-- Punctuation. -/
inductive Symbol where
  | ellipsis | equalEqual | lessEqual | greaterEqual | notEqual
  | backslash | dot | colon | plus | minus | star | slash | percent
  | leftParen | rightParen | leftBracket | rightBracket
  | comma | equal | less | greater | semicolon
  deriving DecidableEq

namespace Symbol

/-- Every symbol, longer spellings first. -/
def all : List Symbol :=
  [.ellipsis, .equalEqual, .lessEqual, .greaterEqual, .notEqual, .backslash, .dot, .colon, .plus,
   .minus, .star, .slash, .percent, .leftParen, .rightParen, .leftBracket, .rightBracket, .comma,
   .equal, .less, .greater, .semicolon]

/-- The characters of the spelling. -/
def letters : Symbol → List Char
  | ellipsis => ['.', '.', '.']
  | equalEqual => ['=', '=']
  | lessEqual => ['<', '=']
  | greaterEqual => ['>', '=']
  | notEqual => ['!', '=']
  | backslash => ['\\']
  | dot => ['.']
  | colon => [':']
  | plus => ['+']
  | minus => ['-']
  | star => ['*']
  | slash => ['/']
  | percent => ['%']
  | leftParen => ['(']
  | rightParen => [')']
  | leftBracket => ['[']
  | rightBracket => [']']
  | comma => [',']
  | equal => ['=']
  | less => ['<']
  | greater => ['>']
  | semicolon => [';']

def spelling (s : Symbol) : String := String.ofList s.letters

/-- The name a symbol goes by in descriptors and diagnostics. -/
def label : Symbol → String
  | ellipsis => "Ellipsis"
  | equalEqual => "EqEq"
  | lessEqual => "LtEq"
  | greaterEqual => "GtEq"
  | notEqual => "NotEq"
  | backslash => "Backslash"
  | dot => "Dot"
  | colon => "Colon"
  | plus => "Plus"
  | minus => "Minus"
  | star => "Star"
  | slash => "Slash"
  | percent => "Percent"
  | leftParen => "LParen"
  | rightParen => "RParen"
  | leftBracket => "LBracket"
  | rightBracket => "RBracket"
  | comma => "Comma"
  | equal => "Eq"
  | less => "Lt"
  | greater => "Gt"
  | semicolon => "Semicolon"

/-- The symbol with exactly this spelling. -/
def ofSpelling? (text : String) : Option Symbol :=
  all.find? fun s => s.letters = text.toList

/-- The longest symbol that a text starts with. -/
def longest? (cs : List Char) : Option Symbol :=
  all.find? fun s => s.letters.isPrefixOf cs

/-- Does the symbol open a bracket? -/
def opens : Symbol → Bool
  | leftParen | leftBracket => true
  | _ => false

/-- Does the symbol close a bracket? -/
def closes : Symbol → Bool
  | rightParen | rightBracket => true
  | _ => false

theorem mem_all (s : Symbol) : s ∈ all := by cases s <;> decide

theorem letters_ne_nil (s : Symbol) : s.letters ≠ [] := by cases s <;> decide

theorem letters_injective {s t : Symbol} (h : s.letters = t.letters) : s = t := by
  have inj : ∀ a ∈ all, ∀ b ∈ all, a.letters = b.letters → a = b := by decide
  exact inj s (mem_all s) t (mem_all t) h

theorem letters_isPrefix_of_longest? {cs : List Char} {s : Symbol} (h : longest? cs = some s) :
    s.letters <+: cs := by
  simpa using List.find?_some h

theorem all_longest_first : all.Pairwise fun s t => t.letters.length ≤ s.letters.length := by decide

theorem length_le_of_longest? {cs : List Char} {s t : Symbol} (h : longest? cs = some s)
    (ht : t.letters <+: cs) : t.letters.length ≤ s.letters.length := by
  obtain ⟨_, as, bs, hall, has⟩ := List.find?_eq_some_iff_append.1 h
  have hsort := all_longest_first
  have hmem := mem_all t
  rw [hall] at hsort hmem
  rcases List.mem_append.1 hmem with hm | hm
  · have fits : t.letters.isPrefixOf cs = true := by simpa using ht
    simpa [fits] using has t hm
  · rcases List.mem_cons.1 hm with rfl | hm
    · exact Nat.le_refl _
    · exact (List.pairwise_cons.1 (List.pairwise_append.1 hsort).2.1).1 t hm

theorem longest?_eq_some_iff {cs : List Char} {s : Symbol} :
    longest? cs = some s ↔
      s.letters <+: cs ∧ ∀ t : Symbol, t.letters <+: cs → t.letters.length ≤ s.letters.length := by
  refine ⟨fun h => ⟨letters_isPrefix_of_longest? h, fun t => length_le_of_longest? h⟩, ?_⟩
  rintro ⟨hs, hmax⟩
  cases h : longest? cs with
  | none => exact absurd hs (by simpa using List.find?_eq_none.1 h s (mem_all s))
  | some t =>
    have ht := letters_isPrefix_of_longest? h
    have hlen := Nat.le_antisymm (hmax t ht) (length_le_of_longest? h hs)
    have hpre := List.prefix_of_prefix_length_le ht hs (Nat.le_of_eq hlen)
    rw [letters_injective (hpre.eq_of_length hlen)]

end Symbol

end Offside
