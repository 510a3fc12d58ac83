/-!
# Keywords

The reserved words. A word is a keyword only as a whole and in lower case.

Results:
* `Keyword.ofWord?_eq_some_iff`: a word is a keyword exactly when it is spelled like it.
-/

namespace Offside

/-- Reserved words. -/
inductive Keyword where
  | is | while | if | else | and | or | return
  deriving DecidableEq

namespace Keyword

def all : List Keyword := [.is, .while, .if, .else, .and, .or, .return]

/-- The characters of the spelling. -/
def letters : Keyword → List Char
  | .is => ['i', 's']
  | .while => ['w', 'h', 'i', 'l', 'e']
  | .if => ['i', 'f']
  | .else => ['e', 'l', 's', 'e']
  | .and => ['a', 'n', 'd']
  | .or => ['o', 'r']
  | .return => ['r', 'e', 't', 'u', 'r', 'n']

def spelling (k : Keyword) : String := String.ofList k.letters

/-- The name a keyword goes by in descriptors and diagnostics. -/
def label : Keyword → String
  | .is => "Is"
  | .while => "While"
  | .if => "If"
  | .else => "Else"
  | .and => "And"
  | .or => "Or"
  | .return => "Return"

/-- The keyword that a whole word is. -/
def ofWord? (word : List Char) : Option Keyword :=
  all.find? fun k => k.letters = word

theorem ofWord?_letters (k : Keyword) : ofWord? k.letters = some k := by cases k <;> rfl

theorem ofWord?_eq_some_iff {word : List Char} {k : Keyword} :
    ofWord? word = some k ↔ k.letters = word :=
  ⟨fun h => by simpa using List.find?_some h, fun h => h ▸ ofWord?_letters k⟩

end Keyword

end Offside
