import Offside.Decimal.Positional
import Offside.Source.Origin
import Offside.Text.Written
import Offside.Token.Keyword
import Offside.Token.Symbol

/-!
# Tokens

A token is a content and the origin where its scan began. Identifiers, numbers and strings carry a
literal; the layout tokens (indent, dedent, newline, end of input) and the fixed spellings do not.

Results:
* `Token.Content.literal?_isSome`: a literal is present exactly on the kinds that have one.
-/

namespace Offside

open Text

/-- The payload of a token. -/
inductive Literal where
  | number (x : Float)
  | string (s : String)
  deriving DecidableEq

namespace Literal

/-- Numbers compare as numbers, strings as texts. -/
def same : Literal → Literal → Bool
  | number x, number y => x == y
  | string s, string t => s == t
  | _, _ => false

/-- A text in double quotes, as it is written in a source. -/
def quote (s : String) : String :=
  String.ofList ('"' :: escape s.toList ++ ['"'])

/-- The literal as it is written in a source. -/
def written : Literal → String
  | number x => Decimal.render x
  | string s => quote s

def inspect : Literal → String
  | number x => Decimal.render x
  | string s => quoted s

end Literal

/-- What a token is, its literal apart. -/
inductive Token.Kind where
  | symbol (s : Symbol)
  | keyword (k : Keyword)
  | identifier
  | number
  | string
  | indent
  | dedent
  | newline
  | endOfInput
  deriving DecidableEq

namespace Token.Kind

/-- Do tokens of this kind carry a literal? -/
def hasLiteral : Kind → Bool
  | identifier | number | string => true
  | _ => false

/-- The name of a kind in messages. -/
def name : Kind → String
  | symbol s => "'" ++ s.spelling ++ "'"
  | keyword k => k.spelling
  | identifier => "identifier"
  | number => "number"
  | string => "string"
  | indent => "indent"
  | dedent => "dedent"
  | newline => "newline"
  | endOfInput => "end of input"

def inspect : Kind → String
  | symbol s => tagged "Symbol" [s.label]
  | keyword k => tagged "Keyword" [k.label]
  | identifier => "Identifier"
  | number => "Number"
  | string => "String"
  | indent => "Indent"
  | dedent => "Dedent"
  | newline => "Newline"
  | endOfInput => "Eof"

end Token.Kind

/-- What a token is, with its literal. -/
inductive Token.Content where
  | symbol (s : Symbol)
  | keyword (k : Keyword)
  | identifier (name : String)
  | number (x : Float)
  | string (s : String)
  | indent
  | dedent
  | newline
  | endOfInput
  deriving DecidableEq

namespace Token.Content

def kind : Content → Kind
  | symbol s => .symbol s
  | keyword k => .keyword k
  | identifier _ => .identifier
  | number _ => .number
  | string _ => .string
  | indent => .indent
  | dedent => .dedent
  | newline => .newline
  | endOfInput => .endOfInput

def literal? : Content → Option Literal
  | identifier name => some (.string name)
  | number x => some (.number x)
  | string s => some (.string s)
  | _ => none

/-- A word: a keyword if it is spelled like one, else an identifier. -/
def ofWord (word : List Char) : Content :=
  match Keyword.ofWord? word with
  | some k => .keyword k
  | none => .identifier (String.ofList word)

theorem literal?_isSome (c : Content) : c.literal?.isSome = c.kind.hasLiteral := by
  cases c <;> rfl

end Token.Content

/-- A token of a source. -/
structure Token where
  content : Token.Content
  origin : Origin
  deriving DecidableEq

namespace Token

def kind (t : Token) : Kind := t.content.kind

def literal? (t : Token) : Option Literal := t.content.literal?

/-- Tokens are the same when kind and literal agree; where they stand does not matter. -/
def same (s t : Token) : Bool :=
  s.kind = t.kind &&
    match s.literal?, t.literal? with
    | some a, some b => a.same b
    | none, none => true
    | _, _ => false

/-- The name of the kind and the literal as it is written in a source. -/
def render (t : Token) : String :=
  match t.literal? with
  | some l => t.kind.name ++ " " ++ l.written
  | none => t.kind.name

def inspect (t : Token) : String :=
  record "Token"
    [("kind", t.kind.inspect), ("literal", optional (t.literal?.map Literal.inspect)),
     ("origin", t.origin.inspect)]

end Token

end Offside
