import Offside.Source.Origin

/-!
# Lexical errors

What ends a scan early, and where the scan of the failing token began.
-/

namespace Offside

open Text

/-- Why a scan failed. -/
inductive LexError.Cause where
  /-- The character starts no symbol, word, number or string. -/
  | unknownSymbol (c : Char)
  /-- A string has no closing quote on its line. -/
  | unterminatedString
  /-- A line closes blocks down to a width that no open block has. -/
  | badIndent (width : Nat)
  deriving DecidableEq

namespace LexError.Cause

def message : Cause → String
  | unknownSymbol c => "unknown symbol: " ++ quotedChar c
  | unterminatedString => "unterminated string literal"
  | badIndent width =>
    "inconsistent indentation: width " ++ toString width ++ " matches no enclosing block"

def inspect : Cause → String
  | unknownSymbol c => tagged "UnknownSymbol" [quotedChar c]
  | unterminatedString => "UnterminatedString"
  | badIndent width => record "BadIndent" [("width", toString width)]

end LexError.Cause

/-- A lexical error. -/
structure LexError where
  cause : LexError.Cause
  origin : Origin
  deriving DecidableEq

namespace LexError

/-- The cause, then the place it points at. -/
def message (e : LexError) : String := e.cause.message ++ "\n" ++ e.origin.message

def inspect (e : LexError) : String :=
  record "LexError" [("kind", e.cause.inspect), ("origin", e.origin.inspect)]

end LexError

end Offside
