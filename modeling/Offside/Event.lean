import Offside.Lexer.Error
import Offside.Token.Basic

/-!
# Log events

What the library reports while it works: the set-up of a registry, each block that opens or closes,
each token, and the error that ends a scan.
-/

namespace Offside

/-- A log event. -/
inductive Event where
  /-- The metatables of this many kinds were made. -/
  | bootstrapped (kinds : Nat)
  /-- A line opened a block of this width. -/
  | indent (width : Nat)
  /-- A line of this width closed a block. -/
  | dedent (width : Nat)
  /-- The end of the input closed a block. -/
  | dedentAtEnd
  /-- A token was returned. -/
  | token (kind : Token.Kind) (offset : Nat)
  /-- The scan failed. -/
  | failure (error : LexError)
  deriving DecidableEq

/-- How much detail an event belongs to. -/
inductive Event.Level where
  | debug
  | trace
  deriving DecidableEq

namespace Event

def level : Event → Level
  | bootstrapped _ | failure _ => .debug
  | _ => .trace

def message : Event → String
  | bootstrapped _ => "metatables bootstrapped"
  | indent _ => "indent"
  | dedent _ => "dedent"
  | dedentAtEnd => "dedent at end of input"
  | token _ _ => "token"
  | failure _ => "lexical error"

end Event

end Offside
