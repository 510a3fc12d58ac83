import Offside.Decimal.Nearest
import Offside.Decimal.Positional
import Offside.Decimal.Shortest
import Offside.Descriptor.Basic
import Offside.Descriptor.Json
import Offside.Event
import Offside.Lexer.Basic
import Offside.Lexer.Blocks
import Offside.Lexer.Config
import Offside.Lexer.Error
import Offside.Lexer.Gap
import Offside.Lexer.Lexeme
import Offside.Lexer.Run
import Offside.Source.Origin
import Offside.Text.Basic
import Offside.Text.Classes
import Offside.Text.Written
import Offside.Token.Basic
import Offside.Token.Keyword
import Offside.Token.Symbol
import Offside.Tree.Node
import Offside.Tree.Walk
import Offside.Value.Basic
import Offside.Value.Call
import Offside.Value.Entries
import Offside.Value.Fault
import Offside.Value.Heap
import Offside.Value.Registry
import Offside.Value.Show
import Offside.Proofs.Lexer.Gap
import Offside.Proofs.Lexer.Move
import Offside.Proofs.Lexer.History
import Offside.Proofs.Lexer.TokenLanguage
import Offside.Proofs.Lexer.OffsideRule
import Offside.Proofs.Lexer.Coverage
import Offside.Proofs.Lexer.Grammar
import Offside.Proofs.Lexer.Locality
import Offside.Proofs.Lexer.Lockstep
import Offside.Proofs.Lexer.Reindentation
import Offside.Proofs.Lexer.Concatenation
import Offside.Proofs.Lexer.Continuation
import Offside.Proofs.Lexer.Comments
import Offside.Proofs.Lexer.Padding
import Offside.Proofs.Lexer.LineEndings
import Offside.Proofs.Lexer.Interfaces
import Offside.Proofs.Value.Reachable
import Offside.Proofs.Value.Scopes
import Offside.Proofs.Value.Shadowing
import Offside.Proofs.Value.Metatables
import Offside.Proofs.Text.ByteOrder
import Offside.Proofs.Value.Sessions
import Offside.Proofs.Value.Frames
import Offside.Proofs.Lexer.Strings
import Offside.Proofs.Lexer.Lookahead
import Offside.Proofs.Lexer.Newlines
import Offside.Proofs.Decimal.Nearest
import Offside.Proofs.Decimal.Rounding
import Offside.Proofs.Decimal.Shortest
import Offside.Proofs.Decimal.Numerals
import Offside.Proofs.Lexer.Printing
import Offside.Proofs.Lexer.Errors
import Offside.Proofs.Source.Positions
import Offside.Proofs.Lexer.Scanner
import Offside.Proofs.Source.Bytes
import Offside.Proofs.Source.Slicing
import Offside.Proofs.Lexer.Bounds
import Offside.Proofs.Lexer.Widths
import Offside.Proofs.Tree.Preorder
import Offside.Proofs.Tree.Rendering
import Offside.Proofs.Lexer.Trace
