import Offside.Event
import Offside.Lexer.Blocks
import Offside.Lexer.Config
import Offside.Lexer.Gap
import Offside.Lexer.Lexeme

/-!
# The lexer

A lexer is a value: the rest of the text, the byte offset it starts at, the open blocks, the tokens
already scanned but not yet returned, and whether the stream has ended. One step returns a token or
an error, the events on the way, and the next lexer.

At the start of a line the lexer skips blank lines and comments, measures the first other line and
opens or closes blocks; several blocks that close at once are queued. Elsewhere it skips a gap and
reads a lexeme.

The lines that are skipped are measured as well. Where the width of one of them leaves the words the
program stops and the call never returns: `nextToken` and `next?` say what a call returns, and
`nextToken?` and `nextItem?`, which give `none` there, whether it does.
-/

namespace Offside

open Text

/-- A place in the text that is being read. -/
structure Cursor where
  rest : List Char
  offset : Nat
  deriving DecidableEq

/-- Moves over `text`, which the rest starts with. -/
def Cursor.advance (cursor : Cursor) (text : List Char) : Cursor :=
  ⟨cursor.rest.drop text.length, cursor.offset + byteLength text⟩

/-- How a stream of tokens stands. -/
inductive Lexer.Phase where
  | scanning
  /-- The end of input has been returned. -/
  | finished
  /-- An error has been returned. -/
  | failed (error : LexError)
  deriving DecidableEq

/-- A lexer at work. -/
structure Lexer where
  source : Source
  config : Config
  cursor : Cursor
  /-- The open blocks. -/
  blocks : Blocks := []
  /-- Tokens scanned but not yet returned. -/
  pending : List Token := []
  /-- Is the indentation of a line to be measured next? -/
  atLineStart : Bool := true
  /-- How many brackets are open. -/
  depth : Nat := 0
  phase : Lexer.Phase := .scanning
  deriving DecidableEq

/-- What one call of a lexer gives. -/
structure Lexer.Step where
  result : Except LexError Token
  /-- What was logged on the way. -/
  events : List Event
  /-- The lexer after the call. -/
  lexer : Lexer

namespace Lexer

/-- A lexer at the start of a source. -/
def start (source : Source) (config : Config) : Lexer :=
  { source, config, cursor := ⟨source.chars, 0⟩ }

/-- The number of open blocks. -/
def indentDepth (l : Lexer) : Nat := l.blocks.length

/-- The token that ends every stream. -/
def endToken (l : Lexer) : Token := ⟨.endOfInput, l.source.origin l.source.size⟩

/-- Ends the stream: closes every block at once. -/
def finish (l : Lexer) : Step :=
  match l.blocks.length with
  | 0 => ⟨.ok l.endToken, [], l⟩
  | closed + 1 =>
    let dedent : Token := ⟨.dedent, l.source.origin l.cursor.offset⟩
    ⟨.ok dedent, List.replicate (closed + 1) .dedentAtEnd,
      { l with blocks := [], pending := List.replicate closed dedent ++ [l.endToken] }⟩

/-! ## Tokens of a line -/

/-- The number of open brackets after a token. -/
def depthAfter (depth : Nat) : Token.Content → Nat
  | .symbol s => if s.opens then depth + 1 else if s.closes then depth - 1 else depth
  | _ => depth

/-- Skips the gap before the next token of the line. -/
def skipGap (l : Lexer) : Lexer :=
  let blank := gap (l.config.joinsLines && 0 < l.depth) l.config.comments l.cursor.rest
  { l with cursor := l.cursor.advance blank }

/-- Returns the token that the rest starts with, the end of the line, or the end of the stream. -/
def readToken (l : Lexer) : Step :=
  let origin := l.source.origin l.cursor.offset
  match l.cursor.rest with
  | [] => l.finish
  | c :: cs =>
    if c = '\n' then
      ⟨.ok ⟨.newline, origin⟩, [], { l with cursor := l.cursor.advance [c], atLineStart := true }⟩
    else
      let lexeme := Lexeme.read c cs
      let l := { l with cursor := l.cursor.advance lexeme.text }
      match lexeme.content with
      | .ok content => ⟨.ok ⟨content, origin⟩, [], { l with depth := depthAfter l.depth content }⟩
      | .error cause => ⟨.error ⟨cause, origin⟩, [], l⟩

/-- Returns the next token of the line, its end, or the end of the stream. -/
def scanToken (l : Lexer) : Step := l.skipGap.readToken

/-! ## Line starts -/

/-- A line that holds a token: the offset it starts at and the width of its indentation. -/
structure Line where
  start : Nat
  width : Nat
  deriving DecidableEq

/-- The blank lines and comments before the next line that holds a token, with its indentation. -/
def leading (l : Lexer) : List Char := gap true l.config.comments l.cursor.rest

/-- The lexer at the first token of the next line that holds one. -/
def atNextLine (l : Lexer) : Lexer :=
  { l with cursor := l.cursor.advance l.leading, atLineStart := false }

/-- The next line that holds a token, if there is one. -/
def nextLine? (l : Lexer) : Option Line :=
  let cursor := l.cursor.advance l.leading
  let indentation := lastLine l.leading
  if cursor.rest.isEmpty then none
  else some ⟨cursor.offset - byteLength indentation, l.config.columns indentation⟩

/-- The indentations that a scan from the start of a line measures: those of all lines it looks at,
blank lines and lines with nothing but a comment included. -/
def indentations (l : Lexer) : List (List Char) :=
  (l.leading.splitOn '\n').map indentation

/-- Does the next call measure an indentation whose width leaves the words? -/
def overflows (l : Lexer) : Bool :=
  l.phase = .scanning && l.pending.isEmpty && l.atLineStart &&
    l.indentations.any fun blanks => (l.config.width? blanks).isNone

/-- Opens or closes blocks for a line. Gives the step that this makes, or nothing if the line is as
wide as the innermost block. -/
def enterLine (l : Lexer) (line : Line) : Option Step :=
  let origin := l.source.origin line.start
  match l.blocks.enter? line.width with
  | none => some ⟨.error ⟨.badIndent line.width, origin⟩, [], l⟩
  | some blocks =>
    if l.blocks.top < line.width then
      some ⟨.ok ⟨.indent, origin⟩, [.indent line.width], { l with blocks }⟩
    else
      match l.blocks.length - blocks.length with
      | 0 => none
      | closed + 1 =>
        some ⟨.ok ⟨.dedent, origin⟩, List.replicate (closed + 1) (.dedent line.width),
          { l with blocks, pending := List.replicate closed ⟨.dedent, origin⟩ }⟩

/-- The step that the indentation of the next line makes, if it makes one. -/
def startLine (l : Lexer) : Option Step := l.nextLine?.bind l.atNextLine.enterLine

/-! ## Steps -/

/-- Scans on, nothing being queued. -/
def scan (l : Lexer) : Step :=
  if l.atLineStart then l.startLine.getD l.atNextLine.scanToken else l.scanToken

/-- Logs what a step returns and notes whether it ends the stream. -/
def Step.deliver (s : Step) : Step :=
  match s.result with
  | .ok t =>
    { s with
      events := s.events ++ [.token t.kind t.origin.offset]
      lexer := if t.content = .endOfInput then { s.lexer with phase := .finished } else s.lexer }
  | .error e =>
    { s with
      events := s.events ++ [.failure e]
      lexer := { s.lexer with phase := .failed e } }

/-- The next token, queued or scanned. -/
def pull (l : Lexer) : Step :=
  match l.pending with
  | t :: queue => ⟨.ok t, [], { l with pending := queue }⟩
  | [] => l.scan

/-- Returns the next token. Once the stream has ended the call repeats what ended it. -/
def nextToken (l : Lexer) : Step :=
  match l.phase with
  | .failed e => ⟨.error e, [], l⟩
  | .finished => ⟨.ok l.endToken, [], l⟩
  | .scanning => l.pull.deliver

/-- Returns the next token, or nothing once the stream has ended. -/
def next? (l : Lexer) : Option Step :=
  match l.phase with
  | .scanning => some l.nextToken
  | _ => none

/-- The step of a call for the next token, unless the call panics. -/
def nextToken? (l : Lexer) : Option Step := if l.overflows then none else some l.nextToken

/-- What a call for the next item of the stream returns, unless it panics. -/
def nextItem? (l : Lexer) : Option (Option Step) := if l.overflows then none else some l.next?

end Lexer

end Offside
