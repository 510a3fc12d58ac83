import Offside.Descriptor.Json
import Offside.Lexer.Config
import Offside.Token.Basic
import Offside.Value.Fault

/-!
# Descriptors

The small types that describe values, tokens and settings can be written to JSON and read back. A
case without arguments is its name, or an object that maps the name to null; a case with arguments
is an object that maps the name to them; a record is an object, or the array of its fields in order.
Sizes are whole numbers below `2^64`.
-/

namespace Offside

namespace Descriptor

/-- A type with a JSON form. -/
class Described (α : Type) where
  ofJson? : Json → Option α
  toJson : α → Json

/-- Reads a descriptor from JSON text. -/
def read? (α : Type) [Described α] (text : String) : Option α :=
  (Json.parse? text).bind Described.ofJson?

/-- Writes a descriptor as JSON text. -/
def write {α : Type} [Described α] (a : α) : String := (Described.toJson a).render

/-! ## Parts -/

/-- A JSON string. -/
def name (s : String) : Json := .string (some s)

/-- The name of a case without arguments. -/
def bareCase? : Json → Option String
  | .string s => s
  | .object [(key, .null)] => key
  | _ => none

/-- The name of a case and its arguments. -/
def caseOf? : Json → Option (String × Json)
  | .object [(some key, j)] => some (key, j)
  | _ => none

/-- A case with arguments. -/
def tagged (key : String) (j : Json) : Json := .object [(some key, j)]

/-- The case of a plain enumeration with a given name. -/
def enumerated? {α : Type} (all : List α) (label : α → String) (j : Json) : Option α :=
  (bareCase? j).bind fun s => all.find? fun a => label a = s

def sizeOfJson? : Json → Option Nat
  | .number digits =>
    if digits.all Char.isDigit then
      let n := digits.foldl (fun n c => 10 * n + (c.toNat - '0'.toNat)) 0
      if n < UInt64.size then some n else none
    else none
  | _ => none

def sizeToJson (n : Nat) : Json := .number (Nat.toDigits 10 n)

def flagOfJson? : Json → Option Bool
  | .boolean b => some b
  | _ => none

/-- The value of the only member with a key. -/
def member? (members : List (Option String × Json)) (key : String) : Option Json :=
  match members.filter fun m => m.1 = some key with
  | [(_, j)] => some j
  | _ => none

/-- The fields of a record in order. Other members are skipped, but every key must be readable. -/
def fields? (keys : List String) : Json → Option (List Json)
  | .array items => if items.length = keys.length then some items else none
  | .object members =>
    if members.all fun m => m.1.isSome then keys.mapM (member? members) else none
  | _ => none

/-! ## Types -/

instance : Described Kind where
  ofJson? := enumerated? Kind.all Kind.label
  toJson k := name k.label

instance : Described Symbol where
  ofJson? := enumerated? Symbol.all Symbol.label
  toJson s := name s.label

instance : Described Keyword where
  ofJson? := enumerated? Keyword.all Keyword.label
  toJson k := name k.label

instance : Described Arity where
  ofJson? j :=
    match caseOf? j with
    | some ("Exact", n) => (sizeOfJson? n).map Arity.exact
    | some ("Range", .array [a, b]) => do return .range (← sizeOfJson? a) (← sizeOfJson? b)
    | some ("Variadic", n) => (sizeOfJson? n).map Arity.variadic
    | _ => none
  toJson
    | .exact n => tagged "Exact" (sizeToJson n)
    | .range a b => tagged "Range" (.array [sizeToJson a, sizeToJson b])
    | .variadic n => tagged "Variadic" (sizeToJson n)

/-- The token kinds without arguments. -/
def plainTokenKinds : List Token.Kind :=
  [.identifier, .number, .string, .indent, .dedent, .newline, .endOfInput]

instance : Described Token.Kind where
  ofJson? j :=
    match caseOf? j with
    | some ("Symbol", s) => (Described.ofJson? s).map Token.Kind.symbol
    | some ("Keyword", k) => (Described.ofJson? k).map Token.Kind.keyword
    | _ => enumerated? plainTokenKinds Token.Kind.inspect j
  toJson
    | .symbol s => tagged "Symbol" (Described.toJson s)
    | .keyword k => tagged "Keyword" (Described.toJson k)
    | k => name k.inspect

instance : Described Position where
  ofJson? j :=
    match fields? ["line", "column"] j with
    | some [line, column] => do return ⟨← sizeOfJson? line, ← sizeOfJson? column⟩
    | _ => none
  toJson p := .object [(some "line", sizeToJson p.line), (some "column", sizeToJson p.column)]

instance : Described Config where
  ofJson? j :=
    match fields? ["tab_width", "bracket_continuation", "comments"] j with
    | some [tabWidth, joinsLines, comments] => do
      let tabWidth ← sizeOfJson? tabWidth
      return ⟨UInt64.ofNat tabWidth, ← flagOfJson? joinsLines, ← flagOfJson? comments⟩
    | _ => none
  toJson c :=
    .object
      [(some "tab_width", sizeToJson c.tabWidth.toNat),
       (some "bracket_continuation", .boolean c.joinsLines),
       (some "comments", .boolean c.comments)]

end Descriptor

end Offside
