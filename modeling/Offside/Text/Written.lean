import Offside.Text.Classes

/-!
# Written text

A text between double quotes writes line feed, tab, carriage return, NUL, the backslash and the
double quote as a backslash and a letter. Reading pairs each backslash with the character after it;
a pair that means nothing stands for its two characters.

Diagnostics show a text or a character between quotes with everything that would not be visible
spelled out: the usual escapes by letter, characters without a shape of their own by code point.
They show a value of a structured type by its name and its parts: a record with labelled fields, a
case with arguments, a list, an optional part.

Results:
* `unescape_escape`: reading undoes writing.
-/

namespace Offside.Text

/-! ## Escapes -/

/-- What follows the backslash when `c` is written between double quotes. -/
def escapeLetter? : Char → Option Char
  | '\n' => some 'n'
  | '\t' => some 't'
  | '\r' => some 'r'
  | '\x00' => some '0'
  | '\\' => some '\\'
  | '"' => some '"'
  | _ => none

/-- What a backslash and `c` stand for, if that is a single character. -/
def unescapeLetter? : Char → Option Char
  | 'n' => some '\n'
  | 't' => some '\t'
  | 'r' => some '\r'
  | '0' => some '\x00'
  | '\\' => some '\\'
  | '"' => some '"'
  | '\'' => some '\''
  | _ => none

/-- Writes a text so that it can stand between double quotes. -/
def escape : List Char → List Char
  | [] => []
  | c :: cs =>
    match escapeLetter? c with
    | some e => '\\' :: e :: escape cs
    | none => c :: escape cs

/-- Reads a text that stood between quotes. -/
def unescape : List Char → List Char
  | [] => []
  | ['\\'] => ['\\']
  | '\\' :: c :: cs =>
    match unescapeLetter? c with
    | some d => d :: unescape cs
    | none => '\\' :: c :: unescape cs
  | c :: cs => c :: unescape cs

theorem unescapeLetter?_of_escapeLetter? {c e : Char} (h : escapeLetter? c = some e) :
    unescapeLetter? e = some c := by
  unfold escapeLetter? at h
  split at h <;> simp_all <;> subst h <;> rfl

theorem unescape_cons_of_ne {c : Char} (h : c ≠ '\\') (cs : List Char) :
    unescape (c :: cs) = c :: unescape cs := by
  rw [unescape.eq_def]; split <;> simp_all

theorem unescape_escape (cs : List Char) : unescape (escape cs) = cs := by
  induction cs with
  | nil => rfl
  | cons c cs ih =>
    rw [escape]; split
    · next e he => simp [unescape, unescapeLetter?_of_escapeLetter? he, ih]
    · next he =>
      rw [unescape_cons_of_ne (by rintro rfl; simp [escapeLetter?] at he), ih]

/-! ## Quotes -/

/-- `c` by its code point in lower-case hexadecimal digits. -/
def codePoint (c : Char) : List Char :=
  '\\' :: 'u' :: '\x7b' :: Nat.toDigits 16 c.toNat ++ ['\x7d']

/-- `c` as it is shown between two marks `mark`. -/
def visible (mark c : Char) : List Char :=
  match c with
  | '\x00' => ['\\', '0']
  | '\t' => ['\\', 't']
  | '\r' => ['\\', 'r']
  | '\n' => ['\\', 'n']
  | '\\' => ['\\', '\\']
  | c =>
    if c = mark then ['\\', c]
    else if isExtending c || isIgnorable c || isUnprintable c then codePoint c
    else [c]

/-- A text in double quotes. -/
def quoted (s : String) : String :=
  String.ofList ('"' :: s.toList.flatMap (visible '"') ++ ['"'])

/-- A character in single quotes. -/
def quotedChar (c : Char) : String :=
  String.ofList ('\'' :: visible '\'' c ++ ['\''])

/-! ## Records -/

/-- Parts separated by commas. -/
def commaSeparated (parts : List String) : String :=
  String.intercalate ", " parts

/-- A record with labelled fields. -/
def record (name : String) (fields : List (String × String)) : String :=
  name ++ " \x7b " ++ commaSeparated (fields.map fun f => f.1 ++ ": " ++ f.2) ++ " \x7d"

/-- A record of which only some fields are shown. -/
def partialRecord (name : String) (fields : List (String × String)) : String :=
  name ++ " \x7b " ++ commaSeparated (fields.map (fun f => f.1 ++ ": " ++ f.2) ++ [".."]) ++ " \x7d"

/-- A case with arguments. -/
def tagged (name : String) (parts : List String) : String :=
  name ++ "(" ++ commaSeparated parts ++ ")"

/-- A list. -/
def listed (parts : List String) : String :=
  "[" ++ commaSeparated parts ++ "]"

/-- A part that may be absent. -/
def optional : Option String → String
  | some part => tagged "Some" [part]
  | none => "None"

end Offside.Text
