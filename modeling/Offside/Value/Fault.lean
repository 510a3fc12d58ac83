import Offside.Source.Origin

/-!
# Faults

What goes wrong when values are used, where it happened, and through which calls it unwound. Frames
are added from the inside out, so each new one goes to the front of the stack. A fault speaks of the
kinds of values and of the argument counts that functions take.
-/

namespace Offside

open Text

/-! ## Kinds -/

/-- The kind of a value. A function is not a kind of its own: it is a form with a body. -/
inductive Kind where
  | nil | boolean | number | string | table | form
  deriving DecidableEq

namespace Kind

def all : List Kind := [.nil, .boolean, .number, .string, .table, .form]

/-- The name of a kind in messages. -/
def name : Kind → String
  | nil => "nil"
  | boolean => "boolean"
  | number => "number"
  | string => "string"
  | table => "table"
  | form => "form"

/-- The name a kind goes by in descriptors. -/
def label : Kind → String
  | nil => "Nil"
  | boolean => "Boolean"
  | number => "Number"
  | string => "String"
  | table => "Table"
  | form => "Form"

end Kind

/-! ## Arities -/

/-- The argument counts a function takes. -/
inductive Arity where
  | exact (count : Nat)
  /-- Both ends included. -/
  | range (least greatest : Nat)
  | variadic (least : Nat)
  deriving DecidableEq

namespace Arity

def accepts : Arity → Nat → Bool
  | exact n, count => count = n
  | range least greatest, count => least ≤ count && count ≤ greatest
  | variadic least, count => least ≤ count

def render : Arity → String
  | exact n => toString n
  | range least greatest => toString least ++ "..=" ++ toString greatest
  | variadic least => toString least ++ "+"

def inspect : Arity → String
  | exact n => tagged "Exact" [toString n]
  | range least greatest => tagged "Range" [toString least, toString greatest]
  | variadic least => tagged "Variadic" [toString least]

end Arity

/-! ## Causes and stacks -/

/-- Why an operation on values failed. -/
inductive Fault.Cause where
  | typeMismatch (expected actual : Kind)
  | arityMismatch (expected : Arity) (actual : Nat)
  | undefinedName (name : String)
  | notCallable (kind : Kind)
  deriving DecidableEq

namespace Fault.Cause

def message : Cause → String
  | typeMismatch expected actual =>
    "type mismatch: expected " ++ expected.name ++ ", got " ++ actual.name
  | arityMismatch expected actual =>
    "arity mismatch: expected " ++ expected.render ++ ", got " ++ toString actual
  | undefinedName name => "undefined name: " ++ name
  | notCallable kind => "value of kind " ++ kind.name ++ " is not callable"

def inspect : Cause → String
  | typeMismatch expected actual =>
    record "TypeMismatch" [("expected", expected.name), ("actual", actual.name)]
  | arityMismatch expected actual =>
    record "ArityMismatch" [("expected", expected.inspect), ("actual", toString actual)]
  | undefinedName name => tagged "UndefinedName" [quoted name]
  | notCallable kind => tagged "NotCallable" [kind.name]

end Fault.Cause

/-- Where a fault occurred. -/
structure Fault.Context where
  source : Option String := none
  line : Option Nat := none
  column : Option Nat := none
  /-- Call frames, outermost first. -/
  stack : List String := []
  deriving DecidableEq

namespace Fault.Context

/-- The place, then the frames, innermost first. -/
def render (c : Context) : String :=
  let place := match c.source, c.line, c.column with
    | some source, some line, some column =>
      "at " ++ source ++ ":" ++ toString line ++ ":" ++ toString column
    | some source, _, _ => "at " ++ source
    | none, _, _ => ""
  let frames :=
    if c.stack.isEmpty then ""
    else "\n" ++ String.join (c.stack.reverse.map fun frame => "  in " ++ frame ++ "\n")
  place ++ frames

def inspect (c : Context) : String :=
  record "ErrorContext"
    [("source", optional (c.source.map quoted)), ("line", optional (c.line.map toString)),
     ("column", optional (c.column.map toString)), ("stack", listed (c.stack.map quoted))]

/-- Adds a frame inside all others. -/
def addInner (c : Context) (frame : String) : Context := { c with stack := c.stack ++ [frame] }

/-- Adds a frame outside all others. -/
def addOuter (c : Context) (frame : String) : Context := { c with stack := frame :: c.stack }

end Fault.Context

/-- The context of a fault at an origin. -/
def Origin.context (o : Origin) : Fault.Context :=
  { source := some o.source.name, line := some o.line, column := some o.column }

/-- A failed operation on values. -/
structure Fault where
  cause : Fault.Cause
  context : Option Fault.Context := none
  deriving DecidableEq

namespace Fault

def message (f : Fault) : String := f.cause.message

def inspect (f : Fault) : String :=
  record "Error" [("kind", f.cause.inspect), ("context", optional (f.context.map Context.inspect))]

/-- The fault after it unwound through a call frame. -/
def inFrame (f : Fault) (frame : String) : Fault :=
  { f with context := some ((f.context.getD {}).addOuter frame) }

/-- The call frames a fault unwound through, outermost first. -/
def stack (f : Fault) : List String := (f.context.getD {}).stack

end Fault

end Offside
