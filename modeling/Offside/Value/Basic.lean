import Offside.Token.Basic
import Offside.Value.Fault

/-!
# Values

A value of the scripting language. Every value has a metatable: a table holds its own, the other
values carry theirs along. Tables and forms have an identity, and are the same only when that is.
-/

namespace Offside

/-- The identity of a table. -/
abbrev TableId := Nat

/-- The identity of a form. -/
abbrev FormId := Nat

/-- A body that calls nothing. An argument that is missing reads as nil. -/
inductive Primitive where
  /-- Adds the arguments, which are numbers, to zero from left to right. -/
  | sum
  /-- Joins the arguments, which are strings. -/
  | concat
  /-- Returns the first argument. -/
  | identity
  /-- Stores the third argument in the first under the second; returns what was there. -/
  | put
  /-- Looks up the second argument in the first and its ancestors. -/
  | lookup
  /-- Fails: the first argument is an undefined name, in the given context. -/
  | undefined (context : Fault.Context)
  deriving DecidableEq

/-- What a function does with its arguments. -/
inductive Body where
  /-- Calls the first argument with the others. -/
  | apply
  | primitive (p : Primitive)
  deriving DecidableEq

/-- What a form does with its operands. -/
inductive Form.Role where
  /-- Takes them unevaluated; it has no body of its own and cannot be called. -/
  | syntactic
  /-- Takes their values and runs a body. -/
  | function (arity : Arity) (body : Body)
  deriving DecidableEq

/-- A syntactic or callable form. -/
structure Form where
  id : FormId
  name : String
  role : Form.Role
  deriving DecidableEq

namespace Form

/-- The arity of a function; none for a syntactic form. -/
def arity? (f : Form) : Option Arity :=
  match f.role with
  | .syntactic => none
  | .function arity _ => some arity

def isFunction (f : Form) : Bool := f.arity?.isSome

def inspect (f : Form) : String :=
  match f.arity? with
  | none => "Form(" ++ f.name ++ ")"
  | some arity => "Function(" ++ f.name ++ "/" ++ arity.render ++ ")"

end Form

/-- A value. -/
inductive Value where
  | nil (metatable : TableId)
  | boolean (b : Bool) (metatable : TableId)
  | number (x : Float) (metatable : TableId)
  | string (s : String) (metatable : TableId)
  | table (id : TableId)
  | form (f : Form) (metatable : TableId)
  deriving DecidableEq

namespace Value

def kind : Value → Kind
  | nil _ => .nil
  | boolean _ _ => .boolean
  | number _ _ => .number
  | string _ _ => .string
  | table _ => .table
  | form _ _ => .form

def asBoolean? : Value → Option Bool
  | boolean b _ => some b
  | _ => none

def asNumber? : Value → Option Float
  | number x _ => some x
  | _ => none

def asString? : Value → Option String
  | string s _ => some s
  | _ => none

def asTable? : Value → Option TableId
  | table id => some id
  | _ => none

def asForm? : Value → Option Form
  | form f _ => some f
  | _ => none

/-- The arity of a value that is a function. -/
def asFunction? (v : Value) : Option Arity := v.asForm?.bind Form.arity?

/-- Reports that a value is not of the kind that was expected. -/
def mismatch (v : Value) (expected : Kind) : Fault := ⟨.typeMismatch expected v.kind, none⟩

def expectNumber (v : Value) : Except Fault Float :=
  match v.asNumber? with
  | some x => .ok x
  | none => .error (v.mismatch .number)

def expectString (v : Value) : Except Fault String :=
  match v.asString? with
  | some s => .ok s
  | none => .error (v.mismatch .string)

def expectTable (v : Value) : Except Fault TableId :=
  match v.asTable? with
  | some id => .ok id
  | none => .error (v.mismatch .table)

/-- Values are the same when their payloads are: numbers as numbers, tables and forms by identity.
Metatables do not matter. -/
def same : Value → Value → Bool
  | nil _, nil _ => true
  | boolean a _, boolean b _ => a == b
  | number x _, number y _ => x == y
  | string s _, string t _ => s == t
  | table i, table j => i == j
  | form f _, form g _ => f.id == g.id
  | _, _ => false

/-- The same payload with another metatable; a table keeps its own. -/
def withMetatable (v : Value) (metatable : TableId) : Value :=
  match v with
  | nil _ => nil metatable
  | boolean b _ => boolean b metatable
  | number x _ => number x metatable
  | string s _ => string s metatable
  | table id => table id
  | form f _ => form f metatable

end Value

end Offside
