import Offside.Event
import Offside.Value.Heap

/-!
# The registry of metatables

A registry has a root, which is its own metatable, and a default metatable for each kind that has
the root above it. Values are made through a registry, so each has a metatable from the start.
-/

namespace Offside

/-- The default metatables. -/
structure Registry where
  root : TableId
  nil : TableId
  boolean : TableId
  number : TableId
  string : TableId
  form : TableId
  deriving DecidableEq

namespace Registry

/-- Makes the tables of a registry. -/
def bootstrap (h : Heap) : Registry × Heap :=
  let (root, h) := h.newTable none none
  let (nil, h) := h.newTable (some root) none
  let (boolean, h) := h.newTable (some root) none
  let (number, h) := h.newTable (some root) none
  let (string, h) := h.newTable (some root) none
  let (form, h) := h.newTable (some root) none
  (⟨root, nil, boolean, number, string, form⟩, h)

/-- What is logged when a registry is made. -/
def bootstrapEvents : List Event := [.bootstrapped Kind.all.length]

/-- The default metatable of a kind; tables have the root. -/
def metatableFor (r : Registry) : Kind → TableId
  | .nil => r.nil
  | .boolean => r.boolean
  | .number => r.number
  | .string => r.string
  | .table => r.root
  | .form => r.form

/-- The tables of a registry, the root first. -/
def tables (r : Registry) : List TableId := [r.root, r.nil, r.boolean, r.number, r.string, r.form]

def makeNil (r : Registry) : Value := .nil r.nil

def makeBoolean (r : Registry) (b : Bool) : Value := .boolean b r.boolean

def makeNumber (r : Registry) (x : Float) : Value := .number x r.number

def makeString (r : Registry) (s : String) : Value := .string s r.string

/-- The value of a token's literal. -/
def makeLiteral (r : Registry) : Literal → Value
  | .number x => r.makeNumber x
  | .string s => r.makeString s

def makeTable (r : Registry) (h : Heap) : TableId × Heap := h.newTable (some r.root) none

/-- Makes a table with a metatable of its own. -/
def makeTableWith (metatable : TableId) (h : Heap) : TableId × Heap :=
  h.newTable (some metatable) none

/-- Makes a table whose names are looked up in `parent` next. -/
def makeChild (r : Registry) (parent : TableId) (h : Heap) : TableId × Heap :=
  h.newTable (some r.root) (some parent)

def makeForm (r : Registry) (name : String) (role : Form.Role) (h : Heap) : Value × Heap :=
  let (f, h) := h.newForm name role
  (.form f r.form, h)

end Registry

end Offside
