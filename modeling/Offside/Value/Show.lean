import Offside.Value.Registry

/-!
# Text of values

A value is shown plainly, as it is written in a source (strings quoted), or for diagnostics. A table
is shown by its size alone, so values that hold one another have finite texts.
-/

namespace Offside

open Text

namespace Heap

/-- Nil, `false`, zero, the empty string and the empty table do not hold. -/
def isTruthy (h : Heap) : Value → Bool
  | .nil _ => false
  | .boolean b _ => b
  | .number x _ => x != 0.0
  | .string s _ => !s.isEmpty
  | .table t => h.size t != 0
  | .form _ _ => true

/-- The plain text of a value. -/
def render (h : Heap) : Value → String
  | .nil _ => "nil"
  | .boolean b _ => toString b
  | .number x _ => Decimal.render x
  | .string s _ => s
  | .table t => "<table " ++ toString (h.size t) ++ ">"
  | .form f _ => if f.isFunction then "<function " ++ f.name ++ ">" else "<form " ++ f.name ++ ">"

/-- A value as it is written in a source. -/
def written (h : Heap) : Value → String
  | .string s _ => Literal.quote s
  | v => h.render v

/-- A table for diagnostics. Its address is not shown. -/
def inspectTable (h : Heap) (t : TableId) : String :=
  record "Table"
    [("address", "@"), ("len", toString (h.size t)), ("root", toString (h.isRoot t)),
     ("has_parent", toString (h.parent? t).isSome)]

def inspect (h : Heap) : Value → String
  | .nil _ => "nil"
  | .boolean b _ => toString b
  | .number x _ => Decimal.render x
  | .string s _ => quoted s
  | .table t => h.inspectTable t
  | .form f _ => f.inspect

end Heap

/-- A registry for diagnostics. -/
def Registry.inspect (r : Registry) (h : Heap) : String :=
  record "Metatables"
    [("root", h.inspectTable r.root), ("nil", h.inspectTable r.nil),
     ("boolean", h.inspectTable r.boolean), ("number", h.inspectTable r.number),
     ("string", h.inspectTable r.string), ("form", h.inspectTable r.form)]

end Offside
