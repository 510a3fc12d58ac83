import Offside.Value.Show

/-!
# Syntax trees

A node has a kind, maybe a literal, children in order, and the origin of what it stands for. Its
text is an s-expression.
-/

namespace Offside

open Text

/-- A node of a syntax tree. -/
structure Node where
  kind : String
  literal : Option Value
  children : List Node
  origin : Origin

namespace Node

/-- The kinds of nodes that a parser makes. -/
def kinds : List String :=
  ["Module", "Block", "If", "While", "Name", "Number", "String", "List", "Function", "Call",
   "Assign", "And", "Or", "Return", "Form"]

/-- A node without literal and children. -/
def leaf (kind : String) (origin : Origin) : Node := ⟨kind, none, [], origin⟩

/-- A leaf with the literal and the origin of a token. -/
def ofToken (r : Registry) (kind : String) (t : Token) : Node :=
  ⟨kind, t.literal?.map r.makeLiteral, [], t.origin⟩

def withLiteral (n : Node) (v : Value) : Node := { n with literal := some v }

/-- Appends children. -/
def addChildren (n : Node) (more : List Node) : Node := { n with children := n.children ++ more }

/-- A fault at the origin of a node. -/
def fault (n : Node) (cause : Fault.Cause) : Fault := ⟨cause, some n.origin.context⟩

/-! ## Comparison -/

/-- Are both literals absent or the same value? -/
def sameLiteral : Option Value → Option Value → Bool
  | some v, some w => v.same w
  | none, none => true
  | _, _ => false

mutual

/-- Nodes are the same when kind, literal and children are; origins do not matter. -/
def same : Node → Node → Bool
  | ⟨kind, literal, children, _⟩, ⟨kind', literal', children', _⟩ =>
    kind == kind' && sameLiteral literal literal' && sameAll children children'

/-- Are the nodes of two lists pairwise the same? -/
def sameAll : List Node → List Node → Bool
  | [], [] => true
  | n :: ns, m :: ms => n.same m && sameAll ns ms
  | _, _ => false

end

/-! ## Text -/

/-- A literal after a blank, as it is written in a source. -/
def renderLiteral (h : Heap) : Option Value → String
  | some v => " " ++ h.written v
  | none => ""

mutual

/-- A node as an s-expression. -/
def render (h : Heap) : Node → String
  | ⟨kind, literal, children, _⟩ =>
    "(" ++ kind ++ renderLiteral h literal ++ renderAll h children ++ ")"

/-- Nodes as s-expressions, a blank before each. -/
def renderAll (h : Heap) : List Node → String
  | [] => ""
  | n :: ns => " " ++ n.render h ++ renderAll h ns

end

mutual

def inspect (h : Heap) : Node → String
  | ⟨kind, literal, children, origin⟩ =>
    record "SyntaxNode"
      [("kind", quoted kind), ("literal", optional (literal.map h.inspect)),
       ("children", listed (inspectAll h children)), ("origin", origin.inspect)]

def inspectAll (h : Heap) : List Node → List String
  | [] => []
  | n :: ns => n.inspect h :: inspectAll h ns

end

end Node

end Offside
