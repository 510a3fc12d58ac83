import Offside.Value.Basic
import Offside.Value.Entries

/-!
# The heap of tables

Tables are the only mutable values. A table has entries, maybe a parent where names are looked up
next, and a metatable; a root is its own metatable. Parent and metatable are fixed when a table is
made and are older than it, so following either ends.
-/

namespace Offside

/-- A table. -/
structure Table where
  entries : Entries Value := ∅
  /-- Where names are looked up next. -/
  parent : Option TableId := none
  /-- The metatable; a root has none and is its own. -/
  metatable : Option TableId := none

/-- All tables, by identity, and the number of forms made. -/
structure Heap where
  tables : Array Table := .empty
  forms : Nat := 0

namespace Heap

/-! ## Making tables and forms -/

/-- Makes a table; without a metatable it is a root. -/
def newTable (h : Heap) (metatable parent : Option TableId) : TableId × Heap :=
  (h.tables.size, { h with tables := h.tables.push { metatable, parent } })

def newForm (h : Heap) (name : String) (role : Form.Role) : Form × Heap :=
  (⟨h.forms, name, role⟩, { h with forms := h.forms + 1 })

/-! ## Reading tables -/

/-- The table with an identity. -/
def table (h : Heap) (t : TableId) : Table := h.tables[t]?.getD {}

def entries (h : Heap) (t : TableId) : Entries Value := (h.table t).entries

def parent? (h : Heap) (t : TableId) : Option TableId := (h.table t).parent

def isRoot (h : Heap) (t : TableId) : Bool := (h.table t).metatable.isNone

def metatable (h : Heap) (t : TableId) : TableId := (h.table t).metatable.getD t

def get? (h : Heap) (t : TableId) (name : String) : Option Value := (h.entries t).get? name

def contains (h : Heap) (t : TableId) (name : String) : Bool := (h.entries t).contains name

/-- The number of entries of a table. -/
def size (h : Heap) (t : TableId) : Nat := (h.entries t).size

/-- The names in a table, in increasing order. -/
def keys (h : Heap) (t : TableId) : List String := (h.entries t).keys

/-! ## Changing tables -/

/-- Changes the entries of a table. -/
def update (h : Heap) (t : TableId) (f : Entries Value → Entries Value) : Heap :=
  { h with tables := h.tables.modify t fun table => { table with entries := f table.entries } }

/-- Stores a value; gives what was there. -/
def set (h : Heap) (t : TableId) (name : String) (v : Value) : Option Value × Heap :=
  (h.get? t name, h.update t (·.insert name v))

/-- Removes an entry; gives what was there. -/
def remove (h : Heap) (t : TableId) (name : String) : Option Value × Heap :=
  (h.get? t name, h.update t (·.erase name))

/-! ## Scopes -/

/-- A table and its ancestors, nearest first. -/
def scopes (h : Heap) (t : TableId) : List TableId :=
  t :: match h.parent? t with
    | some p => if p < t then h.scopes p else []
    | none => []
termination_by t

/-- The nearest table that holds a name. -/
def definer? (h : Heap) (t : TableId) (name : String) : Option TableId :=
  (h.scopes t).find? fun s => h.contains s name

/-- The fault of a name that no table of a scope holds. -/
def undefined (name : String) : Fault := ⟨.undefinedName name, none⟩

/-- Looks a name up in a table and its ancestors. -/
def lookup (h : Heap) (t : TableId) (name : String) : Except Fault Value :=
  match (h.scopes t).findSome? fun s => h.get? s name with
  | some v => .ok v
  | none => .error (undefined name)

/-- Replaces a name in the nearest table that holds it. -/
def assign (h : Heap) (t : TableId) (name : String) (v : Value) : Except Fault Unit × Heap :=
  match h.definer? t name with
  | some s => (.ok (), h.update s (·.insert name v))
  | none => (.error (undefined name), h)

/-! ## Metatables -/

/-- A table and the metatables above it, up to the root. -/
def metatables (h : Heap) (t : TableId) : List TableId :=
  t :: match (h.table t).metatable with
    | some m => if m < t then h.metatables m else []
    | none => []
termination_by t

/-- The metatable of a value. -/
def metatableOf (h : Heap) : Value → TableId
  | .table id => h.metatable id
  | .nil m | .boolean _ m | .number _ m | .string _ m | .form _ m => m

end Heap

end Offside
