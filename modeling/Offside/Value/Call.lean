import Offside.Value.Registry

/-!
# Calls

Calling a function checks the number of arguments and runs the body; a fault of either unwinds
through a frame with the function's name. A syntactic form cannot be called and adds no frame.

Bodies are the host's: the language runs whatever it is given. Those that are here are one host's.
Its `apply` says of a value that is no form that it is not callable, where another host may say that
its type is wrong; frames do not depend on that.
-/

namespace Offside

/-- The sum of numbers, taken from left to right. -/
def sumNumbers (args : List Value) : Except Fault Float :=
  args.foldlM (fun (total : Float) (v : Value) => (total + ·) <$> v.expectNumber) 0.0

/-- The concatenation of strings. -/
def joinStrings (args : List Value) : Except Fault String :=
  String.join <$> args.mapM Value.expectString

/-- Runs a body that calls nothing. -/
def Primitive.run (p : Primitive) (r : Registry) (h : Heap) (args : List Value) :
    Except Fault Value × Heap :=
  let arg (i : Nat) : Value := args[i]?.getD r.makeNil
  match p with
  | .sum => ((sumNumbers args).map r.makeNumber, h)
  | .concat => ((joinStrings args).map r.makeString, h)
  | .identity => (.ok (arg 0), h)
  | .put =>
    match (arg 0).expectTable, (arg 1).expectString with
    | .error fault, _ => (.error fault, h)
    | _, .error fault => (.error fault, h)
    | .ok t, .ok name =>
      let (old, h) := h.set t name (arg 2)
      (.ok (old.getD r.makeNil), h)
  | .lookup =>
    match (arg 0).expectTable, (arg 1).expectString with
    | .error fault, _ => (.error fault, h)
    | _, .error fault => (.error fault, h)
    | .ok t, .ok name => (h.lookup t name, h)
  | .undefined context =>
    match (arg 0).expectString with
    | .error fault => (.error fault, h)
    | .ok name => (.error ⟨.undefinedName name, some context⟩, h)

/-- Unwinds a fault through a call frame. -/
def unwind (frame : String) : Except Fault Value → Except Fault Value
  | .ok v => .ok v
  | .error fault => .error (fault.inFrame frame)

/-- Enters a form: a function runs its body, if it takes so many arguments. -/
def Form.enter (f : Form) (h : Heap) (args : List Value)
    (run : Body → Except Fault Value × Heap) : Except Fault Value × Heap :=
  match f.role with
  | .syntactic => (.error ⟨.notCallable .form, none⟩, h)
  | .function arity body =>
    if arity.accepts args.length then
      let (result, h) := run body
      (unwind f.name result, h)
    else (.error (Fault.inFrame ⟨.arityMismatch arity args.length, none⟩ f.name), h)

-- The one body that calls on passes fewer arguments than it got, so every call ends.
mutual

/-- Calls a form with evaluated arguments. -/
def Form.call (f : Form) (r : Registry) (h : Heap) (args : List Value) :
    Except Fault Value × Heap :=
  f.enter h args fun body => body.run r h args
termination_by (args.length, 1)

/-- Runs a body. -/
def Body.run (body : Body) (r : Registry) (h : Heap) (args : List Value) :
    Except Fault Value × Heap :=
  match body, args with
  | .primitive p, args => p.run r h args
  | .apply, .form g _ :: rest => g.call r h rest
  | .apply, v :: _ => (.error ⟨.notCallable v.kind, none⟩, h)
  | .apply, [] => (.error ⟨.notCallable .nil, none⟩, h)
termination_by (args.length, 0)

end

end Offside
