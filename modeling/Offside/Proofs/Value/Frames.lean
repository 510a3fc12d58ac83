import Offside.Value.Call

/-!
# Call frames

A fault unwinds through every function that it comes out of, and each adds its name outside the
frames that are there. That does not hang on what the bodies do: `Form.callWith` takes any meaning
of bodies, and `Unwinds` says that a call fails at the end of a chain of calls, each of which passes
the fault of the next one on. With the bodies that there are, a chain is made by applying, and every
call in it has one argument less than the one before.

Results:
* `Form.call_eq`: a call is one with the bodies that there are.
* `Unwinds.callWith_eq`: a fault comes out with the names of all functions of the chain.
* `Applies.call_eq`: an application gives what the last call of its chain gives, unwound.
* `Form.nested_calls`: what is known of nested calls.
-/

namespace Offside

/-! ## Faults and frames -/

namespace Fault

/-- The fault with more frames outside its own; it gets a context if it has none. -/
def inFrames (e : Fault) (frames : List String) : Fault :=
  ⟨e.cause, some { e.context.getD {} with stack := frames ++ e.stack }⟩

theorem inFrame_eq (e : Fault) (frame : String) : e.inFrame frame = e.inFrames [frame] := rfl

theorem inFrame_inFrames (e : Fault) (frame : String) (frames : List String) :
    (e.inFrames frames).inFrame frame = e.inFrames (frame :: frames) := rfl

/-- The place comes first, then the frames from the inside out. -/
theorem Context.render_eq (c : Context) (hstack : c.stack ≠ []) :
    c.render = { c with stack := [] }.render ++ "\n" ++
      String.join (c.stack.reverse.map fun frame => "  in " ++ frame ++ "\n") := by
  have hframes : c.stack.isEmpty = false := List.isEmpty_eq_false_iff.2 hstack
  unfold render
  rw [hframes]
  simp [String.append_assoc]

end Fault

/-! ## Calls with any bodies -/

/-- A meaning of the bodies of functions. -/
abbrev Bodies := Body → Registry → Heap → List Value → Except Fault Value × Heap

namespace Form

/-- Calls a form, with the given meaning of bodies. -/
def callWith (run : Bodies) (f : Form) (r : Registry) (h : Heap) (args : List Value) :
    Except Fault Value × Heap :=
  f.enter h args fun body => run body r h args

theorem call_eq (f : Form) (r : Registry) (h : Heap) (args : List Value) :
    f.call r h args = f.callWith Body.run r h args := by
  rw [call, callWith]

section

variable {run : Bodies} {f : Form} {arity : Arity} {body : Body} {args : List Value}

theorem callWith_of_syntactic (hf : f.role = .syntactic) (r : Registry) (h : Heap) :
    f.callWith run r h args = (.error ⟨.notCallable .form, none⟩, h) := by
  rw [callWith, enter, hf]

theorem callWith_of_accepts (hf : f.role = .function arity body)
    (ha : arity.accepts args.length = true) (r : Registry) (h : Heap) :
    f.callWith run r h args = (unwind f.name (run body r h args).1, (run body r h args).2) := by
  simp [callWith, enter, hf, ha]

/-- A function that refuses the number of arguments does not run its body. -/
theorem callWith_of_refuses (hf : f.role = .function arity body)
    (ha : arity.accepts args.length = false) (r : Registry) (h : Heap) :
    f.callWith run r h args =
      (.error (Fault.inFrames ⟨.arityMismatch arity args.length, none⟩ [f.name]), h) := by
  simp [callWith, enter, hf, ha, Fault.inFrame_eq]

end

end Form

/-! ## Chains of calls -/

/-- Called with `args`, the function `f` calls `g` with `args'` and passes its fault on. The body
may have changed the heap by then. -/
def Passes (run : Bodies) (r : Registry) (f : Form) (h : Heap) (args : List Value) (g : Form)
    (h' : Heap) (args' : List Value) : Prop :=
  ∃ arity body, f.role = .function arity body ∧ arity.accepts args.length = true ∧
    ∀ e, (g.callWith run r h' args').1 = .error e → (run body r h args).1 = .error e

/-- A call of `f` fails with `e` inside, at the end of a chain of calls. -/
inductive Unwinds (run : Bodies) (r : Registry) :
    Form → Heap → List Value → List Form → Fault → Prop
  /-- The body fails. -/
  | body {f : Form} {h : Heap} {args : List Value} {arity : Arity} {body : Body} {e : Fault}
      (hf : f.role = .function arity body) (ha : arity.accepts args.length = true)
      (he : (run body r h args).1 = .error e) : Unwinds run r f h args [f] e
  /-- The function refuses the number of arguments. -/
  | arity {f : Form} {h : Heap} {args : List Value} {arity : Arity} {body : Body}
      (hf : f.role = .function arity body) (ha : arity.accepts args.length = false) :
      Unwinds run r f h args [f] ⟨.arityMismatch arity args.length, none⟩
  /-- The body calls a syntactic form. -/
  | syntactic {f g : Form} {h h' : Heap} {args args' : List Value}
      (hcall : Passes run r f h args g h' args') (hg : g.role = .syntactic) :
      Unwinds run r f h args [f] ⟨.notCallable .form, none⟩
  | call {f g : Form} {h h' : Heap} {args args' : List Value} {chain : List Form} {e : Fault}
      (hcall : Passes run r f h args g h' args') (hg : Unwinds run r g h' args' chain e) :
      Unwinds run r f h args (f :: chain) e

section

variable {run : Bodies} {r : Registry} {f g : Form} {h h' : Heap} {args args' rest : List Value}
  {through chain : List Form} {e : Fault}

theorem Passes.callWith_eq (hcall : Passes run r f h args g h' args')
    (hg : (g.callWith run r h' args').1 = .error e) :
    (f.callWith run r h args).1 = .error (e.inFrame f.name) := by
  obtain ⟨arity, body, hf, ha, hpass⟩ := hcall
  rw [Form.callWith_of_accepts hf ha, hpass e hg, unwind]

theorem Unwinds.callWith_eq (hu : Unwinds run r f h args chain e) :
    (f.callWith run r h args).1 = .error (e.inFrames (chain.map (·.name))) := by
  induction hu with
  | body hf ha he =>
    rw [Form.callWith_of_accepts hf ha, he]
    rfl
  | arity hf ha =>
    rw [Form.callWith_of_refuses hf ha]
    rfl
  | syntactic hcall hg =>
    rw [hcall.callWith_eq (congrArg Prod.fst (Form.callWith_of_syntactic hg _ _))]
    rfl
  | call hcall hg ih => rw [hcall.callWith_eq ih, Fault.inFrame_inFrames, List.map_cons]

theorem Unwinds.chain_ne_nil (hu : Unwinds run r f h args chain e) : chain ≠ [] := by
  cases hu <;> exact List.cons_ne_nil _ _

/-! ## Applying -/

/-- A call of `f` with `args` comes to a call of `g` with `rest`, by the functions in between, from
`f` on, applying their first argument to the others. -/
inductive Applies : Form → List Value → List Form → Form → List Value → Prop
  | here {f : Form} {args : List Value} : Applies f args [] f args
  | apply {f next g : Form} {arity : Arity} {m : TableId} {args rest : List Value}
      {through : List Form} (hf : f.role = .function arity .apply)
      (ha : arity.accepts (Value.form next m :: args).length = true)
      (hnext : Applies next args through g rest) :
      Applies f (.form next m :: args) (f :: through) g rest

theorem Applies.length (happ : Applies f args through g rest) :
    through.length + rest.length = args.length := by
  induction happ with
  | here => exact Nat.zero_add _
  | apply hf ha hnext ih =>
    simp only [List.length_cons]
    omega

/-- An application gives what the last call gives, unwound through the functions before it. -/
theorem Applies.call_eq (happ : Applies f args through g rest) (r : Registry) (h : Heap) :
    f.call r h args =
      (through.foldr (fun caller => unwind caller.name) (g.call r h rest).1,
        (g.call r h rest).2) := by
  induction happ with
  | here => rfl
  | apply hf ha hnext ih =>
    rw [Form.call_eq, Form.callWith_of_accepts hf ha, Body.run, ih, List.foldr_cons]

theorem Applies.unwinds (happ : Applies f args through g rest)
    (hu : Unwinds Body.run r g h rest chain e) :
    Unwinds Body.run r f h args (through ++ chain) e := by
  induction happ with
  | here => exact hu
  | apply hf ha hnext ih =>
    -- The body that applies has no result but that of the call.
    refine .call ⟨_, _, hf, ha, fun e he => ?_⟩ (ih hu)
    rw [Body.run, Form.call_eq, he]

/-- Applying ends, at a call that does not apply on. -/
theorem exists_applies (f : Form) (args : List Value) :
    ∃ through g rest, Applies f args through g rest ∧
      ∀ g' rest', ¬ Applies g rest [g] g' rest' := by
  -- On the arguments: whatever `f` calls has those that are left.
  induction args generalizing f with
  | nil => exact ⟨[], f, [], .here, fun g' rest' happ => by cases happ⟩
  | cons v args ih =>
    by_cases happ : ∃ next, Applies f (v :: args) [f] next args
    · obtain ⟨next, happ⟩ := happ
      cases happ with
      | apply hf ha hnext =>
        cases hnext with
        | here =>
          obtain ⟨through, g, rest, hthrough, hend⟩ := ih next
          exact ⟨f :: through, g, rest, .apply hf ha hthrough, hend⟩
    · refine ⟨[], f, v :: args, .here, fun g' rest' hstep => happ ⟨g', ?_⟩⟩
      cases hstep with
      | apply hf ha hnext =>
        cases hnext with
        | here => exact .apply hf ha .here

end

/-- **Nested calls.** A call that fails at the end of a chain of calls fails with the cause and the
place of what happened there, and with the names of all functions of the chain, outermost first,
outside the frames that were there; written out, the frames go from the inside out. A function that
refuses the number of arguments leaves the heap, whatever its body, and a syntactic form adds no
frame. Applying is such a chain; it ends after no more calls than there are arguments. -/
theorem Form.nested_calls (r : Registry) (h : Heap) (f : Form) (args : List Value) :
    f.call r h args = f.callWith Body.run r h args ∧
    (∀ run chain e, Unwinds run r f h args chain e →
      ∃ c : Fault.Context, (f.callWith run r h args).1 = .error ⟨e.cause, some c⟩ ∧
        c = { e.context.getD {} with stack := chain.map (·.name) ++ e.stack } ∧
        c.render = { c with stack := [] }.render ++ "\n" ++ String.join
          ((e.stack.reverse ++ (chain.map (·.name)).reverse).map fun frame =>
            "  in " ++ frame ++ "\n")) ∧
    (∀ run arity body, f.role = .function arity body → arity.accepts args.length = false →
      f.callWith run r h args =
        (.error ⟨.arityMismatch arity args.length, some { stack := [f.name] }⟩, h)) ∧
    (∀ run, f.role = .syntactic →
      f.callWith run r h args = (.error ⟨.notCallable .form, none⟩, h)) ∧
    (∀ through g rest, Applies f args through g rest →
      through.length + rest.length = args.length ∧
      f.call r h args =
        (through.foldr (fun caller => unwind caller.name) (g.call r h rest).1,
          (g.call r h rest).2) ∧
      ∀ chain e, Unwinds Body.run r g h rest chain e →
        Unwinds Body.run r f h args (through ++ chain) e) ∧
    ∃ through g rest, Applies f args through g rest ∧
      ∀ g' rest', ¬ Applies g rest [g] g' rest' := by
  refine ⟨f.call_eq r h args, ?_, fun run arity body hf ha => callWith_of_refuses hf ha r h,
    fun run hf => callWith_of_syntactic hf r h,
    fun through g rest happ => ⟨happ.length, happ.call_eq r h, fun chain e => happ.unwinds⟩,
    exists_applies f args⟩
  intro run chain e hu
  refine ⟨_, hu.callWith_eq, rfl, ?_⟩
  rw [Fault.Context.render_eq _ (by simp [hu.chain_ne_nil]), List.reverse_append]

/-- A function that applies its first argument. -/
def applier (id : FormId) (name : String) : Form := ⟨id, name, .function (.variadic 1) .apply⟩

/-- A function that fails in a place and a frame of its own. -/
def failing : Form :=
  ⟨2, "failing", .function (.exact 1) (.primitive
    (.undefined { source := some "main", line := some 3, column := some 7, stack := ["load"] }))⟩

theorem nested_calls_failing :
    ∃ c : Fault.Context,
      ((applier 0 "outer").call (Registry.bootstrap {}).1 (Registry.bootstrap {}).2
        [.form (applier 1 "inner") 5, .form failing 5, .string "x" 4]).1 =
        .error ⟨.undefinedName "x", some c⟩ ∧
      c.stack = ["outer", "inner", "failing", "load"] ∧
      c.render = "at main:3:7\n  in load\n  in failing\n  in inner\n  in outer\n" := by
  have happ : Applies (applier 0 "outer")
      [.form (applier 1 "inner") 5, .form failing 5, .string "x" 4]
      [applier 0 "outer", applier 1 "inner"] failing [.string "x" 4] :=
    .apply rfl rfl (.apply rfl rfl .here)
  obtain ⟨hcall, hframes, -⟩ := Form.nested_calls (Registry.bootstrap {}).1
    (Registry.bootstrap {}).2 (applier 0 "outer")
    [.form (applier 1 "inner") 5, .form failing 5, .string "x" 4]
  obtain ⟨c, hc, rfl, hrender⟩ :=
    hframes _ _ _ (happ.unwinds (.body rfl rfl (by rw [Body.run]; rfl)))
  exact ⟨_, hcall ▸ hc, rfl, hrender.trans (by decide)⟩

end Offside
