import Offside.Proofs.Decimal.Numerals
import Offside.Tree.Node

/-!
# The text of a tree tells it apart

A literal and a first child stand at the same place of an s-expression, and a string may hold any
characters. Each part can still be told from what follows it: a kind and a bare literal end at a
blank or a closing bracket, a string at the first double quote that no backslash stands before, a
tree at its bracket. So each part is cancelled from the front of two equal texts in turn. What the
text says of a tree is the tree itself, but for origins and metatables: `Node.erased` makes these
the same throughout.

Results:
* `Text.escape_append_inj`: escaped texts, with the quote after them.
* `Heap.written_append_inj`: literals.
* `Node.render_append_inj`: trees, by induction over them.
* `Node.same_erased`: origins and metatables do not matter when trees are compared.
* `Node.render_unambiguous`: trees with the same text are the same.
-/

namespace Offside

open Text

/-! ## Where a part ends -/

/-- Does the text begin with a blank or a closing bracket? -/
def Stops (text : List Char) : Prop := ∃ c cs, text = c :: cs ∧ (c = ' ' ∨ c = ')')

/-- May the text stand before one that stops? It has none of the characters that stop it. -/
def Unstopped (text : List Char) : Prop := ∀ c ∈ text, c ≠ ' ' ∧ c ≠ ')'

theorem takeWhile_unstopped {a x : List Char} (ha : Unstopped a) (hx : Stops x) :
    (a ++ x).takeWhile (fun c => c ≠ ' ' ∧ c ≠ ')') = a := by
  obtain ⟨c, cs, rfl, hc⟩ := hx
  rw [List.takeWhile_append_of_pos (by simpa [Unstopped] using ha),
    List.takeWhile_cons_of_neg (by simpa using fun h => hc.resolve_left h), List.append_nil]

theorem Unstopped.append_inj {a b x y : List Char} (ha : Unstopped a) (hb : Unstopped b)
    (hx : Stops x) (hy : Stops y) (h : a ++ x = b ++ y) : a = b ∧ x = y := by
  have hab : a = b := by
    rw [← takeWhile_unstopped ha hx, ← takeWhile_unstopped hb hy, h]
  subst hab
  exact ⟨rfl, List.append_cancel_left h⟩

namespace Text

theorem escapeLetter?_inj {c d e : Char} (hc : escapeLetter? c = some e)
    (hd : escapeLetter? d = some e) : c = d := by
  have hback := unescapeLetter?_of_escapeLetter? hc
  rw [unescapeLetter?_of_escapeLetter? hd] at hback
  exact (Option.some.inj hback).symm

/-- Written text never begins with the quote that ends it. -/
theorem escape_cons_ne (c : Char) (cs x y : List Char) : '"' :: x ≠ escape (c :: cs) ++ y := by
  rw [escape]
  split
  · simp
  · next hnone =>
    rintro ⟨⟩
    simp [escapeLetter?] at hnone

/-- An escaped text ends at the first quote that is not escaped. -/
theorem escape_append_inj {s t x y : List Char} (h : escape s ++ '"' :: x = escape t ++ '"' :: y) :
    s = t ∧ x = y := by
  induction s generalizing t with
  | nil =>
    cases t with
    | nil => exact ⟨rfl, (List.cons.inj h).2⟩
    | cons d t => exact absurd h (escape_cons_ne d t x _)
  | cons c s ih =>
    cases t with
    | nil => exact absurd h.symm (escape_cons_ne c s y _)
    | cons d t =>
      rw [escape, escape] at h
      -- A character that is not escaped is no backslash, which begins one that is.
      have hback : ∀ {a : Char}, escapeLetter? a = none → '\\' ≠ a := by
        rintro a ha rfl
        simp [escapeLetter?] at ha
      cases hc : escapeLetter? c with
      | some e =>
        cases hd : escapeLetter? d with
        | some e' =>
          simp only [hc, hd, List.cons_append, List.cons.injEq, true_and] at h
          obtain ⟨rfl, h⟩ := h
          obtain ⟨rfl, hxy⟩ := ih h
          exact ⟨by rw [escapeLetter?_inj hc hd], hxy⟩
        | none =>
          simp only [hc, hd, List.cons_append, List.cons.injEq] at h
          exact absurd h.1 (hback hd)
      | none =>
        cases hd : escapeLetter? d with
        | some e' =>
          simp only [hc, hd, List.cons_append, List.cons.injEq] at h
          exact absurd h.1.symm (hback hc)
        | none =>
          simp only [hc, hd, List.cons_append, List.cons.injEq] at h
          obtain ⟨rfl, h⟩ := h
          obtain ⟨rfl, hxy⟩ := ih h
          exact ⟨rfl, hxy⟩

end Text

theorem Literal.quote_append_inj {s t : String} {x y : List Char}
    (h : (quote s).toList ++ x = (quote t).toList ++ y) : s = t ∧ x = y := by
  simp only [quote, String.toList_ofList, List.cons_append, List.append_assoc, List.nil_append,
    List.cons.injEq, true_and] at h
  obtain ⟨hst, hxy⟩ := escape_append_inj h
  exact ⟨String.toList_inj.1 hst, hxy⟩

/-! ## Literals -/

namespace Value

/-- Is the value nil, a boolean or a finite number, which are written without quotes? -/
def Bare : Value → Prop
  | nil _ | boolean _ _ => True
  | number x _ => x.isFinite = true
  | string _ _ | table _ | form _ _ => False

/-- Is the value a literal that a source can hold: bare, or a string? -/
def Plain : Value → Prop
  | string _ _ => True
  | v => v.Bare

theorem same_withMetatable (v w : Value) (metatable : TableId) :
    (v.withMetatable metatable).same (w.withMetatable metatable) = v.same w := by
  cases v <;> cases w <;> rfl

theorem Plain.same_self {v : Value} (h : v.Plain) : v.same v = true := by
  cases v with
  | nil m => rfl
  | boolean b m => exact beq_self_eq_true b
  | number x m => exact Decimal.beq_self_of_isFinite h
  | string s m => exact beq_self_eq_true s
  | table | form => exact h.elim

theorem Plain.cases {v : Value} (h : v.Plain) : (∃ s m, v = string s m) ∨ v.Bare := by
  cases v with
  | string s m => exact Or.inl ⟨s, m, rfl⟩
  | nil | boolean | number | table | form => exact Or.inr h

end Value

namespace Heap

/-- The characters that bare literals are written with. -/
def isBareChar (c : Char) : Bool := c.isAlpha || c.isDigit || c = '.' || c = '-'

variable {h h' : Heap} {v w : Value}

/-- Bare literals are written with letters, digits, points and signs. -/
theorem all_written (hv : v.Bare) : (h.written v).toList.all isBareChar = true := by
  cases v with
  | nil m => exact (by decide : "nil".toList.all isBareChar = true)
  | boolean b m => exact (by cases b <;> decide : (toString b).toList.all isBareChar = true)
  | number x m =>
    refine List.all_eq_true.2 fun c hc => ?_
    rcases Decimal.mem_render hv hc with hdigit | rfl | rfl
    · simp [isBareChar, hdigit]
    · rfl
    · rfl
  | string | table | form => exact hv.elim

theorem written_ne_nil (hv : v.Bare) : (h.written v).toList ≠ [] := by
  cases v with
  | nil m => exact (by decide : "nil".toList ≠ [])
  | boolean b m => exact (by cases b <;> decide : (toString b).toList ≠ [])
  | number x m => exact Decimal.render_ne_nil hv
  | string | table | form => exact hv.elim

theorem unstopped_written (hv : v.Bare) : Unstopped (h.written v).toList := by
  intro c hc
  have hchar := List.all_eq_true.1 (all_written hv) c hc
  constructor
  · rintro rfl; cases hchar
  · rintro rfl; cases hchar

theorem toList_written_string (s : String) (m : TableId) :
    (h.written (.string s m)).toList = '"' :: (escape s.toList ++ ['"']) := by
  simp [written, Literal.quote]

/-- No literal begins with a bracket, and a bare one begins with no quote. -/
theorem written_head (hv : v.Plain) :
    ∃ c cs, (h.written v).toList = c :: cs ∧ c ≠ '(' ∧ (v.Bare → c ≠ '"') := by
  rcases hv.cases with ⟨s, m, rfl⟩ | hbare
  · exact ⟨'"', _, toList_written_string s m, by decide, fun hbare => hbare.elim⟩
  · obtain ⟨c, cs, htext⟩ := List.exists_cons_of_ne_nil (written_ne_nil (h := h) hbare)
    have hchar := List.all_eq_true.1 (all_written (h := h) hbare) c (by rw [htext]; simp)
    refine ⟨c, cs, htext, ?_, fun _ => ?_⟩
    · rintro rfl; cases hchar
    · rintro rfl; cases hchar

/-- A word, which has other characters, is not the text of a number. -/
theorem render_ne_word {x : Float} (hx : x.isFinite = true) (word : String)
    (hword : (word.toList.all fun c => c.isDigit || c = '.' || c = '-') = false) :
    Decimal.render x ≠ word := by
  rintro rfl
  rw [List.all_eq_true.2 fun c hc => by simpa [or_assoc] using Decimal.mem_render hx hc] at hword
  cases hword

/-- Bare literals with the same text are the same, but for their metatables. -/
theorem eq_of_written (hv : v.Bare) (hw : w.Bare) (htext : h.written v = h'.written w)
    (metatable : TableId) : v.withMetatable metatable = w.withMetatable metatable := by
  have hboolean : ∀ b : Bool, toString b ≠ "nil" ∧
      ((toString b).toList.all fun c => c.isDigit || c = '.' || c = '-') = false := by decide
  cases v with
  | string | table | form => exact hv.elim
  | nil m =>
    cases w with
    | nil n => rfl
    | boolean b n => exact absurd htext.symm (hboolean b).1
    | number y n => exact absurd htext.symm (render_ne_word hw "nil" (by decide))
    | string | table | form => exact hw.elim
  | boolean b m =>
    cases w with
    | nil n => exact absurd htext (hboolean b).1
    | boolean c n =>
      have hinj : ∀ b c : Bool, toString b = toString c → b = c := by decide
      obtain rfl := hinj b c htext
      rfl
    | number y n => exact absurd htext.symm (render_ne_word hw _ (hboolean b).2)
    | string | table | form => exact hw.elim
  | number x m =>
    cases w with
    | nil n => exact absurd htext (render_ne_word hv "nil" (by decide))
    | boolean b n => exact absurd htext (render_ne_word hv _ (hboolean b).2)
    | number y n =>
      obtain rfl := Decimal.render_inj hv hw htext
      rfl
    | string | table | form => exact hw.elim

/-- Before a blank or a closing bracket a literal ends. -/
theorem written_append_inj (hv : v.Plain) (hw : w.Plain) {x y : List Char} (hx : Stops x)
    (hy : Stops y) (htext : (h.written v).toList ++ x = (h'.written w).toList ++ y)
    (metatable : TableId) : v.withMetatable metatable = w.withMetatable metatable ∧ x = y := by
  rcases hv.cases with ⟨s, m, rfl⟩ | hbare <;> rcases hw.cases with ⟨t, n, rfl⟩ | hbare'
  · obtain ⟨rfl, hxy⟩ := Literal.quote_append_inj htext
    exact ⟨rfl, hxy⟩
  · obtain ⟨c, cs, hc, -, hquote⟩ := written_head (h := h') hw
    rw [hc, toList_written_string] at htext
    exact absurd (List.cons.inj htext).1.symm (hquote hbare')
  · obtain ⟨c, cs, hc, -, hquote⟩ := written_head (h := h) hv
    rw [hc, toList_written_string] at htext
    exact absurd (List.cons.inj htext).1 (hquote hbare)
  · obtain ⟨heq, hxy⟩ := (unstopped_written hbare).append_inj (unstopped_written hbare') hx hy htext
    exact ⟨eq_of_written hbare hbare' (String.toList_inj.1 heq) metatable, hxy⟩

end Heap

namespace Node

/-- Can the tree be told from its text? Kinds hold no blank, bracket or double quote, and literals
are nil, booleans, strings and finite numbers, throughout. -/
inductive Legible : Node → Prop
  | mk {n : Node} (kind : ∀ c ∈ n.kind.toList, c ≠ ' ' ∧ c ≠ '(' ∧ c ≠ ')' ∧ c ≠ '"')
      (literal : ∀ v, n.literal = some v → v.Plain) (children : ∀ c ∈ n.children, Legible c) :
      Legible n

/-! ## Comparison -/

mutual

/-- The tree with this origin at every node and this metatable at every literal. -/
def erased (origin : Origin) (metatable : TableId) : Node → Node
  | ⟨kind, literal, children, _⟩ =>
    ⟨kind, literal.map (·.withMetatable metatable), erasedAll origin metatable children, origin⟩

def erasedAll (origin : Origin) (metatable : TableId) : List Node → List Node
  | [] => []
  | n :: ns => n.erased origin metatable :: erasedAll origin metatable ns

end

theorem same_eq (a b : Node) :
    a.same b = (a.kind == b.kind && sameLiteral a.literal b.literal &&
      sameAll a.children b.children) := by
  cases a
  cases b
  rfl

theorem erased_eq (n : Node) (origin : Origin) (metatable : TableId) :
    n.erased origin metatable = ⟨n.kind, n.literal.map (·.withMetatable metatable),
      erasedAll origin metatable n.children, origin⟩ := by
  cases n
  rfl

theorem sameLiteral_withMetatable (u v : Option Value) (metatable : TableId) :
    sameLiteral (u.map (·.withMetatable metatable)) (v.map (·.withMetatable metatable)) =
      sameLiteral u v := by
  cases u with
  | none => cases v <;> rfl
  | some v' =>
    cases v with
    | none => rfl
    | some w => exact Value.same_withMetatable v' w metatable

mutual

/-- Origins and metatables do not matter. -/
theorem same_erased (origin : Origin) (metatable : TableId) :
    ∀ a b : Node, (a.erased origin metatable).same (b.erased origin metatable) = a.same b
  | ⟨_, u, ns, _⟩, ⟨_, v, ms, _⟩ => by
    rw [erased, erased, same, same, sameLiteral_withMetatable u v,
      sameAll_erased origin metatable ns ms]

theorem sameAll_erased (origin : Origin) (metatable : TableId) : ∀ ns ms : List Node,
    sameAll (erasedAll origin metatable ns) (erasedAll origin metatable ms) = sameAll ns ms
  | [], [] => rfl
  | [], _ :: _ => by simp [erasedAll, sameAll]
  | _ :: _, [] => by simp [erasedAll, sameAll]
  | n :: ns, m :: ms => by
    rw [erasedAll, erasedAll, sameAll, sameAll, same_erased origin metatable n m,
      sameAll_erased origin metatable ns ms]

end

theorem sameAll_self {ns : List Node} (h : ∀ n ∈ ns, n.same n = true) : sameAll ns ns = true := by
  induction ns with
  | nil => rfl
  | cons n ns ih =>
    rw [sameAll, h n List.mem_cons_self, ih fun m hm => h m (List.mem_cons_of_mem n hm)]
    rfl

theorem Legible.same_self {a : Node} (h : a.Legible) : a.same a = true := by
  induction h with
  | @mk a _ hliteral _ ih =>
    have hliterals : sameLiteral a.literal a.literal = true := by
      cases hv : a.literal with
      | none => rfl
      | some v => exact (hliteral v hv).same_self
    rw [same_eq, hliterals, sameAll_self ih, beq_self_eq_true]
    rfl

/-! ## Trees -/

theorem toList_render (h : Heap) (n : Node) (rest : List Char) :
    (n.render h).toList ++ rest = '(' :: (n.kind.toList ++ ((renderLiteral h n.literal).toList ++
      ((renderAll h n.children).toList ++ ')' :: rest))) := by
  cases n
  simp [render]

theorem toList_renderAll_cons (h : Heap) (n : Node) (ns : List Node) (rest : List Char) :
    (renderAll h (n :: ns)).toList ++ rest =
      ' ' :: ((n.render h).toList ++ ((renderAll h ns).toList ++ rest)) := by
  simp [renderAll]

/-- After a literal comes a closing bracket, or a blank and the bracket of a child. -/
theorem renderAll_head (h : Heap) (ns : List Node) (rest : List Char) :
    (∃ cs, (renderAll h ns).toList ++ ')' :: rest = ')' :: cs) ∨
      ∃ cs, (renderAll h ns).toList ++ ')' :: rest = ' ' :: '(' :: cs := by
  cases ns with
  | nil => exact Or.inl ⟨rest, rfl⟩
  | cons n ns =>
    rw [toList_renderAll_cons, toList_render]
    exact Or.inr ⟨_, rfl⟩

theorem stops_renderAll (h : Heap) (ns : List Node) (rest : List Char) :
    Stops ((renderAll h ns).toList ++ ')' :: rest) := by
  rcases renderAll_head h ns rest with ⟨cs, htext⟩ | ⟨cs, htext⟩
  · exact ⟨')', cs, htext, Or.inr rfl⟩
  · exact ⟨' ', '(' :: cs, htext, Or.inl rfl⟩

theorem stops_renderLiteral (h : Heap) (literal : Option Value) {rest : List Char}
    (hrest : Stops rest) : Stops ((renderLiteral h literal).toList ++ rest) := by
  cases literal with
  | none => exact hrest
  | some v => exact ⟨' ', (h.written v).toList ++ rest, by simp [renderLiteral], Or.inl rfl⟩

section

variable {h h' : Heap}

/-- A literal is never taken for a child: no literal begins with a bracket. -/
theorem literal_ne_children {v : Value} (hv : v.Plain) (ns : List Node) (rest x : List Char) :
    (renderAll h ns).toList ++ ')' :: rest ≠ (renderLiteral h' (some v)).toList ++ x := by
  obtain ⟨c, cs, hc, hbracket, -⟩ := Heap.written_head (h := h') hv
  have hliteral : (renderLiteral h' (some v)).toList ++ x = ' ' :: c :: (cs ++ x) := by
    simp [renderLiteral, hc]
  rw [hliteral]
  rcases renderAll_head h ns rest with ⟨ds, htext⟩ | ⟨ds, htext⟩
  · rw [htext]; simp
  · rw [htext]
    intro heq
    exact hbracket (List.cons.inj (List.cons.inj heq).2).1.symm

theorem literal_append_inj {u v : Option Value} (hu : ∀ x, u = some x → x.Plain)
    (hv : ∀ x, v = some x → x.Plain) {ns ms : List Node} {r s : List Char}
    (htext : (renderLiteral h u).toList ++ ((renderAll h ns).toList ++ ')' :: r) =
      (renderLiteral h' v).toList ++ ((renderAll h' ms).toList ++ ')' :: s))
    (metatable : TableId) :
    u.map (·.withMetatable metatable) = v.map (·.withMetatable metatable) ∧
      (renderAll h ns).toList ++ ')' :: r = (renderAll h' ms).toList ++ ')' :: s := by
  cases u with
  | none =>
    cases v with
    | none => exact ⟨rfl, htext⟩
    | some w => exact absurd htext (literal_ne_children (hv w rfl) ns r _)
  | some w =>
    cases v with
    | none => exact absurd htext.symm (literal_ne_children (hu w rfl) ms s _)
    | some w' =>
      simp only [renderLiteral, String.toList_append, List.append_assoc] at htext
      obtain ⟨hliteral, hrest⟩ := Heap.written_append_inj (hu w rfl) (hv w' rfl)
        (stops_renderAll h ns r) (stops_renderAll h' ms s) (List.append_cancel_left htext) metatable
      exact ⟨congrArg some hliteral, hrest⟩

/-- Children are cancelled one by one, given that each of the first list can be. -/
theorem renderAll_append_inj {origin : Origin} {metatable : TableId} {ns ms : List Node}
    {r s : List Char}
    (hns : ∀ n ∈ ns, ∀ {m : Node}, m.Legible → ∀ {x y : List Char},
      (n.render h).toList ++ x = (m.render h').toList ++ y →
        n.erased origin metatable = m.erased origin metatable ∧ x = y)
    (hms : ∀ m ∈ ms, m.Legible)
    (htext : (renderAll h ns).toList ++ ')' :: r = (renderAll h' ms).toList ++ ')' :: s) :
    erasedAll origin metatable ns = erasedAll origin metatable ms ∧ r = s := by
  induction ns generalizing ms with
  | nil =>
    cases ms with
    | nil => exact ⟨rfl, (List.cons.inj htext).2⟩
    | cons m ms =>
      rw [toList_renderAll_cons] at htext
      cases htext
  | cons n ns ih =>
    cases ms with
    | nil =>
      rw [toList_renderAll_cons] at htext
      cases htext
    | cons m ms =>
      rw [toList_renderAll_cons, toList_renderAll_cons] at htext
      obtain ⟨hsame, hrest⟩ := hns n List.mem_cons_self (hms m List.mem_cons_self)
        (List.cons.inj htext).2
      obtain ⟨hall, hrs⟩ := ih (fun k hk => hns k (List.mem_cons_of_mem n hk))
        (fun k hk => hms k (List.mem_cons_of_mem m hk)) hrest
      exact ⟨by rw [erasedAll, erasedAll, hsame, hall], hrs⟩

/-- **Cancellation.** A tree ends where its text says, whatever follows. -/
theorem render_append_inj {a b : Node} (ha : a.Legible) (hb : b.Legible) {r s : List Char}
    (htext : (a.render h).toList ++ r = (b.render h').toList ++ s) (origin : Origin)
    (metatable : TableId) :
    a.erased origin metatable = b.erased origin metatable ∧ r = s := by
  induction ha generalizing b r s with
  | @mk a hkind hliteral _ ih =>
    obtain ⟨hkind', hliteral', hchildren'⟩ := hb
    rw [toList_render, toList_render] at htext
    obtain ⟨hkinds, htext⟩ := Unstopped.append_inj
      (fun c hc => ⟨(hkind c hc).1, (hkind c hc).2.2.1⟩)
      (fun c hc => ⟨(hkind' c hc).1, (hkind' c hc).2.2.1⟩)
      (stops_renderLiteral h _ (stops_renderAll h _ r))
      (stops_renderLiteral h' _ (stops_renderAll h' _ s)) (List.cons.inj htext).2
    obtain ⟨hliterals, htext⟩ := literal_append_inj hliteral hliteral' htext metatable
    obtain ⟨hall, hrs⟩ := renderAll_append_inj (fun n hn _ hm _ _ => ih n hn hm) hchildren' htext
    refine ⟨?_, hrs⟩
    rw [erased_eq, erased_eq, String.toList_inj.1 hkinds, hliterals, hall]

end

/-- **No ambiguity.** Trees of any shape with the same text compare as the same, and they have the
same kinds, literals and children throughout: they are equal once they have the same origins and
metatables. The tables of the two heaps may hold anything. -/
theorem render_unambiguous {h h' : Heap} {a b : Node} (ha : a.Legible) (hb : b.Legible)
    (htext : a.render h = b.render h') :
    a.same b = true ∧
      ∀ origin metatable, a.erased origin metatable = b.erased origin metatable := by
  have herased : ∀ origin metatable, a.erased origin metatable = b.erased origin metatable :=
    fun origin metatable =>
      (render_append_inj ha hb (r := []) (s := []) (by rw [htext]) origin metatable).1
  refine ⟨?_, herased⟩
  rw [← same_erased a.origin 0 a b, ← herased a.origin 0, same_erased, ha.same_self]

/-- A call whose argument is a string that looks like the end of the tree. -/
def bracketTree (origin : Origin) (metatable : TableId) : Node :=
  ⟨"Call", some (.number (.ofBits 0xBFB999999999999A) metatable),
    [⟨"", some (.string "\") (nil" metatable), [], origin⟩,
      ⟨"", some (.nil metatable), [], origin⟩],
    origin⟩

theorem legible_bracketTree (origin : Origin) (metatable : TableId) :
    (bracketTree origin metatable).Legible := by
  refine .mk (by simp [bracketTree]) ?_ ?_
  · rintro v ⟨⟩
    show Float.isFinite _ = true
    decide +kernel
  · intro c hc
    rcases List.mem_cons.1 hc with rfl | hc
    · exact .mk (by simp) (by rintro v ⟨⟩; trivial) (by simp)
    · rw [List.mem_singleton.1 hc]
      exact .mk (by simp) (by rintro v ⟨⟩; trivial) (by simp)

theorem render_unambiguous_bracketTree :
    (bracketTree ⟨⟨"a", ""⟩, 0⟩ 3).render {} = "(Call -0.1 ( \"\\\") (nil\") ( nil))" ∧
      (bracketTree ⟨⟨"b", "x"⟩, 1⟩ 4).render {} = "(Call -0.1 ( \"\\\") (nil\") ( nil))" ∧
      (bracketTree ⟨⟨"a", ""⟩, 0⟩ 3).same (bracketTree ⟨⟨"b", "x"⟩, 1⟩ 4) = true ∧
      (bracketTree ⟨⟨"a", ""⟩, 0⟩ 3).erased ⟨⟨"c", ""⟩, 0⟩ 5 =
        (bracketTree ⟨⟨"b", "x"⟩, 1⟩ 4).erased ⟨⟨"c", ""⟩, 0⟩ 5 := by
  have ha : (bracketTree ⟨⟨"a", ""⟩, 0⟩ 3).render {} = "(Call -0.1 ( \"\\\") (nil\") ( nil))" := by
    decide +kernel
  have hb : (bracketTree ⟨⟨"b", "x"⟩, 1⟩ 4).render {} = "(Call -0.1 ( \"\\\") (nil\") ( nil))" := by
    decide +kernel
  obtain ⟨hsame, herased⟩ := render_unambiguous (legible_bracketTree ⟨⟨"a", ""⟩, 0⟩ 3)
    (legible_bracketTree ⟨⟨"b", "x"⟩, 1⟩ 4) (ha.trans hb.symm)
  exact ⟨ha, hb, hsame, herased _ _⟩

end Node

end Offside
