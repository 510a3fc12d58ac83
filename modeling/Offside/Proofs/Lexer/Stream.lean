import Offside.Proofs.Lexer.History
import Offside.Proofs.Lexer.TokenLanguage

/-!
# Well formed streams

A stream is lines, dedents and the end of input. A line is its head (one indent, or dedents),
visible tokens and a newline, which only the last line may lack. `IsStream` states this of a list of
tokens, `Nested` that its blocks are opened before they are closed.

Results:
* `IsStream.place`: where in the grammar each token of a stream stands.
* `IsStream.wellFormed`: what a parser can rely on follows from the form of the stream.
-/

namespace Offside

/-! ## Brackets -/

/-- The number of open brackets after a token. A closing bracket too many is ignored. -/
def bracketStep (depth : Nat) (t : Token) : Nat :=
  match t.content with
  | .symbol .leftParen | .symbol .leftBracket => depth + 1
  | .symbol .rightParen | .symbol .rightBracket => depth - 1
  | _ => depth

/-- The number of open brackets after tokens. -/
def bracketDepth (ts : List Token) : Nat := ts.foldl bracketStep 0

theorem bracketStep_of_layout {depth : Nat} {t : Token} (h : t.content.isVisible = false) :
    bracketStep depth t = depth := by
  unfold bracketStep
  cases hc : t.content <;> simp_all [Token.Content.isVisible]

theorem bracketDepth_snoc (ts : List Token) (t : Token) :
    bracketDepth (ts ++ [t]) = bracketStep (bracketDepth ts) t := by
  simp [bracketDepth]

/-- Where no bracket is open, the depth is counted anew. -/
theorem bracketDepth_append {a : List Token} (b : List Token) (h : bracketDepth a = 0) :
    bracketDepth (a ++ b) = bracketDepth b := by
  unfold bracketDepth at h ⊢
  rw [List.foldl_append, h]

theorem bracketDepth_of_layout {ts : List Token} (h : ∀ t ∈ ts, t.content.isVisible = false) :
    bracketDepth ts = 0 := by
  induction ts with
  | nil => rfl
  | cons t ts ih =>
    have ht : bracketDepth [t] = 0 := bracketStep_of_layout (h t (by simp))
    have hts := ih fun u hu => h u (by simp [hu])
    rw [← List.singleton_append, bracketDepth_append ts ht, hts]

/-! ## Nesting -/

def indents (ts : List Token) : Nat := ts.countP (·.content = .indent)

def dedents (ts : List Token) : Nat := ts.countP (·.content = .dedent)

theorem indents_append (a b : List Token) : indents (a ++ b) = indents a + indents b :=
  List.countP_append

theorem dedents_append (a b : List Token) : dedents (a ++ b) = dedents a + dedents b :=
  List.countP_append

theorem dedents_replicate {n : Nat} {d : Token} (hd : d.content = .dedent) :
    dedents (List.replicate n d) = n := by
  simp [dedents, List.countP_replicate, hd]

/-- No part of the tokens from the start on closes more blocks than it opens, and all of them leave
`n` open. -/
def Nested (ts : List Token) (n : Nat) : Prop :=
  (∀ p, p <+: ts → dedents p ≤ indents p) ∧ indents ts = dedents ts + n

theorem nested_nil : Nested [] 0 := by
  refine ⟨?_, rfl⟩
  intro p hp
  rw [List.prefix_nil.1 hp]; exact Nat.le_refl _

theorem Nested.snoc {ts : List Token} {t : Token} {m n : Nat} (h : Nested ts m)
    (hn : m + indents [t] = n + dedents [t]) : Nested (ts ++ [t]) n := by
  obtain ⟨hpre, hall⟩ := h
  have hi := indents_append ts [t]
  have hd := dedents_append ts [t]
  refine ⟨?_, by omega⟩
  intro p hp
  rcases List.prefix_concat_iff.1 hp with rfl | hp
  · omega
  · exact hpre p hp

theorem Nested.close {ts : List Token} {d : Token} {n : Nat} (h : Nested ts n)
    (hd : d.content = .dedent) : Nested (ts ++ List.replicate n d) 0 := by
  induction n generalizing ts with
  | zero => simpa using h
  | succ n ih =>
    have hstep : Nested (ts ++ [d]) n := h.snoc (by simp [indents, dedents, hd])
    rw [List.replicate_succ, ← List.singleton_append, ← List.append_assoc]
    exact ih hstep

/-! ## Lines -/

/-- The head of a line: one indent, or dedents, or nothing. -/
def IsHead (marks : List Token) : Prop :=
  marks.map Token.content = [.indent] ∨ ∀ m ∈ marks, m.content = .dedent

/-- A line without its newline. -/
def IsOpenLine (ts : List Token) : Prop :=
  ∃ marks body, ts = marks ++ body ∧ IsHead marks ∧ body ≠ [] ∧
    ∀ t ∈ body, t.content.isVisible = true

/-- A line. If brackets join lines, they are closed where it ends. -/
def IsFullLine (joins : Bool) (ts : List Token) : Prop :=
  ∃ line t, ts = line ++ [t] ∧ IsOpenLine line ∧ t.content = .newline ∧
    (joins = true → bracketDepth line = 0)

/-- Any number of lines. -/
def IsLines (joins : Bool) (ts : List Token) : Prop :=
  ∃ lines : List (List Token), ts = lines.flatten ∧ ∀ x ∈ lines, IsFullLine joins x

/-- Lines, the last of which may lack its newline, dedents and the end of input. -/
def IsStream (joins : Bool) (ts : List Token) : Prop :=
  ∃ lines last closing t, ts = lines ++ last ++ closing ++ [t] ∧ IsLines joins lines ∧
    (last = [] ∨ IsOpenLine last) ∧ (∀ d ∈ closing, d.content = .dedent) ∧
    t.content = .endOfInput

theorem IsHead.content {marks : List Token} {m : Token} (h : IsHead marks) (hm : m ∈ marks) :
    m.content = .indent ∨ m.content = .dedent := by
  rcases h with h | h
  · have hmem := List.mem_map_of_mem (f := Token.content) hm
    rw [h] at hmem
    exact Or.inl (List.mem_singleton.1 hmem)
  · exact Or.inr (h m hm)

theorem IsHead.eq_singleton {marks : List Token} {m : Token} (h : IsHead marks) (hm : m ∈ marks)
    (hi : m.content = .indent) : marks = [m] := by
  rcases h with h | h
  · obtain ⟨u, rfl, -⟩ := List.map_eq_singleton_iff.1 h
    rw [List.mem_singleton.1 hm]
  · rw [h m hm] at hi; cases hi

theorem IsHead.isVisible {marks : List Token} (h : IsHead marks) :
    ∀ m ∈ marks, m.content.isVisible = false := by
  intro m hm
  rcases h.content hm with hc | hc <;> rw [hc] <;> rfl

theorem IsOpenLine.exists_last {line : List Token} (h : IsOpenLine line) :
    ∃ c u, line = c ++ [u] ∧ u.content.isVisible = true := by
  obtain ⟨marks, body, rfl, -, hne, hbody⟩ := h
  rcases List.eq_nil_or_concat body with rfl | ⟨c, u, rfl⟩
  · exact absurd rfl hne
  · refine ⟨marks ++ c, u, by simp, hbody u (by simp)⟩

theorem IsFullLine.bracketDepth {x : List Token} (h : IsFullLine true x) : bracketDepth x = 0 := by
  obtain ⟨line, t, rfl, -, ht, hdepth⟩ := h
  rw [bracketDepth_snoc, bracketStep_of_layout (by rw [ht]; rfl), hdepth rfl]

theorem isLines_nil (joins : Bool) : IsLines joins [] := ⟨[], rfl, by simp⟩

theorem IsLines.snoc {joins : Bool} {ts x : List Token} (h : IsLines joins ts)
    (hx : IsFullLine joins x) : IsLines joins (ts ++ x) := by
  obtain ⟨lines, rfl, hlines⟩ := h
  refine ⟨lines ++ [x], by simp, ?_⟩
  intro y hy
  rcases List.mem_append.1 hy with hy | hy
  · exact hlines y hy
  · rw [List.mem_singleton.1 hy]; exact hx

theorem IsLines.bracketDepth {ts : List Token} (h : IsLines true ts) : bracketDepth ts = 0 := by
  obtain ⟨lines, rfl, hlines⟩ := h
  induction lines with
  | nil => rfl
  | cons x lines ih =>
    have hx := (hlines x (by simp)).bracketDepth
    rw [List.flatten_cons, bracketDepth_append _ hx]
    exact ih fun y hy => hlines y (by simp [hy])

/-! ## Places -/

/-- The tokens of a stream before and after a token, by where in the grammar it stands. -/
inductive Place (joins : Bool) (a : List Token) (t : Token) (b : List Token) : Prop
  | visible (h : t.content.isVisible = true)
  /-- At the end of a line. -/
  | newline {lines line : List Token} (ht : t.content = .newline) (hlines : IsLines joins lines)
      (hline : IsOpenLine line) (hdepth : joins = true → bracketDepth line = 0)
      (ha : a = lines ++ line)
  /-- In the head of a line. -/
  | mark {lines marks more rest : List Token} {u : Token} (hlines : IsLines joins lines)
      (hhead : IsHead (marks ++ t :: more)) (ha : a = lines ++ marks) (hb : b = more ++ u :: rest)
      (hu : u.content.isVisible = true)
  /-- After all lines. -/
  | final (h : ∀ u ∈ t :: b, u.content = .dedent ∨ u.content = .endOfInput)

section

variable {joins : Bool} {ts lines line a b rest : List Token} {t : Token}

theorem IsOpenLine.place (h : IsOpenLine line) (hlines : IsLines joins lines)
    (hline : line = a ++ t :: b) : Place joins (lines ++ a) t (b ++ rest) := by
  obtain ⟨marks, body, rfl, hhead, hne, hbody⟩ := h
  rcases append_eq_append_cons hline with ⟨more, rfl, rfl⟩ | ⟨a', -, rfl⟩
  · obtain ⟨u, body, rfl⟩ := List.exists_cons_of_ne_nil hne
    exact .mark hlines hhead rfl (List.append_assoc more (u :: body) rest) (hbody u (by simp))
  · exact .visible (hbody t (by simp))

theorem IsFullLine.place {x : List Token} (h : IsFullLine joins x) (hlines : IsLines joins lines)
    (hx : x = a ++ t :: b) : Place joins (lines ++ a) t (b ++ rest) := by
  obtain ⟨line, n, rfl, hline, hn, hdepth⟩ := h
  rcases snoc_eq_append_cons hx with ⟨b', hline', rfl⟩ | ⟨rfl, rfl, -⟩
  · rw [List.append_assoc]
    exact hline.place hlines hline'
  · exact .newline hn hlines hline hdepth rfl

/-- A token stands in one of the lines or after them. The induction adds the line before it to those
that lie behind. -/
theorem IsLines.place (h : IsLines joins ts) (hlines : IsLines joins lines)
    (hts : ts ++ rest = a ++ t :: b) :
    Place joins (lines ++ a) t b ∨ ∃ a', a = ts ++ a' ∧ rest = a' ++ t :: b := by
  obtain ⟨xs, rfl, hxs⟩ := h
  induction xs generalizing lines a with
  | nil => exact Or.inr ⟨a, rfl, hts⟩
  | cons x xs ih =>
    have hx := hxs x (by simp)
    rw [List.flatten_cons, List.append_assoc] at hts
    rcases append_eq_append_cons hts with ⟨b', hxt, rfl⟩ | ⟨a', rfl, hrest⟩
    · exact Or.inl (hx.place hlines hxt)
    · rcases ih (hlines.snoc hx) (fun y hy => hxs y (by simp [hy])) hrest with
        hplace | ⟨a'', rfl, hrest'⟩
      · rw [List.append_assoc] at hplace
        exact Or.inl hplace
      · exact Or.inr ⟨a'', by simp, hrest'⟩

theorem IsStream.place (h : IsStream joins ts) (hts : ts = a ++ t :: b) : Place joins a t b := by
  obtain ⟨lines, last, closing, e, rfl, hlines, hlast, hclosing, he⟩ := h
  rw [List.append_assoc, List.append_assoc] at hts
  rcases hlines.place (isLines_nil joins) hts with hplace | ⟨a', rfl, hrest⟩
  · exact hplace
  · rcases append_eq_append_cons hrest with ⟨b', hline, rfl⟩ | ⟨a'', -, hend⟩
    · rcases hlast with rfl | hopen
      · simp at hline
      · exact hopen.place hlines hline
    · refine .final fun u hu => ?_
      have hmem : u ∈ closing ++ [e] := by
        rw [hend]; exact List.mem_append_right _ hu
      rcases List.mem_append.1 hmem with hu | hu
      · exact Or.inl (hclosing u hu)
      · rw [List.mem_singleton.1 hu]; exact Or.inr he

end

/-! ## What a parser can rely on -/

/-- What a parser can rely on. `joins` says whether brackets join lines. -/
structure WellFormed (joins : Bool) (ts : List Token) : Prop where
  stream : IsStream joins ts
  ending : ∃ front t, ts = front ++ [t] ∧ t.content = .endOfInput ∧
    ∀ u ∈ front, u.content ≠ .endOfInput
  /-- Blocks are closed after they are opened, and all are closed in the end. -/
  nested : Nested ts 0
  /-- A newline comes after a visible token. -/
  newline : ∀ a t b, ts = a ++ t :: b → t.content = .newline →
    ∃ c u, a = c ++ [u] ∧ u.content.isVisible = true
  /-- A block starts with a visible token. -/
  indent : ∀ a t b, ts = a ++ t :: b → t.content = .indent →
    ∃ u c, b = u :: c ∧ u.content.isVisible = true
  dedent : ∀ a t u b, ts = a ++ t :: u :: b → t.content = .dedent → u.content ≠ .indent
  literal : ∀ t ∈ ts, t.literal?.isSome = true ↔
    t.kind = .identifier ∨ t.kind = .number ∨ t.kind = .string
  /-- If brackets join lines there is no layout inside them, the last dedents apart. -/
  joined : joins = true → ∀ a t b, ts = a ++ t :: b →
    (t.content = .newline ∨ t.content = .indent ∨
      t.content = .dedent ∧ ∃ u ∈ b, u.content ≠ .dedent ∧ u.content ≠ .endOfInput) →
    bracketDepth a = 0

section

variable {joins : Bool} {a b : List Token} {t : Token}

theorem Place.after_visible (h : Place joins a t b) (ht : t.content = .newline) :
    ∃ c u, a = c ++ [u] ∧ u.content.isVisible = true := by
  cases h with
  | visible hv => rw [ht] at hv; cases hv
  | @newline lines line _ _ hline _ ha =>
    obtain ⟨c, u, rfl, hu⟩ := hline.exists_last
    exact ⟨lines ++ c, u, by rw [ha, List.append_assoc], hu⟩
  | mark _ hhead =>
    rcases hhead.content (m := t) (by simp) with hc | hc <;> rw [ht] at hc <;> cases hc
  | final hf => rcases hf t (by simp) with hc | hc <;> rw [ht] at hc <;> cases hc

theorem Place.before_visible (h : Place joins a t b) (ht : t.content = .indent) :
    ∃ u c, b = u :: c ∧ u.content.isVisible = true := by
  cases h with
  | visible hv => rw [ht] at hv; cases hv
  | newline hn => rw [ht] at hn; cases hn
  | @mark _ marks more rest u _ hhead _ hb hu =>
    have hall := hhead.eq_singleton (m := t) (by simp) ht
    have hlen := congrArg List.length hall
    have hmore : more = [] := by
      simp only [List.length_append, List.length_cons, List.length_nil] at hlen
      exact List.length_eq_zero_iff.1 (by omega)
    exact ⟨u, rest, by rw [hb, hmore]; rfl, hu⟩
  | final hf => rcases hf t (by simp) with hc | hc <;> rw [ht] at hc <;> cases hc

theorem Place.not_before_indent {u : Token} (h : Place joins a t (u :: b))
    (ht : t.content = .dedent) : u.content ≠ .indent := by
  intro hu
  cases h with
  | visible hv => rw [ht] at hv; cases hv
  | newline hn => rw [ht] at hn; cases hn
  | @mark _ marks more _ v _ hhead _ hb hv =>
    cases more with
    | nil => cases hb; rw [hu] at hv; cases hv
    | cons m more =>
      obtain ⟨rfl, -⟩ := List.cons.inj hb
      have hall := hhead.eq_singleton (m := u) (by simp) hu
      have hlen := congrArg List.length hall
      simp only [List.length_append, List.length_cons, List.length_nil] at hlen
      omega
  | final hf => rcases hf u (by simp) with hc | hc <;> rw [hu] at hc <;> cases hc

theorem Place.bracketDepth (h : Place true a t b)
    (ht : t.content = .newline ∨ t.content = .indent ∨
      t.content = .dedent ∧ ∃ u ∈ b, u.content ≠ .dedent ∧ u.content ≠ .endOfInput) :
    bracketDepth a = 0 := by
  cases h with
  | visible hv => rcases ht with hc | hc | ⟨hc, -⟩ <;> rw [hc] at hv <;> cases hv
  | newline _ hlines _ hdepth ha =>
    rw [ha, bracketDepth_append _ hlines.bracketDepth, hdepth rfl]
  | @mark _ marks _ _ _ hlines hhead ha =>
    have hmarks : ∀ m ∈ marks, m.content.isVisible = false :=
      fun m hm => hhead.isVisible m (by simp [hm])
    rw [ha, bracketDepth_append _ hlines.bracketDepth, bracketDepth_of_layout hmarks]
  | final hf =>
    exfalso
    rcases ht with hc | hc | ⟨-, u, hu, hd, he⟩
    · rcases hf t (by simp) with h' | h' <;> rw [hc] at h' <;> cases h'
    · rcases hf t (by simp) with h' | h' <;> rw [hc] at h' <;> cases h'
    · rcases hf u (by simp [hu]) with h' | h'
      · exact hd h'
      · exact he h'

end

theorem IsOpenLine.content_ne {line : List Token} {t : Token} (h : IsOpenLine line)
    (ht : t ∈ line) : t.content ≠ .endOfInput := by
  obtain ⟨marks, body, rfl, hhead, -, hbody⟩ := h
  intro hend
  rcases List.mem_append.1 ht with ht | ht
  · rcases hhead.content ht with hc | hc <;> rw [hend] at hc <;> cases hc
  · have hv := hbody t ht
    rw [hend] at hv; cases hv

theorem IsLines.content_ne {joins : Bool} {ts : List Token} {t : Token} (h : IsLines joins ts)
    (ht : t ∈ ts) : t.content ≠ .endOfInput := by
  obtain ⟨lines, rfl, hlines⟩ := h
  obtain ⟨x, hx, ht⟩ := List.mem_flatten.1 ht
  obtain ⟨line, n, rfl, hline, hn, -⟩ := hlines x hx
  rcases List.mem_append.1 ht with ht | ht
  · exact hline.content_ne ht
  · rw [List.mem_singleton.1 ht, hn]; simp

theorem IsStream.ending {joins : Bool} {ts : List Token} (h : IsStream joins ts) :
    ∃ front t, ts = front ++ [t] ∧ t.content = .endOfInput ∧
      ∀ u ∈ front, u.content ≠ .endOfInput := by
  obtain ⟨lines, last, closing, t, rfl, hlines, hlast, hclosing, ht⟩ := h
  refine ⟨lines ++ last ++ closing, t, rfl, ht, ?_⟩
  intro u hu
  simp only [List.mem_append] at hu
  rcases hu with (hu | hu) | hu
  · exact hlines.content_ne hu
  · rcases hlast with rfl | hopen
    · cases hu
    · exact hopen.content_ne hu
  · rw [hclosing u hu]; simp

theorem IsStream.wellFormed {joins : Bool} {ts : List Token} (h : IsStream joins ts)
    (hn : Nested ts 0) : WellFormed joins ts where
  stream := h
  ending := h.ending
  nested := hn
  newline a t b hts ht := (h.place hts).after_visible ht
  indent a t b hts ht := (h.place hts).before_visible ht
  dedent a t u b hts ht := (h.place hts).not_before_indent ht
  literal t _ := by
    rw [Token.literal?, Token.kind, Token.Content.literal?_isSome]
    cases t.content <;> simp [Token.Content.kind, Token.Kind.hasLiteral]
  joined hj a t b hts ht := by
    subst hj
    exact (h.place hts).bracketDepth ht

end Offside
