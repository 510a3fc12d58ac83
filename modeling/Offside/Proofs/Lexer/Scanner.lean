import Mathlib.Data.PFun
import Offside.Lexer.Basic
import Offside.Proofs.Lexer.Gap
import Offside.Proofs.Text.Slices

/-!
# A lexer of offsets

A scanner reads the same tokens as a lexer, but all it keeps of the text is an offset. To look at
the text it cuts it there, which may fail; it moves by the sizes of what it has seen; and its loops
go on until the text makes them stop. Its origins are the offsets as they are. Each function gives
nothing if it cuts the text where that cannot be done or if it never ends, so that a result means
that neither happens. Columns are not bounded here: where a lexer panics over a width the scanner
goes on.

Results:
* `loop_of_done`, `loop_of_next`: one step of a loop.
* `skipWhile_of_append`, `skipGap_of_append`, `measure_of_append`, `findLine_of_append`,
  `numberEnd_of_append`, `stringEnd_of_append`: from a boundary each loop ends, and where.
* `lexeme_of_append`: from a boundary a lexeme is read as from the characters behind it.
-/

namespace Offside

open Text

namespace Scanner

/-! ## Looking at the text -/

/-- The character `n` places after an offset, if the text goes on so far. -/
def peek (text : String) (n position : Nat) : Option (Option Char) := do
  let rest ← slice? text position text.utf8ByteSize
  some rest.toList[n]?

/-- The offset after the next character. -/
def advance (text : String) (position : Nat) : Option Nat := do
  match ← peek text 0 position with
  | some c => some (position + c.utf8Size)
  | none => some position

/-! ## Loops -/

noncomputable section

open Classical in
/-- Takes steps from `s` on until one gives a result. There is none if a step fails, and none if no
step ever gives it. -/
def loop {σ α : Type} (step : σ → Option (α ⊕ σ)) (s : σ) : Option α :=
  (PFun.fix (fun s => (step s : Part (α ⊕ σ))) s).toOption

theorem loop_of_done {σ α : Type} {step : σ → Option (α ⊕ σ)} {s : σ} {a : α}
    (h : step s = some (.inl a)) : loop step s = some a := by
  classical
  exact Part.toOption_eq_some_iff.2 (PFun.fix_stop (Part.mem_coe.2 h))

theorem loop_of_next {σ α : Type} {step : σ → Option (α ⊕ σ)} {s s' : σ}
    (h : step s = some (.inr s')) : loop step s = loop step s' := by
  have hfix := PFun.fix_fwd_eq (f := fun s => (step s : Part (α ⊕ σ))) (Part.mem_coe.2 h)
  unfold loop
  rw [hfix]

/-- Moves over the characters that meet `p`. -/
def skipWhile (p : Char → Bool) (text : String) : Nat → Option Nat :=
  loop fun position => do
    match ← peek text 0 position with
    | some c => if p c then some (.inr (← advance text position)) else some (.inl position)
    | none => some (.inl position)

/-- Moves to the end of a comment. -/
def skipComment (text : String) (position : Nat) : Option Nat :=
  skipWhile (· ≠ '\n') text position

/-- Moves over the gap before a token. -/
def skipGap (joins comments : Bool) (text : String) : Nat → Option Nat :=
  loop fun position => do
    match ← peek text 0 position with
    | some c =>
      if c = '\n' && !joins then some (.inl position)
      else if isBlank c then some (.inr (← advance text position))
      else if comments && c = '#' then some (.inr (← skipComment text position))
      else some (.inl position)
    | none => some (.inl position)

/-- Moves over the blanks at the start of a line and measures them. -/
def measure (config : Config) (text : String) (width position : Nat) : Option (Nat × Nat) :=
  loop (fun (width, position) => do
    match ← peek text 0 position with
    | some c =>
      if isBlank c && c ≠ '\n' then
        some (.inr (config.column width c, ← advance text position))
      else some (.inl (width, position))
    | none => some (.inl (width, position))) (width, position)

/-- Moves to the end of a comment, if one starts here. -/
def skipAnyComment (comments : Bool) (text : String) (position : Nat) : Option Nat := do
  if comments && (← peek text 0 position) = some '#' then skipComment text position
  else some position

/-- Looks for the first token of a line, which starts here. -/
def findToken (config : Config) (text : String) (position : Nat) :
    Option ((Option Lexer.Line × Nat) ⊕ Nat) := do
  let (width, stop) ← measure config text 0 position
  let stop ← skipAnyComment config.comments text stop
  match ← peek text 0 stop with
  | some c =>
    if c = '\n' then some (.inr (← advance text stop))
    else some (.inl (some ⟨position, width⟩, stop))
  | none => some (.inl (none, stop))

/-- Moves to the first token of the next line that holds one, if there is such a line. -/
def findLine (config : Config) (text : String) : Nat → Option (Option Lexer.Line × Nat) :=
  loop (findToken config text)

/-- Moves over a numeral, which may have one point before a digit. -/
def numberEnd (text : String) (dotted : Bool) (position : Nat) : Option Nat :=
  loop (fun (dotted, position) => do
    match ← peek text 0 position with
    | some c =>
      if c.isDigit then some (.inr (dotted, ← advance text position))
      else if c = '.' && !dotted && (← peek text 1 position).any Char.isDigit then
        some (.inr (true, ← advance text position))
      else some (.inl position)
    | none => some (.inl position)) (dotted, position)

/-- What a backslash and a character stand for in a string. -/
def unescaped (raw : Bool) (c : Char) : List Char :=
  if raw then ['\\', c]
  else
    match unescapeLetter? c with
    | some d => [d]
    | none => ['\\', c]

/-- Moves over the body of a string and its closing quote `q`, reading its value. There is none if
the line or the text ends first. -/
def stringEnd (raw : Bool) (q : Char) (text : String) (value : List Char) (position : Nat) :
    Option (Option (List Char) × Nat) :=
  loop (fun (value, position) => do
    match ← peek text 0 position with
    | some c =>
      if c = '\n' then some (.inl (none, position))
      else if c = q then some (.inl (some value, ← advance text position))
      else if c = '\\' then
        let position ← advance text position
        match ← peek text 0 position with
        | some d =>
          if d = '\n' then some (.inl (none, position))
          else some (.inr (value ++ unescaped raw d, ← advance text position))
        | none => some (.inl (none, position))
      else some (.inr (value ++ [c], ← advance text position))
    | none => some (.inl (none, position))) (value, position)

/-! ## Lexemes -/

/-- What was read, and the offset behind it. -/
abbrev Reading := Except LexError.Cause Token.Content × Nat

def number (text : String) (position : Nat) : Option Reading := do
  let stop ← numberEnd text false position
  let numeral ← slice? text position stop
  some (.ok (.number ((Decimal.parse? numeral.toList).getD 0)), stop)

def word (text : String) (position : Nat) : Option Reading := do
  let stop ← skipWhile isWordChar text position
  let word ← slice? text position stop
  some (.ok (.ofWord word.toList), stop)

/-- A string whose quote is the next character. -/
def string (raw : Bool) (text : String) (position : Nat) : Option Reading := do
  match ← peek text 0 position with
  | some q =>
    let (value, stop) ← stringEnd raw q text [] (← advance text position)
    match value with
    | some value => some (.ok (.string (String.ofList value)), stop)
    | none => some (.error .unterminatedString, stop)
  | none => some (.error .unterminatedString, position)

def symbol (text : String) (c : Char) (position : Nat) : Option Reading := do
  let rest ← slice? text position text.utf8ByteSize
  match Symbol.longest? rest.toList with
  | some s => some (.ok (.symbol s), position + byteLength s.letters)
  | none => some (.error (.unknownSymbol c), position)

/-- Reads the lexeme that starts with the character `c`, which is the next one. -/
def lexeme (text : String) (c : Char) (position : Nat) : Option Reading := do
  let second ← peek text 1 position
  if c.isDigit || (c = '.' && second.any Char.isDigit) then number text position
  else if isQuote c then string false text position
  else if c = 'r' && second.any isQuote then string true text (← advance text position)
  else if isWordStart c then word text position
  else symbol text c position

end

/-! ## Gaps, a piece at a time -/

theorem gap_of_isBlank {joins comments : Bool} {c : Char} {cs : List Char} (hc : isBlank c = true)
    (hfeed : c = '\n' → joins = true) :
    gap joins comments (c :: cs) = c :: gap joins comments cs := by
  unfold gap
  rw [Gap.scan]
  by_cases hn : c = '\n' <;> simp [hn, hc, hfeed]

theorem gap_of_comment (joins : Bool) {body next : List Char} (hbody : '\n' ∉ body)
    (hend : EndsComment next) :
    gap joins true ('#' :: (body ++ next)) = '#' :: (body ++ gap joins true next) := by
  unfold gap
  rw [Gap.scan, if_neg (by simp), if_neg (by simp), if_neg (by simp [isBlank_hash]),
    if_pos (by simp), Gap.scan_comment_append hbody, Gap.scan_comment_of_endsComment hend]

/-- The blanks that a line starts with. -/
def indentationOf (rest : List Char) : List Char := rest.takeWhile fun c => isBlank c && c ≠ '\n'

/-- The comment that a text starts with, if it does. -/
def commentOf (comments : Bool) (rest : List Char) : List Char :=
  if comments && rest.head? = some '#' then firstLine rest else []

/-- The next line that holds a token, `before` being read and `rest` left. -/
def lineAfter (config : Config) (before rest : List Char) : Option Lexer.Line :=
  let leading := gap true config.comments rest
  if (rest.drop leading.length).isEmpty then none
  else some ⟨byteLength (before ++ leading) - byteLength (lastLine leading),
    config.columns (lastLine leading)⟩

theorem lineAfter_of_gap {config : Config} {leading next : List Char} (before : List Char)
    (h : gap true config.comments (leading ++ next) = leading) :
    lineAfter config before (leading ++ next) =
      if next.isEmpty then none
      else some ⟨byteLength (before ++ leading) - byteLength (lastLine leading),
        config.columns (lastLine leading)⟩ := by
  simp only [lineAfter, h, List.drop_left]

/-- A line start is followed by blanks, perhaps by a comment, and then the text or the line ends or
a token begins. -/
theorem exists_lineEnd (comments : Bool) (rest : List Char) :
    ∃ tail next, rest = indentationOf rest ++ tail ∧ tail = commentOf comments tail ++ next ∧
      IsGap comments (indentationOf rest ++ commentOf comments tail) next ∧
      '\n' ∉ indentationOf rest ++ commentOf comments tail ∧
      (EndsComment next ∨ commentOf comments tail = [] ∧
        ∃ c cs, next = c :: cs ∧ beginsToken comments c = true) := by
  have hblank : ∀ c ∈ indentationOf rest, isBlank c = true ∧ c ≠ '\n' := by
    intro c hc
    simpa using List.mem_takeWhile_imp hc
  have hgap : ∀ next, IsGap comments (indentationOf rest) next :=
    IsGap.of_isBlank fun c hc => (hblank c hc).1
  have hfeed : '\n' ∉ indentationOf rest := fun hmem => (hblank _ hmem).2 rfl
  have hsplit : rest = indentationOf rest ++ rest.dropWhile fun c => isBlank c && c ≠ '\n' :=
    List.takeWhile_append_dropWhile.symm
  have hhead := List.head?_dropWhile_not (fun c => isBlank c && c ≠ '\n') rest
  generalize rest.dropWhile (fun c => isBlank c && c ≠ '\n') = tail at hsplit hhead
  refine ⟨tail, ?_⟩
  by_cases hcomment : (comments && tail.head? = some '#') = true
  · rw [commentOf, if_pos hcomment]
    simp only [Bool.and_eq_true, decide_eq_true_eq] at hcomment
    obtain ⟨rfl, hhash⟩ := hcomment
    obtain ⟨cs, rfl⟩ := List.head?_eq_some_iff.1 hhash
    obtain ⟨next, hcs, hline, hend⟩ := exists_firstLine cs
    have hfirst : firstLine ('#' :: cs) = '#' :: (firstLine cs ++ []) := by simp [firstLine]
    refine ⟨next, hsplit, ?_, ?_, ?_, Or.inl hend⟩
    · exact congrArg ('#' :: ·) hcs
    · rw [hfirst]
      exact (hgap _).append (.comment rfl hline hend (.nil next))
    · rw [hfirst]
      simp [hfeed, hline]
  · rw [commentOf, if_neg hcomment]
    refine ⟨tail, hsplit, rfl, by simpa using hgap tail, by simpa using hfeed, ?_⟩
    cases tail with
    | nil => exact Or.inl (Or.inl rfl)
    | cons c cs =>
      by_cases hc : c = '\n'
      · exact Or.inl (Or.inr (by rw [hc]; rfl))
      · right
        refine ⟨rfl, c, cs, rfl, ?_⟩
        simp only [List.head?_cons, Option.some.injEq] at hhead hcomment
        rw [beginsToken, Bool.eq_false_iff.2 hcomment]
        simpa [hc] using hhead

/-- The gap at a line start goes on over the end of the line. -/
theorem gap_of_line {comments : Bool} {line more : List Char}
    (h : IsGap comments line ('\n' :: more)) :
    gap true comments (line ++ '\n' :: more) = line ++ '\n' :: gap true comments more := by
  obtain ⟨rest, hrest, hgap, hstop⟩ := gap_spec true comments more
  have hfeed : IsGap comments ('\n' :: gap true comments more) rest := .blank isBlank_lineFeed hgap
  have hall := IsGap.append (a := line) (by rw [List.cons_append, ← hrest]; exact h) hfeed
  have := gap_append hall hstop (by simp)
  rwa [List.append_assoc, List.cons_append, ← hrest] at this

theorem lineAfter_of_line {config : Config} {line more : List Char} (before : List Char)
    (h : IsGap config.comments line ('\n' :: more)) :
    lineAfter config before (line ++ '\n' :: more) =
      lineAfter config (before ++ line ++ ['\n']) more := by
  have hdrop : (line ++ '\n' :: more).drop (line ++ '\n' :: gap true config.comments more).length =
      more.drop (gap true config.comments more).length := by
    rw [List.length_append, List.length_cons, ← List.drop_drop, List.drop_left,
      List.drop_succ_cons]
  simp only [lineAfter, gap_of_line h, hdrop, lastLine_append_feed, List.append_assoc,
    List.singleton_append]

/-! ## The loops end -/

section

variable {text : String} {before rest : List Char}

theorem peek_of_append (h : text.toList = before ++ rest) (n : Nat) :
    peek text n (byteLength before) = some rest[n]? := by
  have hsize : text.utf8ByteSize = byteLength before + byteLength rest := by
    rw [← byteLength_toList, h, byteLength_append]
  have htext : text.toList = before ++ (rest ++ []) := by rw [List.append_nil, h]
  rw [peek, hsize, slice?_of_append htext]
  simp

theorem peek_of_cons {c : Char} (h : text.toList = before ++ c :: rest) :
    peek text 0 (byteLength before) = some (some c) := peek_of_append h 0

theorem advance_of_append {c : Char} (h : text.toList = before ++ c :: rest) :
    advance text (byteLength before) = some (byteLength (before ++ [c])) := by
  rw [advance, peek_of_cons h]
  simp

theorem append_of_cons {c : Char} (h : text.toList = before ++ c :: rest) :
    text.toList = (before ++ [c]) ++ rest := by rw [h, List.append_assoc]; rfl

theorem skipWhile_of_append (p : Char → Bool) (h : text.toList = before ++ rest) :
    skipWhile p text (byteLength before) = some (byteLength (before ++ rest.takeWhile p)) := by
  induction rest generalizing before with
  | nil =>
    rw [List.takeWhile_nil, List.append_nil]
    exact loop_of_done (by rw [peek_of_append h]; rfl)
  | cons c rest ih =>
    by_cases hc : p c = true
    · have hnext := ih (append_of_cons h)
      rw [List.append_assoc, List.singleton_append, ← List.takeWhile_cons_of_pos hc] at hnext
      exact (loop_of_next (by simp [peek_of_cons h, hc, advance_of_append h])).trans hnext
    · rw [List.takeWhile_cons_of_neg hc, List.append_nil]
      exact loop_of_done (by simp [peek_of_cons h, hc])

theorem skipComment_of_append (h : text.toList = before ++ rest) :
    skipComment text (byteLength before) = some (byteLength (before ++ firstLine rest)) :=
  skipWhile_of_append _ h

theorem skipGap_of_append (joins comments : Bool) (h : text.toList = before ++ rest) :
    skipGap joins comments text (byteLength before) =
      some (byteLength (before ++ gap joins comments rest)) := by
  induction hn : rest.length using Nat.strongRecOn generalizing before rest with
  | ind n ih =>
    cases rest with
    | nil =>
      have hgap : gap joins comments [] = [] := by simp [gap, Gap.scan]
      rw [hgap, List.append_nil]
      exact loop_of_done (by rw [peek_of_append h]; rfl)
    | cons c cs =>
      have hpeek := peek_of_cons h
      by_cases hstop : (c = '\n' && !joins) = true
      · have hgap : gap joins comments (c :: cs) = [] := by
          simp only [Bool.and_eq_true, decide_eq_true_eq, Bool.not_eq_true'] at hstop
          simp [gap, Gap.scan, hstop]
        rw [hgap, List.append_nil]
        exact loop_of_done (by rw [hpeek]; exact if_pos hstop)
      · by_cases hblank : isBlank c = true
        · have hnext := ih cs.length (by rw [← hn]; simp) (append_of_cons h) rfl
          rw [List.append_assoc, List.singleton_append,
            ← gap_of_isBlank hblank (by simpa using hstop)] at hnext
          refine (loop_of_next ?_).trans hnext
          simp only [hpeek, Option.bind_eq_bind, Option.bind_some, if_neg hstop, if_pos hblank,
            advance_of_append h]
        · by_cases hcomment : (comments && c = '#') = true
          · simp only [Bool.and_eq_true, decide_eq_true_eq] at hcomment
            obtain ⟨rfl, rfl⟩ := hcomment
            obtain ⟨next, hcs, hline, hend⟩ := exists_firstLine cs
            have hlen : next.length < n := by
              have := congrArg List.length hcs
              rw [List.length_append] at this
              rw [List.length_cons] at hn
              omega
            have htext : text.toList = (before ++ firstLine ('#' :: cs)) ++ next := by
              rw [h, List.append_assoc]
              exact congrArg (before ++ '#' :: ·) hcs
            have hgap : gap joins true ('#' :: cs) =
                firstLine ('#' :: cs) ++ gap joins true next := by
              have := gap_of_comment joins hline hend
              rwa [← hcs] at this
            have hnext := ih next.length hlen htext rfl
            rw [List.append_assoc, ← hgap] at hnext
            refine (loop_of_next ?_).trans hnext
            simp [hpeek, hblank, skipComment_of_append h]
          · have hbegins : beginsToken comments c = true := by
              rw [beginsToken, Bool.eq_false_iff.2 hblank, Bool.eq_false_iff.2 hcomment]; rfl
            rw [gap_of_beginsToken hbegins, List.append_nil]
            refine loop_of_done ?_
            simp only [hpeek, Option.bind_eq_bind, Option.bind_some, if_neg hstop, if_neg hblank,
              if_neg hcomment]

/-! ### Line starts -/

theorem measure_of_append (config : Config) (width : Nat) (h : text.toList = before ++ rest) :
    measure config text width (byteLength before) =
      some ((indentationOf rest).foldl config.column width,
        byteLength (before ++ indentationOf rest)) := by
  induction rest generalizing before width with
  | nil =>
    have hnil : indentationOf [] = [] := rfl
    rw [hnil, List.append_nil]
    exact loop_of_done (by simp only [peek_of_append h]; rfl)
  | cons c rest ih =>
    by_cases hc : (isBlank c && c ≠ '\n') = true
    · have hcons : indentationOf (c :: rest) = c :: indentationOf rest :=
        List.takeWhile_cons_of_pos hc
      have hnext := ih (config.column width c) (append_of_cons h)
      rw [List.append_assoc, List.singleton_append, ← List.foldl_cons, ← hcons] at hnext
      refine (loop_of_next ?_).trans hnext
      simp only [peek_of_cons h, Option.bind_eq_bind, Option.bind_some, if_pos hc,
        advance_of_append h]
    · have hnil : indentationOf (c :: rest) = [] := List.takeWhile_cons_of_neg hc
      rw [hnil, List.append_nil, List.foldl_nil]
      refine loop_of_done ?_
      simp only [peek_of_cons h, Option.bind_eq_bind, Option.bind_some, if_neg hc]

theorem skipAnyComment_of_append (comments : Bool) (h : text.toList = before ++ rest) :
    skipAnyComment comments text (byteLength before) =
      some (byteLength (before ++ commentOf comments rest)) := by
  rw [skipAnyComment, peek_of_append h]
  simp only [Option.bind_eq_bind, Option.bind_some, commentOf, List.head?_eq_getElem?]
  split
  · exact skipComment_of_append h
  · rw [List.append_nil]

/-- At a line start, what comes after the blanks and the comment decides. -/
theorem findToken_of_append (config : Config) {tail next : List Char}
    (h : text.toList = before ++ rest) (hrest : rest = indentationOf rest ++ tail)
    (htail : tail = commentOf config.comments tail ++ next) :
    findToken config text (byteLength before) =
      match next[0]? with
      | some c =>
        if c = '\n' then
          (advance text (byteLength (before ++
            (indentationOf rest ++ commentOf config.comments tail)))).bind (some ∘ .inr)
        else
          some (.inl (some ⟨byteLength before, config.columns (indentationOf rest)⟩,
            byteLength (before ++ (indentationOf rest ++ commentOf config.comments tail))))
      | none =>
        some (.inl (none,
          byteLength (before ++ (indentationOf rest ++ commentOf config.comments tail)))) := by
  have hblanks : text.toList = (before ++ indentationOf rest) ++ tail := by
    rw [h, List.append_assoc, ← hrest]
  have hstop : text.toList =
      (before ++ (indentationOf rest ++ commentOf config.comments tail)) ++ next := by
    rw [h, List.append_assoc, List.append_assoc, ← htail, ← hrest]
  rw [findToken, measure_of_append config 0 h]
  simp only [Option.bind_eq_bind, Option.bind_some,
    skipAnyComment_of_append config.comments hblanks]
  rw [List.append_assoc, peek_of_append hstop]
  rfl

/-- At a line start the scan goes on until it finds a token or the end. -/
theorem findLine_of_append (config : Config) (h : text.toList = before ++ rest) :
    findLine config text (byteLength before) =
      some (lineAfter config before rest,
        byteLength (before ++ gap true config.comments rest)) := by
  induction hn : rest.length using Nat.strongRecOn generalizing before rest with
  | ind n ih =>
    obtain ⟨tail, next, hrest, htail, hgap, hfeed, hnext⟩ := exists_lineEnd config.comments rest
    have hline : rest = (indentationOf rest ++ commentOf config.comments tail) ++ next := by
      rw [List.append_assoc, ← htail, ← hrest]
    have hstop : text.toList =
        (before ++ (indentationOf rest ++ commentOf config.comments tail)) ++ next := by
      rw [h, List.append_assoc, ← hline]
    have hround := findToken_of_append config h hrest htail
    generalize hl : indentationOf rest ++ commentOf config.comments tail = line at *
    subst hline
    rcases hnext with (rfl | hend) | ⟨hnone, c, cs, rfl, hc⟩
    · -- The text ends.
      have hall : gap true config.comments (line ++ []) = line :=
        gap_append hgap (Or.inl rfl) (by simp)
      rw [lineAfter_of_gap before hall, hall]
      exact loop_of_done hround
    · -- The line ends, and the next one is looked at.
      obtain ⟨more, rfl⟩ := List.head?_eq_some_iff.1 hend
      have hlen : more.length < n := by
        rw [← hn, List.length_append, List.length_cons]; omega
      have hnext := ih _ hlen (append_of_cons hstop) rfl
      rw [advance_of_append hstop] at hround
      rw [gap_of_line hgap, lineAfter_of_line before hgap]
      refine (loop_of_next hround).trans (hnext.trans ?_)
      simp only [List.append_assoc, List.singleton_append]
    · -- A token begins.
      have hall : gap true config.comments (line ++ c :: cs) = line :=
        gap_append hgap (Or.inr ⟨c, cs, rfl, Or.inr hc⟩) (by simp)
      have hne := ne_lineFeed_of_beginsToken hc
      rw [hnone, List.append_nil] at hl
      simp only [List.getElem?_cons_zero, if_neg hne, hl] at hround
      rw [lineAfter_of_gap before hall, hall, lastLine_of_notMem hfeed, byteLength_append,
        Nat.add_sub_cancel_right, ← byteLength_append]
      exact loop_of_done hround

/-! ### Lexemes -/

theorem numberEnd_of_dotted (h : text.toList = before ++ rest) :
    numberEnd text true (byteLength before) =
      some (byteLength (before ++ rest.takeWhile Char.isDigit)) := by
  induction rest generalizing before with
  | nil =>
    rw [List.takeWhile_nil, List.append_nil]
    exact loop_of_done (by simp only [peek_of_append h]; rfl)
  | cons c rest ih =>
    by_cases hc : c.isDigit = true
    · have hnext := ih (append_of_cons h)
      rw [List.append_assoc, List.singleton_append, ← List.takeWhile_cons_of_pos hc] at hnext
      exact (loop_of_next (by simp [peek_of_cons h, hc, advance_of_append h])).trans hnext
    · rw [List.takeWhile_cons_of_neg hc, List.append_nil]
      exact loop_of_done (by simp [peek_of_append h, hc])

theorem numeral_of_isDigit {c : Char} (hc : c.isDigit = true) (cs : List Char) :
    Lexeme.numeral (c :: cs) = c :: Lexeme.numeral cs := by
  simp only [Lexeme.numeral, List.takeWhile_cons_of_pos hc, List.length_cons, List.drop_succ_cons]
  split
  · split <;> rfl
  · rfl

theorem numeral_of_not_isDigit {c : Char} (hc : c.isDigit ≠ true) (cs : List Char) :
    Lexeme.numeral (c :: cs) =
      if c = '.' && cs[0]?.any Char.isDigit then c :: cs.takeWhile Char.isDigit else [] := by
  simp only [Lexeme.numeral, List.takeWhile_cons_of_neg hc, List.length_nil, List.drop_zero]
  split
  · next d ds hcons =>
    obtain ⟨rfl, rfl⟩ := List.cons.inj hcons
    by_cases hd : d.isDigit = true <;> simp [hd]
  · next hpoint =>
    cases cs with
    | nil => simp
    | cons d ds =>
      have hne : c ≠ '.' := fun hc => hpoint d ds (by rw [hc])
      simp [hne]

theorem numberEnd_of_append (h : text.toList = before ++ rest) :
    numberEnd text false (byteLength before) =
      some (byteLength (before ++ Lexeme.numeral rest)) := by
  induction rest generalizing before with
  | nil =>
    have hnil : Lexeme.numeral [] = [] := rfl
    rw [hnil, List.append_nil]
    exact loop_of_done (by simp only [peek_of_append h]; rfl)
  | cons c rest ih =>
    by_cases hc : c.isDigit = true
    · have hnext := ih (append_of_cons h)
      rw [List.append_assoc, List.singleton_append, ← numeral_of_isDigit hc] at hnext
      exact (loop_of_next (by simp [peek_of_cons h, hc, advance_of_append h])).trans hnext
    · rw [numeral_of_not_isDigit hc]
      by_cases hpoint : (c = '.' && rest[0]?.any Char.isDigit) = true
      · have hnext := numberEnd_of_dotted (append_of_cons h)
        rw [List.append_assoc, List.singleton_append] at hnext
        rw [if_pos hpoint]
        refine (loop_of_next ?_).trans hnext
        simp only [peek_of_append h, List.getElem?_cons_zero, List.getElem?_cons_succ,
          Option.bind_eq_bind, Option.bind_some, if_neg hc, Bool.not_false, Bool.and_true,
          if_pos hpoint, advance_of_append h]
      · rw [if_neg hpoint, List.append_nil]
        refine loop_of_done ?_
        simp only [peek_of_append h, List.getElem?_cons_zero, List.getElem?_cons_succ,
          Option.bind_eq_bind, Option.bind_some, if_neg hc, Bool.not_false, Bool.and_true,
          if_neg hpoint]

theorem stringEnd_of_endsComment (raw : Bool) (q : Char) (value : List Char)
    (h : text.toList = before ++ rest) (hend : EndsComment rest) :
    stringEnd raw q text value (byteLength before) = some (none, byteLength before) := by
  refine loop_of_done ?_
  simp only [peek_of_append h]
  rcases hend with rfl | hend
  · rfl
  · obtain ⟨cs, rfl⟩ := List.head?_eq_some_iff.1 hend
    simp

theorem stringEnd_of_quote (raw : Bool) {q : Char} (hq : q ≠ '\n') (value : List Char)
    (h : text.toList = before ++ q :: rest) :
    stringEnd raw q text value (byteLength before) =
      some (some value, byteLength (before ++ [q])) := by
  refine loop_of_done ?_
  simp only [peek_of_cons h, Option.bind_eq_bind, Option.bind_some, hq, if_false, if_true,
    advance_of_append h]

theorem stringEnd_of_char (raw : Bool) {q c : Char} (hc : c ≠ '\\' ∧ c ≠ q ∧ c ≠ '\n')
    (value : List Char) (h : text.toList = before ++ c :: rest) :
    stringEnd raw q text value (byteLength before) =
      stringEnd raw q text (value ++ [c]) (byteLength (before ++ [c])) := by
  refine loop_of_next ?_
  simp only [peek_of_cons h, Option.bind_eq_bind, Option.bind_some, hc, if_false,
    advance_of_append h]

theorem stringEnd_of_slash (raw : Bool) {q : Char} (hq : '\\' ≠ q) (value : List Char)
    (h : text.toList = before ++ '\\' :: rest) (hend : EndsComment rest) :
    stringEnd raw q text value (byteLength before) =
      some (none, byteLength (before ++ ['\\'])) := by
  refine loop_of_done ?_
  simp only [peek_of_cons h, Option.bind_eq_bind, Option.bind_some, Char.reduceEq, hq, if_false,
    if_true, advance_of_append h, peek_of_append (append_of_cons h)]
  rcases hend with rfl | hend
  · rfl
  · obtain ⟨cs, rfl⟩ := List.head?_eq_some_iff.1 hend
    rfl

theorem stringEnd_of_pair (raw : Bool) {q c : Char} (hq : '\\' ≠ q) (hc : c ≠ '\n')
    (value : List Char) (h : text.toList = before ++ '\\' :: c :: rest) :
    stringEnd raw q text value (byteLength before) =
      stringEnd raw q text (value ++ unescaped raw c) (byteLength (before ++ ['\\', c])) := by
  refine loop_of_next ?_
  simp only [peek_of_cons h, Option.bind_eq_bind, Option.bind_some, Char.reduceEq, hq, if_false,
    if_true, advance_of_append h, peek_of_cons (append_of_cons h), hc,
    advance_of_append (append_of_cons h), List.append_assoc, List.singleton_append]

/-- What the body of a string stands for. -/
def literal (raw : Bool) (body : List Char) : List Char := if raw then body else unescape body

theorem literal_nil (raw : Bool) : literal raw [] = [] := by cases raw <;> rfl

theorem literal_pair (raw : Bool) (c : Char) (body : List Char) :
    literal raw ('\\' :: c :: body) = unescaped raw c ++ literal raw body := by
  cases raw with
  | true => rfl
  | false =>
    simp only [literal, unescaped, unescape, Bool.false_eq_true, if_false]
    cases unescapeLetter? c <;> rfl

theorem literal_char (raw : Bool) {c : Char} (hc : c ≠ '\\') (body : List Char) :
    literal raw (c :: body) = c :: literal raw body := by
  cases raw with
  | true => rfl
  | false => exact unescape_cons_of_ne hc body

theorem stringEnd_of_append (raw : Bool) {q : Char} (hq : isQuote q = true) (value : List Char)
    (h : text.toList = before ++ rest) :
    stringEnd raw q text value (byteLength before) =
      if (rest.drop (Lexeme.body q rest).length).head? = some q then
        some (some (value ++ literal raw (Lexeme.body q rest)),
          byteLength (before ++ (Lexeme.body q rest ++ [q])))
      else some (none, byteLength (before ++ Lexeme.body q rest)) := by
  have hslash : '\\' ≠ q := by rintro rfl; exact absurd hq (by decide)
  have hfeed : '\n' ≠ q := by rintro rfl; exact absurd hq (by decide)
  fun_induction Lexeme.body q rest generalizing value before with
  | case1 => simp [stringEnd_of_endsComment raw q value h (Or.inl rfl)]
  | case2 => simp [stringEnd_of_slash raw hslash value h (Or.inl rfl)]
  | case3 cs => simp [stringEnd_of_slash raw hslash value h (Or.inr rfl), hfeed]
  | case4 c cs hc ih =>
    have htext : text.toList = before ++ ['\\', c] ++ cs := by rw [h]; simp
    rw [stringEnd_of_pair raw hslash hc value h, ih _ htext]
    simp only [List.length_cons, List.drop_succ_cons, List.append_assoc, literal_pair,
      List.cons_append, List.nil_append]
  | case5 c cs _ _ hc =>
    by_cases hclose : c = q
    · subst hclose
      rw [stringEnd_of_quote raw (Ne.symm hfeed) value h]
      simp [literal_nil]
    · obtain rfl : c = '\n' := by simpa [hclose] using hc
      simp [stringEnd_of_endsComment raw q value h (Or.inr rfl), hfeed]
  | case6 c cs hlast hpair hc ih =>
    have hne : c ≠ '\\' := by
      intro hslash
      cases cs with
      | nil => exact hlast hslash rfl
      | cons d ds => exact hpair d ds hslash rfl
    have hplain : c ≠ '\\' ∧ c ≠ q ∧ c ≠ '\n' := ⟨hne, by simpa using hc⟩
    rw [stringEnd_of_char raw hplain value h, ih _ (append_of_cons h)]
    simp only [List.length_cons, List.drop_succ_cons, List.append_assoc, literal_char raw hne,
      List.cons_append, List.nil_append]

/-! ### Lexemes -/

theorem slice?_of_isPrefix {part : List Char} (h : text.toList = before ++ rest)
    (hpart : part <+: rest) :
    slice? text (byteLength before) (byteLength (before ++ part)) = some (String.ofList part) := by
  obtain ⟨next, rfl⟩ := hpart
  rw [byteLength_append]
  exact slice?_of_append h

theorem number_of_append (h : text.toList = before ++ rest) :
    number text (byteLength before) = some ((Lexeme.number rest).content,
      byteLength (before ++ (Lexeme.number rest).text)) := by
  rw [number, numberEnd_of_append h]
  simp only [Option.bind_eq_bind, Option.bind_some,
    slice?_of_isPrefix h (Lexeme.numeral_isPrefix rest), String.toList_ofList]
  rfl

theorem word_of_append (h : text.toList = before ++ rest) :
    word text (byteLength before) = some ((Lexeme.word rest).content,
      byteLength (before ++ (Lexeme.word rest).text)) := by
  rw [word, skipWhile_of_append _ h]
  simp only [Option.bind_eq_bind, Option.bind_some,
    slice?_of_isPrefix h (List.takeWhile_prefix _), String.toList_ofList]
  rfl

theorem string_of_append (raw : Bool) {q : Char} (hq : isQuote q = true) {opening : List Char}
    (h : text.toList = before ++ (opening ++ q :: rest)) :
    string raw text (byteLength (before ++ opening)) =
      some ((Lexeme.string raw (opening ++ [q]) q rest).content,
        byteLength (before ++ (Lexeme.string raw (opening ++ [q]) q rest).text)) := by
  have hopen : text.toList = (before ++ opening) ++ q :: rest := by rw [h, List.append_assoc]
  rw [string, peek_of_cons hopen]
  simp only [Option.bind_eq_bind, Option.bind_some, advance_of_append hopen,
    stringEnd_of_append raw hq [] (append_of_cons hopen)]
  by_cases hclose : (rest.drop (Lexeme.body q rest).length).head? = some q
  · simp only [hclose, if_true, Option.bind_some, Lexeme.string, List.append_assoc, List.nil_append,
      literal]
  · simp only [hclose, if_false, Option.bind_some, Lexeme.string, List.append_assoc]

theorem symbol_of_append {c : Char} (h : text.toList = before ++ c :: rest) :
    symbol text c (byteLength before) = some ((Lexeme.symbol c rest).content,
      byteLength (before ++ (Lexeme.symbol c rest).text)) := by
  have hsize : text.utf8ByteSize = byteLength (before ++ c :: rest) := by
    rw [← byteLength_toList, h]
  rw [symbol, hsize, slice?_of_isPrefix h List.prefix_rfl]
  simp only [Option.bind_eq_bind, Option.bind_some, String.toList_ofList, Lexeme.symbol]
  cases Symbol.longest? (c :: rest) <;> simp

theorem rawQuote?_eq (c : Char) (cs : List Char) :
    Lexeme.rawQuote? c cs =
      if c = 'r' && cs[0]?.any isQuote then cs.head?.map (·, cs.tail) else none := by
  cases cs with
  | nil => simp [Lexeme.rawQuote?]
  | cons q qs => simp [Lexeme.rawQuote?]

/-- **Lexemes.** From a boundary a lexeme is read as from the characters behind it. -/
theorem lexeme_of_append {c : Char} (h : text.toList = before ++ c :: rest) :
    lexeme text c (byteLength before) = some ((Lexeme.read c rest).content,
      byteLength (before ++ (Lexeme.read c rest).text)) := by
  have hfollows : Lexeme.digitFollows rest = rest[0]?.any Char.isDigit := by
    rw [Lexeme.digitFollows, List.head?_eq_getElem?]
  rw [lexeme, peek_of_append h]
  simp only [Option.bind_eq_bind, Option.bind_some, Lexeme.read, List.getElem?_cons_succ, hfollows,
    rawQuote?_eq]
  by_cases hnumber : (c.isDigit || (c = '.' && rest[0]?.any Char.isDigit)) = true
  · rw [if_pos hnumber, if_pos hnumber, number_of_append h]
  · rw [if_neg hnumber, if_neg hnumber]
    by_cases hquote : isQuote c = true
    · have hopening : text.toList = before ++ ([] ++ c :: rest) := h
      rw [if_pos hquote, if_pos hquote]
      simpa using string_of_append false hquote hopening
    · rw [if_neg hquote, if_neg hquote]
      by_cases hraw : (c = 'r' && rest[0]?.any isQuote) = true
      · rw [if_pos hraw, if_pos hraw, advance_of_append h, Option.bind_some]
        cases rest with
        | nil => simp at hraw
        | cons q qs =>
          have hq : isQuote q = true := by simp at hraw; exact hraw.2
          have hopening : text.toList = before ++ ([c] ++ q :: qs) := h
          exact string_of_append true hq hopening
      · rw [if_neg hraw, if_neg hraw]
        by_cases hword : isWordStart c = true
        · simp only [if_pos hword, word_of_append h]
        · simp only [if_neg hword, symbol_of_append h]

end

end Scanner

end Offside
