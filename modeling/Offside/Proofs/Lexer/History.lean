import Offside.Proofs.Lexer.Move

/-!
# Runs and what they return

`Run l visited m` says that the stream of `l` has answered one call in each of the states `visited`
and is now at `m`. An invariant of all runs is proved by induction on it: it holds of the first
state, and every move keeps it.

Results:
* `Run.steps_eq`: a run is a part of the steps of its lexer.
* `exists_last_call`: a stream ends, or a call of it panics.
* `exists_run_of_tokenize_ok`, `exists_run_of_tokenize_error`: a whole stream of tokens is what some
  run returns, and its last call returns the end of input or the error.
* `Run.exists_cursorAt`: the cursor never leaves the source, and its offset is that of its text.
-/

namespace Offside

open Text

/-- An element of two lists, one after the other, stands in one of them. -/
theorem append_eq_append_cons {α : Type} {xs ys a b : List α} {y : α}
    (h : xs ++ ys = a ++ y :: b) :
    (∃ b', xs = a ++ y :: b' ∧ b = b' ++ ys) ∨ ∃ a', a = xs ++ a' ∧ ys = a' ++ y :: b := by
  rcases List.append_eq_append_iff.1 h with ⟨a', rfl, hys⟩ | ⟨b', rfl, hyb⟩
  · exact Or.inr ⟨a', rfl, hys⟩
  · cases b' with
    | nil => exact Or.inr ⟨[], by simp, by simpa using hyb.symm⟩
    | cons z b' =>
      obtain ⟨rfl, rfl⟩ := List.cons.inj hyb
      exact Or.inl ⟨b', rfl, rfl⟩

/-- Of two cuts of a list, the first lies at or before the second, or behind it. -/
theorem append_eq_append_cases {α : Type} {a b g next : List α} (h : a ++ b = g ++ next) :
    (∃ m, g = a ++ m ∧ b = m ++ next) ∨ ∃ c a', a = g ++ c :: a' ∧ next = c :: (a' ++ b) := by
  rcases List.append_eq_append_iff.1 h with hm | ⟨m, ha, hnext⟩
  · exact Or.inl hm
  · cases m with
    | nil => exact Or.inl ⟨[], by simpa using ha.symm, by simpa using hnext.symm⟩
    | cons c a' => exact Or.inr ⟨c, a', ha, hnext⟩

theorem snoc_eq_append_cons {α : Type} {xs a b : List α} {x y : α}
    (h : xs ++ [x] = a ++ y :: b) :
    (∃ b', xs = a ++ y :: b' ∧ b = b' ++ [x]) ∨ a = xs ∧ y = x ∧ b = [] := by
  refine (append_eq_append_cons h).imp id ?_
  intro hlast
  obtain ⟨a', rfl, hx⟩ := hlast
  cases a' with
  | nil => cases hx; exact ⟨List.append_nil _, rfl, rfl⟩
  | cons z a' => simp at hx

namespace Lexer

/-! ## What a step leaves alone -/

theorem Move.phase {l : Lexer} {s : Step} (h : Move l s) : s.lexer.phase = l.phase := by
  cases h <;> rfl

theorem Move.source {l : Lexer} {s : Step} (h : Move l s) : s.lexer.source = l.source := by
  cases h <;> rfl

theorem Move.config {l : Lexer} {s : Step} (h : Move l s) : s.lexer.config = l.config := by
  cases h <;> rfl

theorem exists_move {l : Lexer} (h : l.phase = .scanning) :
    ∃ s, Move l s ∧ l.nextToken.result = s.result ∧
      l.nextToken.lexer = { s.lexer with phase := s.phaseAfter } := by
  refine ⟨l.pull, l.pull_move, ?_, ?_⟩
  · rw [nextToken_eq h, Step.deliver_result]
  · rw [nextToken_eq h, Step.deliver_lexer]

/-- The stream goes on exactly after a token that does not end it. -/
theorem phase_nextToken {l : Lexer} (h : l.phase = .scanning) :
    l.nextToken.lexer.phase = .scanning ↔
      ∃ t, l.nextToken.result = .ok t ∧ t.content ≠ .endOfInput := by
  obtain ⟨s, hmove, hresult, hlexer⟩ := exists_move h
  have hphase := hmove.phase
  rw [hresult, hlexer]
  simp only [Step.phaseAfter, hphase, h]
  cases s.result with
  | error e => simp
  | ok t => by_cases he : t.content = .endOfInput <;> simp [he]

/-! ## Runs -/

/-- The stream of a lexer has answered a call in each of the states `visited` and is at the last
argument. No call has panicked. -/
inductive Run (l : Lexer) : List Lexer → Lexer → Prop
  | nil : Run l [] l
  | snoc {visited : List Lexer} {m : Lexer} (h : Run l visited m) (hm : m.Live) :
      Run l (visited ++ [m]) m.nextToken.lexer

theorem Run.cons {l m : Lexer} {visited : List Lexer} (hl : l.Live)
    (h : Run l.nextToken.lexer visited m) : Run l (l :: visited) m := by
  induction h with
  | nil => exact Run.nil.snoc hl
  | snoc _ hm ih => exact ih.snoc hm

theorem Run.source {l m : Lexer} {visited : List Lexer} (h : Run l visited m) :
    m.source = l.source := by
  induction h with
  | nil => rfl
  | snoc _ hm ih =>
    obtain ⟨s, hmove, -, hlexer⟩ := exists_move hm.1
    rw [hlexer, ← ih]; exact hmove.source

theorem Run.config {l m : Lexer} {visited : List Lexer} (h : Run l visited m) :
    m.config = l.config := by
  induction h with
  | nil => rfl
  | snoc _ hm ih =>
    obtain ⟨s, hmove, -, hlexer⟩ := exists_move hm.1
    rw [hlexer, ← ih]; exact hmove.config

theorem Run.steps_eq {l m : Lexer} {visited : List Lexer} (h : Run l visited m) :
    l.steps = visited.map nextToken ++ m.steps := by
  induction h with
  | nil => rfl
  | snoc _ hm ih => rw [ih, steps_of_live hm]; simp

theorem Run.drained_eq {l m : Lexer} {visited : List Lexer} (h : Run l visited m)
    (hm : ¬ m.Live) : l.drained = m := by
  rw [drained, h.steps_eq, steps_of_not_live hm, List.append_nil]
  cases h with
  | nil => rfl
  | snoc => simp

/-- Where a run goes on no more one sees whether its stream panics. -/
theorem Run.panics_eq {l m : Lexer} {visited : List Lexer} (h : Run l visited m)
    (hm : ¬ m.Live) : l.panics = m.overflows := by rw [panics, h.drained_eq hm]

/-- A stream that does not panic goes on until it ends. -/
theorem Run.live {l m : Lexer} {visited : List Lexer} (h : Run l visited m)
    (hl : l.panics = false) (hm : m.phase = .scanning) : m.Live := by
  refine ⟨hm, Bool.eq_false_iff.2 fun hover => ?_⟩
  have hnot : ¬ m.Live := by simp [Live, hover]
  rw [h.panics_eq hnot, hover] at hl
  cases hl

/-- A stream ends: some run reaches a call that panics, or one after which the stream has ended. -/
theorem exists_last_call (l : Lexer) (h : l.phase = .scanning) :
    ∃ visited m, Run l visited m ∧ m.phase = .scanning ∧
      (m.overflows = true ∨ m.Live ∧ m.nextToken.lexer.phase ≠ .scanning) := by
  cases hover : l.overflows with
  | true => exact ⟨[], l, .nil, h, Or.inl hover⟩
  | false =>
    by_cases hn : l.nextToken.lexer.phase = .scanning
    · have hlt : l.nextToken.lexer.weight < l.weight := weight_nextToken_lt h
      obtain ⟨visited, m, hrun, hend⟩ := exists_last_call l.nextToken.lexer hn
      exact ⟨l :: visited, m, hrun.cons ⟨h, hover⟩, hend⟩
    · exact ⟨[], l, .nil, h, Or.inr ⟨⟨h, hover⟩, hn⟩⟩
termination_by l.weight

theorem not_live_of_ended {l : Lexer} (h : l.phase ≠ .scanning) : ¬ l.Live := fun hl => h hl.1

theorem not_live_of_overflows {l : Lexer} (h : l.overflows = true) : ¬ l.Live := by
  simp [Live, h]

theorem Run.steps_of_overflows {l m : Lexer} {visited : List Lexer} (h : Run l visited m)
    (hm : m.overflows = true) : l.steps = visited.map nextToken ∧ l.panics = true := by
  have hnot := not_live_of_overflows hm
  rw [h.steps_eq, steps_of_not_live hnot, List.append_nil, h.panics_eq hnot]
  exact ⟨rfl, hm⟩

theorem Run.steps_of_last {l m : Lexer} {visited : List Lexer} (h : Run l visited m) (hm : m.Live)
    (hend : m.nextToken.lexer.phase ≠ .scanning) :
    l.steps = visited.map nextToken ++ [m.nextToken] ∧ l.panics = false := by
  have hnot := not_live_of_ended hend
  rw [h.steps_eq, steps_of_live hm, steps_of_not_live hnot, (h.snoc hm).panics_eq hnot]
  exact ⟨rfl, overflows_of_ended hend⟩

/-- As long as a stream is scanned its calls return tokens, and none is the end of input. -/
theorem Run.result_of_scanning {l m : Lexer} {visited : List Lexer} (h : Run l visited m)
    (hm : m.phase = .scanning) :
    ∀ v ∈ visited, ∃ t, v.nextToken.result = .ok t ∧ t.content ≠ .endOfInput := by
  induction h with
  | nil => simp
  | @snoc visited k _ hk ih =>
    intro v hv
    rcases List.mem_append.1 hv with hv | hv
    · exact ih hk.1 v hv
    · rw [List.mem_singleton.1 hv]; exact (phase_nextToken hk.1).1 hm

theorem Move.pending_layout {l : Lexer} {s : Step} (h : Move l s)
    (hl : ∀ t ∈ l.pending, t.content = .dedent ∨ t.content = .endOfInput) :
    ∀ t ∈ s.lexer.pending, t.content = .dedent ∨ t.content = .endOfInput := by
  cases h with
  | dequeue hq => rw [hq] at hl; exact fun t ht => hl t (List.mem_cons_of_mem _ ht)
  | dedent =>
    intro t ht
    rw [List.eq_of_mem_replicate ht]; exact Or.inl rfl
  | unwind =>
    intro t ht
    rcases List.mem_append.1 ht with ht | ht
    · rw [List.eq_of_mem_replicate ht]; exact Or.inl rfl
    · rw [List.mem_singleton.1 ht]; exact Or.inr rfl
  | indent | badIndent | newline | token | fail | finish => exact hl

theorem Run.pending_layout {source : Source} {config : Config} {visited : List Lexer} {l : Lexer}
    (h : Run (start source config) visited l) :
    ∀ t ∈ l.pending, t.content = .dedent ∨ t.content = .endOfInput := by
  induction h with
  | nil => exact fun t ht => absurd ht List.not_mem_nil
  | snoc _ hm ih =>
    obtain ⟨s, hmove, -, hlexer⟩ := exists_move hm.1
    rw [hlexer]; exact hmove.pending_layout ih

/-! ## Tokens -/

/-- The tokens that steps returned. -/
def returned (steps : List Step) : List Token := steps.filterMap fun s => s.result.toOption

@[simp] theorem returned_append (a b : List Step) : returned (a ++ b) = returned a ++ returned b :=
  List.filterMap_append

@[simp] theorem returned_ok {s : Step} {t : Token} (h : s.result = .ok t) : returned [s] = [t] := by
  simp [returned, h, Except.toOption]

@[simp] theorem returned_error {s : Step} {e : LexError} (h : s.result = .error e) :
    returned [s] = [] := by
  simp [returned, h, Except.toOption]

/-- **Induction over a run.** What holds before the first call and is kept by every move that
returns a token, the end of input apart, holds of the tokens returned so far and the lexer. -/
theorem Run.returned_induction {source : Source} {config : Config}
    {motive : List Token → Lexer → Prop} (base : motive [] (start source config))
    (step : ∀ {ts m s t}, Move m s → s.result = .ok t → t.content ≠ .endOfInput → motive ts m →
      motive (ts ++ [t]) s.lexer)
    {visited : List Lexer} {l : Lexer} (h : Run (start source config) visited l)
    (hl : l.phase = .scanning) : motive (returned (visited.map nextToken)) l := by
  induction h with
  | nil => exact base
  | @snoc visited m _ hm ih =>
    obtain ⟨t, ht, hne⟩ := (phase_nextToken hm.1).1 hl
    obtain ⟨s, hmove, hresult, hlexer⟩ := exists_move hm.1
    have hs : s.result = .ok t := hresult.symm.trans ht
    have hphase : s.phaseAfter = s.lexer.phase := by
      simp only [Step.phaseAfter, hs, hne, if_false]
    rw [List.map_append, returned_append, List.map_singleton, returned_ok ht, hlexer, hphase]
    exact step hmove hs hne (ih hm.1)

theorem tokens_append {a b : List Step} (h : ∀ s ∈ a, ∃ t, s.result = .ok t) :
    tokens (a ++ b) = (tokens b).map (returned a ++ ·) := by
  induction a with
  | nil => cases hb : tokens b <;> simp [hb, returned, Except.map]
  | cons s a ih =>
    obtain ⟨t, ht⟩ := h s (by simp)
    have hs : returned (s :: a) = t :: returned a := by
      simp [returned, ht, Except.toOption]
    rw [List.cons_append, tokens, ht, ih fun x hx => h x (by simp [hx]), hs]
    cases tokens b <;> rfl

/-- The last call of a stream and all the tokens before it. -/
theorem exists_run_of_tokenize (source : Source) (config : Config) :
    ∃ visited l, Run (start source config) visited l ∧
      ((l.overflows = true ∧ tokenize source config = none) ∨
        l.Live ∧ (start source config).steps = visited.map nextToken ++ [l.nextToken] ∧
          ((∃ t, l.nextToken.result = .ok t ∧ t.content = .endOfInput ∧
              tokenize source config = some (.ok (returned (visited.map nextToken) ++ [t]))) ∨
            ∃ e, l.nextToken.result = .error e ∧ tokenize source config = some (.error e))) := by
  obtain ⟨visited, l, hrun, hl, hover | ⟨hlive, hend⟩⟩ := exists_last_call (start source config) rfl
  · refine ⟨visited, l, hrun, Or.inl ⟨hover, ?_⟩⟩
    simp only [tokenize, (hrun.steps_of_overflows hover).2, if_true]
  obtain ⟨hsteps, hpanics⟩ := hrun.steps_of_last hlive hend
  have hok : ∀ s ∈ visited.map nextToken, ∃ t, s.result = .ok t := by
    intro s hs
    obtain ⟨v, hv, rfl⟩ := List.mem_map.1 hs
    obtain ⟨t, ht, -⟩ := hrun.result_of_scanning hl v hv
    exact ⟨t, ht⟩
  refine ⟨visited, l, hrun, Or.inr ⟨hlive, hsteps, ?_⟩⟩
  simp only [tokenize, hpanics, Bool.false_eq_true, if_false, hsteps, tokens_append hok]
  cases hresult : l.nextToken.result with
  | error e => exact Or.inr ⟨e, rfl, by simp [tokens, hresult, Except.map]⟩
  | ok t =>
    left
    refine ⟨t, rfl, ?_, by simp [tokens, hresult, Except.map]⟩
    by_contra hne
    exact hend ((phase_nextToken hl).2 ⟨t, hresult, hne⟩)

theorem exists_run_of_tokenize_ok {source : Source} {config : Config} {ts : List Token}
    (h : tokenize source config = some (.ok ts)) :
    ∃ visited l t, Run (start source config) visited l ∧ l.Live ∧
      l.nextToken.result = .ok t ∧ t.content = .endOfInput ∧
      ts = returned (visited.map nextToken) ++ [t] := by
  obtain ⟨visited, l, hrun, ⟨-, hnone⟩ | ⟨hl, -, ⟨t, ht, hend, htok⟩ | ⟨e, -, herr⟩⟩⟩ :=
    exists_run_of_tokenize source config
  · rw [hnone] at h; cases h
  · rw [htok] at h
    cases h
    exact ⟨visited, l, t, hrun, hl, ht, hend, rfl⟩
  · rw [herr] at h; cases h

theorem exists_run_of_tokenize_error {source : Source} {config : Config} {e : LexError}
    (h : tokenize source config = some (.error e)) :
    ∃ visited l, Run (start source config) visited l ∧ l.Live ∧
      l.nextToken.result = .error e ∧
      returned (start source config).steps = returned (visited.map nextToken) := by
  obtain ⟨visited, l, hrun, ⟨-, hnone⟩ | ⟨hl, hsteps, ⟨t, -, -, htok⟩ | ⟨e', he, herr⟩⟩⟩ :=
    exists_run_of_tokenize source config
  · rw [hnone] at h; cases h
  · rw [htok] at h; cases h
  · rw [herr] at h
    cases h
    exact ⟨visited, l, hrun, hl, he, by rw [hsteps, returned_append, returned_error he]; simp⟩

theorem exists_run_of_tokenize_none {source : Source} {config : Config}
    (h : tokenize source config = none) :
    ∃ visited l, Run (start source config) visited l ∧ l.overflows = true ∧
      (start source config).steps = visited.map nextToken := by
  obtain ⟨visited, l, hrun, ⟨hover, -⟩ | ⟨-, -, ⟨t, -, -, htok⟩ | ⟨e, -, herr⟩⟩⟩ :=
    exists_run_of_tokenize source config
  · exact ⟨visited, l, hrun, hover, (hrun.steps_of_overflows hover).1⟩
  · rw [htok] at h; cases h
  · rw [herr] at h; cases h

end Lexer

/-! ## The cursor -/

/-- The cursor stands in the source, after the text `before`. -/
structure Cursor.At (source : Source) (before : List Char) (cursor : Cursor) : Prop where
  text : source.chars = before ++ cursor.rest
  offset : cursor.offset = byteLength before

namespace Cursor.At

variable {source : Source} {before : List Char} {cursor : Cursor}

theorem advance (h : cursor.At source before) {text rest : List Char}
    (hrest : cursor.rest = text ++ rest) : (cursor.advance text).At source (before ++ text) where
  text := by rw [h.text, hrest, Cursor.rest_advance hrest, List.append_assoc]
  offset := by rw [byteLength_append, ← h.offset]; rfl

theorem origin (h : cursor.At source before) :
    source.origin cursor.offset = ⟨source, byteLength before⟩ := by
  rw [h.offset]; exact Source.origin_of_boundary ⟨cursor.rest, h.text.symm⟩

theorem atEnd (h : cursor.At source before) (hrest : cursor.rest = []) :
    source.chars = before ∧ source.origin cursor.offset = ⟨source, source.size⟩ := by
  have htext := h.text
  rw [hrest, List.append_nil] at htext
  refine ⟨htext, ?_⟩
  rw [h.origin, Source.size, htext]

theorem of_lexer_advance {c : Char} {cs : List Char} (h : cursor.At source before)
    (hrest : cursor.rest = c :: cs) :
    (cursor.advance (Lexeme.read c cs).text).At source (before ++ (Lexeme.read c cs).text) := by
  obtain ⟨rest, hr⟩ := Lexeme.read_isPrefix c cs
  exact h.advance (hrest.trans hr.symm)

end Cursor.At

namespace Lexer

theorem start_cursorAt (source : Source) (config : Config) :
    (start source config).cursor.At source [] := ⟨rfl, rfl⟩

theorem settled_cursorAt {l : Lexer} {source : Source} {before : List Char}
    (h : l.cursor.At source before) : l.settled.cursor.At source (before ++ l.skipped) :=
  h.advance l.settled_spec.1

theorem Move.exists_cursorAt {l : Lexer} {s : Step} (h : Move l s) {source : Source}
    {before : List Char} (hat : l.cursor.At source before) :
    ∃ before, s.lexer.cursor.At source before := by
  have hset := settled_cursorAt hat
  cases h with
  | dequeue => exact ⟨_, hat⟩
  | indent | dedent | badIndent | unwind | finish => exact ⟨_, hset⟩
  | @newline cs _ _ hr =>
    have hfeed : l.settled.cursor.rest = ['\n'] ++ cs := hr
    exact ⟨_, hset.advance hfeed⟩
  | token _ _ hr | fail _ _ hr => exact ⟨_, hset.of_lexer_advance hr⟩

theorem Run.exists_cursorAt {source : Source} {config : Config} {visited : List Lexer} {l : Lexer}
    (h : Run (start source config) visited l) : ∃ before, l.cursor.At source before := by
  induction h with
  | nil => exact ⟨[], start_cursorAt source config⟩
  | snoc _ hm ih =>
    obtain ⟨before, hat⟩ := ih
    obtain ⟨s, hmove, -, hlexer⟩ := exists_move hm.1
    rw [hlexer]; exact hmove.exists_cursorAt hat

/-- Only the end of a line makes the next call start one. -/
theorem Move.lineStart {l : Lexer} {s : Step} (h : Move l s) {source : Source}
    (hat : ∃ before, l.cursor.At source before)
    (hl : l.atLineStart = true → ∃ before, l.cursor.At source before ∧ AtBreak before ∧
      (l.config.joinsLines && 0 < l.depth) = false)
    (hs : s.lexer.atLineStart = true) :
    ∃ before, s.lexer.cursor.At source before ∧ AtBreak before ∧
      (s.lexer.config.joinsLines && 0 < s.lexer.depth) = false := by
  cases h with
  | dequeue => exact hl hs
  | @newline cs _ _ hr hj =>
    obtain ⟨before, hat⟩ := hat
    have hfeed : l.settled.cursor.rest = ['\n'] ++ cs := hr
    exact ⟨_, (settled_cursorAt hat).advance hfeed, Or.inr (by simp), hj⟩
  | indent | dedent | badIndent | token | fail | unwind | finish => cases hs

/-- At a line start a line of the source starts, outside brackets if these join lines. -/
theorem Run.lineStart {source : Source} {config : Config} {visited : List Lexer} {l : Lexer}
    (h : Run (start source config) visited l) (hl : l.atLineStart = true) :
    ∃ before, l.cursor.At source before ∧ AtBreak before ∧
      (l.config.joinsLines && 0 < l.depth) = false := by
  induction h with
  | nil => exact ⟨[], start_cursorAt source config, Or.inl rfl, by simp [start]⟩
  | snoc hrun hm ih =>
    obtain ⟨s, hmove, -, hlexer⟩ := exists_move hm.1
    rw [hlexer] at hl ⊢
    exact hmove.lineStart hrun.exists_cursorAt ih hl

/-! ## Widths that fit -/

theorem Run.exists_line {source : Source} {config : Config} {visited : List Lexer} {l : Lexer}
    (h : Run (start source config) visited l) (hs : l.atLineStart = true) {line : List Char}
    (hline : line ∈ l.skipped.splitOn '\n') :
    ∃ whole ∈ source.chars.splitOn '\n', indentation whole = indentation line := by
  obtain ⟨before, hat, hbreak, -⟩ := h.lineStart hs
  obtain ⟨hrest, -, hstop⟩ := l.settled_spec
  have hskips : l.skipsLines = true := by simp [skipsLines, hs]
  rw [hskips] at hstop
  rw [hat.text, hrest, ← List.append_assoc]
  exact exists_line_of_mem hbreak hstop.isSolid hline

/-- Where the width of every line of the source fits in a word, no call panics. -/
theorem not_panics_of_fits {source : Source} {config : Config}
    (hfits : ∀ line ∈ source.chars.splitOn '\n',
      config.columns (indentation line) < UInt64.size) :
    (start source config).panics = false := by
  obtain ⟨visited, l, hrun, -, hover | ⟨hlive, hend⟩⟩ := exists_last_call (start source config) rfl
  · obtain ⟨-, -, hs, line, hline, hle⟩ := overflows_eq_true.1 hover
    obtain ⟨whole, hwhole, hsame⟩ := hrun.exists_line hs hline
    have hconfig : l.config = config := hrun.config
    rw [hconfig, ← hsame] at hle
    exact absurd (hfits whole hwhole) (Nat.not_lt.2 hle)
  · exact (hrun.steps_of_last hlive hend).2

/-- A stream that panics has a line that is too wide. -/
theorem exists_wide_line {source : Source} {config : Config}
    (h : (start source config).panics = true) :
    ∃ line ∈ source.chars.splitOn '\n', UInt64.size ≤ config.columns (indentation line) := by
  by_contra hfits
  rw [not_panics_of_fits (by simpa using hfits)] at h
  cases h

end Lexer

end Offside
