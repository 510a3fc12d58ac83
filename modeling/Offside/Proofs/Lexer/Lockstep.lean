import Mathlib.Data.List.Forall2
import Mathlib.Order.Monotone.Basic
import Offside.Proofs.Lexer.TokenLanguage

/-!
# Two runs in lockstep

Two lexers, on different texts and perhaps with different settings, are compared call by call. They
are `Twins` while their open blocks, their queues and their texts correspond; `Meets` says that
after its gap each finds what the other finds. Twins that meet answer the next call alike and are
twins again, so whole streams are alike. A comparison of two texts has to supply a relation between
their cursors and to show that twins meet.

Results:
* `Lexer.Twins.pull`: one call.
* `Lexer.Run.lockstep`, `Lexer.Run.twins`: a run of one lexer is matched by a run of the other.
* `Lexer.Twins.items_alike_of_agree`, `Lexer.Twins.items_alike`: two whole streams.
-/

namespace Offside

open Text

/-- The source with its text rewritten. -/
def Source.edit (source : Source) (f : List Char → List Char) : Source :=
  ⟨source.name, String.ofList (f source.chars)⟩

@[simp] theorem Source.chars_edit (source : Source) (f : List Char → List Char) :
    (source.edit f).chars = f source.chars := String.toList_ofList

/-! ## Items -/

/-- The cause with its width, if it has one, renamed. -/
def LexError.Cause.mapWidth (f : Nat → Nat) : LexError.Cause → LexError.Cause
  | .badIndent width => .badIndent (f width)
  | cause => cause

@[simp] theorem LexError.Cause.mapWidth_id (cause : LexError.Cause) :
    cause.mapWidth id = cause := by
  cases cause <;> rfl

namespace Lexer

/-- What a lexer returns, call by call: its tokens, and the error if it fails. -/
def items (l : Lexer) : List (Except LexError Token) := l.steps.map Step.result

/-- An item without the place it stands at. -/
def bare : Except LexError Token → Except LexError.Cause Token.Content
  | .ok t => .ok t.content
  | .error e => .error e.cause

/-- Where an item stands. -/
def place : Except LexError Token → Origin
  | .ok t => t.origin
  | .error e => e.origin

/-- An item with the offset it stands at. -/
def placed (item : Except LexError Token) : Except LexError.Cause Token.Content × Nat :=
  (bare item, (place item).offset)

theorem items_of_live {l : Lexer} (h : l.Live) :
    l.items = l.nextToken.result :: l.nextToken.lexer.items := by
  simp only [items, steps_of_live h, List.map_cons]

theorem items_of_not_live {l : Lexer} (h : ¬ l.Live) : l.items = [] := by
  simp only [items, steps_of_not_live h, List.map_nil]

theorem panics_of_live {l : Lexer} (h : l.Live) : l.panics = l.nextToken.lexer.panics := by
  simp only [panics, drained, steps_of_live h, List.getLast?_cons]
  cases l.nextToken.lexer.steps.getLast? <;> rfl

theorem panics_of_ended {l : Lexer} (h : l.phase ≠ .scanning) : l.panics = false := by
  rw [Run.nil.panics_eq (not_live_of_ended h), overflows_of_ended h]

/-- A move that returns a token, the end of input apart, and the items after it. -/
theorem items_of_move {l : Lexer} {s : Step} {t : Token} (h : Move l s) (hl : l.Live)
    (ht : s.result = .ok t) (hne : t.content ≠ .endOfInput) :
    l.items = .ok t :: s.lexer.items ∧ l.panics = s.lexer.panics := by
  have hphase : s.phaseAfter = s.lexer.phase := by
    simp only [Step.phaseAfter, ht, hne, if_false]
  have hnext : l.nextToken.lexer = s.lexer := by
    rw [nextToken_eq hl.1, h.pull_eq, Step.deliver_lexer, hphase]
  have hresult : l.nextToken.result = .ok t := by
    rw [nextToken_eq hl.1, h.pull_eq, Step.deliver_result, ht]
  rw [items_of_live hl, panics_of_live hl, hnext, hresult]
  exact ⟨rfl, rfl⟩

theorem items_of_end {l : Lexer} {s : Step} {t : Token} (h : Move l s) (hl : l.Live)
    (ht : s.result = .ok t) (hend : t.content = .endOfInput) :
    l.items = [.ok t] ∧ l.panics = false := by
  have hresult : l.nextToken.result = .ok t := by
    rw [nextToken_eq hl.1, h.pull_eq, Step.deliver_result, ht]
  have hlast : l.nextToken.lexer.phase ≠ .scanning := by
    rw [ne_eq, phase_nextToken hl.1, hresult]
    simp [hend]
  rw [items_of_live hl, panics_of_live hl, hresult, items_of_not_live (not_live_of_ended hlast),
    panics_of_ended hlast]
  exact ⟨rfl, rfl⟩

theorem Run.items_eq {l m : Lexer} {visited : List Lexer} (h : Run l visited m) :
    l.items = visited.map (fun v => v.nextToken.result) ++ m.items := by
  simp only [items, h.steps_eq, List.map_append, List.map_map]
  rfl

theorem tokenize_eq_some {source : Source} {config : Config} {r : Except LexError (List Token)} :
    tokenize source config = some r ↔
      (start source config).panics = false ∧ tokens (start source config).steps = r := by
  simp only [tokenize]
  cases (start source config).panics <;> simp

theorem Run.panics {l m : Lexer} {visited : List Lexer} (h : Run l visited m) :
    l.panics = m.panics := by
  induction h with
  | nil => rfl
  | snoc _ hm ih => rw [ih, panics_of_live hm]

theorem items_of_tokenize_ok {source : Source} {config : Config} {ts : List Token}
    (h : tokenize source config = some (.ok ts)) : (start source config).items = ts.map .ok := by
  replace h := (tokenize_eq_some.1 h).2
  unfold items
  generalize (start source config).steps = steps at h ⊢
  induction steps generalizing ts with
  | nil => cases h; rfl
  | cons s steps ih =>
    rw [tokens] at h
    cases hs : s.result with
    | error e => simp [hs] at h
    | ok t =>
      cases hrest : tokens steps with
      | error e => simp [hs, hrest, Except.map] at h
      | ok rest =>
        simp only [hs, hrest, Except.map, Except.ok.injEq] at h
        rw [← h, List.map_cons, List.map_cons, ih hrest, hs]

/-- A stream that returns nothing but tokens and does not panic has no error. -/
theorem tokenize_of_items {source : Source} {config : Config} {ts : List Token}
    (h : (start source config).items = ts.map .ok) (hp : (start source config).panics = false) :
    tokenize source config = some (.ok ts) := by
  cases htok : tokenize source config with
  | none => simp [tokenize, hp] at htok
  | some r =>
    cases r with
    | ok us =>
      have hitems := (items_of_tokenize_ok htok).symm.trans h
      rw [(List.map_inj_right fun _ _ => Except.ok.inj).1 hitems]
    | error e =>
      obtain ⟨visited, l, hrun, hl, herr, -⟩ := exists_run_of_tokenize_error htok
      have hmem : (.error e : Except LexError Token) ∈ ts.map .ok := by
        rw [← h, hrun.items_eq, items_of_live hl, herr]
        simp
      simp at hmem

theorem Run.result_of_tokenize_ok {source : Source} {config : Config} {visited : List Lexer}
    {l : Lexer} {ts : List Token} (h : Run (start source config) visited l)
    (hl : l.phase = .scanning) (hok : tokenize source config = some (.ok ts)) :
    ∃ t, l.nextToken.result = .ok t := by
  have hmem : l.nextToken.result ∈ ts.map .ok := by
    rw [← items_of_tokenize_ok hok, h.items_eq,
      items_of_live (h.live (tokenize_eq_some.1 hok).1 hl)]
    simp
  obtain ⟨t, -, ht⟩ := List.mem_map.1 hmem
  exact ⟨t, ht.symm⟩

theorem exists_call_of_mem_items {l : Lexer} {item : Except LexError Token} (h : item ∈ l.items) :
    ∃ visited m, Run l visited m ∧ m.Live ∧ m.nextToken.result = item := by
  by_cases hl : l.Live
  · rw [items_of_live hl] at h
    rcases List.mem_cons.1 h with rfl | h
    · exact ⟨[], l, .nil, hl, rfl⟩
    · have hlt : l.nextToken.lexer.weight < l.weight := weight_nextToken_lt hl.1
      obtain ⟨visited, m, hrun, hm, hitem⟩ := exists_call_of_mem_items h
      exact ⟨l :: visited, m, hrun.cons hl, hm, hitem⟩
  · rw [items_of_not_live hl] at h; cases h
termination_by l.weight

end Lexer

/-- How the items of two streams correspond: the widths of the one renamed to those of the other,
and where they stand. -/
structure Likeness where
  width : Nat → Nat
  strictMono : StrictMono width
  width_zero : width 0 = 0
  origin : Origin → Origin → Prop

namespace Likeness

/-- Two tokens have the same content and stand at corresponding places. -/
def Tokens (k : Likeness) (t t' : Token) : Prop :=
  t'.content = t.content ∧ k.origin t.origin t'.origin

/-- Two items are alike. -/
inductive Items (k : Likeness) : Except LexError Token → Except LexError Token → Prop
  | ok {t t' : Token} (h : k.Tokens t t') : Items k (.ok t) (.ok t')
  | error {e e' : LexError} (hcause : e'.cause = e.cause.mapWidth k.width)
      (horigin : k.origin e.origin e'.origin) : Items k (.error e) (.error e')

theorem Items.goesOn_iff {k : Likeness} {r r' : Except LexError Token} (h : k.Items r r') :
    (∃ t, r = .ok t ∧ t.content ≠ .endOfInput) ↔ ∃ t, r' = .ok t ∧ t.content ≠ .endOfInput := by
  cases h with
  | @ok t t' h => simp [h.1]
  | error => simp

/-- Alike streams differ in their places, and in their widths as these are renamed. -/
theorem map_bare {k : Likeness} {items items' : List (Except LexError Token)}
    (h : List.Forall₂ k.Items items items') :
    items'.map Lexer.bare =
      items.map fun item => (Lexer.bare item).mapError (·.mapWidth k.width) := by
  induction h with
  | nil => rfl
  | cons hitem _ ih =>
    rw [List.map_cons, List.map_cons, ih]
    congr 1
    cases hitem with
    | @ok t t' h => show Except.ok _ = Except.ok _; rw [h.1]
    | error hcause _ => show Except.error _ = Except.error _; rw [hcause]

theorem exists_tokens {k : Likeness} {ts : List Token}
    {items : List (Except LexError Token)} (h : List.Forall₂ k.Items (ts.map .ok) items) :
    ∃ ts' : List Token, items = ts'.map .ok ∧
      ts'.map Token.content = ts.map Token.content := by
  rw [List.forall₂_map_left_iff] at h
  induction h with
  | nil => exact ⟨[], rfl, rfl⟩
  | cons hitem _ ih =>
    obtain ⟨ts', rfl, hcontents⟩ := ih
    cases hitem with
    | @ok _ t' ht => exact ⟨t' :: ts', rfl, by rw [List.map_cons, List.map_cons, ht.1, hcontents]⟩

/-- Contents, causes and widths are the same, and places are related by `origin`. -/
def moved (origin : Origin → Origin → Prop) : Likeness := ⟨id, strictMono_id, rfl, origin⟩

theorem moved_spec {origin : Origin → Origin → Prop} {items items' : List (Except LexError Token)}
    (h : List.Forall₂ (moved origin).Items items items') :
    items'.map Lexer.bare = items.map Lexer.bare ∧
      List.Forall₂ (fun item item' => origin (Lexer.place item) (Lexer.place item')) items
        items' := by
  constructor
  · rw [map_bare h]
    refine List.map_congr_left fun item _ => ?_
    cases item with
    | ok t => rfl
    | error e => exact congrArg Except.error e.cause.mapWidth_id
  · refine h.imp fun item item' hitem => ?_
    cases hitem with
    | ok h => exact h.2
    | error _ horigin => exact horigin

/-- The same contents and causes at the same offsets. -/
theorem map_placed {items items' : List (Except LexError Token)}
    (h : List.Forall₂ (moved fun o o' => o'.offset = o.offset).Items items items') :
    items'.map Lexer.placed = items.map Lexer.placed := by
  obtain ⟨hbare, hplace⟩ := moved_spec h
  clear h
  induction hplace with
  | nil => rfl
  | cons hitem _ ih =>
    simp only [List.map_cons, List.cons.injEq] at hbare ⊢
    exact ⟨Prod.ext hbare.1 hitem, ih hbare.2⟩

end Likeness

/-! ## Blocks -/

namespace Blocks

variable {blocks : Blocks} {w : Nat}

theorem top_map {f : Nat → Nat} (h0 : f 0 = 0) : top (blocks.map f) = f blocks.top := by
  cases blocks with
  | nil => exact h0.symm
  | cons b bs => rfl

/-- Blocks only compare widths, so renaming these in order changes nothing else. -/
theorem enter?_map {f : Nat → Nat} (hf : StrictMono f) (h0 : f 0 = 0) :
    enter? (blocks.map f) (f w) = (blocks.enter? w).map (List.map f) := by
  have hdrop : (blocks.map f).dropWhile (f w < ·) = (blocks.dropWhile (w < ·)).map f := by
    rw [List.dropWhile_map]
    congr 2
    funext b
    exact decide_eq_decide.2 hf.lt_iff_lt
  simp only [enter?, top_map h0, hf.lt_iff_lt]
  split
  · rfl
  · simp only [hdrop, top_map h0, hf.injective.eq_iff]
    split <;> rfl

/-- What a line of width `w` does to the open blocks. -/
inductive Entry (blocks : Blocks) (w : Nat) : Prop
  | opens (h : blocks.top < w)
  | same (h : w = blocks.top)
  | closes {kept : Blocks} {n : Nat} (hw : w < blocks.top) (hk : blocks.enter? w = some kept)
      (hn : blocks.length = kept.length + (n + 1))
  | misses (h : blocks.enter? w = none)

theorem entry (blocks : Blocks) (w : Nat) : Entry blocks w := by
  by_cases hw : blocks.top < w
  · exact .opens hw
  · cases hk : blocks.enter? w with
    | none => exact .misses hk
    | some kept =>
      rcases enter?_cases hw hk with ⟨-, htop⟩ | ⟨hlt, hlen⟩
      · exact .same htop
      · exact .closes (n := blocks.length - kept.length - 1) hlt hk (by omega)

end Blocks

namespace Lexer

/-! ## What a scan finds -/

theorem skipsLines_of_feed {l : Lexer} {cs : List Char} (h : l.settled.cursor.rest = '\n' :: cs) :
    l.skipsLines = false := by
  obtain ⟨-, -, hstop⟩ := l.settled_spec
  rcases hstop with hr | ⟨c, cs', hr, ⟨-, hj⟩ | hc⟩
  · rw [h] at hr; cases hr
  · exact hj
  · rw [h] at hr
    cases hr
    exact absurd rfl (ne_lineFeed_of_beginsToken hc)

theorem beginsToken_of_settled {l : Lexer} {c : Char} {cs : List Char}
    (h : l.settled.cursor.rest = c :: cs) (hc : c ≠ '\n') :
    beginsToken l.config.comments c = true := by
  obtain ⟨-, -, hstop⟩ := l.settled_spec
  rcases hstop with hr | ⟨d, cs', hr, ⟨hd, -⟩ | hd⟩
  · rw [h] at hr; cases hr
  · rw [h] at hr; cases hr; exact absurd hd hc
  · rw [h] at hr; cases hr; exact hd

/-- Cutting the rest of the text where the scan must stop gives what it skips. -/
theorem settled_of_gap {l : Lexer} {g next : List Char} (hrest : l.cursor.rest = g ++ next)
    (hgap : IsGap l.config.comments g next) (hstop : GapStops l.skipsLines l.config.comments next)
    (hfeed : l.skipsLines = false → '\n' ∉ g) :
    l.skipped = g ∧ l.settled.cursor = ⟨next, l.cursor.offset + byteLength g⟩ := by
  have hskip : l.skipped = g := by
    unfold skipped
    rw [hrest]; exact gap_append hgap hstop hfeed
  refine ⟨hskip, ?_⟩
  show l.cursor.advance l.skipped = _
  rw [hskip, Cursor.advance, hrest, List.drop_left]

theorem lineFeed_notMem_skipped {l : Lexer} (h : l.skipsLines = false) : '\n' ∉ l.skipped := by
  unfold skipped
  rw [h]; exact lineFeed_notMem_gap _ _

/-- The line that is measured at a line start. -/
theorem nextLine?_of_settled {l : Lexer} (hs : l.atLineStart = true) {c : Char} {cs : List Char}
    (hr : l.settled.cursor.rest = c :: cs) :
    l.nextLine? = some ⟨l.settled.cursor.offset - byteLength (lastLine l.skipped),
      l.config.columns (lastLine l.skipped)⟩ := by
  have hskip := leading_eq_skipped hs
  have hne : (l.cursor.advance l.skipped).rest.isEmpty = false := by
    rw [show (l.cursor.advance l.skipped).rest = c :: cs from hr]; rfl
  simp only [nextLine?, hskip, hne, Bool.false_eq_true, if_false]
  rfl

/-! ## Twins -/

/-- Two lexers stand alike. `text` relates their cursors, given whether a line is to be measured
next. -/
structure Twins (k : Likeness) (text : Bool → Cursor → Cursor → Prop) (l l' : Lexer) : Prop where
  blocks : l'.blocks = l.blocks.map k.width
  pending : List.Forall₂ k.Tokens l.pending l'.pending
  lineStart : l'.atLineStart = l.atLineStart
  /-- Brackets count only if they join lines. -/
  depth : l.config.joinsLines = true → l'.depth = l.depth
  cursor : text l.atLineStart l.cursor l'.cursor

/-- Does a scan that finds a token return it, no mark coming first? -/
def Reads (l : Lexer) : Prop :=
  l.atLineStart = true → l.nextLine?.map Line.width = some l.blocks.top

/-- What the next scans of two lexers find where they stop skipping. -/
inductive Meets (k : Likeness) (text : Bool → Cursor → Cursor → Prop) (l l' : Lexer) : Prop
  /-- The end of both texts. -/
  | atEnd (hr : l.settled.cursor.rest = []) (hr' : l'.settled.cursor.rest = [])
      (hplace : k.origin (l.source.origin l.settled.cursor.offset)
        (l'.source.origin l'.settled.cursor.offset))
      (hend : k.origin l.endToken.origin l'.endToken.origin)
      (htext : text false l.settled.cursor l'.settled.cursor)
  /-- The end of a line. -/
  | newline {cs cs' : List Char} (hr : l.settled.cursor.rest = '\n' :: cs)
      (hr' : l'.settled.cursor.rest = '\n' :: cs')
      (hplace : k.origin (l.source.origin l.settled.cursor.offset)
        (l'.source.origin l'.settled.cursor.offset))
      (htext : text true (l.settled.cursor.advance ['\n']) (l'.settled.cursor.advance ['\n']))
  /-- A token, or what cannot be read. At a line start the lines correspond, too. What follows the
  first character matters only if it is read, not if the line makes a mark first. -/
  | token {c : Char} {cs cs' : List Char} (hr : l.settled.cursor.rest = c :: cs)
      (hr' : l'.settled.cursor.rest = c :: cs') (hc : c ≠ '\n')
      (hplace : k.origin (l.source.origin l.settled.cursor.offset)
        (l'.source.origin l'.settled.cursor.offset))
      (hline : l.atLineStart = true →
        l'.config.columns (lastLine l'.skipped) = k.width (l.config.columns (lastLine l.skipped)) ∧
        k.origin
          (l.source.origin (l.settled.cursor.offset - byteLength (lastLine l.skipped)))
          (l'.source.origin (l'.settled.cursor.offset - byteLength (lastLine l'.skipped))))
      (htext : text false l.settled.cursor l'.settled.cursor)
      (hread : l.Reads →
        (Lexeme.read c cs').content = (Lexeme.read c cs).content ∧
        ∀ content, (Lexeme.read c cs).content = .ok content →
          text false (l.settled.cursor.advance (Lexeme.read c cs).text)
            (l'.settled.cursor.advance (Lexeme.read c cs').text))

section

variable {k : Likeness} {text : Bool → Cursor → Cursor → Prop} {l l' : Lexer}

theorem start_twins {source source' : Source} {config config' : Config}
    (h : text true ⟨source.chars, 0⟩ ⟨source'.chars, 0⟩) :
    Twins k text (start source config) (start source' config') :=
  ⟨rfl, .nil, rfl, fun _ => rfl, h⟩

theorem Twins.pending_nil (h : Twins k text l l') (hq : l.pending = []) : l'.pending = [] := by
  have hpending := h.pending
  rw [hq] at hpending
  exact List.forall₂_nil_left_iff.1 hpending

theorem Twins.skipsLines_eq (h : Twins k text l l')
    (hjoins : l'.config.joinsLines = l.config.joinsLines) : l'.skipsLines = l.skipsLines := by
  unfold skipsLines
  rw [h.lineStart, hjoins]
  cases hj : l.config.joinsLines with
  | false => rfl
  | true => rw [h.depth hj]

theorem Twins.overflows_eq (h : Twins k text l l') (hphase : l'.phase = l.phase)
    (hwidth : l'.config.width? = l.config.width?)
    (hskip : l.pending = [] → l.atLineStart = true → l'.skipped = l.skipped) :
    l'.overflows = l.overflows := by
  cases hs : l.atLineStart with
  | false => rw [overflows_of_inLine hs, overflows_of_inLine (h.lineStart.trans hs)]
  | true =>
    have hpending := h.pending
    cases hq : l.pending with
    | cons t queue =>
      rw [hq] at hpending
      obtain ⟨t', queue', -, -, hq'⟩ := List.forall₂_cons_left_iff.1 hpending
      rw [overflows_of_pending hq, overflows_of_pending hq']
    | nil =>
      have hs' := h.lineStart.trans hs
      have hleading : l'.leading = l.leading := by
        rw [leading_eq_skipped hs, leading_eq_skipped hs', hskip hq hs]
      simp only [overflows, indentations, hphase, hwidth, hleading, hq, h.pending_nil hq, hs, hs']

/-- The marks of a line: the settled lexers, with other blocks and queues. -/
theorem Twins.marked (h : Twins k text l l') (htext : text false l.settled.cursor l'.settled.cursor)
    (blocks : Blocks) {queue queue' : List Token} (hqueue : List.Forall₂ k.Tokens queue queue') :
    Twins k text { l.settled with blocks, pending := queue }
      { l'.settled with blocks := blocks.map k.width, pending := queue' } where
  blocks := rfl
  pending := hqueue
  lineStart := rfl
  depth := h.depth
  cursor := htext

theorem forall₂_replicate {α : Type} {R : α → α → Prop} {a b : α} (h : R a b) (n : Nat) :
    List.Forall₂ R (List.replicate n a) (List.replicate n b) := by
  induction n with
  | zero => exact .nil
  | succ n ih => exact .cons h ih

/-- Both texts end: the blocks are closed, if any are open, and the stream ends. -/
theorem Twins.pull_atEnd (h : Twins k text l l') (hq : l.pending = [])
    (hr : l.settled.cursor.rest = []) (hr' : l'.settled.cursor.rest = [])
    (hplace : k.origin (l.source.origin l.settled.cursor.offset)
      (l'.source.origin l'.settled.cursor.offset))
    (hend : k.origin l.endToken.origin l'.endToken.origin)
    (htext : text false l.settled.cursor l'.settled.cursor) :
    k.Items l.pull.result l'.pull.result ∧ Twins k text l.pull.lexer l'.pull.lexer := by
  have hq' := h.pending_nil hq
  have hlen : l'.blocks.length = l.blocks.length := by rw [h.blocks, List.length_map]
  have htokens : k.Tokens l.endToken l'.endToken := ⟨rfl, hend⟩
  cases hb : l.blocks with
  | nil =>
    have hb' : l'.blocks = [] := by rw [h.blocks, hb, List.map_nil]
    rw [(Move.finish hq hr hb).pull_eq, (Move.finish hq' hr' hb').pull_eq]
    exact ⟨.ok htokens, ⟨h.blocks, h.pending, rfl, h.depth, htext⟩⟩
  | cons b bs =>
    have hlength : l.blocks.length = bs.length + 1 := by rw [hb]; rfl
    rw [(Move.unwind hq hr hlength).pull_eq, (Move.unwind hq' hr' (hlen.trans hlength)).pull_eq]
    have hdedent : k.Tokens ⟨.dedent, l.source.origin l.settled.cursor.offset⟩
        ⟨.dedent, l'.source.origin l'.settled.cursor.offset⟩ := ⟨rfl, hplace⟩
    have hqueue := List.rel_append (forall₂_replicate hdedent bs.length)
      (List.Forall₂.cons htokens .nil)
    exact ⟨.ok hdedent, h.marked htext [] hqueue⟩

/-- Both find a token, or what cannot be read, and no mark comes before it. -/
theorem Twins.pull_read (h : Twins k text l l') (hq : l.pending = []) (hs : l.Reads)
    (hs' : l'.Reads) {c : Char} {cs cs' : List Char}
    (hr : l.settled.cursor.rest = c :: cs) (hr' : l'.settled.cursor.rest = c :: cs') (hc : c ≠ '\n')
    (hplace : k.origin (l.source.origin l.settled.cursor.offset)
      (l'.source.origin l'.settled.cursor.offset))
    (hread : (Lexeme.read c cs').content = (Lexeme.read c cs).content ∧
      ∀ content, (Lexeme.read c cs).content = .ok content →
        text false (l.settled.cursor.advance (Lexeme.read c cs).text)
          (l'.settled.cursor.advance (Lexeme.read c cs').text)) :
    k.Items l.pull.result l'.pull.result ∧
      ∀ t, l.pull.result = .ok t → Twins k text l.pull.lexer l'.pull.lexer := by
  have hq' := h.pending_nil hq
  have hc' := beginsToken_of_settled hr' hc
  have hc := beginsToken_of_settled hr hc
  obtain ⟨hread, hnext⟩ := hread
  cases hcontent : (Lexeme.read c cs).content with
  | ok content =>
    have hcontent' := hread.trans hcontent
    rw [(Move.token hq hs hr hc hcontent).pull_eq, (Move.token hq' hs' hr' hc' hcontent').pull_eq]
    refine ⟨.ok ⟨rfl, hplace⟩, ?_⟩
    rintro t -
    refine ⟨h.blocks, h.pending, rfl, ?_, hnext content hcontent⟩
    intro hj
    show depthAfter l'.depth content = depthAfter l.depth content
    rw [h.depth hj]
  | error cause =>
    have hcontent' := hread.trans hcontent
    rw [(Move.fail hq hs hr hc hcontent).pull_eq, (Move.fail hq' hs' hr' hc' hcontent').pull_eq]
    refine ⟨.error ?_ hplace, nofun⟩
    rcases Lexeme.read_error hcontent with rfl | rfl <;> rfl

theorem Twins.pull_line (h : Twins k text l l') (hq : l.pending = []) (hs : l.atLineStart = true)
    {line line' : Line} (hl : l.nextLine? = some line) (hl' : l'.nextLine? = some line')
    (hwidth : line'.width = k.width line.width)
    (hplace : k.origin (l.source.origin line.start) (l'.source.origin line'.start))
    (htext : text false l.settled.cursor l'.settled.cursor)
    (hsame : line.width = l.blocks.top → k.Items l.pull.result l'.pull.result ∧
      ∀ t, l.pull.result = .ok t → Twins k text l.pull.lexer l'.pull.lexer) :
    k.Items l.pull.result l'.pull.result ∧
      ∀ t, l.pull.result = .ok t → Twins k text l.pull.lexer l'.pull.lexer := by
  have hq' := h.pending_nil hq
  have hs' : l'.atLineStart = true := h.lineStart.trans hs
  have htop : l'.blocks.top = k.width l.blocks.top := by
    rw [h.blocks, Blocks.top_map k.width_zero]
  have henter : l'.blocks.enter? line'.width =
      (l.blocks.enter? line.width).map (List.map k.width) := by
    rw [h.blocks, hwidth, Blocks.enter?_map k.strictMono k.width_zero]
  cases l.blocks.entry line.width with
  | same hw => exact hsame hw
  | opens hw =>
    have hw' : l'.blocks.top < line'.width := by
      rw [htop, hwidth]; exact k.strictMono hw
    rw [(Move.indent hq hs hl hw).pull_eq, (Move.indent hq' hs' hl' hw').pull_eq]
    refine ⟨.ok ⟨rfl, hplace⟩, ?_⟩
    rintro t -
    refine ⟨?_, h.pending, rfl, h.depth, htext⟩
    show line'.width :: l'.blocks = (line.width :: l.blocks).map k.width
    rw [hwidth, h.blocks, List.map_cons]
  | @closes kept n hw hk hn =>
    have hw' : line'.width < l'.blocks.top := by
      rw [htop, hwidth]; exact k.strictMono hw
    have hk' : l'.blocks.enter? line'.width = some (kept.map k.width) := by
      rw [henter, hk, Option.map_some]
    have hn' : l'.blocks.length = (kept.map k.width).length + (n + 1) := by
      rw [h.blocks, List.length_map, List.length_map, hn]
    rw [(Move.dedent hq hs hl hw hk hn).pull_eq, (Move.dedent hq' hs' hl' hw' hk' hn').pull_eq]
    have hdedent : k.Tokens ⟨.dedent, l.source.origin line.start⟩
        ⟨.dedent, l'.source.origin line'.start⟩ := ⟨rfl, hplace⟩
    refine ⟨.ok hdedent, ?_⟩
    rintro t -
    exact h.marked htext kept (forall₂_replicate hdedent n)
  | misses hk =>
    have hk' : l'.blocks.enter? line'.width = none := by rw [henter, hk, Option.map_none]
    rw [(Move.badIndent hq hs hl hk).pull_eq, (Move.badIndent hq' hs' hl' hk').pull_eq]
    exact ⟨.error (by rw [hwidth]; rfl) hplace, nofun⟩

/-- **One call.** Twins that meet return alike items and are twins again. -/
theorem Twins.pull (h : Twins k text l l') (hmeets : l.pending = [] → Meets k text l l') :
    k.Items l.pull.result l'.pull.result ∧
      ∀ t, l.pull.result = .ok t → Twins k text l.pull.lexer l'.pull.lexer := by
  cases hq : l.pending with
  | cons t queue =>
    have hpending := h.pending
    rw [hq] at hpending
    obtain ⟨t', queue', ht, hqueue, hq'⟩ := List.forall₂_cons_left_iff.1 hpending
    rw [(Move.dequeue hq).pull_eq, (Move.dequeue hq').pull_eq]
    exact ⟨.ok ht, fun _ _ => ⟨h.blocks, hqueue, h.lineStart, h.depth, h.cursor⟩⟩
  | nil =>
    have hq' := h.pending_nil hq
    cases hmeets hq with
    | atEnd hr hr' hplace hend htext =>
      obtain ⟨hitems, htwins⟩ := h.pull_atEnd hq hr hr' hplace hend htext
      exact ⟨hitems, fun _ _ => htwins⟩
    | newline hr hr' hplace htext =>
      have hskips := skipsLines_of_feed hr
      have hskips' := skipsLines_of_feed hr'
      simp only [skipsLines, Bool.or_eq_false_iff] at hskips hskips'
      rw [(Move.newline hq hskips.1 hr hskips.2).pull_eq,
        (Move.newline hq' hskips'.1 hr' hskips'.2).pull_eq]
      exact ⟨.ok ⟨rfl, hplace⟩, fun _ _ => ⟨h.blocks, h.pending, rfl, h.depth, htext⟩⟩
    | token hr hr' hc hplace hline htext hread =>
      cases hs : l.atLineStart with
      | false =>
        have hs' : l'.atLineStart = false := h.lineStart.trans hs
        have hreads : l.Reads := by simp [Reads, hs]
        exact h.pull_read hq hreads (by simp [Reads, hs']) hr hr' hc hplace (hread hreads)
      | true =>
        have hs' : l'.atLineStart = true := h.lineStart.trans hs
        have hl := nextLine?_of_settled hs hr
        have hl' := nextLine?_of_settled hs' hr'
        obtain ⟨hwidth, hstart⟩ := hline hs
        refine h.pull_line hq hs hl hl' hwidth hstart htext ?_
        intro (hsame : l.config.columns (lastLine l.skipped) = l.blocks.top)
        have hreads : l.Reads := by
          intro _
          simp only [hl, Option.map_some, hsame]
        have hreads' : l'.Reads := by
          intro _
          simp only [hl', Option.map_some, hwidth, hsame, h.blocks, Blocks.top_map k.width_zero]
        exact h.pull_read hq hreads hreads' hr hr' hc hplace (hread hreads)

/-- Two lexers answer the next call alike and are twins again, unless it fails. -/
def Agree (k : Likeness) (text : Bool → Cursor → Cursor → Prop) (l l' : Lexer) : Prop :=
  k.Items l.pull.result l'.pull.result ∧
    ∀ t, l.pull.result = .ok t → Twins k text l.pull.lexer l'.pull.lexer

theorem Agree.nextToken (h : Agree k text l l') (hl : l.phase = .scanning)
    (hl' : l'.phase = .scanning) :
    k.Items l.nextToken.result l'.nextToken.result ∧
      (l.nextToken.lexer.phase = .scanning →
        l'.nextToken.lexer.phase = .scanning ∧
          Twins k text l.nextToken.lexer l'.nextToken.lexer) := by
  obtain ⟨hitems, htwins⟩ := h
  rw [nextToken_eq hl, nextToken_eq hl', Step.deliver_result, Step.deliver_result]
  refine ⟨hitems, ?_⟩
  intro hscan
  rw [← nextToken_eq hl] at hscan
  have hgoes := (phase_nextToken hl).1 hscan
  rw [nextToken_eq hl, Step.deliver_result] at hgoes
  constructor
  · rw [← nextToken_eq hl', phase_nextToken hl', nextToken_eq hl', Step.deliver_result]
    exact hitems.goesOn_iff.1 hgoes
  · obtain ⟨t, ht, -⟩ := hgoes
    have hnext := htwins t ht
    rw [Step.deliver_lexer, Step.deliver_lexer]
    exact ⟨hnext.blocks, hnext.pending, hnext.lineStart, hnext.depth, hnext.cursor⟩

theorem Twins.nextToken (h : Twins k text l l') (hl : l.phase = .scanning)
    (hl' : l'.phase = .scanning) (hmeets : l.pending = [] → Meets k text l l') :
    k.Items l.nextToken.result l'.nextToken.result ∧
      (l.nextToken.lexer.phase = .scanning →
        l'.nextToken.lexer.phase = .scanning ∧
          Twins k text l.nextToken.lexer l'.nextToken.lexer) :=
  Agree.nextToken (h.pull hmeets) hl hl'

end

/-! ## Runs -/

section

variable {k : Likeness} {text : Bool → Cursor → Cursor → Prop} {start start' l : Lexer}
  {visited : List Lexer}

/-- A run of one lexer is matched, call by call, by a run of its twin, as long as they agree and the
twin does not panic. -/
theorem Run.lockstep (h : Run start visited l) (hl : l.phase = .scanning)
    (htwins : Twins k text start start') (hstart' : start'.phase = .scanning)
    (hover : ∀ {a v a' v'}, v ∈ visited → Run start a v → v.Live → Run start' a' v' →
      v'.phase = .scanning → Twins k text v v' → v'.overflows = false)
    (hagree : ∀ {a v a' v'}, v ∈ visited → Run start a v → v.phase = .scanning →
      Run start' a' v' → v'.phase = .scanning → Twins k text v v' → Agree k text v v') :
    ∃ visited' l', Run start' visited' l' ∧ l'.phase = .scanning ∧ Twins k text l l' ∧
      List.Forall₂ k.Items (visited.map fun v => v.nextToken.result)
        (visited'.map fun v => v.nextToken.result) := by
  induction h with
  | nil => exact ⟨[], start', .nil, hstart', htwins, .nil⟩
  | @snoc visited m hrun hm ih =>
    obtain ⟨visited', m', hrun', hm', htwins', hitems⟩ :=
      ih hm.1 (fun hv => hover (List.mem_append_left _ hv))
        fun hv => hagree (List.mem_append_left _ hv)
    obtain ⟨hitem, hnext⟩ := (hagree (by simp) hrun hm.1 hrun' hm' htwins').nextToken hm.1 hm'
    obtain ⟨hl', htwins''⟩ := hnext hl
    have hlive' : m'.Live := ⟨hm', hover (by simp) hrun hm hrun' hm' htwins'⟩
    refine ⟨visited' ++ [m'], m'.nextToken.lexer, hrun'.snoc hlive', hl', htwins'', ?_⟩
    rw [List.map_append, List.map_append]
    exact List.rel_append hitems (.cons hitem .nil)

/-- A run of one lexer is matched by a run of its twin, as long as they meet and the twin does not
panic. -/
theorem Run.twins (h : Run start visited l) (hl : l.phase = .scanning)
    (htwins : Twins k text start start') (hstart' : start'.phase = .scanning)
    (hover : ∀ {a v a' v'}, v ∈ visited → Run start a v → v.Live → Run start' a' v' →
      v'.phase = .scanning → Twins k text v v' → v'.overflows = false)
    (hmeets : ∀ {a v a' v'}, v ∈ visited → Run start a v → v.phase = .scanning →
      Run start' a' v' → v'.phase = .scanning → v.pending = [] → Twins k text v v' →
      Meets k text v v') :
    ∃ visited' l', Run start' visited' l' ∧ l'.phase = .scanning ∧ Twins k text l l' ∧
      List.Forall₂ k.Items (visited.map fun v => v.nextToken.result)
        (visited'.map fun v => v.nextToken.result) :=
  h.lockstep hl htwins hstart' hover fun hv hrun hscan hrun' hscan' htwins' =>
    htwins'.pull fun hq => hmeets hv hrun hscan hrun' hscan' hq htwins'

/-- **Whole streams.** If twins agree and panic alike wherever their runs lead them, their streams
are alike and panic alike. -/
theorem Twins.items_alike_of_agree (htwins : Twins k text start start')
    (hstart : start.phase = .scanning) (hstart' : start'.phase = .scanning)
    (hover : ∀ {a v a' v'}, Run start a v → v.phase = .scanning → Run start' a' v' →
      v'.phase = .scanning → Twins k text v v' → v'.overflows = v.overflows)
    (hagree : ∀ {a v a' v'}, Run start a v → v.phase = .scanning → Run start' a' v' →
      v'.phase = .scanning → Twins k text v v' → Agree k text v v') :
    List.Forall₂ k.Items start.items start'.items ∧ start'.panics = start.panics := by
  obtain ⟨visited, m, hrun, hm, hlast⟩ := exists_last_call start hstart
  obtain ⟨visited', m', hrun', hm', htwins', hitems⟩ :=
    hrun.lockstep hm htwins hstart'
      (fun _ hrun hv hrun' hv' htwins' => (hover hrun hv.1 hrun' hv' htwins').trans hv.2)
      fun _ => hagree
  have hsame := hover hrun hm hrun' hm' htwins'
  obtain ⟨hitem, -⟩ := (hagree hrun hm hrun' hm' htwins').nextToken hm hm'
  rcases hlast with hpanic | ⟨hlive, hend⟩
  · have hpanic' := hsame.trans hpanic
    rw [hrun.items_eq, hrun'.items_eq, items_of_not_live (not_live_of_overflows hpanic),
      items_of_not_live (not_live_of_overflows hpanic'), (hrun.steps_of_overflows hpanic).2,
      (hrun'.steps_of_overflows hpanic').2, List.append_nil, List.append_nil]
    exact ⟨hitems, rfl⟩
  · have hlive' : m'.Live := ⟨hm', hsame.trans hlive.2⟩
    have hend' : m'.nextToken.lexer.phase ≠ .scanning := by
      rw [ne_eq, phase_nextToken hm', ← hitem.goesOn_iff, ← phase_nextToken hm]; exact hend
    rw [hrun.items_eq, hrun'.items_eq, items_of_live hlive, items_of_live hlive',
      items_of_not_live (not_live_of_ended hend), items_of_not_live (not_live_of_ended hend'),
      (hrun.steps_of_last hlive hend).2, (hrun'.steps_of_last hlive' hend').2]
    exact ⟨List.rel_append hitems (.cons hitem .nil), rfl⟩

theorem Twins.items_alike (htwins : Twins k text start start') (hstart : start.phase = .scanning)
    (hstart' : start'.phase = .scanning)
    (hover : ∀ {a v a' v'}, Run start a v → v.phase = .scanning → Run start' a' v' →
      v'.phase = .scanning → Twins k text v v' → v'.overflows = v.overflows)
    (hmeets : ∀ {a v a' v'}, Run start a v → v.phase = .scanning → Run start' a' v' →
      v'.phase = .scanning → v.pending = [] → Twins k text v v' → Meets k text v v') :
    List.Forall₂ k.Items start.items start'.items ∧ start'.panics = start.panics :=
  htwins.items_alike_of_agree hstart hstart' hover fun hrun hv hrun' hv' htwins' =>
    htwins'.pull fun hq => hmeets hrun hv hrun' hv' hq htwins'

/-- Streams that do not panic panic alike. -/
theorem overflows_eq_of_panics {start start' v v' : Lexer} {a a' : List Lexer}
    (hp : start.panics = false) (hp' : start'.panics = false) (hrun : Run start a v)
    (hv : v.phase = .scanning) (hrun' : Run start' a' v') (hv' : v'.phase = .scanning) :
    v'.overflows = v.overflows :=
  (hrun'.live hp' hv').2.trans (hrun.live hp hv).2.symm

end

end Lexer

end Offside
