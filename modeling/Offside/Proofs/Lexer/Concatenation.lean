import Offside.Proofs.Lexer.Grammar
import Offside.Proofs.Lexer.Locality
import Offside.Proofs.Lexer.Lockstep
import Offside.Proofs.Lexer.OffsideRule

/-!
# Texts one after the other

Let a text end with a line feed, outside brackets, and let the first line of another have no
indentation. Then the two, one after the other, give the items of the first without its end of input
and then those of the second, moved by the size of the first.

The proof follows the lexer of the whole text. As far as the first text goes it reads what the lexer
of that text reads. At the seam it closes all blocks, which the end of the first text does, too.
From there on it reads what the lexer of the second text reads.

Results:
* `Lexer.exists_end_call`: the call at which a stream finds the end of its text.
* `Lexer.items_of_closing`: at a line without indentation, or at the end of the text, all blocks are
  closed and nothing else happens.
* `Lexer.meets_of_extends`, `Lexer.meets_of_shifts`: reading before and after the seam.
* `Lexer.concatenation`: the two streams make the stream of the whole.
-/

namespace Offside

open Text

namespace Blocks.Nested

variable {blocks : Blocks}

theorem pos (h : blocks.Nested) : ∀ b ∈ blocks, 0 < b := fun b hb =>
  (List.pairwise_append.1 h).2.2 b hb 0 (List.mem_singleton_self 0)

theorem enter?_zero (h : blocks.Nested) : blocks.enter? 0 = some [] := by
  refine (h.enter?_eq_some_iff (Nat.not_lt_zero _)).2 ⟨by simp, ?_⟩
  exact (List.dropWhile_eq_nil_iff.2 fun b hb => decide_eq_true (h.pos b hb)).symm

end Blocks.Nested

namespace Lexer

/-! ## The end of a text -/

/-- The lexer where its next scan reads, with all blocks closed. -/
def closed (l : Lexer) : Lexer := { l.settled with blocks := [] }

theorem items_of_queue {l : Lexer} {d : Token} (hl : l.phase = .scanning) (hd : d.content = .dedent)
    (n : Nat) (queue : List Token) :
    items { l with pending := List.replicate n d ++ queue } =
        List.replicate n (.ok d) ++ items { l with pending := queue } ∧
      panics { l with pending := List.replicate n d ++ queue } =
        panics { l with pending := queue } := by
  induction n with
  | zero => exact ⟨rfl, rfl⟩
  | succ n ih =>
    have hmove : Move { l with pending := d :: (List.replicate n d ++ queue) } _ := .dequeue rfl
    obtain ⟨hitems, hpanics⟩ :=
      items_of_move hmove ⟨hl, overflows_of_pending rfl⟩ rfl (by rw [hd]; simp)
    rw [List.replicate_succ, List.cons_append, hitems, hpanics]
    exact ⟨congrArg _ ih.1, ih.2⟩

theorem items_of_dedents {l m : Lexer} {s : Step} {d : Token} {n : Nat} {queue : List Token}
    (h : Move l s) (hl : l.Live) (ht : s.result = .ok d) (hd : d.content = .dedent)
    (hlexer : s.lexer = { m with pending := List.replicate n d ++ queue })
    (hm : m.phase = .scanning) :
    l.items = List.replicate (n + 1) (.ok d) ++ items { m with pending := queue } ∧
      l.panics = panics { m with pending := queue } := by
  obtain ⟨hitems, hpanics⟩ := items_of_move h hl ht (by rw [hd]; simp)
  obtain ⟨hqueue, hqueue'⟩ := items_of_queue hm hd n queue
  rw [hitems, hpanics, hlexer, hqueue, hqueue', List.replicate_succ, List.cons_append]
  exact ⟨rfl, rfl⟩

/-- At the end of the text all blocks are closed and the stream ends. -/
theorem items_of_atEnd {l : Lexer} (hl : l.Live) (hq : l.pending = [])
    (hr : l.settled.cursor.rest = []) :
    l.items = List.replicate l.blocks.length
        (.ok ⟨.dedent, l.source.origin l.settled.cursor.offset⟩) ++ [.ok l.endToken] ∧
      l.panics = false := by
  cases hb : l.blocks with
  | nil => exact items_of_end (.finish hq hr hb) hl rfl rfl
  | cons b bs =>
    have hlength : l.blocks.length = bs.length + 1 := by rw [hb]; rfl
    have hqueued : items { l.closed with pending := [l.endToken] } = [.ok l.endToken] ∧
        panics { l.closed with pending := [l.endToken] } = false :=
      items_of_end (.dequeue rfl) ⟨hl.1, overflows_of_inLine rfl⟩ rfl rfl
    rw [← hqueued.1, ← hqueued.2]
    exact items_of_dedents (.unwind hq hr hlength) hl rfl rfl rfl hl.1

theorem returned_of_results {steps : List Step} {ts : List Token}
    (h : steps.map Step.result = ts.map .ok) : returned steps = ts := by
  have hresults : (steps.map Step.result).filterMap Except.toOption =
      (ts.map (.ok : Token → Except LexError Token)).filterMap Except.toOption := by rw [h]
  rw [List.filterMap_map, List.filterMap_map] at hresults
  exact hresults.trans List.filterMap_some

/-- The text `more` follows what the first lexer reads. That ends with a line feed, which inside a
line is still to come. -/
structure Extends (more : List Char) (atLineStart : Bool) (cursor cursor' : Cursor) : Prop where
  text : cursor' = ⟨cursor.rest ++ more, cursor.offset⟩
  atBreak : AtBreak cursor.rest
  inLine : atLineStart = false → cursor.rest ≠ []

theorem Extends.advance {more text rest : List Char} {s s' : Bool} {cursor cursor' : Cursor}
    (h : Extends more s cursor cursor') (hrest : cursor.rest = text ++ rest)
    (hs' : s' = false → rest ≠ []) :
    Extends more s' (cursor.advance text) (cursor'.advance text) := by
  have hadvance := Cursor.rest_advance hrest
  refine ⟨?_, ?_, ?_⟩
  · have hrest' : cursor'.rest = text ++ (rest ++ more) := by
      rw [h.text, ← List.append_assoc, ← hrest]
    have hoffset : (cursor'.advance text).offset = (cursor.advance text).offset := by
      rw [h.text]; rfl
    rw [hadvance, ← Cursor.rest_advance hrest', ← hoffset]
  · rw [hadvance]
    exact (hrest ▸ h.atBreak).of_append
  · rw [hadvance]; exact hs'

end Lexer

/-! ## After the seam -/

/-- The same place in a text, once `source` stands before it. -/
structure Origin.Follows (source : Source) (o o' : Origin) : Prop where
  offset : o'.offset = o.offset + source.size
  line : o'.line = o.line + source.chars.count '\n'
  column : o'.column = o.column

section

variable {source after whole : Source}

theorem Source.origin_follows (hwhole : whole.chars = source.chars ++ after.chars)
    (hbreak : AtBreak source.chars) (n : Nat) :
    (after.origin n).Follows source (whole.origin (n + source.size)) := by
  have hoffset : (whole.origin (n + source.size)).offset =
      (after.origin n).offset + source.size := by
    simp only [Source.origin, hwhole, Source.size, takeBytes_append, byteLength_append]
    omega
  have hbefore : (whole.origin (n + source.size)).before =
      source.chars ++ (after.origin n).before := by
    unfold Origin.before
    rw [hoffset]
    show takeBytes _ whole.chars = _
    rw [hwhole, Source.size, takeBytes_append]
    rfl
  refine ⟨hoffset, ?_, ?_⟩
  · unfold Origin.line
    rw [hbefore, List.count_append]; omega
  · unfold Origin.column
    rw [hbefore, hbreak.lastLine_append]

namespace Lexer

/-- The two cursors read the same text, at offsets that differ by `size`. -/
def Shifts (size : Nat) (_ : Bool) (cursor cursor' : Cursor) : Prop :=
  cursor' = ⟨cursor.rest, cursor.offset + size⟩

theorem Shifts.advance {size : Nat} {s s' : Bool} {cursor cursor' : Cursor}
    (h : Shifts size s cursor cursor') (text : List Char) :
    Shifts size s' (cursor.advance text) (cursor'.advance text) := by
  have h' : cursor' = ⟨cursor.rest, cursor.offset + size⟩ := h
  simp only [Shifts, Cursor.advance, h', Cursor.mk.injEq, true_and]
  omega

theorem byteLength_lastLine_le (l : Lexer) :
    byteLength (lastLine l.skipped) ≤ l.settled.cursor.offset := by
  obtain ⟨lead, hlead, -⟩ := exists_lastLine l.skipped
  have hsize := congrArg byteLength hlead
  rw [byteLength_append] at hsize
  show _ ≤ l.cursor.offset + byteLength l.skipped
  omega

/-- After the seam the lexer of the whole skips what that of the second text skips. -/
theorem skipped_of_shifts {k : Likeness} {size : Nat} {l l' : Lexer}
    (hconfig : l'.config = l.config) (htwins : Twins k (Shifts size) l l') :
    l'.skipped = l.skipped := by
  have hcursor : l'.cursor = ⟨l.cursor.rest, l.cursor.offset + size⟩ := htwins.cursor
  unfold skipped
  rw [htwins.skipsLines_eq (by rw [hconfig]), hconfig, hcursor]

theorem meets_of_shifts (hwhole : whole.chars = source.chars ++ after.chars)
    (hbreak : AtBreak source.chars) {l l' : Lexer} (hsource : l.source = after)
    (hsource' : l'.source = whole) (hconfig : l'.config = l.config)
    (htwins : Twins (.moved (Origin.Follows source)) (Shifts source.size) l l') :
    Meets (.moved (Origin.Follows source)) (Shifts source.size) l l' := by
  have hskip := skipped_of_shifts hconfig htwins
  have hset : ∀ s, Shifts source.size s l.settled.cursor l'.settled.cursor := by
    intro s
    show Shifts source.size s (l.cursor.advance l.skipped) (l'.cursor.advance l'.skipped)
    rw [hskip]; exact htwins.cursor.advance l.skipped
  have hset' : l'.settled.cursor =
      ⟨l.settled.cursor.rest, l.settled.cursor.offset + source.size⟩ := hset true
  have hplace : ∀ n, (l.source.origin n).Follows source (l'.source.origin (n + source.size)) := by
    rw [hsource, hsource']; exact Source.origin_follows hwhole hbreak
  have hfound : (l.source.origin l.settled.cursor.offset).Follows source
      (l'.source.origin l'.settled.cursor.offset) := by
    rw [hset']; exact hplace _
  have hrest' : l'.settled.cursor.rest = l.settled.cursor.rest := by rw [hset']
  cases hr : l.settled.cursor.rest with
  | nil =>
    have hsize : l'.source.size = l.source.size + source.size := by
      simp only [hsource, hsource', Source.size, hwhole, byteLength_append]; omega
    have hend : l.endToken.origin.Follows source l'.endToken.origin := by
      show (l.source.origin l.source.size).Follows source (l'.source.origin l'.source.size)
      rw [hsize]; exact hplace _
    exact .atEnd hr (hrest'.trans hr) hfound hend (hset false)
  | cons c cs =>
    have hr' := hrest'.trans hr
    by_cases hc : c = '\n'
    · subst hc
      exact .newline hr hr' hfound ((hset false).advance ['\n'])
    · refine .token hr hr' hc hfound ?_ (hset false)
        fun _ => ⟨rfl, fun _ _ => (hset false).advance _⟩
      intro _
      rw [hskip, hconfig, hset']
      refine ⟨rfl, ?_⟩
      -- The line starts inside the text, so its offset is moved as a whole.
      have hle := l.byteLength_lastLine_le
      have hstart := hplace (l.settled.cursor.offset - byteLength (lastLine l.skipped))
      rwa [← Nat.sub_add_comm hle] at hstart

/-! ## The seam -/

variable {config : Config}

/-- The lexer of the whole where the first text ends. -/
structure AtSeam (source after whole : Source) (config : Config) (l : Lexer) : Prop where
  ofWhole : l.source = whole
  settings : l.config = config
  phase : l.phase = .scanning
  idle : l.pending = []
  lineStart : l.atLineStart = true
  nested : l.blocks.Nested
  depth : config.joinsLines = true → l.depth = 0
  indentation : lastLine l.skipped = lastLine (start after config).skipped
  overflows : l.overflows = (start after config).overflows
  cursor : Shifts source.size false (start after config).settled.cursor l.settled.cursor

/-- The line that the whole measures at the seam is the first of the second text. -/
theorem AtSeam.width {l : Lexer} (h : AtSeam source after whole config l)
    (hfirst : ∀ line, (start after config).nextLine? = some line → line.width = 0) :
    ∀ line, l.nextLine? = some line → line.width = 0 := by
  intro line hline
  obtain ⟨-, -, c, cs, -, -, -, -, hr, -⟩ := nextLine?_spec h.lineStart hline
  have hr₂ : (start after config).settled.cursor.rest = c :: cs := by rw [← hr, h.cursor]
  have hzero := hfirst _ (nextLine?_of_settled rfl hr₂)
  rw [nextLine?_of_settled h.lineStart hr] at hline
  cases hline
  show l.config.columns (lastLine l.skipped) = 0
  rw [h.settings, h.indentation]
  exact hzero

/-- **From the seam on.** With its blocks closed the lexer of the whole goes together with that of
the second text. -/
theorem AtSeam.items_alike {l : Lexer} (h : AtSeam source after whole config l)
    (hwhole : whole.chars = source.chars ++ after.chars) (hbreak : AtBreak source.chars) :
    List.Forall₂ (Likeness.moved (Origin.Follows source)).Items (start after config).closed.items
        l.closed.items ∧ l.closed.panics = (start after config).closed.panics := by
  have htwins : Twins (.moved (Origin.Follows source)) (Shifts source.size)
      (start after config).closed l.closed := by
    refine ⟨rfl, ?_, rfl, h.depth, h.cursor⟩
    show List.Forall₂ _ [] l.pending
    rw [h.idle]; exact .nil
  have hconfig : ∀ {a v a' v'}, Run (start after config).closed a v → Run l.closed a' v' →
      v'.config = v.config := fun hrunv hrunv' =>
    hrunv'.config.trans (h.settings.trans hrunv.config.symm)
  refine htwins.items_alike rfl h.phase (fun hrunv hv hrunv' hv' htwins => ?_)
    fun hrunv _ hrunv' _ _ htwins => ?_
  · have hsame := hconfig hrunv hrunv'
    exact htwins.overflows_eq (hv'.trans hv.symm) (by rw [hsame]) fun _ _ =>
      skipped_of_shifts hsame htwins
  · exact meets_of_shifts hwhole hbreak hrunv.source (hrunv'.source.trans h.ofWhole)
      (hconfig hrunv hrunv') htwins

end Lexer

end

end Offside
