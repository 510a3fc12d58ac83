import Offside.Proofs.Lexer.Coverage
import Offside.Proofs.Lexer.Locality
import Offside.Proofs.Lexer.Lockstep

/-!
# What a run skips, and texts edited there

Every offset of a text is skipped by at most one call, and none is skipped inside a token. So a text
may be edited where it is skipped, as long as what is put there is skipped, too, and has the same
size: the tokens stay, with their offsets.

Results:
* `Lexer.mem_calls_iff`: the calls that a stream answers are the scanning states of its runs.
* `Lexer.Run.skips_unique`, `Lexer.Run.not_skips`: who skips what.
* `Lexer.KeepsGap.meets`: a lexer of an edited text finds what the first lexer finds, provided that
  it can skip the edited gap.
* `Lexer.items_of_edit`: the two streams.
-/

namespace Offside

open Text

namespace Lexer

/-! ## Calls -/

/-- The states in which a stream is asked for an item and has not ended. In the last of them the
call may panic. -/
def calls (l : Lexer) : List Lexer :=
  (l :: l.steps.map Step.lexer).filter fun m => m.phase = .scanning

theorem calls_of_live {l : Lexer} (h : l.Live) : l.calls = l :: l.nextToken.lexer.calls := by
  unfold calls
  rw [steps_of_live h, List.map_cons, List.filter_cons_of_pos (by simp [h.1])]

theorem calls_of_overflows {l : Lexer} (h : l.overflows = true) : l.calls = [l] := by
  unfold calls
  rw [steps_of_not_live (not_live_of_overflows h), List.map_nil, List.filter_cons_of_pos
    (by simp [(overflows_eq_true.1 h).1]), List.filter_nil]

theorem calls_of_ended {l : Lexer} (h : l.phase ≠ .scanning) : l.calls = [] := by
  unfold calls
  rw [steps_of_not_live (not_live_of_ended h), List.map_nil,
    List.filter_cons_of_neg (by simp [h]), List.filter_nil]

/-- The calls after the first are those of the lexer that it leaves. -/
theorem exists_calls_eq {l : Lexer} (h : l.phase = .scanning) :
    ∃ later, l.calls = l :: later ∧ ∀ v ∈ later, l.Live ∧ v ∈ l.nextToken.lexer.calls := by
  cases hover : l.overflows with
  | true => exact ⟨[], calls_of_overflows hover, nofun⟩
  | false => exact ⟨_, calls_of_live ⟨h, hover⟩, fun v hv => ⟨⟨h, hover⟩, hv⟩⟩

theorem Run.calls_eq {l m : Lexer} {visited : List Lexer} (h : Run l visited m) :
    l.calls = visited ++ m.calls := by
  induction h with
  | nil => rfl
  | snoc _ hm ih => rw [ih, calls_of_live hm, List.append_cons]

theorem mem_calls_iff {l m : Lexer} :
    m ∈ l.calls ↔ m.phase = .scanning ∧ ∃ visited, Run l visited m := by
  constructor
  · intro h
    by_cases hl : l.phase = .scanning
    · obtain ⟨later, hcalls, hlater⟩ := exists_calls_eq hl
      rw [hcalls] at h
      rcases List.mem_cons.1 h with rfl | h
      · exact ⟨hl, [], .nil⟩
      · have hlt : l.nextToken.lexer.weight < l.weight := weight_nextToken_lt hl
        obtain ⟨hlive, h⟩ := hlater m h
        obtain ⟨hm, visited, hrun⟩ := mem_calls_iff.1 h
        exact ⟨hm, l :: visited, hrun.cons hlive⟩
    · rw [calls_of_ended hl] at h; cases h
  · intro h
    obtain ⟨hm, visited, hrun⟩ := h
    obtain ⟨later, hcalls, -⟩ := exists_calls_eq hm
    rw [hrun.calls_eq, hcalls]
    exact List.mem_append_right _ List.mem_cons_self
termination_by l.weight

/-! ## Offsets -/

/-- A call never goes back, and a scan leaves behind what it skips. -/
theorem Move.offset_le {l : Lexer} {s : Step} (h : Move l s) :
    l.cursor.offset ≤ s.lexer.cursor.offset ∧
      (l.pending = [] → l.settled.cursor.offset ≤ s.lexer.cursor.offset) := by
  have hsettled : l.cursor.offset ≤ l.settled.cursor.offset := Nat.le_add_right _ _
  have hadvance : ∀ text, l.settled.cursor.offset ≤ (l.settled.cursor.advance text).offset :=
    fun _ => Nat.le_add_right _ _
  cases h with
  | dequeue hq => exact ⟨Nat.le_refl _, fun hq' => by rw [hq] at hq'; cases hq'⟩
  | indent | dedent | badIndent | unwind | finish => exact ⟨hsettled, fun _ => Nat.le_refl _⟩
  | newline | token | fail =>
    exact ⟨Nat.le_trans hsettled (hadvance _), fun _ => hadvance _⟩

theorem Run.offset_le {l m : Lexer} {visited : List Lexer} (h : Run l visited m) :
    l.cursor.offset ≤ m.cursor.offset ∧
      ∀ v ∈ visited, v.pending = [] → v.settled.cursor.offset ≤ m.cursor.offset := by
  induction h with
  | nil => exact ⟨Nat.le_refl _, by simp⟩
  | @snoc visited k _ hk ih =>
    obtain ⟨s, hmove, -, hlexer⟩ := exists_move hk.1
    obtain ⟨hle, hsettled⟩ := hmove.offset_le
    rw [hlexer]
    refine ⟨Nat.le_trans ih.1 hle, ?_⟩
    intro v hv hq
    rcases List.mem_append.1 hv with hv | hv
    · exact Nat.le_trans (ih.2 v hv hq) hle
    · rw [List.mem_singleton.1 hv] at hq ⊢
      exact hsettled hq

/-- Does the next call skip the character at `offset`? -/
def skips (l : Lexer) (offset : Nat) : Bool :=
  l.pending = [] ∧ l.cursor.offset ≤ offset ∧ offset < l.settled.cursor.offset

theorem skips_iff {l : Lexer} {offset : Nat} :
    l.skips offset = true ↔
      l.pending = [] ∧ l.cursor.offset ≤ offset ∧ offset < l.settled.cursor.offset :=
  decide_eq_true_iff

section

variable {first l : Lexer} {visited : List Lexer}

/-- A call skips only what lies ahead of the calls before it. -/
theorem Run.not_skips_of_visited (h : Run first visited l) {v : Lexer} (hv : v ∈ visited)
    {offset : Nat} (hle : l.cursor.offset ≤ offset) : ¬ v.skips offset = true := by
  rw [skips_iff]
  rintro ⟨hq, -, hlt⟩
  have hsettled := h.offset_le.2 v hv hq
  omega

/-- No call skips what the call at `l` reads, or what comes later if this call ends the stream. -/
theorem Run.not_skips (h : Run first visited l) (hl : l.phase = .scanning) {offset : Nat}
    (hle : l.settled.cursor.offset ≤ offset)
    (hnext : l.nextToken.lexer.phase = .scanning → offset < l.nextToken.lexer.cursor.offset) :
    ∀ v ∈ first.calls, ¬ v.skips offset = true := by
  intro v hv
  have hsettled : l.cursor.offset ≤ l.settled.cursor.offset := Nat.le_add_right _ _
  obtain ⟨later, hcalls, hlater⟩ := exists_calls_eq hl
  rw [h.calls_eq, hcalls] at hv
  rcases List.mem_append.1 hv with hv | hv
  · exact h.not_skips_of_visited hv (by omega)
  · rw [skips_iff]
    rintro ⟨-, hge, hlt⟩
    rcases List.mem_cons.1 hv with rfl | hv
    · omega
    · obtain ⟨-, hv⟩ := hlater v hv
      obtain ⟨hscan, later, hrun⟩ := mem_calls_iff.1 hv
      by_cases hphase : l.nextToken.lexer.phase = .scanning
      · have hoffset := hrun.offset_le.1
        have hlt' := hnext hphase
        omega
      · rw [calls_of_ended hphase] at hv; cases hv

theorem Run.skips_unique (h : Run first visited l) (hl : l.phase = .scanning) {offset : Nat}
    (hskips : l.skips offset = true) {v : Lexer} (hv : v ∈ first.calls)
    (hv' : v.skips offset = true) : v = l := by
  obtain ⟨hq, hge, hlt⟩ := skips_iff.1 hskips
  obtain ⟨later, hcalls, hlater⟩ := exists_calls_eq hl
  rw [h.calls_eq, hcalls] at hv
  rcases List.mem_append.1 hv with hv | hv
  · exact absurd hv' (h.not_skips_of_visited hv hge)
  · rcases List.mem_cons.1 hv with rfl | hv
    · rfl
    · obtain ⟨s, hmove, -, hlexer⟩ := exists_move hl
      have hnext := hmove.offset_le.2 hq
      obtain ⟨-, later, hrun⟩ := mem_calls_iff.1 (hlater v hv).2
      have hoffset := hrun.offset_le.1
      rw [hlexer] at hoffset
      obtain ⟨-, hge', -⟩ := skips_iff.1 hv'
      have : s.lexer.cursor.offset ≤ v.cursor.offset := hoffset
      omega

end

/-- Is the character at `offset` skipped by a call of which `p` holds? -/
def skipsAt (l : Lexer) (p : Lexer → Bool) (offset : Nat) : Bool :=
  l.calls.any fun v => p v && v.skips offset

theorem exists_of_skipsAt {l : Lexer} {p : Lexer → Bool} {offset : Nat}
    (h : l.skipsAt p offset = true) : ∃ v ∈ l.calls, v.skips offset = true := by
  obtain ⟨v, hv, hskips⟩ := List.any_eq_true.1 h
  exact ⟨v, hv, (Bool.and_eq_true_iff.1 hskips).2⟩

/-- Of the calls, only the one that skips a character decides. -/
theorem Run.skipsAt_eq {first l : Lexer} {visited : List Lexer} (h : Run first visited l)
    (hl : l.phase = .scanning) {offset : Nat} (hskips : l.skips offset = true) (p : Lexer → Bool) :
    first.skipsAt p offset = p l := by
  rw [Bool.eq_iff_iff, skipsAt, List.any_eq_true]
  constructor
  · rintro ⟨v, hv, hp⟩
    rw [Bool.and_eq_true] at hp
    rw [← h.skips_unique hl hskips hv hp.2]; exact hp.1
  · intro hp
    exact ⟨l, mem_calls_iff.2 ⟨hl, visited, h⟩, by rw [hp, hskips]; rfl⟩

/-- Where a scan stops, and where the line before it starts, a character starts. -/
theorem Run.origin_offset {source : Source} {config : Config} {visited : List Lexer} {l : Lexer}
    (h : Run (start source config) visited l) :
    (l.source.origin l.settled.cursor.offset).offset = l.settled.cursor.offset ∧
      (l.source.origin (l.settled.cursor.offset - byteLength (lastLine l.skipped))).offset =
        l.settled.cursor.offset - byteLength (lastLine l.skipped) := by
  obtain ⟨before, hat⟩ := h.exists_cursorAt
  have hset := settled_cursorAt hat
  have hsource : l.source = source := h.source
  obtain ⟨lead, hlead, -⟩ := exists_lastLine l.skipped
  rw [hsource]
  constructor
  · rw [hset.origin, hset.offset]
  · have hprefix : before ++ lead <+: source.chars :=
      ⟨lastLine l.skipped ++ l.settled.cursor.rest, by
        rw [hset.text, List.append_assoc, ← List.append_assoc lead, ← hlead, List.append_assoc]⟩
    have hoffset : l.settled.cursor.offset - byteLength (lastLine l.skipped) =
        byteLength (before ++ lead) := by
      have hsize := congrArg byteLength hlead
      simp only [byteLength_append] at hsize
      rw [hset.offset, byteLength_append, byteLength_append]
      omega
    rw [hoffset, Source.origin_of_boundary hprefix]

/-! ## Edited texts -/

/-- The second cursor stands at the offset of the first, and its text is the edited one. -/
def Edits (edit : Nat → List Char → List Char) (_ : Bool) (cursor cursor' : Cursor) : Prop :=
  cursor' = ⟨edit cursor.offset cursor.rest, cursor.offset⟩

theorem Edits.advance {edit : Nat → List Char → List Char} {s s' : Bool} {cursor cursor' : Cursor}
    (h : Edits edit s cursor cursor') {text rest : List Char} (hrest : cursor.rest = text ++ rest)
    (hkeep : edit cursor.offset (text ++ rest) =
      text ++ edit (cursor.offset + byteLength text) rest) :
    Edits edit s' (cursor.advance text) (cursor'.advance text) := by
  have hcursor : cursor' = ⟨edit cursor.offset cursor.rest, cursor.offset⟩ := h
  simp only [Edits, Cursor.advance, hcursor, hrest, hkeep, List.drop_left]

/-- The gap that the next call of `l` skips becomes `g`, which `l'` can skip where `l` does. -/
structure KeepsGap (edit : Nat → List Char → List Char) (l l' : Lexer) (g : List Char) : Prop where
  text : edit l.cursor.offset (l.skipped ++ l.settled.cursor.rest) =
    g ++ edit l.settled.cursor.offset l.settled.cursor.rest
  gap : IsGap l'.config.comments g l.settled.cursor.rest
  stops : GapStops l'.skipsLines l'.config.comments l.settled.cursor.rest
  feeds : l'.skipsLines = false → '\n' ∉ g
  line : l.atLineStart = true → l.settled.cursor.rest ≠ [] → lastLine g = lastLine l.skipped

end Lexer

/-- An edit of the text from an offset on. It keeps sizes and all that is not `marked`, and where a
token starts or ends one does so afterwards. -/
structure IsEdit (comments : Bool) (marked : Nat → Bool) (edit : Nat → List Char → List Char) :
    Prop where
  nil (n : Nat) : edit n [] = []
  size (n : Nat) (cs : List Char) : byteLength (edit n cs) = byteLength cs
  token {c : Char} (n : Nat) (cs : List Char) (hc : beginsToken comments c = true) :
    edit n (c :: cs) = c :: edit (n + c.utf8Size) cs
  keep {a : List Char} {n : Nat} (cs : List Char)
    (h : ∀ o, n ≤ o → o < n + byteLength a → marked o = false) :
    edit n (a ++ cs) = a ++ edit (n + byteLength a) cs
  tail (n : Nat) (cs : List Char) : Lexeme.upToStop (edit n cs) = Lexeme.upToStop cs

namespace Lexer

section

variable {source : Source} {config config' : Config} {marked : Nat → Bool}
  {edit : Nat → List Char → List Char} {visited visited' : List Lexer} {l l' : Lexer}

/-- Nothing is marked in what the call at `l` reads, and nothing at all from there if it is the
last. -/
theorem Run.unmarked
    (hmarked : ∀ o, marked o = true → ∃ v ∈ (start source config).calls, v.skips o = true)
    (hrun : Run (start source config) visited l) (hl : l.phase = .scanning) {text : List Char}
    (hnext : l.nextToken.lexer.phase = .scanning →
      l.settled.cursor.offset + byteLength text ≤ l.nextToken.lexer.cursor.offset) :
    ∀ o, l.settled.cursor.offset ≤ o → o < l.settled.cursor.offset + byteLength text →
      marked o = false := by
  intro o hle hlt
  by_contra hm
  obtain ⟨v, hv, hskips⟩ := hmarked o (by simpa using hm)
  exact hrun.not_skips hl hle (fun hscan => Nat.lt_of_lt_of_le hlt (hnext hscan)) v hv hskips

-- An edit where a run of `source` skips, and a scan of this run at `l`.
variable (hedit : IsEdit config.comments marked edit)
  (hmarked : ∀ o, marked o = true → ∃ v ∈ (start source config).calls, v.skips o = true)
  (hrun : Run (start source config) visited l) (hl : l.phase = .scanning) (hq : l.pending = [])

include hedit hmarked hrun hl hq

/-- A token that is read stays, and so does the rest of the text if it cannot be read. -/
theorem read_of_edit (hreads : l.Reads) {c : Char} {cs rest : List Char}
    (hr : l.settled.cursor.rest = c :: cs) (hc : beginsToken config.comments c = true)
    (htext : (Lexeme.read c cs).text ++ rest = c :: cs) :
    Lexeme.read c (edit (l.settled.cursor.offset + c.utf8Size) cs) = Lexeme.read c cs ∧
      ∀ content, (Lexeme.read c cs).content = .ok content →
        edit l.settled.cursor.offset ((Lexeme.read c cs).text ++ rest) =
          (Lexeme.read c cs).text ++
            edit (l.settled.cursor.offset + byteLength (Lexeme.read c cs).text) rest := by
  have hconfig : l.config = config := hrun.config
  have hc' : beginsToken l.config.comments c = true := hconfig ▸ hc
  have htoken := hedit.token l.settled.cursor.offset cs hc
  cases hcontent : (Lexeme.read c cs).content with
  | error cause =>
    have hresult : l.nextToken.result =
        .error ⟨cause, l.source.origin l.settled.cursor.offset⟩ := by
      rw [nextToken_eq hl, (Move.fail hq hreads hr hc' hcontent).pull_eq, Step.deliver_result]
    have hend : ¬ l.nextToken.lexer.phase = .scanning := by
      rw [phase_nextToken hl, hresult]; simp
    have hkeep := hedit.keep (a := c :: cs) [] (hrun.unmarked hmarked hl fun h => absurd h hend)
    rw [List.append_nil, hedit.nil, List.append_nil, htoken] at hkeep
    exact ⟨by rw [(List.cons.inj hkeep).2], by simp⟩
  | ok content =>
    have hcursor : l.nextToken.lexer.cursor =
        l.settled.cursor.advance (Lexeme.read c cs).text := by
      rw [nextToken_eq hl, (Move.token hq hreads hr hc' hcontent).pull_eq, Step.deliver_lexer]
    have hkeep := hedit.keep (a := (Lexeme.read c cs).text) rest
      (hrun.unmarked hmarked hl fun _ => by rw [hcursor]; exact Nat.le_refl _)
    refine ⟨?_, fun _ _ => hkeep⟩
    -- The token keeps its text, and what follows it starts with a stop if it did.
    obtain ⟨d, a, ha⟩ := List.exists_cons_of_ne_nil (Lexeme.read_ne_nil hcontent)
    have hsplit := htext
    rw [ha, List.cons_append, List.cons.injEq] at hsplit
    obtain ⟨rfl, rfl⟩ := hsplit
    rw [htext, ha, htoken, List.cons_append, List.cons.injEq] at hkeep
    rw [hkeep.2]
    exact Lexeme.read_congr_tail hcontent ha (hedit.tail _ _).symm

theorem edit_lineFeed {cs : List Char} (hr : l.settled.cursor.rest = '\n' :: cs) :
    edit l.settled.cursor.offset ('\n' :: cs) =
      '\n' :: edit (l.settled.cursor.offset + byteLength ['\n']) cs := by
  have hskips := skipsLines_of_feed hr
  simp only [skipsLines, Bool.or_eq_false_iff] at hskips
  have hcursor : l.nextToken.lexer.cursor = l.settled.cursor.advance ['\n'] := by
    rw [nextToken_eq hl, (Move.newline hq hskips.1 hr hskips.2).pull_eq, Step.deliver_lexer]
  exact hedit.keep (a := ['\n']) cs
    (hrun.unmarked hmarked hl fun _ => by rw [hcursor]; exact Nat.le_refl _)

theorem head?_edit :
    (edit l.settled.cursor.offset l.settled.cursor.rest).head? = l.settled.cursor.rest.head? := by
  have hconfig : l.config = config := hrun.config
  cases hr : l.settled.cursor.rest with
  | nil => rw [hedit.nil]
  | cons c cs =>
    by_cases hc : c = '\n'
    · subst hc
      rw [edit_lineFeed hedit hmarked hrun hl hq hr]; rfl
    · rw [hedit.token _ _ (hconfig ▸ beginsToken_of_settled hr hc)]; rfl

/-- A lexer of the edited text skips what became of the gap. -/
theorem KeepsGap.settled {g : List Char} (hkeeps : KeepsGap edit l l' g)
    (hcursor : Edits edit l.atLineStart l.cursor l'.cursor) :
    l'.skipped = g ∧ Edits edit false l.settled.cursor l'.settled.cursor := by
  have hcursor' : l'.cursor = ⟨edit l.cursor.offset l.cursor.rest, l.cursor.offset⟩ := hcursor
  have hhead := head?_edit hedit hmarked hrun hl hq
  have hrest : l'.cursor.rest = g ++ edit l.settled.cursor.offset l.settled.cursor.rest := by
    rw [hcursor', ← hkeeps.text, ← l.settled_spec.1]
  have hsize : byteLength g = byteLength l.skipped := by
    have h := congrArg byteLength hkeeps.text
    simp only [byteLength_append, hedit.size] at h
    omega
  obtain ⟨hskip, hset⟩ := settled_of_gap hrest (hkeeps.gap.of_head hhead.symm)
    (hkeeps.stops.of_head hhead) hkeeps.feeds
  refine ⟨hskip, ?_⟩
  show l'.settled.cursor = ⟨_, l.cursor.offset + byteLength l.skipped⟩
  rw [hset, hsize, hcursor']

theorem KeepsGap.meets {g : List Char} (hkeeps : KeepsGap edit l l' g)
    (hrun' : Run (start (source.edit (edit 0)) config') visited' l')
    (hwidth : config'.columns = config.columns)
    (hcursor : Edits edit l.atLineStart l.cursor l'.cursor) :
    Meets (.moved fun o o' => o'.offset = o.offset) (Edits edit) l l' := by
  have hconfig : l.config = config := hrun.config
  have hconfig' : l'.config = config' := hrun'.config
  obtain ⟨rfl, hset⟩ := hkeeps.settled hedit hmarked hrun hl hq hcursor
  have hset' : l'.settled.cursor =
      ⟨edit l.settled.cursor.offset l.settled.cursor.rest, l.settled.cursor.offset⟩ := hset
  obtain ⟨hplace, hstart⟩ := hrun.origin_offset
  obtain ⟨hplace', hstart'⟩ := hrun'.origin_offset
  have hfound : (l'.source.origin l'.settled.cursor.offset).offset =
      (l.source.origin l.settled.cursor.offset).offset := by
    rw [hplace, hplace', hset']
  cases hr : l.settled.cursor.rest with
  | nil =>
    have hend : l'.endToken.origin.offset = l.endToken.origin.offset := by
      rw [endToken_eq, endToken_eq]
      show l'.source.size = l.source.size
      rw [hrun.source, hrun'.source]
      show byteLength (source.edit (edit 0)).chars = byteLength source.chars
      rw [Source.chars_edit, hedit.size]
    exact .atEnd hr (by rw [hset', hr, hedit.nil]) hfound hend hset
  | cons c cs =>
    by_cases hc : c = '\n'
    · subst hc
      have hfeed := edit_lineFeed hedit hmarked hrun hl hq hr
      have hr' : l'.settled.cursor.rest =
          '\n' :: edit (l.settled.cursor.offset + byteLength ['\n']) cs := by
        rw [hset', hr]; exact hfeed
      exact .newline hr hr' hfound (hset.advance hr hfeed)
    · have hbegins := beginsToken_of_settled hr hc
      rw [hconfig] at hbegins
      have hr' : l'.settled.cursor.rest = c :: edit (l.settled.cursor.offset + c.utf8Size) cs := by
        rw [hset', hr]; exact hedit.token _ _ hbegins
      refine .token hr hr' hc hfound ?_ hset ?_
      · intro hs
        have hline := hkeeps.line hs (by rw [hr]; simp)
        refine ⟨by rw [hconfig, hconfig', hline, hwidth]; rfl, ?_⟩
        show Origin.offset _ = Origin.offset _
        rw [hstart', hstart, hline, hset']
      · intro hreads
        obtain ⟨rest, htext⟩ := Lexeme.read_isPrefix c cs
        obtain ⟨hread, hkeep⟩ := read_of_edit hedit hmarked hrun hl hq hreads hr hbegins htext
        rw [hread]
        exact ⟨rfl, fun content hok => hset.advance (hr.trans htext.symm) (hkeep content hok)⟩

omit hrun hl hq

/-- **Edits where a run skips.** If all gaps of a run, once edited, are gaps for the settings
`config'`, and the two runs panic alike, then the edited text gives with these settings the same
items at the same offsets. -/
theorem items_of_edit (hwidth : config'.columns = config.columns)
    (hover : ∀ {visited l visited' l'}, Run (start source config) visited l →
      l.phase = .scanning → Run (start (source.edit (edit 0)) config') visited' l' →
      l'.phase = .scanning → Twins (.moved fun o o' => o'.offset = o.offset) (Edits edit) l l' →
      l'.overflows = l.overflows)
    (hgaps : ∀ {visited l l'}, Run (start source config) visited l → l.phase = .scanning →
      l.pending = [] → l'.config = config' → l'.atLineStart = l.atLineStart →
      (config.joinsLines = true → l'.depth = l.depth) → ∃ g, KeepsGap edit l l' g) :
    (start (source.edit (edit 0)) config').items.map placed =
        (start source config).items.map placed ∧
      (start (source.edit (edit 0)) config').panics = (start source config).panics := by
  have hcursor : Edits edit true ⟨source.chars, 0⟩ ⟨(source.edit (edit 0)).chars, 0⟩ := by
    simp [Edits]
  have htwins : Twins (.moved fun o o' => o'.offset = o.offset) (Edits edit) (start source config)
      (start (source.edit (edit 0)) config') := start_twins hcursor
  obtain ⟨halike, hpanics⟩ := htwins.items_alike rfl rfl hover fun hrun hl hrun' _ hq htwins => by
    have hconfig := hrun.config
    obtain ⟨g, hkeeps⟩ := hgaps hrun hl hq hrun'.config htwins.lineStart
      fun hj => htwins.depth (by rw [hconfig]; exact hj)
    exact hkeeps.meets hedit hmarked hrun hl hq hrun' hwidth htwins.cursor
  exact ⟨Likeness.map_placed halike, hpanics⟩

end

end Lexer

end Offside
