import Offside.Lexer.Basic

/-!
# Runs of a lexer

A stream of tokens is finite: every step takes text, closes blocks or shortens the queue, or else it
is the last. So the calls that a stream answers form a list. It ends with the end of input, with an
error, or before a call that panics.

Results:
* `Lexer.weight_nextToken_lt`: a measure that every step lowers.
* `Lexer.steps_of_live`, `Lexer.steps_of_not_live`: the steps of a lexer are its next step and those
  of the lexer after it, as long as the stream goes on.
-/

namespace Offside

open Text

theorem Cursor.length_advance (cursor : Cursor) (text : List Char) :
    (cursor.advance text).rest.length = cursor.rest.length - text.length := by
  simp [Cursor.advance]

namespace Lexer

/-- What is left to do: a character may open a block, and a block is closed by a queued token. -/
def load (l : Lexer) : Nat := 3 * l.cursor.rest.length + 2 * l.blocks.length + l.pending.length

/-- What is left to do, counting the end of the stream. -/
def weight (l : Lexer) : Nat := l.load + if l.phase = .scanning then 1 else 0

/-- A step leaves less to do, or no more if it ends the stream. -/
def Step.Lowers (s : Step) (l : Lexer) : Prop :=
  s.lexer.load ≤ l.load ∧
    ∀ t, s.result = .ok t → t.content ≠ .endOfInput → s.lexer.load < l.load

theorem Step.Lowers.weight_deliver {s : Step} {l : Lexer} (h : s.Lowers l) :
    s.deliver.lexer.weight < l.load + 1 := by
  obtain ⟨hle, hlt⟩ := h
  unfold Step.deliver
  split
  · next t ht =>
    by_cases he : t.content = .endOfInput
    · simp only [he, if_true, weight, load, reduceCtorEq, if_false] at *; omega
    · have := hlt t ht he
      simp only [he, if_false, weight]; split <;> omega
  · simp only [weight, load, reduceCtorEq, if_false] at *; omega

theorem finish_lowers {l : Lexer} (hp : l.pending = []) : l.finish.Lowers l := by
  unfold finish
  split
  · refine ⟨Nat.le_refl _, fun t ht hne => ?_⟩
    simp only [Except.ok.injEq] at ht
    subst ht; exact absurd rfl hne
  · next closed hb =>
    have hqueue : ∀ dedent : Token,
        (List.replicate closed dedent ++ [l.endToken]).length = closed + 1 := by simp
    constructor
    · simp only [load, hp, hb, hqueue, List.length_nil]; omega
    · intros; simp only [load, hp, hb, hqueue, List.length_nil]; omega

theorem load_skipGap_le (l : Lexer) : l.skipGap.load ≤ l.load := by
  have hlen := l.cursor.length_advance
    (gap (l.config.joinsLines && 0 < l.depth) l.config.comments l.cursor.rest)
  simp only [load, skipGap]; omega

theorem readToken_lowers {l : Lexer} (hp : l.pending = []) : l.readToken.Lowers l := by
  unfold readToken
  simp only
  split
  · exact finish_lowers hp
  · next c cs hcs =>
    split
    · constructor
      · simp only [load, Cursor.length_advance]; omega
      · intros; simp only [load, Cursor.length_advance, hcs, List.length_cons]; omega
    · split
      · next content hok =>
        have hne := List.length_pos_iff.2 (Lexeme.read_ne_nil hok)
        constructor
        · simp only [load, Cursor.length_advance]; omega
        · intros; simp only [load, Cursor.length_advance, hcs, List.length_cons]; omega
      · refine ⟨?_, by intros; contradiction⟩
        simp only [load, Cursor.length_advance]; omega

theorem scanToken_lowers {l : Lexer} (hp : l.pending = []) : l.scanToken.Lowers l := by
  have hr : l.skipGap.readToken.Lowers l.skipGap := readToken_lowers hp
  have hle := l.load_skipGap_le
  exact ⟨Nat.le_trans hr.1 hle, fun t ht hne => Nat.lt_of_lt_of_le (hr.2 t ht hne) hle⟩

theorem load_atNextLine (l : Lexer) :
    l.atNextLine.load + 3 * l.leading.length = l.load := by
  have hle := (gap_isPrefix true l.config.comments l.cursor.rest).length_le
  change l.leading.length ≤ _ at hle
  simp only [load, atNextLine, Cursor.length_advance]
  omega

/-- Only blanks make a line wider than nothing. -/
theorem length_leading_pos {l : Lexer} {line : Line} (h : l.nextLine? = some line)
    (hw : 0 < line.width) : 0 < l.leading.length := by
  simp only [nextLine?] at h
  split at h
  · cases h
  · cases h
    cases hl : l.leading with
    | nil => simp [hl] at hw
    | cons => simp

theorem enterLine_lowers {l : Lexer} {line : Line} {s : Step} (hp : l.pending = [])
    (h : l.enterLine line = some s) :
    s.lexer.load ≤ l.load + 2 ∧ (line.width ≤ l.blocks.top → s.Lowers l) := by
  unfold enterLine at h
  simp only at h
  split at h
  · cases h
    exact ⟨Nat.le_add_right _ _, fun _ => ⟨Nat.le_refl _, by intros; contradiction⟩⟩
  · next blocks hb =>
    split at h
    · next htop =>
      rw [Blocks.enter?_of_top_lt htop] at hb
      cases hb; cases h
      exact ⟨by simp [load]; omega, fun hle => absurd htop (Nat.not_lt.2 hle)⟩
    · next htop =>
      have hbl := Blocks.length_enter?_le htop hb
      split at h
      · cases h
      · cases h
        constructor
        · simp only [load, hp, List.length_replicate, List.length_nil]; omega
        · intro _
          constructor
          · simp only [load, hp, List.length_replicate, List.length_nil]; omega
          · intros; simp only [load, hp, List.length_replicate, List.length_nil]; omega

theorem startLine_lowers {l : Lexer} {s : Step} (hp : l.pending = []) (h : l.startLine = some s) :
    s.Lowers l := by
  obtain ⟨line, hline, henter⟩ := Option.bind_eq_some_iff.1 h
  have hload := l.load_atNextLine
  obtain ⟨hle, hlow⟩ := enterLine_lowers (l := l.atNextLine) hp henter
  by_cases hw : line.width ≤ l.blocks.top
  · obtain ⟨h1, h2⟩ := hlow hw
    exact ⟨by omega, fun t ht hne => by have := h2 t ht hne; omega⟩
  · have hpos := length_leading_pos hline (by omega)
    exact ⟨by omega, fun _ _ _ => by omega⟩

theorem scan_lowers {l : Lexer} (hp : l.pending = []) : l.scan.Lowers l := by
  unfold scan
  split
  · cases h : l.startLine with
    | some s => exact startLine_lowers hp h
    | none =>
      have hload := l.load_atNextLine
      obtain ⟨hle, hlt⟩ := scanToken_lowers (l := l.atNextLine) hp
      exact ⟨by simp only [Option.getD_none]; omega,
        fun t ht hne => by have := hlt t ht hne; simp only [Option.getD_none]; omega⟩
  · exact scanToken_lowers hp

/-- A step of a stream that has not ended lowers what is left to do. -/
theorem weight_nextToken_lt {l : Lexer} (h : l.phase = .scanning) :
    l.nextToken.lexer.weight < l.weight := by
  have hw : l.weight = l.load + 1 := by simp [weight, h]
  rw [hw, nextToken, h]
  simp only [pull]
  split
  · next t queue hq =>
    refine Step.Lowers.weight_deliver ⟨?_, fun _ _ _ => ?_⟩
    all_goals simp only [load, hq, List.length_cons]; omega
  · next hq => exact (scan_lowers hq).weight_deliver

/-- The stream goes on: it has not ended, and the next call returns. -/
def Live (l : Lexer) : Prop := l.phase = .scanning ∧ l.overflows = false

instance (l : Lexer) : Decidable l.Live := inferInstanceAs (Decidable (_ ∧ _))

/-- Every step of the stream from here on, to its end or to the call that panics. -/
def steps (l : Lexer) : List Step :=
  if _h : l.Live then l.nextToken :: l.nextToken.lexer.steps else []
termination_by l.weight
decreasing_by exact weight_nextToken_lt _h.1

theorem steps_of_live {l : Lexer} (h : l.Live) :
    l.steps = l.nextToken :: l.nextToken.lexer.steps := by rw [steps, dif_pos h]

theorem steps_of_not_live {l : Lexer} (h : ¬ l.Live) : l.steps = [] := by rw [steps, dif_neg h]

/-- The lexer once its stream goes on no more. -/
def drained (l : Lexer) : Lexer := (l.steps.getLast?.map Step.lexer).getD l

/-- Does a call panic before the stream ends? -/
def panics (l : Lexer) : Bool := l.drained.overflows

/-- The tokens of the steps up to the first error. -/
def tokens : List Step → Except LexError (List Token)
  | [] => .ok []
  | s :: steps =>
    match s.result with
    | .ok t => (tokens steps).map (t :: ·)
    | .error e => .error e

end Lexer

/-- All tokens of a source, or its first lexical error, unless a call panics. -/
def tokenize (source : Source) (config : Config) : Option (Except LexError (List Token)) :=
  let l := Lexer.start source config
  if l.panics then none else some (Lexer.tokens l.steps)

end Offside
