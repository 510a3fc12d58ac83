import Offside.Proofs.Lexer.Grammar
import Offside.Proofs.Lexer.Lockstep

/-!
# Callers of a lexer

A caller takes items from a lexer by two kinds of calls, mixed at will. Both hand out the one
sequence of items of the lexer; they differ only once it is used up. A call panics if it measures an
indentation that leaves the words, and then the calls after it are never made. `Sound` ties what was
handed out to the state of the lexer, and every call that returns keeps it.

Results:
* `Lexer.run?_eq_none_iff`: when one of some calls panics.
* `Lexer.run?_spec`: the answers to any calls, and what they leave.
* `Lexer.Sound.call`, `Lexer.Sound.run`: what every state that calls can reach has in common.
* `Lexer.calls_answered`: all of it, from the start of a source.
-/

namespace Offside

open Text

/-- The two kinds of calls. -/
inductive Interface
  /-- Repeats the last item once the stream has ended. -/
  | nextToken
  /-- Answers nothing once the stream has ended. -/
  | next
  deriving DecidableEq

/-- The answer to a call after the item that ended the stream. -/
def Interface.repeats (last : Option (Except LexError Token)) :
    Interface → Option (Except LexError Token)
  | .nextToken => last
  | .next => none

namespace Lexer

/-- The answer to a call and the lexer after it, unless the call panics. -/
def call? (l : Lexer) : Interface → Option (Option (Except LexError Token) × Lexer)
  | .nextToken => l.nextToken?.map fun s => (some s.result, s.lexer)
  | .next => l.nextItem?.map fun s => (s.map Step.result, (s.map Step.lexer).getD l)

/-- The answers to some calls and the lexer after them, unless one of the calls panics. -/
def run? (l : Lexer) : List Interface → Option (List (Option (Except LexError Token)) × Lexer)
  | [] => some ([], l)
  | i :: calls =>
    (l.call? i).bind fun (answer, next) =>
      (next.run? calls).map fun (answers, m) => (answer :: answers, m)

/-- The tokens among some answers. -/
def received (answers : List (Option (Except LexError Token))) : List Token :=
  answers.filterMap fun a => a.bind Except.toOption

/-! ## One call -/

section

variable {l : Lexer}

theorem nextToken_of_failed {e : LexError} (h : l.phase = .failed e) :
    l.nextToken = ⟨.error e, [], l⟩ := by
  rw [nextToken, h]

theorem nextToken_of_finished (h : l.phase = .finished) :
    l.nextToken = ⟨.ok l.endToken, [], l⟩ := by
  rw [nextToken, h]

/-- While the stream goes on both calls do the same. -/
theorem call?_of_live (h : l.Live) (i : Interface) :
    l.call? i = some (some l.nextToken.result, l.nextToken.lexer) := by
  obtain ⟨hphase, hover⟩ := h
  cases i with
  | nextToken => simp [call?, nextToken?, hover]
  | next => simp [call?, nextItem?, hover, next?, hphase]

theorem call?_of_overflows (h : l.overflows = true) (i : Interface) : l.call? i = none := by
  cases i with
  | nextToken => simp [call?, nextToken?, h]
  | next => simp [call?, nextItem?, h]

theorem call?_of_ended (h : l.phase ≠ .scanning) (i : Interface) :
    l.call? i = some (i.repeats (some l.nextToken.result), l) := by
  have hover := overflows_of_ended h
  cases hphase : l.phase with
  | scanning => exact absurd hphase h
  | failed e =>
    cases i with
    | nextToken =>
      simp [call?, nextToken?, hover, nextToken_of_failed hphase, Interface.repeats]
    | next => simp [call?, nextItem?, hover, next?, hphase, Interface.repeats]
  | finished =>
    cases i with
    | nextToken =>
      simp [call?, nextToken?, hover, nextToken_of_finished hphase, Interface.repeats]
    | next => simp [call?, nextItem?, hover, next?, hphase, Interface.repeats]

/-- A stream goes on, is about to panic, or has ended. -/
theorem live_or (l : Lexer) :
    l.Live ∨ (l.phase = .scanning ∧ l.overflows = true) ∨ l.phase ≠ .scanning := by
  unfold Live
  by_cases hphase : l.phase = .scanning <;> cases l.overflows <;> simp [hphase]

theorem drained_of_live (h : l.Live) : l.drained = l.nextToken.lexer.drained := by
  unfold drained
  rw [steps_of_live h]
  cases l.nextToken.lexer.steps with
  | nil => rfl
  | cons s steps => simp [List.getLast?_cons]

theorem drained_of_not_live (h : ¬ l.Live) : l.drained = l := by
  unfold drained
  rw [steps_of_not_live h]; rfl

/-! ## Many calls -/

theorem run?_cons_of_live (h : l.Live) (i : Interface) (calls : List Interface) :
    l.run? (i :: calls) = (l.nextToken.lexer.run? calls).map
      fun (answers, m) => (some l.nextToken.result :: answers, m) := by
  rw [run?, call?_of_live h]; rfl

theorem run?_cons_of_overflows (h : l.overflows = true) (i : Interface) (calls : List Interface) :
    l.run? (i :: calls) = none := by
  rw [run?, call?_of_overflows h]; rfl

theorem run?_of_ended (h : l.phase ≠ .scanning) (calls : List Interface) :
    l.run? calls = some (calls.map (·.repeats (some l.nextToken.result)), l) := by
  induction calls with
  | nil => rfl
  | cons i calls ih => simp only [run?, call?_of_ended h, Option.bind_some, ih]; rfl

theorem run?_append {l m : Lexer} {calls : List Interface}
    {answers : List (Option (Except LexError Token))} (h : l.run? calls = some (answers, m))
    (more : List Interface) :
    l.run? (calls ++ more) = (m.run? more).map fun a => (answers ++ a.1, a.2) := by
  induction calls generalizing l answers with
  | nil => cases h; simp
  | cons i calls ih =>
    obtain ⟨⟨answer, next⟩, hcall, hrest⟩ := Option.bind_eq_some_iff.1 h
    obtain ⟨⟨answers', m'⟩, hrest, hcons⟩ := Option.map_eq_some_iff.1 hrest
    cases hcons
    simp only [List.cons_append, run?, hcall, Option.bind_some, ih hrest, Option.map_map]
    rfl

/-- **Panics.** Some calls panic exactly if the stream does and they are more than it has items. -/
theorem run?_eq_none_iff (l : Lexer) (calls : List Interface) :
    l.run? calls = none ↔ l.panics = true ∧ l.items.length < calls.length := by
  induction calls generalizing l with
  | nil => simp [run?]
  | cons i calls ih =>
    rcases l.live_or with hl | ⟨-, hover⟩ | hended
    · rw [run?_cons_of_live hl, Option.map_eq_none_iff, ih, items_of_live hl, panics_of_live hl]
      simp
    · have hnot := not_live_of_overflows hover
      rw [run?_cons_of_overflows hover, items_of_not_live hnot, panics, drained_of_not_live hnot]
      simp [hover]
    · rw [run?_of_ended hended, panics_of_ended hended]
      simp

/-- **Answers.** Calls of either kind that return give the items one by one, and then repeat the
last item or answer nothing. The lexer scans on as long as it has items, and before a panic. -/
theorem run?_spec {l m : Lexer} {calls : List Interface}
    {answers : List (Option (Except LexError Token))} (h : l.run? calls = some (answers, m)) :
    answers = (l.items.take calls.length).map some ++
        (calls.drop l.items.length).map (·.repeats (some l.drained.nextToken.result)) ∧
      (m.phase = .scanning ↔ calls.length < l.items.length ∨ l.panics = true) ∧
      (m.phase ≠ .scanning → m = l.drained) := by
  induction calls generalizing l answers with
  | nil =>
    cases h
    rcases m.live_or with hl | ⟨hphase, hover⟩ | hended
    · simp [items_of_live hl, hl.1]
    · have hnot := not_live_of_overflows hover
      simp [panics, drained_of_not_live hnot, hover, hphase]
    · have hnot := not_live_of_ended hended
      simp [items_of_not_live hnot, panics_of_ended hended, drained_of_not_live hnot, hended]
  | cons i calls ih =>
    rcases l.live_or with hl | ⟨-, hover⟩ | hended
    · rw [run?_cons_of_live hl] at h
      obtain ⟨⟨answers', m'⟩, hrest, hcons⟩ := Option.map_eq_some_iff.1 h
      cases hcons
      obtain ⟨hanswers, hphase, hdrained⟩ := ih hrest
      rw [items_of_live hl, drained_of_live hl, panics_of_live hl]
      refine ⟨by simp [hanswers], by simp [hphase], hdrained⟩
    · rw [run?_cons_of_overflows hover] at h
      cases h
    · have hnot := not_live_of_ended hended
      rw [run?_of_ended hended] at h
      cases h
      rw [items_of_not_live hnot, panics_of_ended hended, drained_of_not_live hnot]
      simp [hended]

end

/-! ## Reachable states -/

/-- What is queued: dedents, and then perhaps the end of input, all blocks being closed. -/
def Queued (l : Lexer) : Prop :=
  ∃ queue : List Token, (∀ d ∈ queue, d.content = .dedent) ∧
    (l.pending = queue ∨ l.pending = queue ++ [l.endToken] ∧ l.blocks = [])

theorem queued_of_nil {l : Lexer} (h : l.pending = []) : l.Queued := ⟨[], by simp, Or.inl h⟩

section

variable {ts : List Token} {l : Lexer} {s : Step}

/-- The queue starts with a dedent, or it is the end of input. -/
theorem Queued.cases (h : l.Queued) {t : Token} {rest : List Token} (hq : l.pending = t :: rest) :
    (t.content = .dedent ∧ Queued { l with pending := rest }) ∨
      t = l.endToken ∧ rest = [] ∧ l.blocks = [] := by
  obtain ⟨queue, hdedents, hqueue⟩ := h
  rw [hq] at hqueue
  cases queue with
  | nil =>
    rcases hqueue with hqueue | ⟨hqueue, hb⟩
    · cases hqueue
    · obtain ⟨rfl, rfl⟩ := List.cons.inj hqueue
      exact Or.inr ⟨rfl, rfl, hb⟩
  | cons d queue =>
    have hrest : ∀ d ∈ queue, d.content = .dedent :=
      fun d hd => hdedents d (List.mem_cons_of_mem _ hd)
    left
    rcases hqueue with hqueue | ⟨hqueue, hb⟩
    · obtain ⟨rfl, rfl⟩ := List.cons.inj hqueue
      exact ⟨hdedents t List.mem_cons_self, rest, hrest, Or.inl rfl⟩
    · obtain ⟨rfl, rfl⟩ := List.cons.inj hqueue
      exact ⟨hdedents t List.mem_cons_self, queue, hrest, Or.inr ⟨rfl, hb⟩⟩

theorem Move.queued (h : Move l s) (hqueued : l.Queued) : s.lexer.Queued := by
  cases h with
  | dequeue hq =>
    rcases hqueued.cases hq with ⟨-, hrest⟩ | ⟨-, hrest, -⟩
    · exact hrest
    · exact queued_of_nil hrest
  | dedent =>
    refine ⟨_, fun d hd => ?_, Or.inl rfl⟩
    rw [List.eq_of_mem_replicate hd]
  | unwind =>
    refine ⟨_, fun d hd => ?_, Or.inr ⟨rfl, rfl⟩⟩
    rw [List.eq_of_mem_replicate hd]
  | indent hq | badIndent hq | newline hq | token hq | fail hq | finish hq => exact queued_of_nil hq

/-- There is one token that ends the stream, and no block is open then. -/
theorem Move.ends (h : Move l s) (hqueued : l.Queued) {t : Token} (ht : s.result = .ok t)
    (hend : t.content = .endOfInput) : t = l.endToken ∧ s.lexer.blocks = [] := by
  cases h with
  | dequeue hq =>
    cases ht
    rcases hqueued.cases hq with ⟨hdedent, -⟩ | ⟨ht, -, hb⟩
    · rw [hdedent] at hend; cases hend
    · exact ⟨ht, hb⟩
  | finish _ _ hb => cases ht; exact ⟨rfl, hb⟩
  | token _ _ _ _ hok => cases ht; exact absurd hend (Lexeme.read_spells hok).ne_endOfInput
  | indent | dedent | newline | unwind => cases ht; cases hend
  | badIndent | fail => cases ht

/-- A move that fails leaves blocks, queue and brackets alone. -/
theorem Move.tallied_of_error (h : Move l s) {e : LexError} (he : s.result = .error e)
    (htally : Tallied ts l) : Tallied ts s.lexer := by
  cases h with
  | badIndent | fail => exact ⟨htally.queue, htally.nested, htally.depth⟩
  | dequeue | indent | dedent | newline | token | unwind | finish => cases he

/-- What the state of a lexer has to do with the tokens `ts` handed out. -/
structure Sound (ts : List Token) (l : Lexer) : Prop where
  tally : Tallied ts l
  queue : l.Queued
  closed : l.phase = .finished → l.blocks = []
  finished : ∀ t ∈ ts, t.content = .endOfInput → l.phase = .finished

theorem start_sound (source : Source) (config : Config) : Sound [] (start source config) where
  tally := start_tallied source config
  queue := queued_of_nil rfl
  closed := nofun
  finished := nofun

@[simp] theorem received_ok (t : Token) : received [some (.ok t)] = [t] := rfl

@[simp] theorem received_error (e : LexError) : received [some (.error e)] = [] := rfl

@[simp] theorem received_none : received [none] = [] := rfl

theorem received_append (a b : List (Option (Except LexError Token))) :
    received (a ++ b) = received a ++ received b := List.filterMap_append

theorem Sound.nextToken (h : Sound ts l) (hl : l.phase = .scanning) :
    Sound (ts ++ received [some l.nextToken.result]) l.nextToken.lexer := by
  obtain ⟨s, hmove, hresult, hlexer⟩ := exists_move hl
  have hphase := hmove.phase.trans hl
  have hqueue := hmove.queued h.queue
  have hnone : ∀ t ∈ ts, t.content ≠ .endOfInput := by
    intro t ht hend
    have hfinished := h.finished t ht hend
    rw [hl] at hfinished; cases hfinished
  rw [hresult, hlexer]
  cases hs : s.result with
  | error e =>
    have htally := hmove.tallied_of_error hs h.tally
    have hafter : s.phaseAfter = .failed e := by rw [Step.phaseAfter, hs]
    rw [hafter, received_error, List.append_nil]
    exact ⟨⟨htally.queue, htally.nested, htally.depth⟩, hqueue, by simp,
      fun t ht hend => absurd hend (hnone t ht)⟩
  | ok t =>
    have htally := hmove.tallied hs h.tally
    have hafter : s.phaseAfter = .finished ↔ t.content = .endOfInput := by
      rw [Step.phaseAfter, hs]
      by_cases hend : t.content = .endOfInput <;> simp [hend, hphase]
    rw [received_ok]
    refine ⟨⟨htally.queue, htally.nested, htally.depth⟩, hqueue, ?_, ?_⟩
    · intro hfinished
      exact (hmove.ends h.queue hs (hafter.1 hfinished)).2
    · intro u hu hend
      rcases List.mem_append.1 hu with hu | hu
      · exact absurd hend (hnone u hu)
      · rw [List.mem_singleton.1 hu] at hend
        exact hafter.2 hend

/-- An end of input that is repeated counts for nothing. -/
theorem Sound.repeats (h : Sound ts l) (hl : l.phase ≠ .scanning) (i : Interface) :
    Sound (ts ++ received [i.repeats (some l.nextToken.result)]) l := by
  cases i with
  | next =>
    show Sound (ts ++ received [none]) l
    rw [received_none, List.append_nil]; exact h
  | nextToken =>
    show Sound (ts ++ received [some l.nextToken.result]) l
    cases hphase : l.phase with
    | scanning => exact absurd hphase hl
    | failed e =>
      rw [nextToken_of_failed hphase, received_error, List.append_nil]; exact h
    | finished =>
      rw [nextToken_of_finished hphase, received_ok]
      refine ⟨⟨h.tally.queue, h.tally.nested.snoc ?_, ?_⟩, h.queue, h.closed, fun _ _ _ => hphase⟩
      · simp [indents, dedents, endToken]
      · rw [bracketDepth_snoc, bracketStep_of_layout rfl]; exact h.tally.depth

/-- **One call.** -/
theorem Sound.call (h : Sound ts l) {i : Interface} {answer : Option (Except LexError Token)}
    {m : Lexer} (hcall : l.call? i = some (answer, m)) : Sound (ts ++ received [answer]) m := by
  rcases l.live_or with hl | ⟨-, hover⟩ | hended
  · rw [call?_of_live hl] at hcall
    cases hcall
    exact h.nextToken hl.1
  · rw [call?_of_overflows hover] at hcall
    cases hcall
  · rw [call?_of_ended hended] at hcall
    cases hcall
    exact h.repeats hended i

/-- **Any calls.** -/
theorem Sound.run (h : Sound ts l) {calls : List Interface}
    {answers : List (Option (Except LexError Token))} {m : Lexer}
    (hrun : l.run? calls = some (answers, m)) : Sound (ts ++ received answers) m := by
  induction calls generalizing ts l answers with
  | nil =>
    cases hrun
    rw [show received [] = [] from rfl, List.append_nil]; exact h
  | cons i calls ih =>
    obtain ⟨⟨answer, next⟩, hcall, hrest⟩ := Option.bind_eq_some_iff.1 hrun
    obtain ⟨⟨answers', m'⟩, hrest, hcons⟩ := Option.map_eq_some_iff.1 hrest
    cases hcons
    have hsound := ih (h.call hcall) hrest
    rw [List.append_assoc, ← received_append] at hsound
    exact hsound

end

/-! ## Streams -/

section

variable {source : Source} {config : Config} {visited : List Lexer} {l : Lexer}

theorem Run.queued (h : Run (start source config) visited l) : l.Queued := by
  induction h with
  | nil => exact queued_of_nil rfl
  | snoc _ hm ih =>
    obtain ⟨s, hmove, -, hlexer⟩ := exists_move hm.1
    rw [hlexer]; exact hmove.queued ih

theorem Run.exists_tokens (h : Run (start source config) visited l) (hl : l.phase = .scanning) :
    ∃ own : List Token, visited.map (fun v => v.nextToken.result) = own.map .ok ∧
      ∀ t ∈ own, t.content ≠ .endOfInput := by
  induction h with
  | nil => exact ⟨[], rfl, by simp⟩
  | @snoc visited m _ hm ih =>
    obtain ⟨own, hown, hne⟩ := ih hm.1
    obtain ⟨t, ht, hcontent⟩ := (phase_nextToken hm.1).1 hl
    refine ⟨own ++ [t], by simp [hown, ht], ?_⟩
    intro u hu
    rcases List.mem_append.1 hu with hu | hu
    · exact hne u hu
    · rw [List.mem_singleton.1 hu]; exact hcontent

/-- The item that ends a stream is the one that is repeated. -/
theorem Run.nextToken_of_last (h : Run (start source config) visited l) (hl : l.phase = .scanning)
    (hend : l.nextToken.lexer.phase ≠ .scanning) :
    l.nextToken.lexer.nextToken.result = l.nextToken.result := by
  obtain ⟨s, hmove, hresult, hlexer⟩ := exists_move hl
  have hphase : l.nextToken.lexer.phase = s.phaseAfter := by rw [hlexer]
  rw [hresult]
  cases hs : s.result with
  | error e =>
    have hfailed : l.nextToken.lexer.phase = .failed e := by rw [hphase, Step.phaseAfter, hs]
    rw [nextToken_of_failed hfailed]
  | ok t =>
    have hcontent : t.content = .endOfInput := by
      by_contra hne
      exact hend ((phase_nextToken hl).2 ⟨t, hresult.trans hs, hne⟩)
    have hfinished : l.nextToken.lexer.phase = .finished := by
      rw [hphase, Step.phaseAfter, hs]
      simp [hcontent]
    have hsource : l.nextToken.lexer.source = l.source := by rw [hlexer]; exact hmove.source
    rw [nextToken_of_finished hfinished, (hmove.ends h.queued hs hcontent).1, endToken, hsource]
    rfl

end

/-- The items of a source: tokens, and last the end of input or an error, which is repeated, unless
a call panics. -/
theorem exists_items (source : Source) (config : Config) :
    ∃ (own : List Token) (last : Option (Except LexError Token)),
      (start source config).items = own.map .ok ++ last.toList ∧
      (∀ t ∈ own, t.content ≠ .endOfInput) ∧
      (∀ t, last = some (.ok t) → t.content = .endOfInput) ∧
      (last = none ↔ (start source config).panics = true) ∧
      ∀ item, last = some item → (start source config).drained.nextToken.result = item := by
  obtain ⟨visited, l, hrun, hl, hover | ⟨hlive, hend⟩⟩ := exists_last_call (start source config) rfl
  · obtain ⟨own, hown, hne⟩ := hrun.exists_tokens hl
    refine ⟨own, none, ?_, hne, by simp, by simp [(hrun.steps_of_overflows hover).2], by simp⟩
    rw [hrun.items_eq, items_of_not_live (not_live_of_overflows hover), hown]; rfl
  · obtain ⟨own, hown, hne⟩ := hrun.exists_tokens hl
    have hnot := not_live_of_ended hend
    refine ⟨own, some l.nextToken.result, ?_, hne, ?_, by simp [(hrun.steps_of_last hlive hend).2],
      ?_⟩
    · rw [hrun.items_eq, items_of_live hlive, items_of_not_live hnot, hown]; rfl
    · intro t ht
      by_contra hne
      exact hend ((phase_nextToken hl).2 ⟨t, Option.some.inj ht, hne⟩)
    · intro item hitem
      rw [(hrun.snoc hlive).drained_eq hnot, ← Option.some.inj hitem]
      exact hrun.nextToken_of_last hl hend

/-- **Callers.** A source has a sequence of items: tokens, and last the end of input or an error, or
nothing if a call panics, for which some line has to be too wide for a word. All calls, of either
kind in any order, return these items one after the other. Only a call that panics does not return;
the calls after the end of input or the error repeat it or answer nothing, and change nothing. In
every state that calls can reach, the blocks that are open are those of the tokens returned, but for
the dedents that are queued; nothing else is queued but the end of input after them; and no block is
open once it was returned. -/
theorem calls_answered (source : Source) (config : Config) :
    ∃ (own : List Token) (last : Option (Except LexError Token)),
      (∀ t ∈ own, t.content ≠ .endOfInput) ∧
      (∀ t, last = some (.ok t) → t.content = .endOfInput) ∧
      (last = none →
        ∃ line ∈ source.chars.splitOn '\n', UInt64.size ≤ config.columns (indentation line)) ∧
      ∀ calls : List Interface,
        let items := own.map .ok ++ last.toList
        let first := start source config
        (first.run? calls = none ↔ last = none ∧ items.length < calls.length) ∧
        ∀ answers l, first.run? calls = some (answers, l) →
          let ts := received answers
          answers =
            (items.take calls.length).map some ++ (calls.drop items.length).map (·.repeats last) ∧
          (l.phase = .scanning ↔ calls.length < items.length ∨ last = none) ∧
          (l.phase ≠ .scanning →
            ∀ more, first.run? (calls ++ more) = some (answers ++ more.map (·.repeats last), l)) ∧
          indents ts = dedents ts + (l.indentDepth + dedents l.pending) ∧
          (∃ queue tail, l.pending = queue ++ tail ∧ (∀ d ∈ queue, d.content = .dedent) ∧
            (tail = [] ∨ ∃ t, tail = [t] ∧ t.content = .endOfInput)) ∧
          ∀ t ∈ ts, t.content = .endOfInput → l.indentDepth = 0 := by
  obtain ⟨own, last, hitems, hown, hlast, hpanics, hrepeated⟩ := exists_items source config
  refine ⟨own, last, hown, hlast, fun hnone => exists_wide_line (hpanics.1 hnone), ?_⟩
  rw [← hitems, hpanics]
  intro calls items first
  refine ⟨run?_eq_none_iff first calls, ?_⟩
  intro answers l hrun ts
  obtain ⟨hanswers, hphase, hdrained⟩ := run?_spec hrun
  have hsound : Sound ts l := (start_sound source config).run hrun
  refine ⟨?_, hphase, ?_, hsound.tally.nested.2, ?_, ?_⟩
  · -- Without a last item the calls that return are no more than the items.
    cases last with
    | some item => rw [hanswers, hrepeated item rfl]
    | none =>
      have hle : calls.length ≤ first.items.length := by
        have hsome : first.run? calls ≠ none := by simp [hrun]
        rw [ne_eq, run?_eq_none_iff, not_and] at hsome
        exact Nat.not_lt.1 (hsome (hpanics.1 rfl))
      rw [hanswers, List.drop_eq_nil_of_le hle]; rfl
  · intro hended more
    cases last with
    | none => exact absurd (hphase.2 (Or.inr (hpanics.1 rfl))) hended
    | some item =>
      rw [run?_append hrun, run?_of_ended hended, hdrained hended, hrepeated item rfl]
      rfl
  · obtain ⟨queue, hdedents, hqueue | ⟨hqueue, -⟩⟩ := hsound.queue
    · exact ⟨queue, [], by rw [hqueue, List.append_nil], hdedents, Or.inl rfl⟩
    · exact ⟨queue, [_], hqueue, hdedents, Or.inr ⟨_, rfl, rfl⟩⟩
  · intro t ht hend
    have hblocks := hsound.closed (hsound.finished t ht hend)
    rw [indentDepth, hblocks]; rfl

/-- A call that never returns while the lexer scans: the line after the third item cannot be
measured. -/
theorem call_panics_wideSample :
    (((start wideSample halfWordTabs).run? [.nextToken, .next, .nextToken]).map fun a =>
      a.2.phase) = some .scanning ∧
    (start wideSample halfWordTabs).run? [.nextToken, .next, .nextToken, .nextToken] = none ∧
    (start wideSample halfWordTabs).run? [.nextToken, .next, .nextToken, .next] = none := by
  decide +kernel

end Lexer

end Offside
