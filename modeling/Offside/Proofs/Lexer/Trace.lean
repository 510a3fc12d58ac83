import Offside.Proofs.Lexer.Interfaces
import Offside.Proofs.Lexer.OffsideRule
import Offside.Proofs.Lexer.Skipping

/-!
# The log of a run

A lexer logs a block when it opens or closes, and a token when it is returned. Blocks that close at
once are logged at once, but their dedents are returned call by call, so the log of the blocks runs
ahead of the log of the tokens. The two meet whenever the queue is empty: what was logged, with the
tokens still queued, is a sequence of whole groups, and a group is what one line or the end of the
text does to the blocks, followed by a token for each change.

Results:
* `Lexer.records_nextToken`: what one call logs, next to what it does to the stack and the queue.
* `Lexer.Records.grouped`, `Lexer.Run.grouped`: the groups of a call and of a run.
* `Lexer.Group.announced`: within a group the changes come before their tokens.
* `Lexer.trace_faithful`: the log of a whole run, whatever calls follow it.
-/

namespace Offside

/-- The kind itself, if tokens of this kind open or close blocks. -/
def Token.Kind.mark? : Token.Kind → Option Token.Kind
  | .indent => some .indent
  | .dedent => some .dedent
  | _ => none

/-- The event that a token is returned. -/
def Token.event (t : Token) : Event := .token t.kind t.origin.offset

theorem Spells.mark?_kind {text : List Char} {content : Token.Content} (h : Spells text content) :
    content.kind.mark? = none := by
  cases h <;> rfl

namespace Event

/-- The kind of the token that a change of the blocks makes. -/
def mark? : Event → Option Token.Kind
  | indent _ => some .indent
  | dedent _ | dedentAtEnd => some .dedent
  | _ => none

/-- The kind and the offset of a token that is returned. -/
def token? : Event → Option (Token.Kind × Nat)
  | token kind offset => some (kind, offset)
  | _ => none

/-- The kind of a token that is returned, if it opens or closes a block. -/
def returnedMark? (e : Event) : Option Token.Kind := e.token?.bind fun t => t.1.mark?

theorem of_mark? {e : Event} {kind : Token.Kind} (h : e.mark? = some kind) :
    kind.mark? = some kind ∧ e.token? = none ∧ ∀ error, e ≠ .failure error := by
  cases e <;> cases h <;> simp [Token.Kind.mark?, token?]

end Event

namespace Blocks

theorem top_of_enter? {blocks kept : Blocks} {width : Nat} (h : blocks.enter? width = some kept) :
    kept.top = width := by
  unfold enter? at h
  split at h
  · cases h; rfl
  · dsimp only at h
    split at h
    · next htop => cases h; exact htop
    · cases h

/-- A line that is not wider than the innermost block closes blocks from the inside. -/
theorem stack_prefix_of_enter? {blocks kept : Blocks} {width : Nat} (hw : ¬ blocks.top < width)
    (h : blocks.enter? width = some kept) : kept.stack <+: blocks.stack := by
  simp only [enter?, hw, if_false] at h
  split at h
  · cases h
    exact List.cons_prefix_cons.2 ⟨rfl, List.reverse_prefix.2 (List.dropWhile_suffix _)⟩
  · cases h

end Blocks

namespace Lexer

/-! ## One call -/

/-- What a call of the lexer `l` logs, next to what it does to the stack and the queue. -/
inductive Records (l : Lexer) (s : Step) : Prop
  /-- A queued token is returned, and its block was logged before. -/
  | queued {t : Token} (hq : l.pending = t :: s.lexer.pending) (ht : s.result = .ok t)
      (hevents : s.events = [t.event]) (hstack : s.lexer.stack = l.stack)
  /-- A line opens a block. -/
  | opens {line : Line} {t : Token} (hq : l.pending = []) (hline : l.measured? = some line)
      (ht : s.result = .ok t) (hkind : t.kind = .indent)
      (hevents : s.events = [.indent line.width, t.event])
      (hstack : s.lexer.stack = l.stack ++ [line.width]) (hqueue : s.lexer.pending = [])
  /-- A line closes blocks. All of them are logged before the first dedent is returned. -/
  | closes {line : Line} {t : Token} {n : Nat} (hq : l.pending = [])
      (hline : l.measured? = some line) (ht : s.result = .ok t) (hkind : t.kind = .dedent)
      (hevents : s.events = List.replicate (n + 1) (.dedent line.width) ++ [t.event])
      (hstack : s.lexer.stack <+: l.stack) (htop : s.lexer.stack.getLast? = some line.width)
      (hclosed : l.stack.length = s.lexer.stack.length + (n + 1))
      (hqueue : s.lexer.pending = List.replicate n t)
  /-- The end of the text closes all blocks but the outermost one. -/
  | unwinds {t : Token} {n : Nat} (hq : l.pending = []) (hend : l.settled.cursor.rest = [])
      (ht : s.result = .ok t) (hkind : t.kind = .dedent)
      (hevents : s.events = List.replicate (n + 1) .dedentAtEnd ++ [t.event])
      (hstack : s.lexer.stack = [0]) (hclosed : l.stack.length = 1 + (n + 1))
      (hqueue : s.lexer.pending = List.replicate n t ++ [l.endToken])
  /-- A token that opens and closes nothing is returned. -/
  | token {t : Token} (hq : l.pending = []) (ht : s.result = .ok t) (hkind : t.kind.mark? = none)
      (hevents : s.events = [t.event]) (hstack : s.lexer.stack = l.stack)
      (hqueue : s.lexer.pending = [])
  /-- The call fails, at a line that lines up with no block, too. -/
  | fails {e : LexError} (hq : l.pending = []) (he : s.result = .error e)
      (hevents : s.events = [.failure e]) (hstack : s.lexer.stack = l.stack)
      (hqueue : s.lexer.pending = [])

section

variable {l : Lexer} {s : Step}

theorem Step.deliver_pending (s : Step) : s.deliver.lexer.pending = s.lexer.pending := by
  rw [deliver_lexer]

theorem Step.deliver_stack (s : Step) : s.deliver.lexer.stack = s.lexer.stack := by
  rw [deliver_lexer]; rfl

theorem Move.records (h : Move l s) (hl : l.Live) : Records l s.deliver := by
  have hpending := s.deliver_pending
  have hstack := s.deliver_stack
  cases h with
  | dequeue hq => exact .queued (hq.trans (by rw [hpending])) rfl rfl hstack
  | indent hq hs hline hw =>
    have hmeasured := (measured?_of_lineStart hl hq hs).trans hline
    refine .opens hq hmeasured rfl rfl rfl (hstack.trans ?_) (hpending.trans hq)
    simp [stack, Blocks.stack]
  | @dedent line kept n hq hs hline hw hk hn =>
    have hmeasured := (measured?_of_lineStart hl hq hs).trans hline
    refine .closes hq hmeasured rfl rfl rfl ?_ ?_ ?_ hpending
    · rw [hstack]; exact Blocks.stack_prefix_of_enter? (Nat.lt_asymm hw) hk
    · rw [hstack, ← Blocks.top_of_enter? hk]; exact Blocks.Tracks.getLast?_stack kept
    · rw [hstack]; simp [stack, Blocks.stack, hn]; omega
  | unwind hq hr hb =>
    refine .unwinds hq hr rfl rfl rfl hstack ?_ hpending
    simp [stack, Blocks.stack, hb]; omega
  | newline hq | finish hq => exact .token hq rfl rfl rfl hstack (hpending.trans hq)
  | token hq _ _ _ hok =>
    exact .token hq rfl (Lexeme.read_spells hok).mark?_kind rfl hstack (hpending.trans hq)
  | badIndent hq | fail hq => exact .fails hq rfl rfl hstack (hpending.trans hq)

theorem records_nextToken (hl : l.Live) : Records l l.nextToken := by
  rw [nextToken_eq hl.1]
  exact l.pull_move.records hl

end

/-! ## Changes come before their tokens -/

/-- Every mark that is returned was announced before, and all that were announced are returned. -/
structure Announced (log : List Event) : Prop where
  before : ∀ p, p <+: log → p.filterMap Event.returnedMark? <+: p.filterMap Event.mark?
  settled : log.filterMap Event.returnedMark? = log.filterMap Event.mark?

theorem announced_nil : Announced [] where
  before p hp := by rw [List.prefix_nil.1 hp]; exact List.prefix_rfl
  settled := rfl

theorem Announced.append {a b : List Event} (ha : Announced a) (hb : Announced b) :
    Announced (a ++ b) where
  before := by
    rintro p ⟨rest, hp⟩
    rcases List.append_eq_append_iff.1 hp with ⟨more, rfl, -⟩ | ⟨q, rfl, rfl⟩
    · exact ha.before p (List.prefix_append p more)
    · rw [List.filterMap_append, List.filterMap_append, ha.settled]
      exact (List.prefix_append_right_inj _).2 (hb.before q (List.prefix_append q rest))
  settled := by rw [List.filterMap_append, List.filterMap_append, ha.settled, hb.settled]

theorem announced_singleton {e : Event} (hreturned : e.returnedMark? = none)
    (hmark : e.mark? = none) : Announced [e] where
  before p hp := by
    have hnil : p.filterMap Event.returnedMark? = [] := by
      refine List.filterMap_eq_nil_iff.2 fun x hx => ?_
      rw [List.mem_singleton.1 (hp.subset hx)]; exact hreturned
    rw [hnil]; exact List.nil_prefix
  settled := by simp [hreturned, hmark]

/-- Changes of one kind, and then as many tokens. -/
theorem announced_replicate {change returned : Event} {kind : Token.Kind}
    (hchange : change.mark? = some kind) (hsilent : change.returnedMark? = none)
    (hreturned : returned.returnedMark? = some kind) (hmark : returned.mark? = none) (n : Nat) :
    Announced (List.replicate n change ++ List.replicate n returned) := by
  have hchanges : ∀ k, (List.replicate k change).filterMap Event.returnedMark? = [] ∧
      (List.replicate k change).filterMap Event.mark? = List.replicate k kind := fun k =>
    ⟨by simp [hsilent], List.filterMap_replicate_of_some hchange⟩
  have htokens : ∀ k, (List.replicate k returned).filterMap Event.mark? = [] ∧
      (List.replicate k returned).filterMap Event.returnedMark? = List.replicate k kind := fun k =>
    ⟨by simp [hmark], List.filterMap_replicate_of_some hreturned⟩
  constructor
  · -- A part ends among the changes, or it has all of them and some of the tokens.
    rintro p ⟨rest, hp⟩
    rcases List.append_eq_append_iff.1 hp with ⟨more, hfront, -⟩ | ⟨q, rfl, hback⟩
    · obtain ⟨-, hp', -⟩ := List.append_eq_replicate_iff.1 hfront.symm
      rw [hp', (hchanges _).1]
      exact List.nil_prefix
    · obtain ⟨hlen, hq, -⟩ := List.append_eq_replicate_iff.1 hback.symm
      rw [hq, List.filterMap_append, List.filterMap_append, (hchanges _).1, (hchanges _).2,
        (htokens _).1, (htokens _).2, List.nil_append, List.append_nil]
      refine ⟨List.replicate (n - q.length) kind, ?_⟩
      rw [List.replicate_append_replicate, show q.length + (n - q.length) = n by omega]
  · rw [List.filterMap_append, List.filterMap_append, (hchanges n).1, (hchanges n).2,
      (htokens n).1, (htokens n).2, List.nil_append, List.append_nil]

/-! ## Groups -/

/-- Events that belong together. -/
inductive Group where
  /-- A token that opens and closes nothing. -/
  | token (t : Token)
  /-- What one line or the end of the text does to the blocks, `n + 1` times the same, and as many
  tokens. -/
  | blocks (change : Event) (n : Nat) (t : Token)

namespace Group

def events : Group → List Event
  | token t => [t.event]
  | blocks change n t => List.replicate (n + 1) change ++ List.replicate (n + 1) t.event

def tokens : Group → List Token
  | token t => [t]
  | blocks _ n t => List.replicate (n + 1) t

/-- Do the tokens of a group say what its changes do? A line opens one block at most. -/
def Valid : Group → Prop
  | token t => t.kind.mark? = none
  | blocks change n t => change.mark? = some t.kind ∧ (t.kind = .indent → n = 0)

variable {g : Group}

theorem token?_events (h : g.Valid) :
    g.events.filterMap Event.token? = g.tokens.map fun t => (t.kind, t.origin.offset) := by
  cases g with
  | token t => rfl
  | blocks change n t =>
    obtain ⟨-, hchange, -⟩ := Event.of_mark? h.1
    have hchanges : (List.replicate (n + 1) change).filterMap Event.token? = [] := by
      simp [hchange]
    have htoken : t.event.token? = some (t.kind, t.origin.offset) := rfl
    rw [events, tokens, List.filterMap_append, hchanges, List.filterMap_replicate_of_some htoken,
      List.map_replicate, List.nil_append]

theorem announced (h : g.Valid) : Announced g.events := by
  cases g with
  | token t => exact announced_singleton h rfl
  | blocks change n t =>
    obtain ⟨hkind, hchange, -⟩ := Event.of_mark? h.1
    have hsilent : change.returnedMark? = none := by rw [Event.returnedMark?, hchange]; rfl
    have hreturned : t.event.returnedMark? = some t.kind := hkind
    exact announced_replicate h.1 hsilent hreturned rfl (n + 1)

theorem failure_notMem (h : g.Valid) (error : LexError) : .failure error ∉ g.events := by
  cases g with
  | token t => simp [events, Token.event]
  | blocks change n t =>
    obtain ⟨-, -, hfailure⟩ := Event.of_mark? h.1
    simp [events, Token.event, (hfailure error).symm]

end Group

section

variable {groups : List Group}

theorem token?_flatMap (h : ∀ g ∈ groups, g.Valid) :
    (groups.flatMap Group.events).filterMap Event.token? =
      (groups.flatMap Group.tokens).map fun t => (t.kind, t.origin.offset) := by
  rw [List.filterMap_flatMap, List.map_flatMap]
  exact List.flatMap_congr fun g hg => Group.token?_events (h g hg)

theorem announced_flatMap (h : ∀ g ∈ groups, g.Valid) :
    Announced (groups.flatMap Group.events) := by
  induction groups with
  | nil => exact announced_nil
  | cons g groups ih =>
    rw [List.flatMap_cons]
    exact (Group.announced (h g List.mem_cons_self)).append
      (ih fun g' hg' => h g' (List.mem_cons_of_mem _ hg'))

end

/-! ## The groups of a run -/

/-- What the end of a stream logs: its failure. -/
def failureEvents {α : Type} : Option (Except LexError α) → List Event
  | some (.error e) => [.failure e]
  | _ => []

theorem announced_failureEvents {α : Type} (result : Option (Except LexError α)) :
    Announced (failureEvents result) := by
  unfold failureEvents
  split
  · exact announced_singleton rfl rfl
  · exact announced_nil

/-- `log` and `ts`, with what is still queued, are some groups. -/
def Grouped (log : List Event) (ts queue : List Token) : Prop :=
  ∃ groups : List Group, (∀ g ∈ groups, g.Valid) ∧ ts ++ queue = groups.flatMap Group.tokens ∧
    log ++ queue.map Token.event = groups.flatMap Group.events

section

variable {l : Lexer} {s : Step} {log : List Event} {ts : List Token}

theorem Grouped.dequeue {t : Token} {queue : List Token} (h : Grouped log ts (t :: queue)) :
    Grouped (log ++ [t.event]) (ts ++ [t]) queue := by
  obtain ⟨groups, hvalid, htokens, hevents⟩ := h
  exact ⟨groups, hvalid, by rw [← htokens]; simp, by rw [← hevents]; simp⟩

/-- Where nothing is queued new groups may follow. -/
theorem Grouped.append {log' : List Event} {ts' queue : List Token} (h : Grouped log ts [])
    (h' : Grouped log' ts' queue) : Grouped (log ++ log') (ts ++ ts') queue := by
  obtain ⟨groups, hvalid, htokens, hevents⟩ := h
  obtain ⟨more, hmore, htokens', hevents'⟩ := h'
  refine ⟨groups ++ more, List.forall_mem_append.2 ⟨hvalid, hmore⟩, ?_, ?_⟩
  · rw [List.flatMap_append, ← htokens, ← htokens']; simp
  · rw [List.flatMap_append, ← hevents, ← hevents']; simp

theorem grouped_token {t : Token} (h : t.kind.mark? = none) : Grouped [t.event] [t] [] :=
  ⟨[.token t], List.forall_mem_singleton.2 h, rfl, rfl⟩

/-- The first token of a group is returned, and the others are queued. -/
theorem grouped_blocks {change : Event} {t : Token} {n : Nat} (hmark : change.mark? = some t.kind)
    (hindent : t.kind = .indent → n = 0) :
    Grouped (List.replicate (n + 1) change ++ [t.event]) [t] (List.replicate n t) := by
  refine ⟨[.blocks change n t], List.forall_mem_singleton.2 ⟨hmark, hindent⟩, ?_, ?_⟩
  · simp [Group.tokens, List.replicate_succ]
  · simp [Group.events, List.replicate_succ]

theorem Grouped.enqueue {t : Token} {queue : List Token} (h : Grouped log ts queue)
    (ht : t.kind.mark? = none) : Grouped log ts (queue ++ [t]) := by
  obtain ⟨groups, hvalid, htokens, hevents⟩ := h
  have hlast : (Group.token t).Valid := ht
  refine ⟨groups ++ [.token t],
    List.forall_mem_append.2 ⟨hvalid, List.forall_mem_singleton.2 hlast⟩, ?_, ?_⟩
  · rw [List.flatMap_append, ← htokens]; simp [Group.tokens]
  · rw [List.flatMap_append, ← hevents]; simp [Group.events]

/-- Where nothing is queued a call that returns a token begins groups of its own. -/
theorem Records.grouped_of_nil (h : Records l s) (hq : l.pending = []) {t : Token}
    (ht : s.result = .ok t) : Grouped s.events [t] s.lexer.pending := by
  cases h with
  | queued hq' => rw [hq] at hq'; cases hq'
  | opens _ _ ht' hkind hevents _ hqueue =>
    cases ht'.symm.trans ht
    rw [hevents, hqueue]
    exact grouped_blocks (n := 0) (by rw [hkind]; rfl) fun _ => rfl
  | closes _ _ ht' hkind hevents _ _ _ hqueue =>
    cases ht'.symm.trans ht
    rw [hevents, hqueue]
    exact grouped_blocks (by rw [hkind]; rfl) (by simp [hkind])
  | unwinds _ _ ht' hkind hevents _ _ hqueue =>
    cases ht'.symm.trans ht
    rw [hevents, hqueue]
    exact (grouped_blocks (by rw [hkind]; rfl) (by simp [hkind])).enqueue rfl
  | token _ ht' hkind hevents _ hqueue =>
    cases ht'.symm.trans ht
    rw [hevents, hqueue]
    exact grouped_token hkind
  | fails _ he => rw [he] at ht; cases ht

/-- **One call.** A call that returns a token keeps the log grouped. -/
theorem Records.grouped (h : Records l s) {t : Token} (ht : s.result = .ok t)
    (hlog : Grouped log ts l.pending) : Grouped (log ++ s.events) (ts ++ [t]) s.lexer.pending := by
  cases hq : l.pending with
  | nil =>
    rw [hq] at hlog
    exact hlog.append (h.grouped_of_nil hq ht)
  | cons d queue =>
    cases h with
    | queued hq' ht' hevents =>
      cases ht'.symm.trans ht
      rw [hq'] at hlog
      rw [hevents]
      exact hlog.dequeue
    | opens hq' | closes hq' | unwinds hq' | token hq' | fails hq' => rw [hq] at hq'; cases hq'

theorem Records.events_of_error (h : Records l s) {e : LexError} (he : s.result = .error e) :
    s.events = [.failure e] ∧ l.pending = [] := by
  cases h with
  | fails hq he' hevents => cases he'.symm.trans he; exact ⟨hevents, hq⟩
  | queued _ ht | opens _ _ ht | closes _ _ ht | unwinds _ _ ht | token _ ht =>
    rw [ht] at he; cases he

theorem Move.pending_of_endOfInput (h : Move l s) (hqueued : l.Queued) {t : Token}
    (ht : s.result = .ok t) (hend : t.content = .endOfInput) : s.lexer.pending = [] := by
  cases h with
  | dequeue hq =>
    cases ht
    rcases hqueued.cases hq with ⟨hdedent, -⟩ | ⟨-, hrest, -⟩
    · rw [hdedent] at hend; cases hend
    · exact hrest
  | finish hq => exact hq
  | token _ _ _ _ hok => cases ht; exact absurd hend (Lexeme.read_spells hok).ne_endOfInput
  | indent | dedent | newline | unwind => cases ht; cases hend
  | badIndent | fail => cases ht

end

section

variable {source : Source} {config : Config} {visited : List Lexer} {l : Lexer}

/-- What the calls in some states log. -/
def logged (visited : List Lexer) : List Event := visited.flatMap fun v => v.nextToken.events

theorem logged_snoc (visited : List Lexer) (l : Lexer) :
    logged (visited ++ [l]) = logged visited ++ l.nextToken.events := by
  simp [logged]

theorem events_map_nextToken (visited : List Lexer) :
    (visited.map nextToken).flatMap Step.events = logged visited := List.flatMap_map ..

/-- **All calls.** As long as the stream goes on, what was logged is grouped. -/
theorem Run.grouped (h : Run (start source config) visited l) (hl : l.phase = .scanning) :
    Grouped (logged visited) (returned (visited.map nextToken)) l.pending := by
  induction h with
  | nil => exact ⟨[], by simp, rfl, rfl⟩
  | @snoc visited m _ hm ih =>
    obtain ⟨t, ht, -⟩ := (phase_nextToken hm.1).1 hl
    rw [logged_snoc, List.map_append, returned_append, List.map_singleton, returned_ok ht]
    exact (records_nextToken hm).grouped ht (ih hm.1)

end

/-! ## The whole log -/

/-- What the next call logs. A call that panics logs nothing. -/
def eventsOfCall (l : Lexer) : List Event := (l.nextToken?.map Step.events).getD []

/-- What a lexer logs during some calls, up to one that panics. -/
def eventsOfCalls (l : Lexer) : Nat → List Event
  | 0 => []
  | n + 1 =>
    match l.nextToken? with
    | some s => s.events ++ s.lexer.eventsOfCalls n
    | none => []

/-- What a lexer logs until its stream ends and during further calls. -/
def trace (l : Lexer) (further : Nat) : List Event :=
  l.steps.flatMap Step.events ++ l.drained.eventsOfCalls further

theorem eventsOfCalls_of_not_live {l : Lexer} (h : ¬ l.Live) (n : Nat) :
    l.eventsOfCalls n = [] := by
  induction n with
  | zero => rfl
  | succ n ih =>
    rw [eventsOfCalls]
    rcases l.live_or with hl | ⟨-, hover⟩ | hended
    · exact absurd hl h
    · simp [nextToken?, hover]
    · have hquiet : l.nextToken.events = [] ∧ l.nextToken.lexer = l := by
        cases hphase : l.phase with
        | scanning => exact absurd hphase hended
        | failed e => rw [nextToken_of_failed hphase]; exact ⟨rfl, rfl⟩
        | finished => rw [nextToken_of_finished hphase]; exact ⟨rfl, rfl⟩
      simp only [nextToken?_eq_some.2 ⟨overflows_of_ended hended, rfl⟩, hquiet, ih, List.append_nil]

theorem not_live_drained (l : Lexer) : ¬ l.drained.Live := by
  by_cases hl : l.Live
  · have hlt : l.nextToken.lexer.weight < l.weight := weight_nextToken_lt hl.1
    rw [drained_of_live hl]
    exact not_live_drained l.nextToken.lexer
  · rw [drained_of_not_live hl]; exact hl
termination_by l.weight

/-- The log is that of the calls made before the stream has ended. -/
theorem events_steps (l : Lexer) : l.steps.flatMap Step.events = l.calls.flatMap eventsOfCall := by
  rcases l.live_or with hl | ⟨-, hover⟩ | hended
  · have hlt : l.nextToken.lexer.weight < l.weight := weight_nextToken_lt hl.1
    have hcall : l.eventsOfCall = l.nextToken.events := by
      rw [eventsOfCall, nextToken?_eq_some.2 ⟨hl.2, rfl⟩]; rfl
    rw [steps_of_live hl, calls_of_live hl, List.flatMap_cons, List.flatMap_cons, events_steps,
      hcall]
  · have hcall : l.eventsOfCall = [] := by simp [eventsOfCall, nextToken?, hover]
    rw [steps_of_not_live (not_live_of_overflows hover), calls_of_overflows hover,
      List.flatMap_singleton, hcall]
    rfl
  · rw [steps_of_not_live (not_live_of_ended hended), calls_of_ended hended]; rfl
termination_by l.weight

theorem trace_eq (l : Lexer) (further : Nat) : l.trace further = l.steps.flatMap Step.events := by
  rw [trace, eventsOfCalls_of_not_live l.not_live_drained, List.append_nil]

/-- The groups of a stream that has ended or panics, and its failure. -/
theorem exists_groups (source : Source) (config : Config) :
    ∃ groups : List Group, (∀ g ∈ groups, g.Valid) ∧
      returned (start source config).steps = groups.flatMap Group.tokens ∧
      (start source config).steps.flatMap Step.events =
        groups.flatMap Group.events ++ failureEvents (tokenize source config) := by
  obtain ⟨visited, l, hrun, ⟨hover, hnone⟩ | ⟨hl, hsteps, hlast⟩⟩ :=
    exists_run_of_tokenize source config
  · -- Nothing is queued where a call panics.
    obtain ⟨hscan, hq, -⟩ := overflows_eq_true.1 hover
    have hgrouped := hrun.grouped hscan
    rw [hq] at hgrouped
    rw [(hrun.steps_of_overflows hover).1, events_map_nextToken, hnone]
    simpa [Grouped, failureEvents] using hgrouped
  have hrecords := records_nextToken hl
  rw [hsteps, returned_append, List.flatMap_append, events_map_nextToken, List.flatMap_singleton]
  rcases hlast with ⟨t, ht, hcontent, htokenize⟩ | ⟨e, he, htokenize⟩
  · obtain ⟨s, hmove, hresult, hlexer⟩ := exists_move hl.1
    have hempty : l.nextToken.lexer.pending = [] := by
      rw [hlexer]
      exact hmove.pending_of_endOfInput hrun.queued (hresult.symm.trans ht) hcontent
    have hgrouped := hrecords.grouped ht (hrun.grouped hl.1)
    rw [hempty] at hgrouped
    simpa [Grouped, returned_ok ht, htokenize, failureEvents] using hgrouped
  · obtain ⟨hevents, hq⟩ := hrecords.events_of_error he
    obtain ⟨groups, hvalid, htokens, hlog⟩ := hrun.grouped hl.1
    rw [hq, List.append_nil] at htokens
    rw [hq, List.map_nil, List.append_nil] at hlog
    refine ⟨groups, hvalid, ?_, ?_⟩
    · rw [returned_error he, List.append_nil, htokens]
    · rw [hlog, hevents, htokenize]; rfl

/-- **A faithful log.** Whatever calls follow the end of the stream, the log is what the calls up to
it log, and each of them that returns logs what it does. The token events are the tokens that were
returned. The changes of the blocks are the indents and dedents that were returned, in this order
and each before its token. The log falls into groups, and a failure is its last event. All this
holds of a stream that panics as well. -/
theorem trace_faithful (source : Source) (config : Config) (further : Nat) :
    let first := start source config
    let log := first.trace further
    let ts := returned first.steps
    (log = first.calls.flatMap eventsOfCall) ∧
      (∀ v ∈ first.calls, ∀ s, v.nextToken? = some s → Records v s) ∧
      (log.filterMap Event.token? = ts.map fun t => (t.kind, t.origin.offset)) ∧
      (log.filterMap Event.mark? = ts.filterMap fun t => t.kind.mark?) ∧
      (∀ p, p <+: log → p.filterMap Event.returnedMark? <+: p.filterMap Event.mark?) ∧
      ∃ groups : List Group, (∀ g ∈ groups, g.Valid) ∧ ts = groups.flatMap Group.tokens ∧
        log = groups.flatMap Group.events ++ failureEvents (tokenize source config) ∧
        ∀ e, .failure e ∉ groups.flatMap Group.events := by
  intro first log ts
  obtain ⟨groups, hvalid, htokens, hgroups⟩ := exists_groups source config
  have hlog : log = groups.flatMap Group.events ++ failureEvents (tokenize source config) :=
    (trace_eq first further).trans hgroups
  have hannounced : Announced log := by
    rw [hlog]
    exact (announced_flatMap hvalid).append (announced_failureEvents _)
  have hlast : (failureEvents (tokenize source config)).filterMap Event.token? = [] := by
    unfold failureEvents
    split <;> rfl
  have htoken : log.filterMap Event.token? = ts.map fun t => (t.kind, t.origin.offset) := by
    rw [hlog, List.filterMap_append, hlast, List.append_nil, token?_flatMap hvalid, ← htokens]
  refine ⟨(trace_eq first further).trans first.events_steps, ?_, htoken, ?_, hannounced.before,
    groups, hvalid, htokens, hlog, ?_⟩
  · intro v hv s hs
    obtain ⟨hover, rfl⟩ := nextToken?_eq_some.1 hs
    exact records_nextToken ⟨(mem_calls_iff.1 hv).1, hover⟩
  · calc log.filterMap Event.mark?
        = (log.filterMap Event.token?).filterMap fun t => t.1.mark? := by
          rw [← hannounced.settled, List.filterMap_filterMap]; rfl
      _ = ts.filterMap fun t => t.kind.mark? := by rw [htoken, List.filterMap_map]; rfl
  · intro e he
    obtain ⟨g, hg, hmem⟩ := List.mem_flatMap.1 he
    exact Group.failure_notMem (hvalid g hg) e hmem

-- The last line closes two blocks, and both are logged before either dedent.
example : (start ⟨"sample", "a\n b\n  c\nd"⟩ {}).trace 2 =
    [.token .identifier 0, .token .newline 1,
      .indent 1, .token .indent 2, .token .identifier 3, .token .newline 4,
      .indent 2, .token .indent 5, .token .identifier 7, .token .newline 8,
      .dedent 0, .dedent 0, .token .dedent 9, .token .dedent 9,
      .token .identifier 9, .token .endOfInput 10] := by
  decide +kernel

end Lexer

end Offside
