import Offside.Proofs.Lexer.Grammar
import Offside.Proofs.Lexer.Skipping

/-!
# Lines joined inside brackets

If brackets join lines, a line feed inside them is skipped. `flattened` writes a space for each of
these line feeds. Lexed with the same settings, but with brackets that do not join lines, the
flattened text gives the same items at the same offsets.

Results:
* `isEdit_flattenFrom`: flattening changes nothing but the line feeds that are joined.
* `Lexer.Run.depth_eq`: the depth of a lexer counts the brackets of the tokens returned so far.
* `Lexer.flattened_items`: joining lines is flattening.
-/

namespace Offside

open Text

/-- The text from the offset `n` on with a space for every line feed at an offset that is joined. -/
def flattenFrom (joined : Nat → Bool) : Nat → List Char → List Char
  | _, [] => []
  | n, c :: cs =>
    (if c = '\n' ∧ joined n = true then ' ' else c) :: flattenFrom joined (n + c.utf8Size) cs

section

variable {joined : Nat → Bool}

theorem flattenFrom_append (n : Nat) (a cs : List Char) :
    flattenFrom joined n (a ++ cs) =
      flattenFrom joined n a ++ flattenFrom joined (n + byteLength a) cs := by
  induction a generalizing n with
  | nil => rfl
  | cons c a ih =>
    rw [List.cons_append, flattenFrom, flattenFrom, ih, List.cons_append, byteLength_cons,
      Nat.add_assoc]

theorem flattenFrom_of_not_joined {n : Nat} {a : List Char}
    (h : ∀ o, n ≤ o → o < n + byteLength a → joined o = false) : flattenFrom joined n a = a := by
  induction a generalizing n with
  | nil => rfl
  | cons c a ih =>
    have hpos := c.utf8Size_pos
    have hc := h n (Nat.le_refl n) (by rw [byteLength_cons]; omega)
    rw [flattenFrom, hc, if_neg (by simp), ih]
    intro o hle hlt
    exact h o (by omega) (by rw [byteLength_cons]; omega)

/-- Where all is joined no line feed is left, and only spaces are new. -/
theorem mem_flattenFrom_of_joined {n : Nat} {a : List Char}
    (h : ∀ o, n ≤ o → o < n + byteLength a → joined o = true) {d : Char}
    (hd : d ∈ flattenFrom joined n a) : d ≠ '\n' ∧ (d = ' ' ∨ d ∈ a) := by
  induction a generalizing n with
  | nil => cases hd
  | cons c a ih =>
    have hpos := c.utf8Size_pos
    have hc := h n (Nat.le_refl n) (by rw [byteLength_cons]; omega)
    rw [flattenFrom] at hd
    rcases List.mem_cons.1 hd with rfl | hd
    · split
      · exact ⟨by decide, Or.inl rfl⟩
      · next hn => exact ⟨fun hfeed => hn ⟨hfeed, hc⟩, Or.inr List.mem_cons_self⟩
    · have hrest : ∀ o, n + c.utf8Size ≤ o → o < n + c.utf8Size + byteLength a → joined o = true :=
        fun o hle hlt => h o (by omega) (by rw [byteLength_cons]; omega)
      obtain ⟨hfeed, hmem⟩ := ih hrest hd
      exact ⟨hfeed, hmem.imp id (List.mem_cons_of_mem c)⟩

theorem isEdit_flattenFrom (comments : Bool) (joined : Nat → Bool) :
    IsEdit comments joined (flattenFrom joined) where
  nil _ := rfl
  size n cs := by
    induction cs generalizing n with
    | nil => rfl
    | cons c cs ih =>
      rw [flattenFrom, byteLength_cons, byteLength_cons, ih]
      split
      · next h => rw [h.1]; rfl
      · rfl
  token n cs hc := by
    rw [flattenFrom, if_neg fun h => ne_lineFeed_of_beginsToken hc h.1]
  keep cs h := by rw [flattenFrom_append, flattenFrom_of_not_joined h]
  tail n cs := by
    unfold Lexeme.upToStop
    induction cs generalizing n with
    | nil => rfl
    | cons c cs ih =>
      rw [flattenFrom]
      split
      · next h =>
        -- A space stops what a line feed stops.
        rw [h.1, List.takeWhile_cons_of_neg (by decide), List.takeWhile_cons_of_neg (by decide)]
      · rw [List.takeWhile_cons, List.takeWhile_cons, ih]

end

namespace Lexer

/-! ## Depth -/

/-- A token changes the depth by its bracket, an error leaves it. -/
theorem Move.depth_eq {l : Lexer} {s : Step} (h : Move l s)
    (hq : ∀ t ∈ l.pending, t.content = .dedent ∨ t.content = .endOfInput) :
    s.lexer.depth = (returned [s]).foldl bracketStep l.depth := by
  have hlayout : ∀ {t : Token}, s.result = .ok t → t.content.isVisible = false →
      (returned [s]).foldl bracketStep l.depth = l.depth := by
    intro t ht hvisible
    rw [returned_ok ht]
    exact bracketStep_of_layout hvisible
  cases h with
  | @dequeue t queue hq' =>
    refine (hlayout rfl ?_).symm
    rcases hq t (by rw [hq']; exact List.mem_cons_self) with hc | hc <;> rw [hc] <;> rfl
  | @token _ _ content =>
    rw [returned_ok rfl]
    exact depthAfter_content l.depth ⟨content, l.source.origin l.settled.cursor.offset⟩
  | indent | dedent | newline | unwind | finish => exact (hlayout rfl rfl).symm
  | badIndent | fail => rfl

theorem Run.depth_eq {source : Source} {config : Config} {visited : List Lexer} {l : Lexer}
    (h : Run (start source config) visited l) :
    l.depth = bracketDepth (returned (visited.map nextToken)) := by
  induction h with
  | nil => rfl
  | @snoc visited m hrun hm ih =>
    obtain ⟨s, hmove, hresult, hlexer⟩ := exists_move hm.1
    have hreturned : returned [m.nextToken] = returned [s] := by
      simp only [returned, hresult, List.filterMap_cons, List.filterMap_nil]
    have hdepth := hmove.depth_eq hrun.pending_layout
    rw [List.map_append, returned_append, List.map_singleton, hreturned, bracketDepth,
      List.foldl_append, ← bracketDepth, ← ih, hlexer]
    exact hdepth

/-! ## Flattening -/

/-- Is the character at this offset skipped while a bracket is open? -/
def joinsAt (l : Lexer) : Nat → Bool := l.skipsAt fun v => 0 < v.depth

/-- The source with a space for every line feed that its run skips inside brackets. -/
def flattened (source : Source) (config : Config) : Source :=
  source.edit (flattenFrom (start source config).joinsAt 0)

section

variable {source : Source} {config : Config} {visited : List Lexer} {l l' : Lexer}

theorem keepsGap_of_outside (hcomments : config.comments = false)
    (h : Run (start source config) visited l) (hl : l.phase = .scanning) (hq : l.pending = [])
    (hconfig' : l'.config = { config with joinsLines := false })
    (hstart : l'.atLineStart = l.atLineStart) (hdepth : ¬ 0 < l.depth) :
    KeepsGap (flattenFrom (start source config).joinsAt) l l' l.skipped := by
  have hconfig : l.config = config := h.config
  obtain ⟨-, hgap, hstop⟩ := l.settled_spec
  rw [hconfig, hcomments] at hgap hstop
  have hcomments' : l'.config.comments = false := by rw [hconfig']; exact hcomments
  have hskips : l.skipsLines = l.atLineStart := by simp [skipsLines, hdepth]
  have hskips' : l'.skipsLines = l.skipsLines := by simp [skipsLines, hconfig', hstart, hdepth]
  refine ⟨?_, ?_, ?_, ?_, fun _ _ => rfl⟩
  · refine (isEdit_flattenFrom config.comments _).keep _ fun o hle hlt => ?_
    exact (h.skipsAt_eq hl (skips_iff.2 ⟨hq, hle, hlt⟩) _).trans (decide_eq_false hdepth)
  · rw [hcomments']; exact hgap
  · rw [hcomments', hskips']; exact hstop
  · rw [hskips']; exact lineFeed_notMem_skipped

/-- A flattened gap is one for a lexer whose brackets do not join lines. -/
theorem keepsGap_of_flatten (hcomments : config.comments = false)
    (hjoins : config.joinsLines = true) (h : Run (start source config) visited l)
    (hl : l.phase = .scanning) (hq : l.pending = [])
    (hconfig' : l'.config = { config with joinsLines := false })
    (hstart : l'.atLineStart = l.atLineStart) :
    ∃ g, KeepsGap (flattenFrom (start source config).joinsAt) l l' g := by
  have hconfig : l.config = config := h.config
  obtain ⟨-, hgap, hstop⟩ := l.settled_spec
  rw [hconfig, hcomments] at hgap hstop
  have hcomments' : l'.config.comments = false := by rw [hconfig']; exact hcomments
  have hown : ∀ o, l.cursor.offset ≤ o → o < l.cursor.offset + byteLength l.skipped →
      (start source config).joinsAt o = decide (0 < l.depth) := fun o hle hlt =>
    h.skipsAt_eq hl (skips_iff.2 ⟨hq, hle, hlt⟩) _
  by_cases hdepth : 0 < l.depth
  · -- Inside brackets: all line feeds of the gap become spaces.
    have hs : l.atLineStart = false := by
      cases hs : l.atLineStart with
      | false => rfl
      | true =>
        obtain ⟨-, -, -, hjoined⟩ := h.lineStart hs
        simp [hconfig, hjoins, hdepth] at hjoined
    have hskips : l.skipsLines = true := by simp [skipsLines, hconfig, hjoins, hdepth]
    have hmem : ∀ {d}, d ∈ flattenFrom (start source config).joinsAt l.cursor.offset l.skipped →
        d ≠ '\n' ∧ (d = ' ' ∨ d ∈ l.skipped) :=
      mem_flattenFrom_of_joined fun o hle hlt => by rw [hown o hle hlt, decide_eq_true hdepth]
    have hblank : ∀ d ∈ flattenFrom (start source config).joinsAt l.cursor.offset l.skipped,
        isBlank d = true := by
      intro d hd
      rcases (hmem hd).2 with rfl | hd
      · decide
      · exact hgap.isBlank_of_noComments d hd
    refine ⟨_, flattenFrom_append _ _ _, ?_, ?_, fun _ hfeed => (hmem hfeed).1 rfl, ?_⟩
    · exact .of_isBlank hblank _
    · rw [hcomments']; exact (hskips ▸ hstop).of_joins
    · simp [hs]
  · exact ⟨_, keepsGap_of_outside hcomments h hl hq hconfig' hstart hdepth⟩

theorem Run.depth_of_lineStart (hjoins : config.joinsLines = true)
    (h : Run (start source config) visited l) (hs : l.atLineStart = true) : l.depth = 0 := by
  obtain ⟨-, -, -, hjoined⟩ := h.lineStart hs
  have hconfig : l.config = config := h.config
  simpa [hconfig, hjoins] using hjoined

/-- The same lines are measured in the flattened text. -/
theorem overflows_of_flatten (hcomments : config.comments = false)
    (hjoins : config.joinsLines = true) {visited' : List Lexer}
    (h : Run (start source config) visited l) (hl : l.phase = .scanning)
    (h' : Run (start (flattened source config) { config with joinsLines := false }) visited' l')
    (hl' : l'.phase = .scanning)
    (htwins : Twins (.moved fun o o' => o'.offset = o.offset)
      (Edits (flattenFrom (start source config).joinsAt)) l l') :
    l'.overflows = l.overflows := by
  have hconfig : l.config = config := h.config
  have hconfig' : l'.config = { config with joinsLines := false } := h'.config
  refine htwins.overflows_eq (hl'.trans hl.symm) (by rw [hconfig, hconfig']; rfl) fun hq hs => ?_
  have hdepth : ¬ 0 < l.depth := by rw [h.depth_of_lineStart hjoins hs]; exact Nat.lt_irrefl 0
  have hkeeps := keepsGap_of_outside hcomments h hl hq hconfig' htwins.lineStart hdepth
  exact (hkeeps.settled (isEdit_flattenFrom config.comments _) (fun _ => exists_of_skipsAt) h hl hq
    htwins.cursor).1

end

/-- **Joining lines is flattening.** Without comments and with brackets that join lines, a text
gives the same items at the same offsets as its flattened text does with brackets that do not join
lines, and panics if and only if that does. In every state of the run the depth counts the brackets
of the tokens returned so far, and it is 0 when a line is measured. -/
theorem flattened_items (source : Source) {config : Config} (hcomments : config.comments = false)
    (hjoins : config.joinsLines = true) :
    (start (flattened source config) { config with joinsLines := false }).items.map placed =
        (start source config).items.map placed ∧
      (start (flattened source config) { config with joinsLines := false }).panics =
        (start source config).panics ∧
      ∀ visited l, Run (start source config) visited l →
        l.depth = bracketDepth (returned (visited.map nextToken)) ∧
          ∀ line, l.measured? = some line → l.depth = 0 := by
  rw [← and_assoc]
  refine ⟨items_of_edit (isEdit_flattenFrom config.comments (start source config).joinsAt)
    (fun _ => exists_of_skipsAt) rfl (overflows_of_flatten hcomments hjoins) ?_, ?_⟩
  · intro visited l l' hrun hl hq hconfig' hstart _
    exact keepsGap_of_flatten hcomments hjoins hrun hl hq hconfig' hstart
  intro visited l hrun
  refine ⟨hrun.depth_eq, ?_⟩
  intro line hline
  obtain ⟨-, -, hs, -⟩ := measured?_eq_some.1 hline
  exact hrun.depth_of_lineStart hjoins hs

/-- Line feeds inside brackets, with a bracket too many before them, and at last a string that is
not closed. -/
def bracketSample : Source := ⟨"sample", "a)(\n  [b,\n\tc\n] )\n  d(\ne \"f\n"⟩

/-- Comments are off. -/
def plainConfig : Config := ⟨4, true, false⟩

theorem flattened_items_bracketSample :
    (flattened bracketSample plainConfig).text = "a)(   [b, \tc ] )\n  d( e \"f\n" ∧
      (start (flattened bracketSample plainConfig) ⟨4, false, false⟩).items.map placed =
        (start bracketSample plainConfig).items.map placed :=
  ⟨by decide +kernel, (flattened_items bracketSample rfl rfl).1⟩

end Lexer

end Offside
