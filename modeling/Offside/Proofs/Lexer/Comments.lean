import Offside.Proofs.Lexer.Skipping

/-!
# Comments are blanks

`uncommented` overwrites every comment that the run on a source skips with as many spaces as it has
bytes. Lexed with the same settings, but without comments, the new text gives the same items at the
same offsets.

Results:
* `isEdit_uncommentFrom`: overwriting changes nothing but comments.
* `uncommentFrom_gap`, `isBlank_uncommentFrom`: a gap becomes blanks, and what follows it stays.
* `Lexer.Run.not_skips_lexeme`: nothing is skipped inside a token.
* `Lexer.uncommented_items`: comments are blanks.
-/

namespace Offside

open Text

/-- The text from the offset `n` on with spaces for its comments. A comment starts at a `#` that is
skipped and runs up to the end of the line; `inside` says that one has started. -/
def uncommentFrom (skipped : Nat → Bool) : Bool → Nat → List Char → List Char
  | _, _, [] => []
  | inside, n, c :: cs =>
    if c = '\n' then '\n' :: uncommentFrom skipped false (n + c.utf8Size) cs
    else if inside = true ∨ c = '#' ∧ skipped n = true then
      List.replicate c.utf8Size ' ' ++ uncommentFrom skipped true (n + c.utf8Size) cs
    else c :: uncommentFrom skipped false (n + c.utf8Size) cs

section

variable {skipped : Nat → Bool}

theorem byteLength_uncommentFrom (inside : Bool) (n : Nat) (cs : List Char) :
    byteLength (uncommentFrom skipped inside n cs) = byteLength cs := by
  induction cs generalizing inside n with
  | nil => rfl
  | cons c cs ih =>
    rw [uncommentFrom]
    split
    · next hc => rw [hc, byteLength_cons, byteLength_cons, ih]
    · split
      · rw [byteLength_append, byteLength_spaces, ih, byteLength_cons]
      · rw [byteLength_cons, byteLength_cons, ih]

theorem mem_of_lineFeed_mem_uncommentFrom {inside : Bool} {n : Nat} {cs : List Char}
    (h : '\n' ∈ uncommentFrom skipped inside n cs) : '\n' ∈ cs := by
  induction cs generalizing inside n with
  | nil => exact h
  | cons c cs ih =>
    rw [uncommentFrom] at h
    split at h
    · next hc => rw [hc]; exact List.mem_cons_self
    · next hc =>
      split at h
      · rcases List.mem_append.1 h with h | h
        · cases List.eq_of_mem_replicate h
        · exact List.mem_cons_of_mem c (ih h)
      · rcases List.mem_cons.1 h with h | h
        · exact absurd h.symm hc
        · exact List.mem_cons_of_mem c (ih h)

/-- Where a comment can end it does not matter whether one has started. -/
theorem uncommentFrom_append {cs : List Char} (hcs : EndsComment cs) (inside : Bool) (n : Nat)
    (a : List Char) :
    uncommentFrom skipped inside n (a ++ cs) =
      uncommentFrom skipped inside n a ++ uncommentFrom skipped false (n + byteLength a) cs := by
  induction a generalizing inside n with
  | nil =>
    cases cs with
    | nil => rfl
    | cons c cs =>
      obtain rfl : c = '\n' := by simpa [EndsComment] using hcs
      rfl
  | cons c a ih =>
    rw [List.cons_append, uncommentFrom, uncommentFrom, byteLength_cons, ← Nat.add_assoc]
    split
    · rw [ih, List.cons_append]
    · split
      · rw [ih, List.append_assoc]
      · rw [ih, List.cons_append]

theorem uncommentFrom_of_not_skipped {n : Nat} {a : List Char}
    (h : ∀ o, n ≤ o → o < n + byteLength a → skipped o = false) (cs : List Char) :
    uncommentFrom skipped false n (a ++ cs) =
      a ++ uncommentFrom skipped false (n + byteLength a) cs := by
  induction a generalizing n with
  | nil => rfl
  | cons c a ih =>
    have hpos := c.utf8Size_pos
    have hc := h n (Nat.le_refl n) (by rw [byteLength_cons]; omega)
    have hrest := ih (n := n + c.utf8Size) fun o hle hlt =>
      h o (by omega) (by rw [byteLength_cons]; omega)
    rw [List.cons_append, uncommentFrom, hc, hrest, byteLength_cons, ← Nat.add_assoc]
    split
    · next hn => rw [hn]; rfl
    · rw [if_neg (by simp)]; rfl

theorem isEdit_uncommentFrom {comments : Bool} (hcomments : comments = true)
    (skipped : Nat → Bool) : IsEdit comments skipped (uncommentFrom skipped false) where
  nil _ := rfl
  size n cs := byteLength_uncommentFrom false n cs
  token {c} n cs hc := by
    have hfeed := ne_lineFeed_of_beginsToken hc
    have hhash : c ≠ '#' := by
      rintro rfl
      simp [beginsToken, hcomments] at hc
    rw [uncommentFrom, if_neg hfeed, if_neg (by simp [hhash])]
  keep cs h := uncommentFrom_of_not_skipped h cs
  tail n cs := by
    unfold Lexeme.upToStop
    induction cs generalizing n with
    | nil => rfl
    | cons c cs ih =>
      rw [uncommentFrom]
      split
      · next hc =>
        rw [hc, List.takeWhile_cons_of_neg (by decide), List.takeWhile_cons_of_neg (by decide)]
      · split
        · next hc =>
          -- A space stops what a comment stops.
          obtain ⟨rfl, -⟩ := hc.resolve_left (by simp)
          rw [List.takeWhile_cons_of_neg (by decide)]
          exact List.takeWhile_cons_of_neg (by decide)
        · rw [List.takeWhile_cons, List.takeWhile_cons, ih]

/-! ## Gaps -/

theorem uncommentFrom_blank {c : Char} (hc : isBlank c = true) (n : Nat) (cs : List Char) :
    uncommentFrom skipped false n (c :: cs) =
      c :: uncommentFrom skipped false (n + c.utf8Size) cs := by
  have hhash : c ≠ '#' := by
    rintro rfl
    rw [isBlank_hash] at hc; cases hc
  rw [uncommentFrom]
  split
  · next hn => rw [hn]
  · rw [if_neg (by simp [hhash])]

/-- A gap and what follows it are overwritten apart. -/
theorem uncommentFrom_gap {comments : Bool} {g next : List Char} (h : IsGap comments g next)
    (n : Nat) :
    uncommentFrom skipped false n (g ++ next) =
      uncommentFrom skipped false n g ++ uncommentFrom skipped false (n + byteLength g) next := by
  induction h generalizing n with
  | nil => rfl
  | blank hc _ ih =>
    rw [List.cons_append, uncommentFrom_blank hc, uncommentFrom_blank hc, ih, byteLength_cons,
      List.cons_append, Nat.add_assoc]
  | @comment body g next _ _ hend _ ih =>
    rw [← List.cons_append, List.append_assoc, uncommentFrom_append hend, ih,
      uncommentFrom_append hend.of_append, byteLength_append, List.append_assoc, Nat.add_assoc]

theorem isBlank_inside {n : Nat} {body : List Char} (hbody : '\n' ∉ body) :
    ∀ c ∈ uncommentFrom skipped true n body, isBlank c = true := by
  induction body generalizing n with
  | nil => simp [uncommentFrom]
  | cons d body ih =>
    simp only [List.mem_cons, not_or] at hbody
    rw [uncommentFrom, if_neg (Ne.symm hbody.1), if_pos (Or.inl rfl)]
    intro c hc
    rcases List.mem_append.1 hc with hc | hc
    · rw [List.eq_of_mem_replicate hc]; decide
    · exact ih hbody.2 c hc

theorem isBlank_uncommentFrom {g next : List Char} (h : IsGap true g next) {n : Nat}
    (hskipped : ∀ o, n ≤ o → o < n + byteLength g → skipped o = true) :
    ∀ c ∈ uncommentFrom skipped false n g, isBlank c = true := by
  induction h generalizing n with
  | nil => simp [uncommentFrom]
  | @blank d g next hd _ ih =>
    have hpos := d.utf8Size_pos
    have hrest := ih (n := n + d.utf8Size) fun o hle hlt =>
      hskipped o (by omega) (by rw [byteLength_cons]; omega)
    intro c hc
    rw [uncommentFrom_blank hd] at hc
    rcases List.mem_cons.1 hc with rfl | hc
    · exact hd
    · exact hrest c hc
  | @comment body g next _ hbody hend _ ih =>
    have hsize : byteLength ('#' :: (body ++ g)) = 1 + byteLength body + byteLength g := by
      rw [byteLength_cons, byteLength_append, ← Nat.add_assoc]; rfl
    have hhash := hskipped n (Nat.le_refl n) (by rw [hsize]; omega)
    have hrest := ih (n := n + 1 + byteLength body) fun o hle hlt =>
      hskipped o (by omega) (by rw [hsize]; omega)
    have hcomment : uncommentFrom skipped false n ('#' :: (body ++ g)) =
        ' ' :: (uncommentFrom skipped true (n + 1) body ++
          uncommentFrom skipped false (n + 1 + byteLength body) g) := by
      rw [uncommentFrom, if_neg (by decide), if_pos (Or.inr ⟨rfl, hhash⟩),
        uncommentFrom_append hend.of_append]
      rfl
    intro c hc
    rw [hcomment] at hc
    rcases List.mem_cons.1 hc with rfl | hc
    · decide
    · rcases List.mem_append.1 hc with hc | hc
      · exact isBlank_inside hbody c hc
      · exact hrest c hc

theorem lastLine_uncommentFrom {comments : Bool} {g cs : List Char} {c : Char}
    (h : IsGap comments g (c :: cs)) (hc : c ≠ '\n') (n : Nat) :
    lastLine (uncommentFrom skipped false n g) = lastLine g := by
  obtain ⟨lead, hlead, hbreak, hfeed⟩ := exists_lastLine g
  generalize lastLine g = last at hlead hfeed
  subst hlead
  obtain ⟨hfirst, hlast⟩ := h.split hbreak
  have hblank := hlast.isBlank_of_notMem hc hfeed
  have hkeep : ∀ m, uncommentFrom skipped false m last = last := by
    clear hlast hfirst h hfeed
    induction last with
    | nil => exact fun _ => rfl
    | cons d last ih =>
      intro m
      rw [uncommentFrom_blank (hblank d List.mem_cons_self),
        ih fun x hx => hblank x (List.mem_cons_of_mem d hx)]
  have hbreak' : AtBreak (uncommentFrom skipped false n lead) := by
    rcases hbreak with rfl | hbreak
    · exact Or.inl rfl
    · obtain ⟨front, rfl⟩ := List.getLast?_eq_some_iff.1 hbreak
      rw [uncommentFrom_append (Or.inr rfl)]
      exact atBreak_snoc _
  rw [uncommentFrom_gap (hfirst.of_break hbreak last), hkeep, hbreak'.lastLine_of_notMem hfeed]

end

namespace Lexer

/-! ## Overwriting comments -/

/-- Is the character at this offset skipped? -/
def isSkipped (l : Lexer) : Nat → Bool := l.skipsAt fun _ => true

/-- The source with spaces for every comment that its run skips. -/
def uncommented (source : Source) (config : Config) : Source :=
  source.edit (uncommentFrom (start source config).isSkipped false 0)

section

variable {source : Source} {config : Config} {visited : List Lexer} {l l' : Lexer}

/-- A gap with its comments overwritten is one for a lexer without comments. -/
theorem keepsGap_of_uncomment (hcomments : config.comments = true)
    (h : Run (start source config) visited l) (hl : l.phase = .scanning) (hq : l.pending = [])
    (hskips : l'.skipsLines = l.skipsLines) :
    KeepsGap (uncommentFrom (start source config).isSkipped false) l l'
      (uncommentFrom (start source config).isSkipped false l.cursor.offset l.skipped) := by
  have hconfig : l.config = config := h.config
  obtain ⟨-, hgap, hstop⟩ := l.settled_spec
  rw [hconfig, hcomments] at hgap hstop
  refine ⟨uncommentFrom_gap hgap _, ?_, ?_, ?_, ?_⟩
  · refine .of_isBlank (isBlank_uncommentFrom hgap fun o hle hlt => ?_) _
    exact h.skipsAt_eq hl (skips_iff.2 ⟨hq, hle, hlt⟩) _
  · rw [hskips]; exact hstop.of_comments
  · intro hjoins hfeed
    exact lineFeed_notMem_skipped (hskips ▸ hjoins) (mem_of_lineFeed_mem_uncommentFrom hfeed)
  · intro hs hne
    obtain ⟨c, cs, hr⟩ := List.exists_cons_of_ne_nil hne
    have hc : c ≠ '\n' := by
      rintro rfl
      have hskips := skipsLines_of_feed hr
      simp [skipsLines, hs] at hskips
    rw [hr] at hgap
    exact lastLine_uncommentFrom hgap hc _

/-- Nothing is skipped from where a visible token starts to where the call that returns it stops. -/
theorem Run.not_skips_lexeme (h : Run (start source config) visited l) (hl : l.phase = .scanning)
    {t : Token} (ht : l.nextToken.result = .ok t) (hvisible : t.content.isVisible = true)
    {offset : Nat} (hle : t.origin.offset ≤ offset)
    (hlt : offset < l.nextToken.lexer.cursor.offset) :
    (start source config).isSkipped offset = false := by
  have hplace := h.origin_offset.1
  have horigin : t.origin = l.source.origin l.settled.cursor.offset := by
    obtain ⟨s, hmove, hresult, -⟩ := exists_move hl
    rw [hresult] at ht
    cases hmove with
    | token => cases ht; rfl
    | @dequeue _ _ hq =>
      cases ht
      rcases h.pending_layout t (by rw [hq]; exact List.mem_cons_self) with hc | hc <;>
        rw [hc] at hvisible <;> cases hvisible
    | indent | dedent | newline | unwind | finish => cases ht; cases hvisible
    | badIndent | fail => cases ht
  rw [horigin, hplace] at hle
  cases hskipped : (start source config).isSkipped offset with
  | false => rfl
  | true =>
    obtain ⟨v, hv, hskips⟩ := exists_of_skipsAt hskipped
    exact absurd hskips (h.not_skips hl hle (fun _ => hlt) v hv)

end

/-- **Comments are blanks.** Overwritten by spaces, the comments of a text can be turned off: unless
a width leaves the words, the items and their offsets stay. No comment starts inside a token, be it
a string with a `#` in it: nothing is skipped from its start to its end. -/
theorem uncommented_items (source : Source) {config : Config} (hcomments : config.comments = true)
    (hpanics : (start source config).panics = false)
    (hpanics' :
      (start (uncommented source config) { config with comments := false }).panics = false) :
    (start (uncommented source config) { config with comments := false }).items.map placed =
        (start source config).items.map placed ∧
      ∀ visited l t, Run (start source config) visited l → l.Live →
        l.nextToken.result = .ok t → t.content.isVisible = true →
        ∀ offset, t.origin.offset ≤ offset → offset < l.nextToken.lexer.cursor.offset →
          (start source config).isSkipped offset = false := by
  have hsame : (start (uncommented source config) { config with comments := false }).items.map
        placed = (start source config).items.map placed ∧
      (start (uncommented source config) { config with comments := false }).panics =
        (start source config).panics := by
    refine items_of_edit (isEdit_uncommentFrom hcomments (start source config).isSkipped)
      (fun _ => exists_of_skipsAt) rfl
      (fun hrun hl hrun' hl' _ => overflows_eq_of_panics hpanics hpanics' hrun hl hrun' hl') ?_
    intro visited l l' hrun hl hq hconfig' hstart hdepth
    have hconfig : l.config = config := hrun.config
    have hskips : l'.skipsLines = l.skipsLines := by
      unfold skipsLines
      rw [hstart, hconfig, hconfig']
      cases hj : config.joinsLines with
      | false => rfl
      | true => rw [hdepth hj]
    exact ⟨_, keepsGap_of_uncomment hcomments hrun hl hq hskips⟩
  refine ⟨hsame.1, ?_⟩
  intro visited l t hrun hl ht hvisible offset
  exact hrun.not_skips_lexeme hl.1 ht hvisible

/-- Comments after a token, on a line of their own and inside brackets, and a `#` in a string. -/
def hashSample : Source := ⟨"sample", "a #é\n  # b\n\t('#' # \"\n) #"⟩

theorem uncommented_items_hashSample :
    (uncommented hashSample {}).text = "a    \n     \n\t('#'    \n)  " ∧
      (start (uncommented hashSample {}) ⟨8, true, false⟩).items.map placed =
        (start hashSample {}).items.map placed :=
  ⟨by decide +kernel,
    (uncommented_items hashSample rfl (by decide +kernel) (by decide +kernel)).1⟩

end Lexer

end Offside
