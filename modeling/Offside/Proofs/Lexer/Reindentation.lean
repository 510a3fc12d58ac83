import Mathlib.Order.WellFounded
import Offside.Proofs.Lexer.Locality
import Offside.Proofs.Lexer.Lockstep

/-!
# Reindenting a text

`reindent f config` writes every line of a text anew with `f w` spaces in place of an indentation of
width `w`. If `f` is strictly increasing and keeps 0, the lexer returns the same contents as before:
blocks only compare widths.

Inside a line the rest of it stays as it is and only the lines after it change, which is
`reindentRest`. A lexer reads `reindent` of what its twin reads at a line start, and `reindentRest`
of it elsewhere.

Results:
* `reindent_append`, `isGap_reindent`: a gap, reindented, is a gap before the same token.
* `Lexer.meets_of_reindents`: the two lexers find the same token, at corresponding widths.
* `Lexer.reindented_items`: the two streams.
-/

namespace Offside

open Text

/-- A line with `f w` spaces for its indentation of width `w`. -/
def reindentLine (f : Nat → Nat) (config : Config) (line : List Char) : List Char :=
  List.replicate (f (config.columns (indentation line))) ' ' ++ line.dropWhile isBlank

/-- A text with all its lines reindented. -/
def reindent (f : Nat → Nat) (config : Config) (cs : List Char) : List Char :=
  ['\n'].intercalate ((cs.splitOn '\n').map (reindentLine f config))

/-- A text with all its lines but the first reindented. -/
def reindentRest (f : Nat → Nat) (config : Config) : List Char → List Char
  | [] => []
  | c :: cs => if c = '\n' then '\n' :: reindent f config cs else c :: reindentRest f config cs

/-! ## Reindented texts -/

section

variable {f : Nat → Nat} {config : Config}

theorem reindent_last {a : List Char} (ha : '\n' ∉ a) :
    reindent f config a = reindentLine f config a := by
  rw [reindent, List.splitOn_eq_singleton ha, List.map_singleton, List.intercalate_singleton]

theorem reindent_line {a : List Char} (ha : '\n' ∉ a) (cs : List Char) :
    reindent f config (a ++ '\n' :: cs) =
      reindentLine f config a ++ '\n' :: reindent f config cs := by
  have hne : (cs.splitOn '\n').map (reindentLine f config) ≠ [] := by
    simp [List.splitOn_ne_nil]
  rw [reindent, List.splitOn_append_cons_self_of_not_mem ha, List.map_cons,
    List.intercalate_cons_of_ne_nil hne, List.append_assoc]
  rfl

theorem reindentRest_of_notMem {a : List Char} (ha : '\n' ∉ a) (cs : List Char) :
    reindentRest f config (a ++ cs) = a ++ reindentRest f config cs := by
  induction a with
  | nil => rfl
  | cons c a ih =>
    simp only [List.mem_cons, not_or] at ha
    rw [List.cons_append, reindentRest, if_neg (Ne.symm ha.1), ih ha.2, List.cons_append]

theorem reindentRest_line {a : List Char} (ha : '\n' ∉ a) (cs : List Char) :
    reindentRest f config (a ++ '\n' :: cs) = a ++ '\n' :: reindent f config cs := by
  rw [reindentRest_of_notMem ha, reindentRest, if_pos rfl]

theorem reindentRest_last {a : List Char} (ha : '\n' ∉ a) : reindentRest f config a = a := by
  have h : reindentRest f config (a ++ []) = a ++ [] := reindentRest_of_notMem ha []
  rwa [List.append_nil] at h

theorem head?_reindentRest (f : Nat → Nat) (config : Config) (cs : List Char) :
    (reindentRest f config cs).head? = cs.head? := by
  cases cs with
  | nil => rfl
  | cons c cs =>
    rw [reindentRest]
    split
    · next h => rw [h]; rfl
    · rfl

theorem firstLine_reindentRest (f : Nat → Nat) (config : Config) (cs : List Char) :
    firstLine (reindentRest f config cs) = firstLine cs := by
  induction cs using lines_induction with
  | last a ha => rw [reindentRest_last ha]
  | line a cs ha _ => rw [reindentRest_line ha, firstLine_append ha, firstLine_append ha]; rfl

theorem reindentLine_append {n : List Char} (hn : IsSolid n) (a : List Char) :
    reindentLine f config (a ++ n) = reindentLine f config a ++ n := by
  have hdrop : (a ++ n).dropWhile isBlank = a.dropWhile isBlank ++ n := by
    rw [List.dropWhile_append, hn.dropWhile_isBlank]
    split
    · next h => rw [List.isEmpty_iff.1 h, List.nil_append]
    · rfl
  rw [reindentLine, indentation_append hn, hdrop, reindentLine, List.append_assoc]

/-- Reindenting goes through a text and stops changing the line that a token starts. -/
theorem reindent_append {next : List Char} (hnext : IsSolid next) (g : List Char) :
    reindent f config (g ++ next) = reindent f config g ++ reindentRest f config next := by
  induction g using lines_induction with
  | line a cs ha ih =>
    rw [List.append_assoc, List.cons_append, reindent_line ha, reindent_line ha, ih,
      List.append_assoc, List.cons_append]
  | last a ha =>
    induction next using lines_induction with
    | last n hn =>
      have hfeed : '\n' ∉ a ++ n := by simp [ha, hn]
      rw [reindent_last hfeed, reindentLine_append hnext, reindent_last ha, reindentRest_last hn]
    | line n cs hn _ =>
      have hfeed : '\n' ∉ a ++ n := by simp [ha, hn]
      have hsolid : IsSolid n := by
        rintro c hc
        exact hnext c (by rw [List.head?_append, hc]; rfl)
      rw [← List.append_assoc, reindent_line hfeed, reindentLine_append hsolid, reindent_last ha,
        reindentRest_line hn, List.append_assoc]

theorem reindentRest_append {next : List Char} (hnext : IsSolid next) (g : List Char) :
    reindentRest f config (g ++ next) = reindentRest f config g ++ reindentRest f config next := by
  induction g with
  | nil => rfl
  | cons c g ih =>
    rw [List.cons_append, reindentRest, reindentRest, reindent_append hnext, ih]
    split <;> rfl

theorem lineFeed_notMem_reindentLine {a : List Char} (ha : '\n' ∉ a) :
    '\n' ∉ reindentLine f config a := by
  simp only [reindentLine, List.mem_append, List.mem_replicate, not_or]
  exact ⟨by simp, fun h => ha ((List.dropWhile_sublist _).mem h)⟩

theorem lastLine_reindent (g : List Char) :
    lastLine (reindent f config g) = reindentLine f config (lastLine g) := by
  induction g using lines_induction with
  | last a ha =>
    rw [reindent_last ha, lastLine_of_notMem ha,
      lastLine_of_notMem (lineFeed_notMem_reindentLine ha)]
  | line a cs ha ih =>
    rw [reindent_line ha, List.append_cons, (atBreak_snoc _).lastLine_append, ih, List.append_cons,
      (atBreak_snoc _).lastLine_append]

theorem reindentLine_of_isBlank {a : List Char} (ha : ∀ c ∈ a, isBlank c = true) :
    reindentLine f config a = List.replicate (f (config.columns a)) ' ' := by
  have hdrop : a.dropWhile isBlank = [] := List.dropWhile_eq_nil_iff.2 ha
  rw [reindentLine, indentation_of_isBlank ha, hdrop, List.append_nil]

/-- **Gaps.** A gap stays one, with or without its first line. -/
theorem isGap_reindent {comments : Bool} {g next : List Char} (h : IsGap comments g next) :
    IsGap comments (reindent f config g) next ∧ IsGap comments (reindentRest f config g) next := by
  have hline : ∀ {a next : List Char}, IsGap comments a next →
      IsGap comments (reindentLine f config a) next := fun h =>
    h.dropWhile_isBlank.blanks_append fun c hc => by rw [List.eq_of_mem_replicate hc]; decide
  induction g using lines_induction with
  | last a ha => rw [reindent_last ha, reindentRest_last ha]; exact ⟨hline h, h⟩
  | line a cs ha ih =>
    rw [List.append_cons] at h
    obtain ⟨hfirst, hrest⟩ := h.split (atBreak_snoc a)
    -- The lines after the first are a gap, and a line feed ends the first.
    have htail := IsGap.blank isBlank_lineFeed (ih hrest).1
    have hjoin : ∀ {b : List Char}, IsGap comments b ('\n' :: (cs ++ next)) →
        IsGap comments (b ++ '\n' :: reindent f config cs) next := by
      intro b hb
      have hb' : IsGap comments b ('\n' :: reindent f config cs ++ next) := hb.of_head rfl
      exact hb'.append htail
    rw [reindent_line ha, reindentRest_line ha]
    exact ⟨hjoin (hline hfirst.init), hjoin hfirst.init⟩

end

/-! ## Widths -/

theorem Config.columns_spaces (config : Config) (n : Nat) :
    config.columns (List.replicate n ' ') = n := by
  induction n with
  | zero => rfl
  | succ n ih =>
    unfold Config.columns at ih ⊢
    rw [List.replicate_succ', List.foldl_append, ih]
    simp [Config.column]

namespace Lexer

variable {f : Nat → Nat} {source : Source} {config : Config}

/-- Before a token the last line that a scan skips is blank. -/
theorem isBlank_lastLine_skipped {l : Lexer} {c : Char} {cs : List Char}
    (hr : l.settled.cursor.rest = c :: cs) (hc : c ≠ '\n') :
    ∀ x ∈ lastLine l.skipped, isBlank x = true := by
  obtain ⟨-, hgap, -⟩ := l.settled_spec
  obtain ⟨lead, hlead, hbreak, hfeed⟩ := exists_lastLine l.skipped
  rw [hr, hlead] at hgap
  exact (hgap.split hbreak).2.isBlank_of_notMem hc hfeed

/-- The cursors of two lexers, one of which reads a reindented text. -/
def Reindents (f : Nat → Nat) (config : Config) (atLineStart : Bool) (cursor cursor' : Cursor) :
    Prop :=
  cursor'.rest =
    if atLineStart then reindent f config cursor.rest else reindentRest f config cursor.rest

theorem settled_of_reindents {l l' : Lexer} (hconfig : l'.config = l.config)
    (hskips : l'.skipsLines = l.skipsLines)
    (h : Reindents f config l.atLineStart l.cursor l'.cursor) :
    l'.settled.cursor.rest = reindentRest f config l.settled.cursor.rest ∧
      (l.atLineStart = true → l'.skipped = reindent f config l.skipped) := by
  obtain ⟨hrest, hgap, hstop⟩ := l.settled_spec
  have hhead := head?_reindentRest f config l.settled.cursor.rest
  have hgap' := hgap.of_head hhead.symm
  have hstop' := hstop.of_head hhead
  rw [← hconfig] at hgap' hstop'
  rw [← hskips] at hstop'
  unfold Reindents at h
  cases hs : l.atLineStart with
  | true =>
    have hjoins : l.skipsLines = true := by simp [skipsLines, hs]
    have hsolid := (hjoins ▸ hstop).isSolid
    rw [hs, if_pos rfl, hrest, reindent_append hsolid] at h
    obtain ⟨hskip, hset⟩ := settled_of_gap h (isGap_reindent hgap').1 hstop'
      (by simp [hskips, hjoins])
    rw [hset, hskip]
    exact ⟨rfl, fun _ => rfl⟩
  | false =>
    rw [hs, if_neg (by simp), hrest] at h
    simp only [Bool.false_eq_true, false_implies, and_true]
    cases hjoins : l.skipsLines with
    | true =>
      have hsolid := (hjoins ▸ hstop).isSolid
      rw [reindentRest_append hsolid] at h
      obtain ⟨-, hset⟩ := settled_of_gap h (isGap_reindent hgap').2 hstop'
        (by simp [hskips, hjoins])
      rw [hset]
    | false =>
      have hfeed := lineFeed_notMem_skipped hjoins
      rw [reindentRest_of_notMem hfeed] at h
      obtain ⟨-, hset⟩ := settled_of_gap h hgap' hstop' fun _ => hfeed
      rw [hset]

/-- Widths are renamed, and places do not matter. -/
def renamesWidths (hf : StrictMono f) (h0 : f 0 = 0) : Likeness where
  width := f
  strictMono := hf
  width_zero := h0
  origin := fun _ _ => True

theorem meets_of_reindents (hf : StrictMono f) (h0 : f 0 = 0)
    {visited : List Lexer} {l l' : Lexer} (hrun : Run (start source config) visited l)
    (hconfig' : l'.config = config)
    (htwins : Twins (renamesWidths hf h0) (Reindents f config) l l') :
    Meets (renamesWidths hf h0) (Reindents f config) l l' := by
  have hconfig : l.config = config := hrun.config
  have hskips := htwins.skipsLines_eq (by rw [hconfig, hconfig'])
  obtain ⟨hset, hskip⟩ := settled_of_reindents (hconfig'.trans hconfig.symm) hskips htwins.cursor
  cases hr : l.settled.cursor.rest with
  | nil =>
    rw [hr] at hset
    exact .atEnd hr hset trivial trivial (by simp [Reindents, hr, hset])
  | cons c cs =>
    have htext : Reindents f config false l.settled.cursor l'.settled.cursor := hset
    rw [hr, reindentRest] at hset
    by_cases hc : c = '\n'
    · subst hc
      rw [if_pos rfl] at hset
      exact .newline hr hset trivial (by simp [Reindents, Cursor.advance, hr, hset])
    · rw [if_neg hc] at hset
      have hread := Lexeme.read_congr_line (c := c) (firstLine_reindentRest f config cs)
      refine .token hr hset hc trivial ?_ htext fun _ => ⟨by rw [hread], ?_⟩
      · intro hs
        have hblank := isBlank_lastLine_skipped hr hc
        refine ⟨?_, trivial⟩
        show _ = f _
        rw [hskip hs, lastLine_reindent, reindentLine_of_isBlank hblank, hconfig', hconfig,
          Config.columns_spaces]
      · intro content _
        obtain ⟨rest, hrest⟩ := Lexeme.read_isPrefix c cs
        have hfeed := Lexeme.lineFeed_notMem_read hc cs
        have hrest' : c :: reindentRest f config cs =
            (Lexeme.read c cs).text ++ reindentRest f config rest := by
          rw [← reindentRest_of_notMem hfeed, hrest, reindentRest, if_neg hc]
        rw [hread]
        show (l'.settled.cursor.advance _).rest = reindentRest f config _
        rw [Cursor.rest_advance (hset.trans hrest'), Cursor.rest_advance (hr.trans hrest.symm)]

/-- The lines of a reindented text are indented by spaces. -/
theorem indentation_of_reindent {cs line : List Char}
    (h : line ∈ (reindent f config cs).splitOn '\n') :
    ∃ old ∈ cs.splitOn '\n',
      indentation line = List.replicate (f (config.columns (indentation old))) ' ' := by
  have hlines : (reindent f config cs).splitOn '\n' =
      (cs.splitOn '\n').map (reindentLine f config) := by
    refine List.splitOn_intercalate '\n' ?_ (by simp [List.splitOn_ne_nil])
    intro line hline
    obtain ⟨old, hold, rfl⟩ := List.mem_map.1 hline
    obtain ⟨-, -, -, -, hfeed, -⟩ := exists_of_mem_lines hold
    exact lineFeed_notMem_reindentLine hfeed
  rw [hlines] at h
  obtain ⟨old, hold, rfl⟩ := List.mem_map.1 h
  refine ⟨old, hold, ?_⟩
  have hsolid : IsSolid (old.dropWhile isBlank) := by
    intro c hc
    have hnot := List.head?_dropWhile_not isBlank old
    rw [hc] at hnot
    exact hnot
  rw [reindentLine, indentation_append hsolid]
  refine indentation_of_isBlank fun c hc => ?_
  rw [List.eq_of_mem_replicate hc]; decide

/-- **Block structure depends only on the order of the widths.** Let `f` be strictly increasing with
`f 0 = 0`, and no line of the source be so wide that its new width does not fit in a word. With
every indentation of width `w` made `f w` spaces, the lexer returns the same contents in the same
order and fails if and only if it failed, for the same cause, a misaligned width renamed. Neither
run panics. -/
theorem reindented_items (source : Source) (config : Config) {f : Nat → Nat} (hf : StrictMono f)
    (h0 : f 0 = 0)
    (hfits : ∀ line ∈ source.chars.splitOn '\n',
      f (config.columns (indentation line)) < UInt64.size) :
    (start (source.edit (reindent f config)) config).items.map bare =
        (start source config).items.map (fun item => (bare item).mapError (·.mapWidth f)) ∧
      (start source config).panics = false ∧
      (start (source.edit (reindent f config)) config).panics = false := by
  have hpanics : (start source config).panics = false :=
    not_panics_of_fits fun line hline => Nat.lt_of_le_of_lt hf.le_apply (hfits line hline)
  have hpanics' : (start (source.edit (reindent f config)) config).panics = false := by
    refine not_panics_of_fits fun line hline => ?_
    rw [Source.chars_edit] at hline
    obtain ⟨old, hold, hspaces⟩ := indentation_of_reindent hline
    rw [hspaces, Config.columns_spaces]
    exact hfits old hold
  have hcursor : Reindents f config true ⟨source.chars, 0⟩
      ⟨(source.edit (reindent f config)).chars, 0⟩ := by
    simp [Reindents]
  have htwins : Twins (renamesWidths hf h0) (Reindents f config) (start source config)
      (start (source.edit (reindent f config)) config) := start_twins hcursor
  obtain ⟨halike, -⟩ := htwins.items_alike rfl rfl
    (fun hrun hv hrun' hv' _ => overflows_eq_of_panics hpanics hpanics' hrun hv hrun' hv')
    fun hrun _ hrun' _ _ htwins => meets_of_reindents hf h0 hrun hrun'.config htwins
  exact ⟨Likeness.map_bare halike, hpanics, hpanics'⟩

/-- Tabs, spaces, a comment of its own width, and at last a line that lines up with no block. -/
def tabbedSample : Source := ⟨"sample", "a\n\tb\n  # c\n\t  c\n \td\n e"⟩

theorem reindented_items_tabbedSample :
    (start (tabbedSample.edit (reindent (3 * ·) {})) {}).items.map bare =
      [.ok (.identifier "a"), .ok .newline, .ok .indent, .ok (.identifier "b"), .ok .newline,
       .ok .indent, .ok (.identifier "c"), .ok .newline, .ok .dedent, .ok (.identifier "d"),
       .ok .newline, .error (.badIndent 3)] := by
  rw [(reindented_items tabbedSample {} (f := (3 * ·)) (fun a b h => by simp only; omega) rfl
    (by decide +kernel)).1]
  decide +kernel

end Lexer

end Offside
