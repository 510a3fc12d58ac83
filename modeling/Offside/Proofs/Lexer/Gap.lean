import Mathlib.Data.List.TakeWhile
import Offside.Lexer.Gap
import Offside.Text.Basic

/-!
# What a gap is made of

`IsGap comments g next` describes a gap `g` without its scanner: blanks and, where they are
enabled, comments that run up to a line feed or the end of the text, `next` being what follows `g`.

Results:
* `gap_spec`: the scanner takes such a gap and stops at the end of the text, at a line feed that it
  may not join, or at a character that begins a token.
* `gap_append`: conversely, it takes every gap up to such a place.
* `IsGap.split`, `IsGap.split_end`, `IsGap.append`: a gap can be cut at the start and at the end of
  a line, and two gaps make one.
* `IsGap.pad`: at the end of a line a gap can run on.
* `IsGap.of_head`, `IsGap.of_break`, `IsGap.of_token`: how far a gap depends on what follows it.
* `IsGap.isBlank_of_notMem`: the part of a gap after its last line feed is blank if a token follows.
-/

namespace Offside

open Text

/-! ## Line starts -/

/-- A text after which a line starts: it is empty or ends with a line feed. -/
def AtBreak (before : List Char) : Prop := before = [] ∨ before.getLast? = some '\n'

theorem AtBreak.append {a b : List Char} (hb : AtBreak b) (ha : AtBreak a) : AtBreak (a ++ b) := by
  rcases hb with rfl | hb
  · simpa using ha
  · right
    rw [List.getLast?_append, hb]; rfl

theorem AtBreak.of_append {a b : List Char} (h : AtBreak (a ++ b)) : AtBreak b := by
  cases b with
  | nil => exact Or.inl rfl
  | cons c b =>
    rcases h with h | h
    · simp at h
    · right
      simpa [List.getLast?_append] using h

/-- Every text is whole lines and a last one without a line feed. -/
theorem exists_lastLine (cs : List Char) :
    ∃ lead, cs = lead ++ lastLine cs ∧ AtBreak lead ∧ '\n' ∉ lastLine cs := by
  refine ⟨(cs.reverse.dropWhile (· ≠ '\n')).reverse, ?_, ?_, ?_⟩
  · rw [lastLine, ← List.reverse_append, List.takeWhile_append_dropWhile, List.reverse_reverse]
  · cases h : cs.reverse.dropWhile (· ≠ '\n') with
    | nil => exact Or.inl rfl
    | cons c rest =>
      right
      have hc := List.head?_dropWhile_not (· ≠ '\n') cs.reverse
      rw [h] at hc
      rw [List.getLast?_reverse, List.head?_cons]
      simpa using hc
  · intro hmem
    simp only [lastLine, List.mem_reverse] at hmem
    simpa using List.mem_takeWhile_imp hmem

theorem AtBreak.lastLine_of_notMem {a b : List Char} (ha : AtBreak a) (hb : '\n' ∉ b) :
    lastLine (a ++ b) = b := by
  rcases ha with rfl | ha
  · exact Text.lastLine_of_notMem hb
  · obtain ⟨front, rfl⟩ := List.getLast?_eq_some_iff.1 ha
    rw [List.append_assoc]
    exact lastLine_append_of_notMem hb

theorem AtBreak.lastLine_append {a : List Char} (ha : AtBreak a) (b : List Char) :
    lastLine (a ++ b) = lastLine b := by
  obtain ⟨lead, hlead, hbreak, hfeed⟩ := exists_lastLine b
  have hline := (hbreak.append ha).lastLine_of_notMem hfeed
  rw [List.append_assoc, ← hlead] at hline
  exact hline

theorem firstLine_append {a : List Char} (ha : '\n' ∉ a) (cs : List Char) :
    firstLine (a ++ cs) = a ++ firstLine cs :=
  List.takeWhile_append_of_pos fun _ hc => decide_eq_true fun h => ha (h ▸ hc)

theorem firstLine_append_of_mem {a : List Char} (ha : '\n' ∈ a) (cs : List Char) :
    firstLine (a ++ cs) = firstLine a := by
  obtain ⟨front, rest, rfl, hfront⟩ := List.eq_append_cons_of_mem ha
  rw [List.append_assoc, firstLine_append hfront, firstLine_append hfront]
  rfl

theorem AtBreak.eq_nil_of_notMem {a : List Char} (h : AtBreak a) (ha : '\n' ∉ a) : a = [] := by
  rcases h with h | h
  · exact h
  · exact absurd (List.mem_of_getLast? h) ha

theorem atBreak_snoc (a : List Char) : AtBreak (a ++ ['\n']) := Or.inr (by simp)

theorem lastLine_append_feed (a b : List Char) : lastLine (a ++ '\n' :: b) = lastLine b := by
  rw [List.append_cons]; exact (atBreak_snoc a).lastLine_append b

theorem lastLine_append {b : List Char} (hb : '\n' ∉ b) (a : List Char) :
    lastLine (a ++ b) = lastLine a ++ b := by
  obtain ⟨lead, hlead, hbreak, hfeed⟩ := exists_lastLine a
  have hline := hbreak.lastLine_of_notMem (b := lastLine a ++ b) (by simp [hfeed, hb])
  rw [← List.append_assoc, ← hlead] at hline
  exact hline

theorem lines_induction {motive : List Char → Prop} (last : ∀ a, '\n' ∉ a → motive a)
    (line : ∀ a cs, '\n' ∉ a → motive cs → motive (a ++ '\n' :: cs)) (cs : List Char) :
    motive cs := by
  have hfirst : '\n' ∉ firstLine cs := fun h => by simpa using List.mem_takeWhile_imp h
  have hsplit : firstLine cs ++ cs.dropWhile (· ≠ '\n') = cs := List.takeWhile_append_dropWhile
  cases hd : cs.dropWhile (· ≠ '\n') with
  | nil =>
    rw [hd, List.append_nil] at hsplit
    rw [← hsplit]; exact last _ hfirst
  | cons c rest =>
    have hc := List.head?_dropWhile_not (· ≠ '\n') cs
    rw [hd] at hc hsplit
    obtain rfl : c = '\n' := by simpa using hc
    have hlt : rest.length < cs.length := by
      have hlen := congrArg List.length hsplit
      simp only [List.length_append, List.length_cons] at hlen
      omega
    rw [← hsplit]
    exact line _ rest hfirst (lines_induction last line rest)
termination_by cs.length

/-! ## Lines of a text -/

theorem AtBreak.mem_lines_right {a b line : List Char} (ha : AtBreak a)
    (h : line ∈ b.splitOn '\n') : line ∈ (a ++ b).splitOn '\n' := by
  rcases ha with rfl | ha
  · exact h
  · obtain ⟨front, rfl⟩ := List.getLast?_eq_some_iff.1 ha
    rw [List.append_assoc, List.singleton_append, List.splitOn_append_cons_self]
    exact List.mem_append_right _ h

/-- Only the empty line behind the last line feed goes on in what follows. -/
theorem AtBreak.mem_lines_left {a line : List Char} (ha : AtBreak a) (b : List Char)
    (h : line ∈ a.splitOn '\n') : line = [] ∨ line ∈ (a ++ b).splitOn '\n' := by
  rcases ha with rfl | ha
  · exact Or.inl (by simpa using h)
  · obtain ⟨front, rfl⟩ := List.getLast?_eq_some_iff.1 ha
    rw [List.splitOn_append_cons_self] at h
    rw [List.append_assoc, List.singleton_append, List.splitOn_append_cons_self]
    refine (List.mem_append.1 h).symm.imp (fun hlast => ?_) (List.mem_append_left _)
    simpa using hlast

/-- A line of the text is what a break and the next line feed enclose. -/
theorem firstLine_mem_lines {a : List Char} (ha : AtBreak a) (b : List Char) :
    firstLine b ∈ (a ++ b).splitOn '\n' := by
  have hfirst : firstLine b ∈ b.splitOn '\n' := by
    induction b using lines_induction with
    | last b hb =>
      have hline : firstLine (b ++ []) = b ++ firstLine [] := firstLine_append hb []
      rw [List.append_nil] at hline
      rw [List.splitOn_eq_singleton hb, hline]
      exact List.mem_singleton.2 (List.append_nil b)
    | line b cs hb _ =>
      rw [List.splitOn_append_cons_self_of_not_mem hb, firstLine_append hb]
      exact List.mem_cons.2 (Or.inl (List.append_nil b))
  exact ha.mem_lines_right hfirst

/-- Conversely, a break and a line feed or the end of the text enclose each line. -/
theorem exists_of_mem_lines {line text : List Char} (h : line ∈ text.splitOn '\n') :
    ∃ before after, text = before ++ line ++ after ∧ AtBreak before ∧ '\n' ∉ line ∧
      firstLine after = [] := by
  induction text using lines_induction with
  | last a ha =>
    rw [List.splitOn_eq_singleton ha, List.mem_singleton] at h
    subst h
    exact ⟨[], [], by simp, Or.inl rfl, ha, rfl⟩
  | line a cs ha ih =>
    rw [List.splitOn_append_cons_self_of_not_mem ha] at h
    rcases List.mem_cons.1 h with rfl | h
    · exact ⟨[], '\n' :: cs, rfl, Or.inl rfl, ha, rfl⟩
    · obtain ⟨before, after, rfl, hbreak, hfeed, hafter⟩ := ih h
      refine ⟨a ++ ['\n'] ++ before, after, by simp, hbreak.append (atBreak_snoc a), hfeed, hafter⟩

/-- Does a text start with no blank? -/
def IsSolid (cs : List Char) : Prop := ∀ c, cs.head? = some c → isBlank c = false

theorem IsSolid.takeWhile_isBlank {cs : List Char} (h : IsSolid cs) :
    cs.takeWhile isBlank = [] := by
  cases cs with
  | nil => rfl
  | cons c cs => rw [List.takeWhile_cons_of_neg (by simp [h c rfl])]

theorem IsSolid.dropWhile_isBlank {cs : List Char} (h : IsSolid cs) :
    cs.dropWhile isBlank = cs := by
  cases cs with
  | nil => rfl
  | cons c cs => rw [List.dropWhile_cons_of_neg (by simp [h c rfl])]

theorem IsSolid.firstLine {cs : List Char} (h : IsSolid cs) : IsSolid (firstLine cs) := by
  cases cs with
  | nil => exact h
  | cons c cs =>
    intro d hd
    by_cases hc : c = '\n'
    · simp [Text.firstLine, hc] at hd
    · simp only [Text.firstLine, List.takeWhile_cons, hc, ne_eq, not_false_eq_true, decide_true,
        if_true, List.head?_cons] at hd
      exact h d hd

theorem indentation_append {n : List Char} (hn : IsSolid n) (a : List Char) :
    indentation (a ++ n) = indentation a := by
  unfold indentation
  rw [List.takeWhile_append, hn.takeWhile_isBlank, List.append_nil]
  split
  · next h => exact ((List.takeWhile_prefix isBlank).eq_of_length h).symm
  · rfl

theorem indentation_of_isBlank {a : List Char} (ha : ∀ c ∈ a, isBlank c = true) :
    indentation a = a := List.takeWhile_eq_self_iff.2 ha

/-- Where a text is cut at a break and before a token, the lines of the part between are indented as
lines of the whole. -/
theorem exists_line_of_mem {before gap next line : List Char} (hbefore : AtBreak before)
    (hnext : IsSolid next) (h : line ∈ gap.splitOn '\n') :
    ∃ whole ∈ (before ++ gap ++ next).splitOn '\n', indentation whole = indentation line := by
  obtain ⟨a, b, rfl, hbreak, hfeed, hb⟩ := exists_of_mem_lines h
  refine ⟨Text.firstLine (line ++ (b ++ next)), ?_, ?_⟩
  · have hmem := firstLine_mem_lines (hbreak.append hbefore) (line ++ (b ++ next))
    simpa only [List.append_assoc] using hmem
  · rw [firstLine_append hfeed]
    refine indentation_append ?_ line
    cases b with
    | nil => exact hnext.firstLine
    | cons c b =>
      have hc : c = '\n' := by simpa [Text.firstLine, List.takeWhile_cons] using hb
      intro d hd
      simp [Text.firstLine, hc] at hd

/-! ## Gaps -/

/-- Can a comment end before this text? -/
def EndsComment (text : List Char) : Prop := text = [] ∨ text.head? = some '\n'

theorem EndsComment.of_append {g next : List Char} (h : EndsComment (g ++ next)) :
    EndsComment g := by
  cases g with
  | nil => exact Or.inl rfl
  | cons c g => exact Or.inr (by simpa [EndsComment] using h)

theorem EndsComment.firstLine {text : List Char} (h : EndsComment text) : firstLine text = [] := by
  cases text with
  | nil => rfl
  | cons c text =>
    obtain rfl : c = '\n' := by simpa [EndsComment] using h
    rfl

theorem exists_firstLine (cs : List Char) :
    ∃ next, cs = firstLine cs ++ next ∧ '\n' ∉ firstLine cs ∧ EndsComment next := by
  refine ⟨cs.dropWhile (· ≠ '\n'), List.takeWhile_append_dropWhile.symm, ?_, ?_⟩
  · intro hmem
    simpa using List.mem_takeWhile_imp hmem
  · cases hd : cs.dropWhile (· ≠ '\n') with
    | nil => exact Or.inl rfl
    | cons c rest =>
      have hc := List.head?_dropWhile_not (· ≠ '\n') cs
      rw [hd] at hc
      exact Or.inr (by simpa using hc)

/-- `g` consists of blanks and, if there are any, comments. `next` follows it. -/
inductive IsGap (comments : Bool) : List Char → List Char → Prop
  | nil (next : List Char) : IsGap comments [] next
  | blank {c : Char} {g next : List Char} (hc : isBlank c = true) (hg : IsGap comments g next) :
      IsGap comments (c :: g) next
  /-- From `#` to the end of the line. -/
  | comment {body g next : List Char} (hcomments : comments = true) (hbody : '\n' ∉ body)
      (hend : EndsComment (g ++ next)) (hg : IsGap comments g next) :
      IsGap comments ('#' :: (body ++ g)) next

/-- Is `c` a character that no gap starts with? -/
def beginsToken (comments : Bool) (c : Char) : Bool := !isBlank c && !(comments && c = '#')

theorem isBlank_lineFeed : isBlank '\n' = true := by decide

theorem isBlank_hash : isBlank '#' = false := by decide

theorem ne_lineFeed_of_beginsToken {comments : Bool} {c : Char}
    (h : beginsToken comments c = true) : c ≠ '\n' := by
  rintro rfl
  simp [beginsToken, isBlank_lineFeed] at h

/-- Where a gap stops: at the end, at a line feed it may not join, or at a token. -/
def GapStops (joins comments : Bool) (rest : List Char) : Prop :=
  rest = [] ∨ ∃ c cs, rest = c :: cs ∧
    (c = '\n' ∧ joins = false ∨ beginsToken comments c = true)

theorem GapStops.of_head {joins comments : Bool} {rest rest' : List Char}
    (h : GapStops joins comments rest) (hhead : rest'.head? = rest.head?) :
    GapStops joins comments rest' := by
  rcases h with rfl | ⟨c, cs, rfl, hc⟩
  · exact Or.inl (List.head?_eq_none_iff.1 hhead)
  · obtain ⟨cs', rfl⟩ := List.head?_eq_some_iff.1 hhead
    exact Or.inr ⟨c, cs', rfl, hc⟩

theorem GapStops.of_joins {joins comments : Bool} {rest : List Char}
    (h : GapStops true comments rest) : GapStops joins comments rest := by
  rcases h with h | ⟨c, cs, h, ⟨-, hj⟩ | hc⟩
  · exact Or.inl h
  · cases hj
  · exact Or.inr ⟨c, cs, h, Or.inr hc⟩

/-- What begins a token where there are comments begins one where there are none. -/
theorem GapStops.of_comments {joins comments : Bool} {rest : List Char}
    (h : GapStops joins true rest) : GapStops joins comments rest := by
  rcases h with h | ⟨c, cs, h, hj | hc⟩
  · exact Or.inl h
  · exact Or.inr ⟨c, cs, h, Or.inl hj⟩
  · refine Or.inr ⟨c, cs, h, Or.inr ?_⟩
    simp only [beginsToken, Bool.and_eq_true, Bool.not_eq_true', Bool.true_and] at hc ⊢
    exact ⟨hc.1, by rw [hc.2, Bool.and_false]⟩

/-- What the scanner takes outside and inside a comment. Inside, the first part is the rest of the
comment. -/
theorem Gap.scan_spec (joins comments : Bool) (cs : List Char) :
    (∃ rest, cs = Gap.scan joins comments .blanks cs ++ rest ∧
      IsGap comments (Gap.scan joins comments .blanks cs) rest ∧ GapStops joins comments rest) ∧
    (∃ body g rest, Gap.scan joins comments .comment cs = body ++ g ∧ cs = body ++ g ++ rest ∧
      '\n' ∉ body ∧ EndsComment (g ++ rest) ∧ IsGap comments g rest ∧
      GapStops joins comments rest) := by
  induction cs with
  | nil =>
    constructor
    · exact ⟨[], rfl, .nil [], Or.inl rfl⟩
    · exact ⟨[], [], [], rfl, rfl, by simp, Or.inl rfl, .nil [], Or.inl rfl⟩
  | cons c cs ih =>
    obtain ⟨⟨rest, hcs, hgap, hstop⟩, body, g, rest', hscan, hcs', hbody, hend, hgap', hstop'⟩ := ih
    by_cases hc : c = '\n'
    · subst hc
      cases joins with
      | false =>
        have hstop : GapStops false comments ('\n' :: cs) :=
          Or.inr ⟨'\n', cs, rfl, Or.inl ⟨rfl, rfl⟩⟩
        constructor
        · exact ⟨'\n' :: cs, rfl, .nil _, hstop⟩
        · exact ⟨[], [], '\n' :: cs, rfl, rfl, by simp, Or.inr rfl, .nil _, hstop⟩
      | true =>
        have hg := IsGap.blank isBlank_lineFeed hgap
        constructor
        · exact ⟨rest, by simpa [Gap.scan] using hcs, by simpa [Gap.scan] using hg, hstop⟩
        · exact ⟨[], _, rest, by simp [Gap.scan], by simpa using hcs, by simp, Or.inr rfl, hg,
            hstop⟩
    · constructor
      · by_cases hb : isBlank c = true
        · refine ⟨rest, ?_, ?_, hstop⟩
          · simpa [Gap.scan, hc, hb] using hcs
          · simpa [Gap.scan, hc, hb] using IsGap.blank hb hgap
        · by_cases hh : (comments && c = '#') = true
          · simp only [Bool.and_eq_true, decide_eq_true_eq] at hh
            obtain ⟨rfl, rfl⟩ := hh
            refine ⟨rest', ?_, ?_, hstop'⟩
            · rw [List.append_assoc] at hcs'
              simpa [Gap.scan, isBlank_hash, hscan] using hcs'
            · simp only [Gap.scan, hc, isBlank_hash, hscan, if_false, reduceCtorEq,
                Bool.false_eq_true, Bool.true_and, decide_true, if_true]
              exact .comment rfl hbody hend hgap'
          · refine ⟨c :: cs, ?_, ?_, Or.inr ⟨c, cs, rfl, Or.inr ?_⟩⟩
            · simp [Gap.scan, hc, hb, hh]
            · simp only [Gap.scan, hc, hb, hh, if_false, reduceCtorEq, Bool.false_eq_true]
              exact .nil _
            · simp [beginsToken, hb, hh]
      · refine ⟨c :: body, g, rest', ?_, ?_, ?_, hend, hgap', hstop'⟩
        · simp [Gap.scan, hc, hscan]
        · simpa using hcs'
        · simp only [List.mem_cons, not_or]; exact ⟨fun h => hc h.symm, hbody⟩

theorem GapStops.isSolid {comments : Bool} {rest : List Char} (h : GapStops true comments rest) :
    IsSolid rest := by
  rintro c hc
  rcases h with rfl | ⟨d, ds, rfl, ⟨-, hj⟩ | hd⟩
  · cases hc
  · cases hj
  · cases hc
    simp only [beginsToken, Bool.and_eq_true, Bool.not_eq_true'] at hd
    exact hd.1

theorem gap_spec (joins comments : Bool) (cs : List Char) :
    ∃ rest, cs = gap joins comments cs ++ rest ∧ IsGap comments (gap joins comments cs) rest ∧
      GapStops joins comments rest :=
  (Gap.scan_spec joins comments cs).1

theorem Gap.scan_comment_append {joins comments : Bool} {body cs : List Char}
    (h : '\n' ∉ body) :
    Gap.scan joins comments .comment (body ++ cs) =
      body ++ Gap.scan joins comments .comment cs := by
  induction body with
  | nil => rfl
  | cons c body ih =>
    simp only [List.mem_cons, not_or] at h
    rw [List.cons_append, Gap.scan, if_neg (Ne.symm h.1), if_pos rfl, ih h.2, List.cons_append]

/-- A comment that has come to its end scans on like blanks. -/
theorem Gap.scan_comment_of_endsComment {joins comments : Bool} {cs : List Char}
    (h : EndsComment cs) :
    Gap.scan joins comments .comment cs = Gap.scan joins comments .blanks cs := by
  cases cs with
  | nil => rfl
  | cons c cs =>
    obtain rfl : c = '\n' := by simpa [EndsComment] using h
    rfl

theorem gap_append {joins comments : Bool} {g next : List Char} (h : IsGap comments g next)
    (hstop : GapStops joins comments next) (hfeed : joins = false → '\n' ∉ g) :
    gap joins comments (g ++ next) = g := by
  unfold gap
  induction h with
  | nil next =>
    rcases hstop with rfl | ⟨c, cs, rfl, ⟨rfl, rfl⟩ | hc⟩
    · rfl
    · rfl
    · have hne := ne_lineFeed_of_beginsToken hc
      simp only [beginsToken, Bool.and_eq_true, Bool.not_eq_true'] at hc
      simp [Gap.scan, hne, hc]
  | @blank c g next hc hgap ih =>
    have hrest := ih hstop fun hj hmem => hfeed hj (List.mem_cons_of_mem _ hmem)
    rw [List.cons_append, Gap.scan]
    by_cases hn : c = '\n'
    · have hj : joins = true := by
        cases joins with
        | true => rfl
        | false => exact absurd (hn ▸ List.mem_cons_self) (hfeed rfl)
      rw [if_pos hn, if_pos hj, hrest]
    · rw [if_neg hn, if_neg (by simp), if_pos hc, hrest]
  | @comment body g next hcomments hbody hend hgap ih =>
    have hrest := ih hstop fun hj hmem => hfeed hj (by simp [hmem])
    rw [List.cons_append, List.append_assoc, Gap.scan, if_neg (by simp), if_neg (by simp),
      if_neg (by simp [isBlank_hash]), if_pos (by simp [hcomments]), Gap.scan_comment_append hbody,
      Gap.scan_comment_of_endsComment hend, hrest]

theorem lineFeed_notMem_gap (comments : Bool) (cs : List Char) : '\n' ∉ gap false comments cs := by
  have hscan : ∀ g : Gap, '\n' ∉ Gap.scan false comments g cs := by
    induction cs with
    | nil => simp [Gap.scan]
    | cons c cs ih =>
      intro g
      rw [Gap.scan]
      repeat' split
      all_goals simp_all [Ne.symm]
  exact hscan .blanks

theorem gap_of_beginsToken {joins comments : Bool} {c : Char} {cs : List Char}
    (h : beginsToken comments c = true) : gap joins comments (c :: cs) = [] := by
  have hc := ne_lineFeed_of_beginsToken h
  simp only [beginsToken, Bool.and_eq_true, Bool.not_eq_true'] at h
  simp [gap, Gap.scan, hc, h]

/-! ## Cutting a gap -/

namespace IsGap

variable {comments : Bool}

/-- A gap can be cut where a line starts. -/
theorem split {a b next : List Char} (h : IsGap comments (a ++ b) next) (ha : AtBreak a) :
    IsGap comments a (b ++ next) ∧ IsGap comments b next := by
  generalize hg : a ++ b = g at h
  induction h generalizing a with
  | nil next =>
    obtain ⟨rfl, rfl⟩ := List.append_eq_nil_iff.1 hg
    exact ⟨.nil _, .nil _⟩
  | @blank c g next hc hgap ih =>
    cases a with
    | nil => subst hg; exact ⟨.nil _, .blank hc hgap⟩
    | cons d a =>
      obtain ⟨rfl, hg'⟩ := List.cons.inj hg
      obtain ⟨h1, h2⟩ := ih (AtBreak.of_append (a := [d]) ha) hg'
      exact ⟨.blank hc h1, h2⟩
  | @comment body g next hcomments hbody hend hgap ih =>
    cases a with
    | nil => subst hg; exact ⟨.nil _, .comment hcomments hbody hend hgap⟩
    | cons d a =>
      obtain ⟨rfl, hg'⟩ := List.cons.inj hg
      -- The cut cannot lie inside the comment, which holds no line feed.
      rcases List.append_eq_append_iff.1 hg' with ⟨m, hm, -⟩ | ⟨m, rfl, hm⟩
      · exfalso
        rcases ha with ha | ha
        · simp at ha
        · have hmem : '\n' ∈ a := by simpa using List.mem_of_getLast? ha
          exact hbody (by rw [hm]; exact List.mem_append_left _ hmem)
      · have hm' : AtBreak m := AtBreak.of_append (a := '#' :: body) ha
        obtain ⟨h1, h2⟩ := ih hm' hm.symm
        refine ⟨.comment hcomments hbody ?_ h1, h2⟩
        rw [hm, List.append_assoc] at hend; exact hend

/-- A gap can be cut where a line ends. -/
theorem split_end {a b next : List Char} (h : IsGap comments (a ++ b) next)
    (hend : EndsComment (b ++ next)) : IsGap comments a (b ++ next) ∧ IsGap comments b next := by
  generalize hg : a ++ b = g at h
  induction h generalizing a with
  | nil next =>
    obtain ⟨rfl, rfl⟩ := List.append_eq_nil_iff.1 hg
    exact ⟨.nil _, .nil _⟩
  | @blank c g next hc hgap ih =>
    cases a with
    | nil => subst hg; exact ⟨.nil _, .blank hc hgap⟩
    | cons d a =>
      obtain ⟨rfl, hg'⟩ := List.cons.inj hg
      obtain ⟨h1, h2⟩ := ih hend hg'
      exact ⟨.blank hc h1, h2⟩
  | @comment body g next hcomments hbody hends hgap ih =>
    cases a with
    | nil => subst hg; exact ⟨.nil _, .comment hcomments hbody hends hgap⟩
    | cons d a =>
      obtain ⟨rfl, hg'⟩ := List.cons.inj hg
      rcases List.append_eq_append_iff.1 hg' with ⟨m, rfl, rfl⟩ | ⟨m, rfl, rfl⟩
      · -- The cut cannot lie inside the comment: a line feed would follow it there.
        cases m with
        | nil =>
          have hcomment : IsGap comments ('#' :: (a ++ [])) (g ++ next) :=
            .comment hcomments (by simpa using hbody) hends (.nil _)
          rw [List.append_nil] at hcomment
          exact ⟨hcomment, hgap⟩
        | cons x m =>
          obtain rfl : x = '\n' := by simpa [EndsComment] using hend
          exact absurd (by simp) hbody
      · obtain ⟨h1, h2⟩ := ih hend rfl
        rw [List.append_assoc] at hends
        exact ⟨.comment hcomments hbody hends h1, h2⟩

theorem append {a b next : List Char} (ha : IsGap comments a (b ++ next))
    (hb : IsGap comments b next) : IsGap comments (a ++ b) next := by
  generalize hrest : b ++ next = rest at ha
  induction ha with
  | nil => exact hb
  | blank hc _ ih => exact .blank hc (ih hrest)
  | comment hcomments hbody hend _ ih =>
    subst hrest
    rw [List.cons_append, List.append_assoc]
    exact .comment hcomments hbody (by rw [List.append_assoc]; exact hend) (ih rfl)

/-- A gap that runs up to the end of a line may run on there: what is put at its end is a gap, or
goes on with its last comment. -/
theorem pad {a pad next : List Char} (h : IsGap comments a next) (hend : EndsComment next)
    (hpad : IsGap comments pad next) (hfeed : '\n' ∉ pad) : IsGap comments (a ++ pad) next := by
  induction h with
  | nil => exact hpad
  | blank hc _ ih => exact .blank hc (ih hend hpad)
  | @comment body g next hcomments hbody hends _ ih =>
    rw [List.cons_append, List.append_assoc]
    cases g with
    | cons d g => exact .comment hcomments hbody (by simpa [EndsComment] using hends) (ih hend hpad)
    | nil =>
      have hcomment : IsGap comments ('#' :: (body ++ pad ++ [])) next :=
        .comment hcomments (by simp [hbody, hfeed]) hend (.nil _)
      rw [List.append_nil] at hcomment
      exact hcomment

/-- What follows a gap does not matter if a line starts there. -/
theorem of_break {a next : List Char} (h : IsGap comments a next) (hbreak : AtBreak a)
    (next' : List Char) : IsGap comments a next' := by
  induction h with
  | nil => exact .nil next'
  | blank hc _ ih => exact .blank hc (ih (hbreak.of_append (a := [_])))
  | @comment body g next hcomments hbody hend _ ih =>
    refine .comment hcomments hbody ?_ (ih (hbreak.of_append (a := '#' :: body)))
    cases g with
    | cons c g => exact Or.inr (by simpa [EndsComment] using hend)
    | nil =>
      -- A comment that nothing ends would end the text without a line feed.
      rw [List.append_nil] at hbreak
      cases hbreak.eq_nil_of_notMem (by simp [hbody])

/-- A gap can be cut before a line feed it ends with. -/
theorem init {a next : List Char} (h : IsGap comments (a ++ ['\n']) next) :
    IsGap comments a ('\n' :: next) := by
  generalize hg : a ++ ['\n'] = g at h
  induction h generalizing a with
  | nil => simp at hg
  | @blank c g next hc hgap ih =>
    cases a with
    | nil => exact .nil _
    | cons d a =>
      obtain ⟨rfl, hg'⟩ := List.cons.inj hg
      exact .blank hc (ih hg')
  | @comment body g next hcomments hbody hend hgap ih =>
    cases a with
    | nil => cases hg
    | cons d a =>
      obtain ⟨rfl, hg'⟩ := List.cons.inj hg
      rcases List.eq_nil_or_concat g with rfl | ⟨g, x, rfl⟩
      · rw [List.append_nil] at hg'
        exact absurd (by rw [← hg']; simp) hbody
      · rw [List.concat_eq_append] at hg' hend ih
        have hg'' : a ++ ['\n'] = body ++ g ++ [x] := hg'.trans (List.append_assoc body g [x]).symm
        obtain ⟨rfl, hx⟩ := List.append_inj' hg'' rfl
        cases hx
        exact .comment hcomments hbody (by simpa using hend) (ih rfl)

/-- A gap stays one without the blanks it starts with. -/
theorem dropWhile_isBlank {g next : List Char} (h : IsGap comments g next) :
    IsGap comments (g.dropWhile isBlank) next := by
  induction h with
  | nil => exact .nil _
  | blank hc _ ih => rw [List.dropWhile_cons_of_pos hc]; exact ih
  | comment hcomments hbody hend hgap _ =>
    rw [List.dropWhile_cons_of_neg (by simp [isBlank_hash])]
    exact .comment hcomments hbody hend hgap

theorem blanks_append {b g next : List Char} (hb : ∀ x ∈ b, isBlank x = true)
    (h : IsGap comments g next) : IsGap comments (b ++ g) next := by
  induction b with
  | nil => exact h
  | cons c b ih => exact .blank (hb c (by simp)) (ih fun x hx => hb x (by simp [hx]))

theorem of_isBlank {g : List Char} (h : ∀ c ∈ g, isBlank c = true) (next : List Char) :
    IsGap comments g next := by
  have hgap : IsGap comments (g ++ []) next := (IsGap.nil next).blanks_append h
  rwa [List.append_nil] at hgap

/-- Of what follows a gap only the first character matters. -/
theorem of_head {g a b : List Char} (h : IsGap comments g a) (hab : a.head? = b.head?) :
    IsGap comments g b := by
  have hends : ∀ g : List Char, EndsComment (g ++ a) → EndsComment (g ++ b) := by
    intro g hend
    cases g with
    | cons c g => exact Or.inr (by simpa [EndsComment] using hend)
    | nil =>
      rcases hend with hnil | hfeed
      · rw [List.nil_append] at hnil
        rw [hnil] at hab
        exact Or.inl (List.head?_eq_none_iff.1 hab.symm)
      · exact Or.inr (hab ▸ hfeed)
  induction h with
  | nil => exact .nil b
  | blank hc _ ih => exact .blank hc (ih hab hends)
  | comment hcomments hbody hend _ ih =>
    exact .comment hcomments hbody (hends _ hend) (ih hab hends)

/-- A gap before a token does not depend on what follows: no comment reaches up to there. -/
theorem of_token {g cs : List Char} {c : Char} (h : IsGap comments g (c :: cs)) (hc : c ≠ '\n')
    (next : List Char) : IsGap comments g next := by
  generalize htoken : c :: cs = rest at h
  induction h with
  | nil => exact .nil next
  | blank hd _ ih => exact .blank hd (ih htoken)
  | @comment body g rest hcomments hbody hend _ ih =>
    refine .comment hcomments hbody ?_ (ih htoken)
    cases g with
    | cons d g => exact Or.inr (by simpa [EndsComment] using hend)
    | nil =>
      subst htoken
      simp [EndsComment, hc] at hend

theorem isBlank_of_noComments {g next : List Char} (h : IsGap false g next) :
    ∀ c ∈ g, isBlank c = true := by
  generalize hcomments : false = comments at h
  induction h with
  | nil => simp
  | @blank c g next hc _ ih =>
    intro d hd
    rcases List.mem_cons.1 hd with rfl | hd
    · exact hc
    · exact ih d hd
  | comment h => rw [h] at hcomments; cases hcomments

/-- On one line, a gap before a token is blank: a comment would swallow the token. -/
theorem isBlank_of_notMem {g cs : List Char} {c : Char} (h : IsGap comments g (c :: cs))
    (hc : c ≠ '\n') (hg : '\n' ∉ g) : ∀ x ∈ g, isBlank x = true := by
  generalize hn : c :: cs = next at h
  induction h with
  | nil => simp
  | @blank d g next hd _ ih =>
    simp only [List.mem_cons, not_or] at hg
    intro x hx
    rcases List.mem_cons.1 hx with rfl | hx
    · exact hd
    · exact ih hg.2 hn x hx
  | @comment body g next _ _ hend _ _ =>
    exfalso
    subst hn
    simp only [List.mem_cons, List.mem_append, not_or] at hg
    cases g with
    | nil => rcases hend with h | h <;> simp_all
    | cons d g => rcases hend with h | h <;> simp_all

end IsGap

end Offside
