import Offside.Proofs.Lexer.Skipping

/-!
# How far a call looks ahead

A call decides what it returns by the text up to where it stops and at most two characters more. So
two texts that start alike give the same items for as long as two common characters are left.

Results:
* `Lexeme.read_congr_ahead`: what is read does not depend on the text behind the next two
  characters.
* `Lexer.meets_of_shares`: two lexers of texts that start alike find the same.
* `Lexer.bounded_lookahead`: the two streams.
-/

namespace Offside

open Text

/-! ## Lexemes, class by class -/

theorem Symbol.length_letters_le (s : Symbol) : s.letters.length ≤ 3 := by cases s <;> decide

theorem Symbol.exists_short (s : Symbol) :
    ∃ t : Symbol, t.letters.length ≤ 2 ∧ t.letters <+: s.letters := by
  by_cases hs : s.letters.length ≤ 2
  · exact ⟨s, hs, List.prefix_rfl⟩
  · cases s with
    | ellipsis => exact ⟨.dot, by decide, by decide⟩
    | _ => exact absurd (by decide) hs

namespace Lexeme

section

variable {text s s' : List Char} {d e : Char}

theorem takeWhile_congr_ahead {f : Char → Bool} (h : (text ++ d :: s).takeWhile f = text) :
    (text ++ d :: s').takeWhile f = text := by
  have htext : ∀ x ∈ text, f x = true := fun x hx => List.mem_takeWhile_imp (h.symm ▸ hx)
  rw [List.takeWhile_append_of_pos htext, List.append_right_eq_self] at h
  have hd : ¬ f d = true := by
    intro hd
    rw [List.takeWhile_cons_of_pos hd] at h; cases h
  rw [List.takeWhile_append_of_pos htext, List.takeWhile_cons_of_neg hd, List.append_nil]

theorem numeral_of_stop {whole : List Char} (hwhole : ∀ x ∈ whole, x.isDigit = true)
    (hd : d.isDigit = false) (he : ¬ (d = '.' ∧ e.isDigit = true)) :
    numeral (whole ++ d :: e :: s) = whole := by
  have htake : (whole ++ d :: e :: s).takeWhile Char.isDigit = whole := by
    rw [List.takeWhile_append_of_pos hwhole, List.takeWhile_cons_of_neg (by simp [hd]),
      List.append_nil]
  unfold numeral
  simp only [htake, List.drop_left]
  split
  · next heq =>
    cases heq
    rw [if_neg fun hdigit => he ⟨rfl, hdigit⟩]
  · rfl

/-- A numeral ends where it ends whatever comes after the next two characters. -/
theorem numeral_congr_ahead (hnum : IsNumeral text) (h : numeral (text ++ d :: e :: s) = text) :
    numeral (text ++ d :: e :: s') = text := by
  -- No longer prefix of the first text is a numeral.
  have hlongest : ∀ more, more <+: d :: e :: s → IsNumeral (text ++ more) → more = [] := by
    intro more hmore hlong
    have hle := length_le_numeral hlong ((List.prefix_append_right_inj text).2 hmore)
    rw [h, List.length_append] at hle
    exact List.length_eq_zero_iff.1 (by omega)
  obtain ⟨whole, hwhole, ⟨hne, rfl⟩ | ⟨fraction, hne, hfraction, rfl⟩⟩ := hnum
  · refine numeral_of_stop hwhole ?_ ?_
    · by_contra hd
      refine absurd (hlongest [d] ⟨e :: s, rfl⟩ ⟨text ++ [d], ?_, ?_⟩) (by simp)
      · intro x hx
        rcases List.mem_append.1 hx with hx | hx
        · exact hwhole x hx
        · rw [List.mem_singleton.1 hx]; simpa using hd
      · exact Or.inl ⟨by simp, rfl⟩
    · rintro ⟨rfl, he⟩
      refine absurd (hlongest ['.', e] ⟨s, rfl⟩ ⟨text, hwhole, Or.inr ⟨[e], ?_, ?_, ?_⟩⟩)
        (by simp)
      · simp
      · simpa using he
      · rfl
  · obtain ⟨f, fs, rfl⟩ := List.exists_cons_of_ne_nil hne
    have hf := hfraction f List.mem_cons_self
    rw [List.append_assoc, List.cons_append, List.cons_append,
      numeral_append_point hwhole hf] at h ⊢
    have htake : ((f :: fs) ++ d :: e :: s).takeWhile Char.isDigit = f :: fs := by simpa using h
    rw [← List.cons_append, takeWhile_congr_ahead htake]

theorem longest?_congr_ahead {t : Symbol}
    (h : Symbol.longest? (t.letters ++ d :: e :: s) = some t) :
    Symbol.longest? (t.letters ++ d :: e :: s') = some t := by
  rw [Symbol.longest?_eq_some_iff] at h ⊢
  refine ⟨List.prefix_append _ _, ?_⟩
  intro u hu
  have hpos := List.length_pos_iff.2 t.letters_ne_nil
  have hahead : ∀ tail, t.letters ++ [d, e] <+: t.letters ++ d :: e :: tail := fun tail =>
    (List.prefix_append_right_inj _).2 ⟨tail, rfl⟩
  have hshort : u.letters <+: t.letters ++ [d, e] := by
    refine List.prefix_of_prefix_length_le hu (hahead s') ?_
    have hle := u.length_letters_le
    simp only [List.length_append, List.length_cons, List.length_nil]
    omega
  exact h.2 u (hshort.trans (hahead s))

theorem longest?_eq_none_congr (h : Symbol.longest? (d :: e :: s) = none) :
    Symbol.longest? (d :: e :: s') = none := by
  cases hother : Symbol.longest? (d :: e :: s') with
  | none => rfl
  | some t =>
    obtain ⟨u, hlen, hu⟩ := t.exists_short
    have hfits := hu.trans (Symbol.letters_isPrefix_of_longest? hother)
    have hshort : u.letters <+: [d, e] :=
      List.prefix_of_prefix_length_le hfits ⟨s', rfl⟩ hlen
    have hfirst : u.letters <+: d :: e :: s := hshort.trans ⟨s, rfl⟩
    have hnone := List.find?_eq_none.1 h u u.mem_all
    exact absurd (List.isPrefixOf_iff_prefix.2 hfirst) hnone

end

/-- A body ends at its quote, at a line feed or at the end of the text. -/
theorem head?_drop_body (q : Char) (cs : List Char) :
    cs.drop (body q cs).length = [] ∨ (cs.drop (body q cs).length).head? = some q ∨
      (cs.drop (body q cs).length).head? = some '\n' := by
  fun_induction body q cs with
  | case1 | case2 => exact Or.inl rfl
  | case3 => exact Or.inr (Or.inr rfl)
  | case4 c cs _ ih => exact ih
  | case5 c cs _ _ hc =>
    simp only [Bool.or_eq_true, decide_eq_true_eq] at hc
    rcases hc with rfl | rfl
    · exact Or.inr (Or.inl rfl)
    · exact Or.inr (Or.inr rfl)
  | case6 c cs _ _ _ ih => exact ih

/-- A string does not depend on the text behind the next character. -/
theorem string_congr_ahead {raw : Bool} {opening u x r : List Char} {q : Char}
    (hq : isQuote q = true) (htext : opening ++ u = (string raw opening q (u ++ x)).text ++ r)
    (hr : r ≠ []) (y : List Char) :
    string raw opening q (u ++ y) = string raw opening q (u ++ x) := by
  by_cases hclosed : ((u ++ x).drop (body q (u ++ x)).length).head? = some q
  · have hb := isBody_body hq hclosed
    have hu : u = body q (u ++ x) ++ q :: r := by
      simp only [string, hclosed, if_true] at htext
      simpa using htext
    generalize body q (u ++ x) = b at hb hu
    subst hu
    simp only [List.append_assoc, List.cons_append, string_of_isBody raw opening hq hb]
  · have hu : u = body q (u ++ x) ++ r := by
      simp only [string, hclosed, if_false] at htext
      simpa using htext
    -- The scan ends before the common text does, so it ends at a line feed.
    have hfeed : '\n' ∈ u := by
      have hstop := head?_drop_body q (u ++ x)
      generalize body q (u ++ x) = b at hstop hclosed hu
      obtain ⟨d, r, rfl⟩ := List.exists_cons_of_ne_nil hr
      rw [hu, List.append_assoc, List.drop_left] at hstop hclosed
      rcases hstop with hnil | hquote | hfeed
      · cases hnil
      · exact absurd hquote hclosed
      · rw [List.cons_append, List.head?_cons, Option.some.injEq] at hfeed
        rw [hu, hfeed]; simp
    rw [← string_firstLine raw opening hq (u ++ y), ← string_firstLine raw opening hq (u ++ x),
      firstLine_append_of_mem hfeed, firstLine_append_of_mem hfeed]

section

variable {c d e : Char} {u r x : List Char}

theorem number_congr_ahead
    (hn : (c.isDigit || (c = '.' && digitFollows (u ++ x))) = true)
    (htext : c :: u = (number (c :: (u ++ x))).text ++ d :: e :: r) (y : List Char) :
    number (c :: (u ++ y)) = number (c :: (u ++ x)) := by
  have hnum := isNumeral_numeral hn
  have hahead : numeral (c :: (u ++ y)) = numeral (c :: (u ++ x)) := by
    simp only [number] at htext
    generalize htake : numeral (c :: (u ++ x)) = text at htext hnum
    rw [← List.cons_append, htext, List.append_assoc] at htake ⊢
    exact numeral_congr_ahead hnum htake
  simp only [number, hahead]

theorem word_congr_ahead (htext : c :: u = (word (c :: (u ++ x))).text ++ d :: e :: r)
    (y : List Char) : word (c :: (u ++ y)) = word (c :: (u ++ x)) := by
  have hahead : (c :: (u ++ y)).takeWhile isWordChar = (c :: (u ++ x)).takeWhile isWordChar := by
    simp only [word] at htext
    generalize htake : (c :: (u ++ x)).takeWhile isWordChar = text at htext
    rw [← List.cons_append, htext, List.append_assoc] at htake ⊢
    exact takeWhile_congr_ahead htake
  simp only [word, hahead]

theorem symbol_congr_ahead (htext : c :: u = (symbol c (u ++ x)).text ++ d :: e :: r)
    (y : List Char) : symbol c (u ++ y) = symbol c (u ++ x) := by
  have hahead : Symbol.longest? (c :: (u ++ y)) = Symbol.longest? (c :: (u ++ x)) := by
    cases hlongest : Symbol.longest? (c :: (u ++ x)) with
    | some t =>
      simp only [symbol, hlongest] at htext
      rw [← List.cons_append, htext, List.append_assoc] at hlongest ⊢
      exact longest?_congr_ahead hlongest
    | none =>
      simp only [symbol, hlongest, List.nil_append] at htext
      rw [← List.cons_append, htext] at hlongest ⊢
      exact longest?_eq_none_congr hlongest
  unfold symbol
  rw [hahead]

theorem read_congr_ahead (htext : c :: u = (read c (u ++ x)).text ++ r) (hr : 2 ≤ r.length)
    (y : List Char) : read c (u ++ y) = read c (u ++ x) := by
  obtain ⟨d, e, r, rfl⟩ : ∃ d e r', r = d :: e :: r' := by
    match r, hr with
    | d :: e :: r', _ => exact ⟨d, e, r', rfl⟩
  obtain ⟨w, v, rfl⟩ : ∃ w v, u = w :: v := by
    refine List.exists_cons_of_length_pos ?_
    have hlen := congrArg List.length htext
    simp only [List.length_append, List.length_cons] at hlen
    omega
  rcases string_start_cases c (w :: v ++ x) with hq | ⟨q, qs, rfl, hqs, hq⟩ | ⟨hq, hraw⟩
  · rw [read_quote hq] at htext ⊢
    rw [read_quote hq]
    exact string_congr_ahead hq htext (by simp) y
  · obtain ⟨rfl, rfl⟩ := List.cons.inj hqs
    rw [List.cons_append, read_rawQuote hq] at htext ⊢
    rw [List.cons_append, read_rawQuote hq]
    exact string_congr_ahead hq htext (by simp) y
  · have hraw' : rawQuote? c (w :: v ++ y) = none := by
      simpa [rawQuote?] using hraw
    have hdigit : digitFollows (w :: v ++ y) = digitFollows (w :: v ++ x) := rfl
    unfold read at htext ⊢
    rw [hraw] at htext ⊢
    rw [hraw', hdigit]
    simp only [hq, Bool.false_eq_true, if_false] at htext ⊢
    split
    · next hn =>
      rw [if_pos hn] at htext
      exact number_congr_ahead hn htext y
    · next hn =>
      rw [if_neg hn] at htext
      split
      · next hw =>
        rw [if_pos hw] at htext
        exact word_congr_ahead htext y
      · next hw =>
        rw [if_neg hw] at htext
        exact symbol_congr_ahead htext y

end

end Lexeme

namespace Lexer

/-! ## What is left of the text -/

/-- A call takes from the text, and a scan leaves behind what it skips. -/
theorem Move.length_rest_le {l : Lexer} {s : Step} (h : Move l s) :
    s.lexer.cursor.rest.length ≤ l.cursor.rest.length ∧
      (l.pending = [] → s.lexer.cursor.rest.length ≤ l.settled.cursor.rest.length) := by
  have hadvance : ∀ cursor text, (Cursor.advance cursor text).rest.length ≤ cursor.rest.length := by
    intro cursor text
    rw [Cursor.length_advance]; omega
  have hsettled : l.settled.cursor.rest.length ≤ l.cursor.rest.length := hadvance _ _
  cases h with
  | dequeue hq => exact ⟨Nat.le_refl _, fun hq' => by rw [hq] at hq'; cases hq'⟩
  | indent | dedent | badIndent | unwind | finish => exact ⟨hsettled, fun _ => Nat.le_refl _⟩
  | newline | token | fail =>
    exact ⟨Nat.le_trans (hadvance _ _) hsettled, fun _ => hadvance _ _⟩

theorem Run.length_rest_le {l m : Lexer} {visited : List Lexer} (h : Run l visited m) :
    ∀ v ∈ visited, m.cursor.rest.length ≤ v.nextToken.lexer.cursor.rest.length := by
  induction h with
  | nil => simp
  | @snoc visited k _ hk ih =>
    obtain ⟨s, hmove, -, hlexer⟩ := exists_move hk.1
    intro v hv
    rcases List.mem_append.1 hv with hv | hv
    · rw [hlexer]
      exact Nat.le_trans hmove.length_rest_le.1 (ih v hv)
    · rw [List.mem_singleton.1 hv]

/-! ## Texts that start alike -/

/-- The two cursors stand in a common text, behind which one text goes on with `x` and the other
with `y`. -/
def Shares (x y : List Char) (_ : Bool) (cursor cursor' : Cursor) : Prop :=
  ∃ u, cursor.rest = u ++ x ∧ cursor' = ⟨u ++ y, cursor.offset⟩

/-- A cut that leaves at least `x` behind it lies in the text before `x`. -/
theorem exists_cut {u x text rest : List Char} (h : u ++ x = text ++ rest)
    (hlen : x.length ≤ rest.length) : ∃ v, u = text ++ v ∧ rest = v ++ x := by
  rcases List.append_eq_append_iff.1 h with ⟨a, htext, hx⟩ | ⟨v, hu, hrest⟩
  · have hnil : a = [] := by
      have hsize := congrArg List.length hx
      rw [List.length_append] at hsize
      exact List.length_eq_zero_iff.1 (by omega)
    subst hnil
    exact ⟨[], by simpa using htext.symm, by simpa using hx.symm⟩
  · exact ⟨v, hu, hrest⟩

theorem Shares.advance {x y text rest : List Char} {s s' : Bool} {cursor cursor' : Cursor}
    (h : Shares x y s cursor cursor') (hrest : cursor.rest = text ++ rest)
    (hlen : x.length ≤ rest.length) :
    Shares x y s' (cursor.advance text) (cursor'.advance text) := by
  obtain ⟨u, hu, rfl⟩ := h
  obtain ⟨v, rfl, hv⟩ := exists_cut (hu.symm.trans hrest) hlen
  refine ⟨v, ?_, ?_⟩
  · rw [Cursor.rest_advance hrest, hv]
  · simp [Cursor.advance]

/-- Where a call reads, what it leaves of the text comes after the lexeme. -/
theorem rest_of_reads {l : Lexer} (hq : l.pending = []) (hreads : l.Reads) {c : Char}
    {cs : List Char} (hr : l.settled.cursor.rest = c :: cs) (hc : c ≠ '\n') :
    c :: cs = (Lexeme.read c cs).text ++ l.pull.lexer.cursor.rest := by
  have hcursor : l.pull.lexer.cursor = l.settled.cursor.advance (Lexeme.read c cs).text := by
    have hbegins := beginsToken_of_settled hr hc
    cases hcontent : (Lexeme.read c cs).content with
    | ok content => rw [(Move.token hq hreads hr hbegins hcontent).pull_eq]
    | error cause => rw [(Move.fail hq hreads hr hbegins hcontent).pull_eq]
  obtain ⟨rest, hrest⟩ := Lexeme.read_isPrefix c cs
  rw [hcursor, Cursor.rest_advance (hr.trans hrest.symm), hrest]

/-- If what the scan finds starts in the common text, both lexers skip the same. -/
theorem settled_of_common {k : Likeness} {l l' : Lexer} {x y : List Char}
    (hconfig : l'.config = l.config) (htwins : Twins k (Shares x y) l l') {c : Char}
    {v : List Char} (hv : l.settled.cursor.rest = c :: v ++ x) :
    l'.skipped = l.skipped ∧ l'.settled.cursor = ⟨c :: v ++ y, l.settled.cursor.offset⟩ := by
  have hskips := htwins.skipsLines_eq (by rw [hconfig])
  obtain ⟨hrest, hgap, hstop⟩ := l.settled_spec
  obtain ⟨u, hu, hcursor⟩ := htwins.cursor
  obtain rfl : u = l.skipped ++ c :: v := by
    rw [hrest, hv, ← List.append_assoc] at hu
    exact (List.append_cancel_right hu).symm
  have hhead : (c :: v ++ y).head? = l.settled.cursor.rest.head? := by rw [hv]; rfl
  have hrest' : l'.cursor.rest = l.skipped ++ (c :: v ++ y) := by
    rw [hcursor, List.append_assoc]
  obtain ⟨hskip, hset⟩ := settled_of_gap hrest' (by rw [hconfig]; exact hgap.of_head hhead.symm)
    (by rw [hconfig, hskips]; exact hstop.of_head hhead)
    (by rw [hskips]; exact lineFeed_notMem_skipped)
  refine ⟨hskip, ?_⟩
  rw [hset, hcursor]
  rfl

/-- If what the scan finds starts in the common text, and is read alike if it is read, both lexers
find the same. -/
theorem meets_of_common {first second : Source} {config : Config} {visited visited' : List Lexer}
    {l l' : Lexer} {x y : List Char} (hrun : Run (start first config) visited l)
    (hrun' : Run (start second config) visited' l')
    (htwins : Twins (.moved fun o o' => o'.offset = o.offset) (Shares x y) l l') {c : Char}
    {v : List Char} (hv : l.settled.cursor.rest = c :: v ++ x)
    (hread : l.Reads → c ≠ '\n' → Lexeme.read c (v ++ y) = Lexeme.read c (v ++ x) ∧
      (Lexeme.read c (v ++ x)).text <+: c :: v) :
    Meets (.moved fun o o' => o'.offset = o.offset) (Shares x y) l l' := by
  have hconfig : l'.config = l.config := hrun'.config.trans hrun.config.symm
  have hr : l.settled.cursor.rest = c :: (v ++ x) := hv
  obtain ⟨hskip, hset⟩ := settled_of_common hconfig htwins hv
  have hoffset : l'.settled.cursor.offset = l.settled.cursor.offset := by rw [hset]
  have hshares : ∀ s, Shares x y s l.settled.cursor l'.settled.cursor := fun _ => ⟨c :: v, hv, hset⟩
  have hr' : l'.settled.cursor.rest = c :: (v ++ y) := by rw [hset]; rfl
  obtain ⟨hplace, hline⟩ := hrun.origin_offset
  obtain ⟨hplace', hline'⟩ := hrun'.origin_offset
  by_cases hc : c = '\n'
  · subst hc
    refine .newline hr hr' (hplace'.trans (hoffset.trans hplace.symm)) ?_
    exact (hshares true).advance (show _ = ['\n'] ++ (v ++ x) from hr) (by simp)
  · refine .token hr hr' hc (hplace'.trans (hoffset.trans hplace.symm)) ?_ (hshares false) ?_
    · intro _
      refine ⟨by rw [hskip, hconfig]; rfl, hline'.trans ?_⟩
      rw [hskip, hoffset, hline]
    · intro hreads
      obtain ⟨heq, r, hprefix⟩ := hread hreads hc
      rw [heq]
      refine ⟨rfl, fun content _ => ?_⟩
      have htext : l.settled.cursor.rest = (Lexeme.read c (v ++ x)).text ++ (r ++ x) := by
        rw [hv, ← hprefix, List.append_assoc]
      exact (hshares false).advance htext (by simp)

/-- If the call leaves two characters of the common text, what it finds starts there. -/
theorem exists_common {l l' : Lexer} {k : Likeness} {x y : List Char} (hq : l.pending = [])
    (htwins : Twins k (Shares x y) l l')
    (hlen : x.length + 2 ≤ l.pull.lexer.cursor.rest.length) :
    ∃ c v, l.settled.cursor.rest = c :: v ++ x := by
  obtain ⟨hrest, -, -⟩ := l.settled_spec
  have hleft : x.length + 2 ≤ l.settled.cursor.rest.length :=
    Nat.le_trans hlen (l.pull_move.length_rest_le.2 hq)
  obtain ⟨u, hu, -⟩ := htwins.cursor
  obtain ⟨w, -, hw⟩ := exists_cut (hu.symm.trans hrest) (by omega)
  obtain ⟨c, v, rfl⟩ : ∃ c v, w = c :: v := by
    refine List.exists_cons_of_length_pos ?_
    have hsize := congrArg List.length hw
    rw [List.length_append] at hsize
    omega
  exact ⟨c, v, hw⟩

theorem meets_of_shares {first second : Source} {config : Config} {visited visited' : List Lexer}
    {l l' : Lexer} {x y : List Char} (hrun : Run (start first config) visited l)
    (hrun' : Run (start second config) visited' l') (hq : l.pending = [])
    (htwins : Twins (.moved fun o o' => o'.offset = o.offset) (Shares x y) l l')
    (hlen : x.length + 2 ≤ l.pull.lexer.cursor.rest.length) :
    Meets (.moved fun o o' => o'.offset = o.offset) (Shares x y) l l' := by
  obtain ⟨c, v, hw⟩ := exists_common hq htwins hlen
  refine meets_of_common hrun hrun' htwins hw fun hreads hc => ?_
  have htext := rest_of_reads hq hreads hw hc
  obtain ⟨r, hcommon, hbehind⟩ := exists_cut (u := c :: v) htext (by omega)
  refine ⟨Lexeme.read_congr_ahead hcommon ?_ y, r, hcommon.symm⟩
  have hsize := congrArg List.length hbehind
  rw [List.length_append] at hsize
  omega

/-! ## Steps -/

/-- The step with a given number is what the call after a run of that length gives. -/
theorem exists_call_of_steps {l : Lexer} {n : Nat} {s : Step} (h : l.steps[n]? = some s) :
    ∃ visited m, Run l visited m ∧ m.Live ∧ visited.length = n ∧ m.nextToken = s := by
  induction n generalizing l with
  | zero =>
    by_cases hl : l.Live
    · rw [steps_of_live hl] at h
      exact ⟨[], l, .nil, hl, rfl, Option.some.inj h⟩
    · rw [steps_of_not_live hl] at h
      cases h
  | succ n ih =>
    by_cases hl : l.Live
    · rw [steps_of_live hl, List.getElem?_cons_succ] at h
      obtain ⟨visited, m, hrun, hm, hlen, hs⟩ := ih h
      exact ⟨l :: visited, m, hrun.cons hl, hm, by rw [List.length_cons, hlen], hs⟩
    · rw [steps_of_not_live hl] at h
      cases h

theorem Run.take_items {l m : Lexer} {visited : List Lexer} (h : Run l visited m) (hm : m.Live) :
    l.items.take (visited.length + 1) = (visited ++ [m]).map fun v => v.nextToken.result := by
  rw [(h.snoc hm).items_eq]
  exact List.take_left' (by simp)

theorem Run.rest_of_offset {source : Source} {config : Config} {visited : List Lexer} {l : Lexer}
    (h : Run (start source config) visited l) {before rest : List Char}
    (hsource : source.chars = before ++ rest) (hpos : l.cursor.offset = byteLength before) :
    l.cursor.rest = rest := by
  obtain ⟨before', hchars, hoffset⟩ := h.exists_cursorAt
  have heq : before' = before := by
    rw [← takeBytes_byteLength_append before' l.cursor.rest, ← hchars, ← hoffset, hpos, hsource,
      takeBytes_byteLength_append]
  rw [hsource, heq] at hchars
  exact (List.append_cancel_left hchars).symm

/-- **Bounded lookahead.** Let two texts start with `p`. An item after which the lexer of the first
stands two characters before the end of `p`, or further ahead of it, and all the items before it are
returned by the lexer of the second text, too, each at the same offset. -/
theorem bounded_lookahead {first second : Source} {p x y : List Char}
    (hfirst : first.chars = p ++ x) (hsecond : second.chars = p ++ y) (config : Config) {n : Nat}
    {s : Step} (hs : (start first config).steps[n]? = some s) {before ahead : List Char}
    (hp : p = before ++ ahead) (hahead : 2 ≤ ahead.length)
    (hpos : s.lexer.cursor.offset = byteLength before) :
    ((start second config).items.take (n + 1)).map placed =
      ((start first config).items.take (n + 1)).map placed := by
  obtain ⟨visited, l, hrun, hl, rfl, rfl⟩ := exists_call_of_steps hs
  have hnext := hrun.snoc hl
  have hleft : x.length + 2 ≤ l.nextToken.lexer.cursor.rest.length := by
    rw [hnext.rest_of_offset (by rw [hfirst, hp, List.append_assoc]) hpos, List.length_append]
    omega
  have hleaves : ∀ {v}, v ∈ visited ++ [l] → v.phase = .scanning →
      x.length + 2 ≤ v.pull.lexer.cursor.rest.length := by
    intro v hv hscan
    have hle := hnext.length_rest_le v hv
    rw [nextToken_eq hscan, Step.deliver_lexer] at hle
    exact Nat.le_trans hleft hle
  have hover : ∀ {a v a' v'}, v ∈ visited ++ [l] → Run (start first config) a v → v.Live →
      Run (start second config) a' v' → v'.phase = .scanning →
      Twins (.moved fun o o' => o'.offset = o.offset) (Shares x y) v v' →
      v'.overflows = false := by
    intro a v a' v' hv hrunv hlive hrunv' hscan' htwins
    have hconfig : v'.config = v.config := hrunv'.config.trans hrunv.config.symm
    rw [htwins.overflows_eq (hscan'.trans hlive.1.symm) (by rw [hconfig]) fun hq _ => ?_]
    · exact hlive.2
    · obtain ⟨c, w, hw⟩ := exists_common hq htwins (hleaves hv hlive.1)
      exact (settled_of_common hconfig htwins hw).1
  have hstart : Twins (.moved fun o o' => o'.offset = o.offset) (Shares x y) (start first config)
      (start second config) := start_twins ⟨p, hfirst, by rw [hsecond]⟩
  obtain ⟨visited', l', hrun', hl', htwins, hitems⟩ := hrun.twins hl.1 hstart rfl
    (fun hv => hover (List.mem_append_left _ hv))
    (fun hv hrunv hscan hrunv' _ hq htwins =>
      meets_of_shares hrunv hrunv' hq htwins (hleaves (List.mem_append_left _ hv) hscan))
  obtain ⟨hitem, -⟩ := htwins.nextToken hl.1 hl' fun hq =>
    meets_of_shares hrun hrun' hq htwins (hleaves (by simp) hl.1)
  have hlive' : l'.Live := ⟨hl', hover (by simp) hrun hl hrun' hl' htwins⟩
  have hlen : visited'.length = visited.length := by
    simpa using hitems.length_eq.symm
  rw [hrun.take_items hl, ← hlen, hrun'.take_items hlive']
  refine Likeness.map_placed ?_
  rw [List.map_append, List.map_append]
  exact List.rel_append hitems (.cons hitem .nil)

/-- Two texts that part after a line opened a block. -/
def addingSample : Source := ⟨"first", "é\n\tb+=c"⟩

def negatingSample : Source := ⟨"second", "é\n\tb+\n  -'"⟩

theorem bounded_lookahead_addingSample :
    ((start negatingSample {}).items.take 3).map placed =
      [(.ok (.identifier "é"), 0), (.ok .newline, 2), (.ok .indent, 3)] := by
  have hstep : (start addingSample {}).steps[2]?.map (·.lexer.cursor.offset) = some 4 := by
    decide +kernel
  obtain ⟨s, hs, hpos⟩ := Option.map_eq_some_iff.1 hstep
  have hfirst : addingSample.chars = ['é', '\n', '\t', 'b', '+'] ++ ['=', 'c'] := by decide +kernel
  have hsecond : negatingSample.chars =
      ['é', '\n', '\t', 'b', '+'] ++ ['\n', ' ', ' ', '-', '\''] := by decide +kernel
  have hitems := bounded_lookahead hfirst hsecond {} hs
    (show _ = ['é', '\n', '\t'] ++ ['b', '+'] from rfl) (by decide) hpos
  rw [hitems]
  decide +kernel

end Lexer

end Offside
