import Mathlib.Data.List.TakeWhile
import Offside.Proofs.Lexer.TokenLanguage

/-!
# How far reading looks

Words, numerals and symbols hold no blank and no `#`, and a string holds no line feed. So what is
read is decided by the text up to such a character.

Results:
* `Lexeme.read_congr_line`: reading looks no further than the end of the line.
* `Lexeme.read_congr_tail`: what follows a lexeme matters only up to the next blank or `#`.
* `Lexeme.read_append_of_ok`, `Lexeme.read_content_append`: what can be put at the end of a line.
-/

namespace Offside

open Text

/-! ## Stops -/

/-- Is `c` a character that no word, numeral or symbol has, and that opens no string? -/
def isStop (c : Char) : Bool := isBlank c || c = '#'

/-- The code points of blanks, one by one. -/
def blankCodes : List Nat :=
  blankRanges.flatMap fun r => (List.range (r.2 - r.1 + 1)).map (r.1 + ·)

theorem toNat_mem_blankCodes {c : Char} (h : isBlank c = true) : c.toNat ∈ blankCodes := by
  have hsorted : Sorted blankRanges := by unfold Sorted; decide
  obtain ⟨r, hr, hlo, hhi⟩ := (inRanges_eq_true_iff hsorted).1 h
  refine List.mem_flatMap.2 ⟨r, hr, List.mem_map.2 ⟨c.toNat - r.1, ?_, ?_⟩⟩
  · rw [List.mem_range]; omega
  · omega

theorem isBlank_spec {c : Char} (h : isBlank c = true) :
    isAlphabetic c = false ∧ isNumeric c = false ∧ c.isDigit = false := by
  have hcodes : blankCodes.all (fun n => !inRanges n alphabeticRanges &&
      !inRanges n numericRanges && (n < 48 || 57 < n)) = true := by decide +kernel
  have hc := List.all_eq_true.1 hcodes _ (toNat_mem_blankCodes h)
  simp only [Bool.and_eq_true, Bool.not_eq_true', Bool.or_eq_true, decide_eq_true_eq] at hc
  refine ⟨hc.1.1, hc.1.2, ?_⟩
  cases hd : c.isDigit with
  | false => rfl
  | true =>
    have hrange : 48 ≤ c.toNat ∧ c.toNat ≤ 57 := by
      simpa [Char.isDigit, UInt32.le_iff_toNat_le] using hd
    omega

theorem isStop_spec {c : Char} (h : isStop c = true) :
    c.isDigit = false ∧ c ≠ '.' ∧ isQuote c = false ∧ isWordChar c = false := by
  have hc : isBlank c = true ∨ c = '#' := by simpa [isStop] using h
  rcases hc with hc | rfl
  · obtain ⟨ha, hn, hd⟩ := isBlank_spec hc
    have hne : ∀ d, isBlank d = false → c ≠ d := by
      rintro d hd rfl
      rw [hc] at hd; cases hd
    refine ⟨hd, hne '.' (by decide), ?_, ?_⟩
    · simp [isQuote, hne '"' (by decide), hne '\'' (by decide)]
    · simp [isWordChar, ha, hn, hne '_' (by decide)]
  · decide

theorem not_isStop_of_isDigit {x : Char} (h : x.isDigit = true) : isStop x = false := by
  cases hs : isStop x with
  | false => rfl
  | true => rw [(isStop_spec hs).1] at h; cases h

theorem not_isStop_of_isWordChar {x : Char} (h : isWordChar x = true) : isStop x = false := by
  cases hs : isStop x with
  | false => rfl
  | true => rw [(isStop_spec hs).2.2.2] at h; cases h

theorem Symbol.isStop_letters (s : Symbol) : ∀ x ∈ s.letters, isStop x = false := by
  have hall : s.letters.all (fun x => !isStop x) = true := by cases s <;> decide
  simpa using hall

theorem isStop_lineFeed : isStop '\n' = true := by decide

/-! ## Reading a text that is cut -/

section

-- A cut that loses nothing but what comes after a stop.
variable {keep : Char → Bool} (hkeep : ∀ x, keep x = false → isStop x = true) {cs : List Char}

include hkeep

theorem keep_of_not_isStop {x : Char} (h : isStop x = false) : keep x = true := by
  cases hx : keep x with
  | true => rfl
  | false => rw [hkeep x hx] at h; cases h

theorem takeWhile_cut {p : Char → Bool} (hp : ∀ x, p x = true → isStop x = false)
    (cs : List Char) : (cs.takeWhile keep).takeWhile p = cs.takeWhile p := by
  rw [List.takeWhile_takeWhile]
  congr 1
  funext x
  cases hx : p x with
  | false => simp
  | true => simp [keep_of_not_isStop hkeep (hp x hx)]

theorem isPrefix_cut_iff {text : List Char} (h : ∀ x ∈ text, isStop x = false) :
    text <+: cs.takeWhile keep ↔ text <+: cs := by
  constructor
  · exact fun hp => hp.trans (List.takeWhile_prefix keep)
  · rintro ⟨t, rfl⟩
    rw [List.takeWhile_append_of_pos fun x hx => keep_of_not_isStop hkeep (h x hx)]
    exact List.prefix_append _ _

theorem digitFollows_cut : Lexeme.digitFollows (cs.takeWhile keep) = Lexeme.digitFollows cs := by
  cases cs with
  | nil => rfl
  | cons d ds =>
    cases hd : keep d with
    | true => simp [hd, Lexeme.digitFollows]
    | false =>
      obtain ⟨hdigit, -⟩ := isStop_spec (hkeep d hd)
      simp [hd, Lexeme.digitFollows, hdigit]

theorem numeral_cut (cs : List Char) : Lexeme.numeral (cs.takeWhile keep) = Lexeme.numeral cs := by
  have hdigits := takeWhile_cut hkeep fun _ => not_isStop_of_isDigit
  have hwhole := hdigits cs
  obtain ⟨rest, hrest⟩ := List.takeWhile_prefix (l := cs) Char.isDigit
  have hall : ∀ x ∈ cs.takeWhile Char.isDigit, keep x = true := fun x hx =>
    keep_of_not_isStop hkeep (not_isStop_of_isDigit (List.mem_takeWhile_imp hx))
  generalize hw : cs.takeWhile Char.isDigit = whole at hrest hwhole hall
  subst hrest
  rw [List.takeWhile_append_of_pos hall] at hwhole ⊢
  unfold Lexeme.numeral
  simp only [hwhole, hw, List.drop_left]
  -- Only a point and a digit go on with the numeral, and neither is a stop.
  cases rest with
  | nil => rfl
  | cons c tail =>
    by_cases hc : c = '.'
    · subst hc
      have hpoint : keep '.' = true := keep_of_not_isStop hkeep (by decide)
      cases tail with
      | nil => simp [hpoint]
      | cons d ds =>
        cases hd : keep d with
        | false =>
          obtain ⟨hdigit, -⟩ := isStop_spec (hkeep d hd)
          simp [hpoint, hd, hdigit]
        | true =>
          have htail := hdigits (d :: ds)
          simp only [List.takeWhile_cons, hpoint, hd, if_true] at htail ⊢
          rw [htail]
    · have hother : ∀ d ds ds', c :: ds ≠ '.' :: d :: ds' := by
        intro d ds ds' h
        cases h; exact hc rfl
      cases hk : keep c with
      | false =>
        rw [List.takeWhile_cons_of_neg (by simp [hk])]
        split
        · next h => cases h
        · split
          · next h => exact absurd h (hother _ _ _)
          · rfl
      | true =>
        rw [List.takeWhile_cons_of_pos hk]
        split
        · next h => exact absurd h (hother _ _ _)
        · split
          · next h => exact absurd h (hother _ _ _)
          · rfl

theorem longest?_cut (cs : List Char) :
    Symbol.longest? (cs.takeWhile keep) = Symbol.longest? cs := by
  unfold Symbol.longest?
  congr 1
  funext s
  rw [Bool.eq_iff_iff, List.isPrefixOf_iff_prefix, List.isPrefixOf_iff_prefix]
  exact isPrefix_cut_iff hkeep s.isStop_letters

/-- Unless a string starts, reading takes nothing from beyond a stop. -/
theorem read_cut {c : Char} (hquote : isQuote c = false) (hraw : Lexeme.rawQuote? c cs = none) :
    Lexeme.read c (cs.takeWhile keep) = Lexeme.read c cs := by
  have hraw' : Lexeme.rawQuote? c (cs.takeWhile keep) = none := by
    cases cs with
    | nil => exact hraw
    | cons d ds =>
      simp only [Lexeme.rawQuote?] at hraw
      cases hd : keep d with
      | false => simp [hd, Lexeme.rawQuote?]
      | true => simpa [hd, Lexeme.rawQuote?] using hraw
  unfold Lexeme.read
  rw [digitFollows_cut hkeep, hraw, hraw']
  simp only [hquote, Bool.false_eq_true, if_false]
  have hcons : isStop c = false → (c :: cs).takeWhile keep = c :: cs.takeWhile keep := fun hc =>
    List.takeWhile_cons_of_pos (keep_of_not_isStop hkeep hc)
  split
  · next hn =>
    have hc : isStop c = false := by
      simp only [Bool.or_eq_true, Bool.and_eq_true, decide_eq_true_eq] at hn
      rcases hn with hn | ⟨rfl, -⟩
      · exact not_isStop_of_isDigit hn
      · decide
    unfold Lexeme.number
    rw [← numeral_cut hkeep (c :: cs), hcons hc]
  · split
    · next hw =>
      have hc := not_isStop_of_isWordChar (isWordChar_of_isWordStart hw)
      unfold Lexeme.word
      rw [← takeWhile_cut hkeep (fun _ => not_isStop_of_isWordChar) (c :: cs), hcons hc]
    · unfold Lexeme.symbol
      cases hs : isStop c with
      | false => rw [← longest?_cut hkeep (c :: cs), hcons hs]
      | true =>
        have hnone : ∀ ds, Symbol.longest? (c :: ds) = none := by
          intro ds
          cases hl : Symbol.longest? (c :: ds) with
          | none => rfl
          | some s =>
            obtain ⟨d, rest, hd⟩ := List.exists_cons_of_ne_nil s.letters_ne_nil
            have hp := Symbol.letters_isPrefix_of_longest? hl
            rw [hd] at hp
            have hstop := s.isStop_letters d (by simp [hd])
            rw [(List.cons_prefix_cons.1 hp).1, hs] at hstop; cases hstop
        rw [hnone, hnone]

end

/-! ## Strings -/

theorem body_cons {c : Char} (h : c ≠ '\\') (q : Char) (cs : List Char) :
    Lexeme.body q (c :: cs) = if c = q || c = '\n' then [] else c :: Lexeme.body q cs := by
  rw [Lexeme.body.eq_def]
  split <;> simp_all

theorem body_firstLine (q : Char) (cs : List Char) :
    Lexeme.body q (firstLine cs) = Lexeme.body q cs := by
  unfold firstLine
  fun_induction Lexeme.body q cs with
  | case1 => rfl
  | case2 => rfl
  | case3 cs => simp [Lexeme.body]
  | case4 c cs hc ih =>
    rw [List.takeWhile_cons_of_pos (by decide), List.takeWhile_cons_of_pos (by simpa using hc),
      Lexeme.body, if_neg hc, ih]
  | case5 c cs h1 h2 hc =>
    have hb : c ≠ '\\' := by
      rintro rfl
      cases cs with
      | nil => exact h1 rfl rfl
      | cons d ds => exact h2 d ds rfl rfl
    by_cases hn : c = '\n'
    · simp [hn, Lexeme.body]
    · rw [List.takeWhile_cons_of_pos (by simpa using hn), body_cons hb, if_pos hc]
  | case6 c cs h1 h2 hc ih =>
    have hb : c ≠ '\\' := by
      rintro rfl
      cases cs with
      | nil => exact h1 rfl rfl
      | cons d ds => exact h2 d ds rfl rfl
    have hn : c ≠ '\n' := by
      rintro rfl
      simp at hc
    rw [List.takeWhile_cons_of_pos (by simpa using hn), body_cons hb, if_neg hc, ih]

theorem string_firstLine (raw : Bool) (opening : List Char) {q : Char} (hq : isQuote q = true)
    (cs : List Char) :
    Lexeme.string raw opening q (firstLine cs) = Lexeme.string raw opening q cs := by
  have hn : q ≠ '\n' := (isQuote_spec hq).2.1
  obtain ⟨rest, hrest⟩ := Lexeme.body_isPrefix q cs
  have hbody := body_firstLine q cs
  have hpre := Lexeme.body_isPrefix q (firstLine cs)
  rw [hbody] at hpre
  have hfeed : '\n' ∉ Lexeme.body q cs := fun hmem => by
    simpa using List.mem_takeWhile_imp (hpre.subset hmem)
  have hhead : ((firstLine cs).drop (Lexeme.body q cs).length).head? = some q ↔
      (cs.drop (Lexeme.body q cs).length).head? = some q := by
    generalize Lexeme.body q cs = text at *
    subst hrest
    rw [firstLine_append hfeed, List.drop_left, List.drop_left]
    cases rest with
    | nil => rfl
    | cons d ds =>
      by_cases hd : d = '\n'
      · simp [hd, firstLine, Ne.symm hn]
      · simp [hd, firstLine]
  unfold Lexeme.string
  simp only [hbody, hhead]

namespace Lexeme

theorem not_string_of_number {c : Char} {cs : List Char}
    (h : (c.isDigit || (c = '.' && digitFollows cs)) = true) :
    isQuote c = false ∧ rawQuote? c cs = none := by
  have hc : c.isDigit = true ∨ c = '.' := by
    simp only [Bool.or_eq_true, Bool.and_eq_true, decide_eq_true_eq] at h
    exact h.imp id And.left
  constructor
  · cases hq : isQuote c with
    | false => rfl
    | true =>
      obtain ⟨-, -, hpoint, -, hdigit, -⟩ := isQuote_spec hq
      rcases hc with hc | hc
      · rw [hdigit] at hc; cases hc
      · exact absurd hc hpoint
  · cases hraw : rawQuote? c cs with
    | none => rfl
    | some x =>
      obtain ⟨rfl, -⟩ := rawQuote?_eq_some hraw
      rcases hc with hc | hc <;> exact absurd hc (by decide)

theorem read_quote {c : Char} (hq : isQuote c = true) (cs : List Char) :
    read c cs = string false [c] c cs := by
  unfold read
  rw [if_neg, if_pos hq]
  intro hn
  rw [(not_string_of_number hn).1] at hq; cases hq

theorem read_rawQuote {q : Char} (hq : isQuote q = true) (qs : List Char) :
    read 'r' (q :: qs) = string true ['r', q] q qs := by
  have hraw : rawQuote? 'r' (q :: qs) = some (q, qs) := by simp [rawQuote?, hq]
  unfold read
  rw [if_neg, if_neg (by decide), hraw]
  intro hn
  rw [(not_string_of_number hn).2] at hraw; cases hraw

theorem string_start_cases (c : Char) (cs : List Char) :
    isQuote c = true ∨ (∃ q qs, c = 'r' ∧ cs = q :: qs ∧ isQuote q = true) ∨
      isQuote c = false ∧ rawQuote? c cs = none := by
  cases hq : isQuote c with
  | true => exact Or.inl rfl
  | false =>
    cases hraw : rawQuote? c cs with
    | none => exact Or.inr (Or.inr ⟨rfl, rfl⟩)
    | some x =>
      obtain ⟨rfl, hq', rfl⟩ := rawQuote?_eq_some hraw
      exact Or.inr (Or.inl ⟨x.1, x.2, rfl, rfl, hq'⟩)

theorem read_firstLine (c : Char) (cs : List Char) : read c (firstLine cs) = read c cs := by
  rcases string_start_cases c cs with hq | ⟨q, qs, rfl, rfl, hq⟩ | ⟨hq, hraw⟩
  · rw [read_quote hq, read_quote hq, string_firstLine false [c] hq]
  · have hline : firstLine (q :: qs) = q :: firstLine qs :=
      List.takeWhile_cons_of_pos (by simpa using (isQuote_spec hq).2.1)
    rw [hline, read_rawQuote hq, read_rawQuote hq, string_firstLine true ['r', q] hq]
  · refine read_cut ?_ hq hraw
    intro x hx
    obtain rfl : x = '\n' := by simpa using hx
    exact isStop_lineFeed

/-- Reading looks no further than the end of the line. -/
theorem read_congr_line {c : Char} {cs cs' : List Char} (h : firstLine cs = firstLine cs') :
    read c cs = read c cs' := by
  rw [← read_firstLine c cs, h, read_firstLine]

theorem lineFeed_notMem_read {c : Char} (hc : c ≠ '\n') (cs : List Char) :
    '\n' ∉ (read c cs).text := by
  intro hmem
  rw [← read_firstLine] at hmem
  rcases List.mem_cons.1 ((read_isPrefix c (firstLine cs)).subset hmem) with h | h
  · exact hc h.symm
  · simpa using List.mem_takeWhile_imp h

/-- The text up to the next stop. -/
def upToStop (cs : List Char) : List Char := cs.takeWhile fun x => !isStop x

/-- What is read of a text that starts no string is the same when the text is cut at a stop. -/
theorem read_upToStop {c : Char} {cs : List Char} (hquote : isQuote c = false)
    (hraw : rawQuote? c cs = none) : read c (upToStop cs) = read c cs :=
  read_cut (fun _ hx => by simpa using hx) hquote hraw

theorem rawQuote?_eq_none_iff {c : Char} {cs : List Char} :
    rawQuote? c cs = none ↔ c = 'r' → (upToStop cs).head?.any isQuote = false := by
  cases cs with
  | nil => simp [rawQuote?, upToStop]
  | cons d ds =>
    cases hd : isStop d with
    | true =>
      obtain ⟨-, -, hquote, -⟩ := isStop_spec hd
      simp [rawQuote?, upToStop, hd, hquote]
    | false => simp [rawQuote?, upToStop, hd]

/-- What follows a lexeme matters only up to the next stop. -/
theorem read_congr_tail {c : Char} {a rest rest' : List Char} {content : Token.Content}
    (hok : (read c (a ++ rest)).content = .ok content)
    (htext : (read c (a ++ rest)).text = c :: a) (h : upToStop rest = upToStop rest') :
    read c (a ++ rest') = read c (a ++ rest) := by
  rcases string_start_cases c (a ++ rest) with hq | ⟨q, qs, rfl, hqs, hq⟩ | ⟨hq, hraw⟩
  · -- A string is over where its closing quote stands.
    rw [read_quote hq] at hok htext ⊢
    rw [read_quote hq]
    obtain ⟨hb, htext', -⟩ := string_ok hq hok
    have ha : a = body c (a ++ rest) ++ [c] := by
      rw [htext] at htext'
      simpa using htext'
    generalize body c (a ++ rest) = b at hb ha
    subst ha
    simp only [List.append_assoc, List.singleton_append, string_of_isBody false [c] hq hb]
  · rw [hqs, read_rawQuote hq] at hok htext
    obtain ⟨hb, htext', -⟩ := string_ok hq hok
    have ha : a = q :: (body q qs ++ [q]) := by
      rw [htext] at htext'
      simpa using htext'
    generalize body q qs = b at hb ha
    subst ha
    simp only [List.cons_append, List.append_assoc, List.nil_append, read_rawQuote hq,
      string_of_isBody true ['r', q] hq hb]
  · have ha : ∀ x ∈ a, isStop x = false := by
      have hpre := read_isPrefix c (upToStop (a ++ rest))
      rw [read_upToStop hq hraw, htext] at hpre
      intro x hx
      simpa using List.mem_takeWhile_imp ((List.cons_prefix_cons.1 hpre).2.subset hx)
    have hcut : upToStop (a ++ rest') = upToStop (a ++ rest) := by
      unfold upToStop at h ⊢
      rw [List.takeWhile_append_of_pos (by simpa using ha),
        List.takeWhile_append_of_pos (by simpa using ha), h]
    have hraw' : rawQuote? c (a ++ rest') = none := by
      rw [rawQuote?_eq_none_iff, hcut, ← rawQuote?_eq_none_iff]; exact hraw
    rw [← read_upToStop hq hraw', hcut, read_upToStop hq hraw]

/-! ## Lines that go on -/

theorem upToStop_append {pad : List Char} (hpad : upToStop pad = []) (line : List Char) :
    upToStop (line ++ pad) = upToStop line := by
  unfold upToStop at hpad ⊢
  rw [List.takeWhile_append, hpad, List.append_nil]
  split
  · next h => exact ((List.takeWhile_prefix _).eq_of_length h).symm
  · rfl

theorem upToStop_of_isBlank {pad : List Char} (hpad : ∀ x ∈ pad, isBlank x = true) :
    upToStop pad = [] := by
  cases pad with
  | nil => rfl
  | cons x pad => exact List.takeWhile_cons_of_neg (by simp [isStop, hpad x List.mem_cons_self])

/-- A token stays when a stop is put after its line. -/
theorem read_append_of_ok {c : Char} {line pad : List Char} {content : Token.Content}
    (hok : (read c line).content = .ok content) (hpad : upToStop pad = []) :
    read c (line ++ pad) = read c line := by
  obtain ⟨rest, hrest⟩ := read_isPrefix c line
  obtain ⟨d, a, ha⟩ := List.exists_cons_of_ne_nil (read_ne_nil hok)
  have hsplit := hrest
  rw [ha, List.cons_append, List.cons.injEq] at hsplit
  obtain ⟨rfl, rfl⟩ := hsplit
  rw [List.append_assoc]
  exact read_congr_tail hok ha (upToStop_append hpad rest).symm

/-- The strings that are read: a body, then the quote that closes it. -/
theorem string_content_ok_iff {raw : Bool} {opening cs : List Char} {q : Char}
    {content : Token.Content} (hq : isQuote q = true) :
    (string raw opening q cs).content = .ok content ↔
      ∃ b rest, IsBody q b ∧ cs = b ++ q :: rest ∧
        content = .string (String.ofList (if raw then b else unescape b)) := by
  constructor
  · intro hok
    obtain ⟨hb, htext, hcontent⟩ := string_ok hq hok
    have hpre := string_isPrefix raw opening q cs
    rw [htext, List.append_assoc, List.prefix_append_right_inj] at hpre
    obtain ⟨rest, hrest⟩ := hpre
    exact ⟨body q cs, rest, hb, by simpa using hrest.symm, hcontent⟩
  · rintro ⟨b, rest, hb, rfl, rfl⟩
    rw [string_of_isBody raw opening hq hb]

/-- Blanks neither close a string nor open it again. -/
theorem string_content_append {raw : Bool} {opening line pad : List Char} {q : Char}
    (hq : isQuote q = true) (hpad : ∀ x ∈ pad, isBlank x = true) :
    (string raw opening q (line ++ pad)).content = (string raw opening q line).content := by
  cases hline : (string raw opening q line).content with
  | ok content =>
    obtain ⟨b, rest, hb, rfl, hcontent⟩ := (string_content_ok_iff hq).1 hline
    exact (string_content_ok_iff hq).2 ⟨b, rest ++ pad, hb, by simp, hcontent⟩
  | error cause =>
    cases hall : (string raw opening q (line ++ pad)).content with
    | error cause' => rw [string_error hline, string_error hall]
    | ok content =>
      obtain ⟨b, rest, hb, hsplit, hcontent⟩ := (string_content_ok_iff hq).1 hall
      rcases append_eq_append_cons hsplit with ⟨rest', rfl, -⟩ | ⟨a, -, hmem⟩
      · rw [(string_content_ok_iff hq).2 ⟨b, rest', hb, rfl, hcontent⟩] at hline
        cases hline
      · have hblank := hpad q (by rw [hmem]; simp)
        rcases eq_or_eq_of_isQuote hq with rfl | rfl <;> cases hblank

/-- Blanks after a line change nothing that is read on it, be it a token or an error. -/
theorem read_content_append {c : Char} {line pad : List Char}
    (hpad : ∀ x ∈ pad, isBlank x = true) :
    (read c (line ++ pad)).content = (read c line).content := by
  have hstop := upToStop_of_isBlank hpad
  rcases string_start_cases c line with hq | ⟨q, qs, rfl, rfl, hq⟩ | ⟨hq, hraw⟩
  · rw [read_quote hq, read_quote hq, string_content_append hq hpad]
  · rw [List.cons_append, read_rawQuote hq, read_rawQuote hq, string_content_append hq hpad]
  · have hraw' : rawQuote? c (line ++ pad) = none := by
      rw [rawQuote?_eq_none_iff, upToStop_append hstop, ← rawQuote?_eq_none_iff]; exact hraw
    rw [← read_upToStop hq hraw', upToStop_append hstop, read_upToStop hq hraw]

end Lexeme

end Offside
