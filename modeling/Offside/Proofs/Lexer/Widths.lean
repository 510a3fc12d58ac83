import Offside.Proofs.Lexer.Grammar
import Offside.Proofs.Lexer.OffsideRule

/-!
# Widths that leave the words

A width is a 64-bit word and a column is not bounded. A tab may be as wide as a word can say, so two
blanks are enough to leave the words. A step that leaves them panics, so a run of blanks is measured
exactly if its columns fit, and otherwise not at all.

Results:
* `Config.eachStepExact_iff`: all steps of a run of blanks.
* `Config.columns_le`: how wide a run of blanks can be.
* `Lexer.nextToken?_eq_none_iff`, `Lexer.tokenize_eq_none_iff`: the calls and the sources that
  panic.
* `Lexer.Run.measured_columns`: the lines of a source.
* `Config.measured_exactly_iff`: when measuring is exact.
* `Lexer.indentation_overflows`: two tabs that cannot be measured.
-/

namespace Offside

open Text

namespace Config

/-- Each step through `blanks` returns a greater width, which is that of unbounded columns. -/
def EachStepExact (config : Config) (blanks : List Char) : Prop :=
  ∀ before c, before ++ [c] <+: blanks → ∃ width next, config.width? before = some width ∧
    config.advance? width c = some next ∧ width < next ∧
      next.toNat = config.column width.toNat c

theorem column_le (config : Config) (n : Nat) (c : Char) :
    config.column n c ≤ n + max 1 config.tabWidth.toNat := by
  simp only [column]
  split
  · have hdiv := Nat.div_mul_le_self n config.tabWidth.toNat
    rw [Nat.add_mul, Nat.one_mul]; omega
  · omega

theorem columns_snoc (config : Config) (blanks : List Char) (c : Char) :
    config.columns (blanks ++ [c]) = config.column (config.columns blanks) c := by
  simp [columns]

theorem columns_append_le (config : Config) (blanks more : List Char) :
    config.columns blanks ≤ config.columns (blanks ++ more) := by
  rw [columns, columns, List.foldl_append]
  exact config.le_foldl_column more _

/-- No step leaves the words exactly if the last does not, the columns only ever growing. -/
theorem eachStepExact_iff {config : Config} {blanks : List Char} :
    config.EachStepExact blanks ↔ config.columns blanks < UInt64.size := by
  constructor
  · intro h
    rcases List.eq_nil_or_concat blanks with rfl | ⟨front, c, rfl⟩
    · exact show 0 < UInt64.size by decide
    · rw [List.concat_eq_append] at h ⊢
      obtain ⟨width, next, hwidth, -, -, hnext⟩ := h front c List.prefix_rfl
      rw [columns_snoc, ← width?_eq_some_iff.1 hwidth, ← hnext]
      exact UInt64.toNat_lt_size next
  · rintro h before c ⟨rest, rfl⟩
    have hstep := Nat.lt_of_le_of_lt (config.columns_append_le (before ++ [c]) rest) h
    obtain ⟨width, hwidth, hcolumns⟩ := Option.map_eq_some_iff.1
      (width?_of_fits (Nat.lt_of_le_of_lt (config.columns_append_le before [c]) hstep))
    rw [columns_snoc, ← hcolumns] at hstep
    have hnext : (UInt64.ofNat (config.column width.toNat c)).toNat =
        config.column width.toNat c := UInt64.toNat_ofNat_of_lt hstep
    refine ⟨width, _, hwidth, advance?_eq_some_iff.2 hnext, ?_, hnext⟩
    rw [UInt64.lt_iff_toNat_lt, hnext]
    exact config.lt_column width.toNat c

/-- There are at most as many columns as if every blank were a whole tab. -/
theorem columns_le (config : Config) (blanks : List Char) :
    config.columns blanks ≤ blanks.length * max 1 config.tabWidth.toNat := by
  induction blanks using List.reverseRecOn with
  | nil => exact Nat.zero_le _
  | append_singleton blanks c ih =>
    have hstep := config.column_le (config.columns blanks) c
    rw [columns_snoc, List.length_append, List.length_singleton, Nat.add_mul, Nat.one_mul]
    omega

end Config

/-! ## The lines of a source -/

namespace Lexer

theorem nextToken?_eq_none {l : Lexer} : l.nextToken? = none ↔ l.overflows = true := by
  unfold nextToken?
  cases l.overflows <;> simp

/-- A call panics exactly if it looks for a line, and the indentation of one of those that it looks
at leaves the words. -/
theorem nextToken?_eq_none_iff {l : Lexer} :
    l.nextToken? = none ↔ l.phase = .scanning ∧ l.pending = [] ∧ l.atLineStart = true ∧
      ∃ line ∈ l.leading.splitOn '\n', UInt64.size ≤ l.config.columns (indentation line) := by
  rw [nextToken?_eq_none, overflows_eq_true]
  refine and_congr_right fun _ => and_congr_right fun _ => and_congr_right fun hs => ?_
  rw [leading_eq_skipped hs]

section

variable {source : Source} {config : Config} {visited : List Lexer} {l : Lexer}

theorem tokenize_eq_none_iff :
    tokenize source config = none ↔
      ∃ visited l, Run (start source config) visited l ∧ l.nextToken? = none := by
  simp only [nextToken?_eq_none]
  constructor
  · intro h
    obtain ⟨visited, l, hrun, hover, -⟩ := exists_run_of_tokenize_none h
    exact ⟨visited, l, hrun, hover⟩
  · rintro ⟨visited, l, hrun, hover⟩
    simp [tokenize, (hrun.steps_of_overflows hover).2]

/-- The width of a line that a call compares with the blocks is exact. -/
theorem Run.measured_columns {line : Line} (h : Run (start source config) visited l)
    (hline : l.measured? = some line) :
    ∃ before blanks rest, source.chars = before ++ blanks ++ rest ∧
      line.start = byteLength before ∧ (∀ x ∈ blanks, isBlank x = true) ∧
      line.width = config.columns blanks ∧ config.columns blanks < UInt64.size := by
  obtain ⟨⟨before, blanks, c, rest, htext, -, -, hblank, -, hstart, hmeasured, hwidth⟩, -⟩ :=
    h.isLine hline
  obtain ⟨width, -, hword⟩ := Option.map_eq_some_iff.1 hmeasured
  refine ⟨before, blanks, c :: rest, htext, hstart, hblank, hwidth, ?_⟩
  rw [← hwidth, ← hword]
  exact UInt64.toNat_lt_size width

end

end Lexer

/-- **Exact widths.** Every step through a run of blanks returns a greater width, that of unbounded
columns, exactly if the columns of the whole run fit in a word; then these are its width, and
otherwise measuring it panics. There are at most as many columns as if every blank were a whole tab.
A call of a lexer panics exactly if it looks for a line and one of those that it looks at does not
fit; the line that it compares with the blocks has an exact width. A source panics exactly if one of
its calls does, and some line of it does not fit then. -/
theorem Config.measured_exactly_iff (config : Config) (blanks : List Char) :
    (config.EachStepExact blanks ↔ config.columns blanks < UInt64.size) ∧
    (∀ width, config.width? blanks = some width ↔ width.toNat = config.columns blanks) ∧
    (config.width? blanks = none ↔ UInt64.size ≤ config.columns blanks) ∧
    config.columns blanks ≤ blanks.length * max 1 config.tabWidth.toNat ∧
    ∀ source : Source,
      (∀ visited l, Lexer.Run (Lexer.start source config) visited l →
        (l.nextToken? = none ↔ l.phase = .scanning ∧ l.pending = [] ∧ l.atLineStart = true ∧
          ∃ line ∈ l.leading.splitOn '\n', UInt64.size ≤ config.columns (indentation line)) ∧
        ∀ line, l.measured? = some line →
          ∃ before blanks rest, source.chars = before ++ blanks ++ rest ∧
            line.start = byteLength before ∧ (∀ x ∈ blanks, isBlank x = true) ∧
            line.width = config.columns blanks ∧ config.columns blanks < UInt64.size) ∧
      (tokenize source config = none ↔
        ∃ visited l, Lexer.Run (Lexer.start source config) visited l ∧ l.nextToken? = none) ∧
      (tokenize source config = none →
        ∃ line ∈ source.chars.splitOn '\n', UInt64.size ≤ config.columns (indentation line)) := by
  refine ⟨eachStepExact_iff, fun _ => width?_eq_some_iff, width?_eq_none_iff,
    config.columns_le blanks, fun source => ⟨fun visited l hrun => ⟨?_, fun _ => ?_⟩,
      Lexer.tokenize_eq_none_iff, fun hnone => ?_⟩⟩
  · rw [Lexer.nextToken?_eq_none_iff, show l.config = config from hrun.config]
  · exact hrun.measured_columns
  · obtain ⟨visited, l, hrun, hover, -⟩ := Lexer.exists_run_of_tokenize_none hnone
    exact Lexer.exists_wide_line (hrun.steps_of_overflows hover).2

namespace Lexer

/-- A line two tabs deep. -/
def deepSample : Source := ⟨"sample", "\t\ta"⟩

/-- The second tab leaves the words and the lexer panics, while the same line opens a block where
tabs are narrower. -/
theorem indentation_overflows :
    halfWordTabs.columns ['\t', '\t'] = UInt64.size ∧
      halfWordTabs.width? ['\t'] = some 0x8000000000000000 ∧
      halfWordTabs.advance? 0x8000000000000000 '\t' = none ∧
      tokenize deepSample halfWordTabs = none ∧
      ((tokenize deepSample {}).map fun r => r.map (·.map Token.content)) =
        some (.ok [.indent, .identifier "a", .dedent, .endOfInput]) := by
  decide +kernel

end Lexer

end Offside
