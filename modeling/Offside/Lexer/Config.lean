import Offside.Text.Written

/-!
# Settings of a lexer

The width of indentation is measured in 64-bit words: a tab moves to the next multiple of the tab
width, any other blank by one column. Each sum and each product is checked. One that leaves the
words panics, here written `none`.

Results:
* `Config.advance?_eq_some_iff`: a blank moves the width as it moves an unbounded column, or panics.
* `Config.width?_eq_some_iff`, `Config.width?_eq_none_iff`: so does a run of blanks, and it panics
  exactly if its columns leave the words.
-/

namespace Offside

namespace Word

/-- The sum, unless it leaves the words. -/
def add? (a b : UInt64) : Option UInt64 :=
  if a.toBitVec.uaddOverflow b.toBitVec then none else some (a + b)

/-- The product, unless it leaves the words. -/
def mul? (a b : UInt64) : Option UInt64 :=
  if a.toBitVec.umulOverflow b.toBitVec then none else some (a * b)

theorem add?_eq_some_iff {a b v : UInt64} : add? a b = some v ↔ v.toNat = a.toNat + b.toNat := by
  have hv := UInt64.toNat_lt_size v
  simp only [add?, BitVec.uaddOverflow, UInt64.toNat_toBitVec, ge_iff_le, decide_eq_true_eq]
  split
  · next hle => exact iff_of_false (by simp) (by simp only [UInt64.size] at hv; omega)
  · next hlt =>
    rw [Option.some.injEq, ← UInt64.toNat_inj, UInt64.toNat_add, Nat.mod_eq_of_lt (by omega)]
    exact eq_comm

theorem mul?_eq_some_iff {a b v : UInt64} : mul? a b = some v ↔ v.toNat = a.toNat * b.toNat := by
  have hv := UInt64.toNat_lt_size v
  simp only [mul?, BitVec.umulOverflow, UInt64.toNat_toBitVec, ge_iff_le, decide_eq_true_eq]
  split
  · next hle => exact iff_of_false (by simp) (by simp only [UInt64.size] at hv; omega)
  · next hlt =>
    rw [Option.some.injEq, ← UInt64.toNat_inj, UInt64.toNat_mul, Nat.mod_eq_of_lt (by omega)]
    exact eq_comm

end Word

/-- Settings of a lexer. -/
structure Config where
  /-- A tab moves to the next multiple of this width; 0 and 1 count a tab as one column. -/
  tabWidth : UInt64 := 8
  /-- Are line feeds inside brackets blank? -/
  joinsLines : Bool := true
  /-- Does `#` start a comment? -/
  comments : Bool := true
  deriving DecidableEq

namespace Config

/-- Every blank is one column, there are no comments, and brackets do not join lines. -/
def strict : Config := ⟨1, false, false⟩

/-- The width after a blank `c` at `width`. -/
def advance? (config : Config) (width : UInt64) (c : Char) : Option UInt64 :=
  if c = '\t' ∧ 1 < config.tabWidth then
    (Word.add? (width / config.tabWidth) 1).bind (Word.mul? · config.tabWidth)
  else Word.add? width 1

/-- The width of a run of blanks. -/
def width? (config : Config) (blanks : List Char) : Option UInt64 :=
  blanks.foldlM config.advance? 0

/-- The column after a blank `c` at `column`, columns unbounded. -/
def column (config : Config) (column : Nat) (c : Char) : Nat :=
  let tab := config.tabWidth.toNat
  if c = '\t' ∧ 1 < tab then (column / tab + 1) * tab else column + 1

/-- The width of a run of blanks, columns unbounded. -/
def columns (config : Config) (blanks : List Char) : Nat := blanks.foldl config.column 0

def inspect (config : Config) : String :=
  Text.record "LexerConfig"
    [("tab_width", toString config.tabWidth.toNat),
     ("bracket_continuation", toString config.joinsLines),
     ("comments", toString config.comments)]

@[simp] theorem columns_nil (config : Config) : config.columns [] = 0 := rfl

theorem lt_column (config : Config) (n : Nat) (c : Char) : n < config.column n c := by
  simp only [column]
  split
  · next h => rw [Nat.mul_comm]; exact Nat.lt_mul_div_succ n (by omega)
  · exact Nat.lt_succ_self n

theorem le_foldl_column (config : Config) (blanks : List Char) (n : Nat) :
    n ≤ blanks.foldl config.column n := by
  induction blanks generalizing n with
  | nil => exact Nat.le_refl n
  | cons c cs ih => exact Nat.le_trans (Nat.le_of_lt (config.lt_column n c)) (ih _)

/-- The number of tab stops fits whenever the column they lead to does, so both checks of a tab come
down to one. -/
theorem advance?_eq_some_iff {config : Config} {width v : UInt64} {c : Char} :
    config.advance? width c = some v ↔ v.toNat = config.column width.toNat c := by
  have hv := UInt64.toNat_lt_size v
  simp only [advance?, column, UInt64.lt_iff_toNat_lt, UInt64.toNat_one]
  split
  · next htab =>
    rw [Option.bind_eq_some_iff]
    constructor
    · rintro ⟨stops, hstops, hmul⟩
      rw [Word.add?_eq_some_iff, UInt64.toNat_div, UInt64.toNat_one] at hstops
      rw [Word.mul?_eq_some_iff.1 hmul, hstops]
    · intro hcol
      have hle := Nat.le_mul_of_pos_right (width.toNat / config.tabWidth.toNat + 1)
        (Nat.lt_trans Nat.zero_lt_one htab.2)
      have hstops : (UInt64.ofNat (width.toNat / config.tabWidth.toNat + 1)).toNat =
          width.toNat / config.tabWidth.toNat + 1 := UInt64.toNat_ofNat_of_lt (by omega)
      exact ⟨_, Word.add?_eq_some_iff.2 (by rw [hstops, UInt64.toNat_div, UInt64.toNat_one]),
        Word.mul?_eq_some_iff.2 (by rw [hstops, hcol])⟩
  · rw [Word.add?_eq_some_iff, UInt64.toNat_one]

theorem foldlM_advance?_eq_some_iff {config : Config} {blanks : List Char} {w v : UInt64} :
    blanks.foldlM config.advance? w = some v ↔ v.toNat = blanks.foldl config.column w.toNat := by
  induction blanks generalizing w with
  | nil =>
    rw [List.foldlM_nil, Option.pure_def, Option.some.injEq, ← UInt64.toNat_inj]
    exact eq_comm
  | cons c cs ih =>
    simp only [List.foldlM_cons, Option.bind_eq_bind, Option.bind_eq_some_iff, ih, List.foldl_cons,
      advance?_eq_some_iff]
    constructor
    · rintro ⟨u, hu, hv⟩
      rw [hv, hu]
    · intro hv
      -- The columns only grow, so the one after `c` fits as the last does.
      have hle := config.le_foldl_column cs (config.column w.toNat c)
      have hlt := UInt64.toNat_lt_size v
      have hu : (UInt64.ofNat (config.column w.toNat c)).toNat = config.column w.toNat c :=
        UInt64.toNat_ofNat_of_lt (by omega)
      exact ⟨_, hu, by rw [hu, hv]⟩

theorem width?_eq_some_iff {config : Config} {blanks : List Char} {width : UInt64} :
    config.width? blanks = some width ↔ width.toNat = config.columns blanks :=
  foldlM_advance?_eq_some_iff

theorem width?_of_fits {config : Config} {blanks : List Char}
    (h : config.columns blanks < UInt64.size) :
    (config.width? blanks).map UInt64.toNat = some (config.columns blanks) := by
  have hv : (UInt64.ofNat (config.columns blanks)).toNat = config.columns blanks :=
    UInt64.toNat_ofNat_of_lt h
  rw [width?_eq_some_iff.2 hv, Option.map_some, hv]

/-- Measuring panics exactly if the columns leave the words. -/
theorem width?_eq_none_iff {config : Config} {blanks : List Char} :
    config.width? blanks = none ↔ UInt64.size ≤ config.columns blanks := by
  rw [Option.eq_none_iff_forall_ne_some]
  simp only [ne_eq, width?_eq_some_iff]
  constructor
  · intro h
    refine Nat.le_of_not_lt fun hlt => h (.ofNat (config.columns blanks)) ?_
    exact UInt64.toNat_ofNat_of_lt hlt
  · intro h w hw
    exact absurd (UInt64.toNat_lt_size w) (by omega)

end Config

end Offside
