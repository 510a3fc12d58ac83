import Offside.Text.Classes

/-!
# Bytes and lines of a text

Offsets, columns and lengths are counted in the bytes of the UTF-8 encoding. A text is a list of
characters here, so an offset is a character boundary exactly when it is the size of a prefix.

A line feed ends a line. A carriage return before it belongs to the ending and not to the line.

Results:
* `takeBytes_isPrefix`, `byteLength_takeBytes_le`: `takeBytes n` is a prefix of at most `n` bytes.
* `isPrefix_takeBytes`: no prefix of at most `n` bytes is longer.
* `takeBytes_byteLength_append`: cutting at the size of a prefix gives that prefix back.
-/

namespace Offside.Text

/-! ## Bytes -/

/-- The number of bytes of the UTF-8 encoding. -/
def byteLength : List Char → Nat
  | [] => 0
  | c :: cs => c.utf8Size + byteLength cs

/-- The longest prefix of at most `n` bytes. -/
def takeBytes (n : Nat) : List Char → List Char
  | [] => []
  | c :: cs => if c.utf8Size ≤ n then c :: takeBytes (n - c.utf8Size) cs else []

@[simp] theorem byteLength_nil : byteLength [] = 0 := rfl

@[simp] theorem byteLength_cons (c : Char) (cs : List Char) :
    byteLength (c :: cs) = c.utf8Size + byteLength cs := rfl

@[simp] theorem byteLength_append (a b : List Char) :
    byteLength (a ++ b) = byteLength a + byteLength b := by
  induction a with
  | nil => simp
  | cons c cs ih => simp [ih, Nat.add_assoc]

theorem length_le_byteLength (cs : List Char) : cs.length ≤ byteLength cs := by
  induction cs with
  | nil => simp
  | cons c cs ih => have := c.utf8Size_pos; simp; omega

theorem takeBytes_isPrefix (n : Nat) (cs : List Char) : takeBytes n cs <+: cs := by
  induction cs generalizing n with
  | nil => simp [takeBytes]
  | cons c cs ih =>
    rw [takeBytes]; split
    · exact (List.prefix_cons_inj c).2 (ih _)
    · exact List.nil_prefix

theorem byteLength_takeBytes_le (n : Nat) (cs : List Char) : byteLength (takeBytes n cs) ≤ n := by
  induction cs generalizing n with
  | nil => simp [takeBytes]
  | cons c cs ih =>
    rw [takeBytes]; split
    · have := ih (n - c.utf8Size); simp; omega
    · simp

theorem isPrefix_takeBytes {n : Nat} {p cs : List Char} (hp : p <+: cs) (hn : byteLength p ≤ n) :
    p <+: takeBytes n cs := by
  induction cs generalizing n p with
  | nil => simpa [takeBytes] using hp
  | cons c cs ih =>
    cases p with
    | nil => exact List.nil_prefix
    | cons d p =>
      obtain ⟨rfl, hcs⟩ := List.cons_prefix_cons.1 hp
      simp only [byteLength_cons] at hn
      rw [takeBytes, if_pos (by omega)]
      exact (List.prefix_cons_inj d).2 (ih hcs (by omega))

theorem takeBytes_byteLength_append (p cs : List Char) :
    takeBytes (byteLength p) (p ++ cs) = p := by
  induction p with
  | nil =>
    cases cs with
    | nil => rfl
    | cons c cs => have := c.utf8Size_pos; simp [takeBytes]; omega
  | cons c p ih => simp [takeBytes, ih]

theorem takeBytes_append (p cs : List Char) (n : Nat) :
    takeBytes (n + byteLength p) (p ++ cs) = p ++ takeBytes n cs := by
  induction p with
  | nil => rfl
  | cons c p ih =>
    rw [byteLength_cons, List.cons_append, takeBytes, if_pos (by omega), List.cons_append, ← ih]
    congr 2
    omega

theorem byteLength_spaces (n : Nat) : byteLength (List.replicate n ' ') = n := by
  induction n with
  | zero => rfl
  | succ n ih => rw [List.replicate_succ, byteLength_cons, ih, Nat.add_comm]; rfl

/-! ## Lines -/

/-- What comes before the first line feed. -/
def firstLine (cs : List Char) : List Char := cs.takeWhile (· ≠ '\n')

/-- What comes after the last line feed. -/
def lastLine (cs : List Char) : List Char := (cs.reverse.takeWhile (· ≠ '\n')).reverse

/-- The blanks a line starts with. -/
def indentation (line : List Char) : List Char := line.takeWhile isBlank

/-- A line without the carriage return it may end in. -/
def dropReturn (line : List Char) : List Char :=
  if line.getLast? = some '\r' then line.dropLast else line

theorem lastLine_append_of_notMem {a b : List Char} (h : '\n' ∉ b) :
    lastLine (a ++ '\n' :: b) = b := by
  simp only [lastLine, List.reverse_append, List.reverse_cons, List.append_assoc,
    List.singleton_append]
  rw [List.takeWhile_append_of_pos (by intro c hc; simp at hc; simp; rintro rfl; exact h hc)]
  simp

theorem lastLine_of_notMem {b : List Char} (h : '\n' ∉ b) : lastLine b = b := by
  have whole : (b.reverse ++ []).takeWhile (· ≠ '\n') = b.reverse ++ [].takeWhile (· ≠ '\n') :=
    List.takeWhile_append_of_pos (by intro c hc; simp at hc; simp; rintro rfl; exact h hc)
  rw [List.append_nil] at whole
  rw [lastLine, whole]; simp

@[simp] theorem lastLine_nil : lastLine [] = [] := rfl

end Offside.Text
