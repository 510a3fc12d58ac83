import Mathlib.Algebra.Group.Nat.Defs

/-!
# The order of bytes

Names are kept in the order of their code points. Compared byte by byte, their UTF-8 encodings come
in the same order: the first byte of a code point grows with it and tells how many bytes follow, and
these are its digits to the base 64, the highest first.

Results:
* `Text.continuation_lt`: digits that begin alike are in the order of the numbers.
* `Text.utf8_lt`: names in increasing order have encodings in increasing order.
-/

namespace Offside.Text

/-- The UTF-8 encoding of a text. -/
def utf8 (s : String) : List UInt8 := s.toUTF8.data.toList

/-- The last `k` digits of a number to the base 64, a byte each. -/
def continuation : Nat → Nat → List UInt8
  | 0, _ => []
  | k + 1, v => UInt8.ofNat (v / 64 ^ k % 64 + 128) :: continuation k v

/-- The number of bytes after the first in the encoding of a code point. -/
def followers (v : Nat) : Nat :=
  if v ≤ 0x7f then 0 else if v ≤ 0x7ff then 1 else if v ≤ 0xffff then 2 else 3

/-- The first byte in the encoding of a code point. -/
def lead (v : Nat) : Nat :=
  if v ≤ 0x7f then v
  else if v ≤ 0x7ff then v / 64 + 192
  else if v ≤ 0xffff then v / 4096 + 224
  else v / 262144 + 240

theorem utf8_eq (s : String) : utf8 s = s.toList.flatMap String.utf8EncodeChar := by
  rw [utf8, String.toUTF8_eq_toByteArray, ← String.utf8Encode_toList, List.utf8Encode,
    List.toList_data_toByteArray]

theorem codePoint_lt (c : Char) : c.val.toNat < 0x110000 := by
  rcases c.valid with hv | hv <;> omega

theorem utf8EncodeChar_eq (c : Char) :
    String.utf8EncodeChar c =
      UInt8.ofNat (lead c.val.toNat) :: continuation (followers c.val.toNat) c.val.toNat := by
  have hc := codePoint_lt c
  simp only [String.utf8EncodeChar, lead, followers]
  generalize c.val.toNat = v at hc
  split
  · rfl
  · split
    · have hfits : v / 64 < 32 := by omega
      simp [continuation, Nat.mod_eq_of_lt hfits]
    · split
      · have hfits : v / 4096 < 16 := by omega
        simp [continuation, Nat.mod_eq_of_lt hfits]
      · have hfits : v / 262144 < 8 := by omega
        simp [continuation, Nat.mod_eq_of_lt hfits]

/-! ## Digits -/

/-- Numbers that agree before their last `k` digits are in the order of these digits. -/
theorem continuation_lt {k a b : Nat} (hlt : a < b) (htop : a / 64 ^ k = b / 64 ^ k)
    (x y : List UInt8) : continuation k a ++ x < continuation k b ++ y := by
  induction k with
  | zero =>
    rw [Nat.pow_zero, Nat.div_one, Nat.div_one] at htop
    omega
  | succ k ih =>
    simp only [continuation, List.cons_append]
    rw [List.cons_lt_cons_iff]
    by_cases heq : a / 64 ^ k = b / 64 ^ k
    · exact Or.inr ⟨by rw [heq], ih heq⟩
    · -- The first digit that differs is the one that decides.
      left
      have hle : a / 64 ^ k ≤ b / 64 ^ k := Nat.div_le_div_right (Nat.le_of_lt hlt)
      rw [Nat.pow_succ, ← Nat.div_div_eq_div_mul, ← Nat.div_div_eq_div_mul] at htop
      rw [UInt8.lt_iff_toNat_lt, UInt8.toNat_ofNat', UInt8.toNat_ofNat']
      omega

/-! ## First bytes -/

theorem lead_lt {v : Nat} (hv : v < 0x110000) : lead v < 256 := by
  unfold lead
  split
  · omega
  · split
    · omega
    · split <;> omega

theorem lead_mono {a b : Nat} (hle : a ≤ b) : lead a ≤ lead b := by
  unfold lead
  split <;> split <;> grind

/-- The first byte tells how many follow, and what is before their digits. -/
theorem followers_of_lead {a b : Nat} (hle : a ≤ b) (hlead : lead a = lead b) :
    followers a = followers b ∧ a / 64 ^ followers a = b / 64 ^ followers a := by
  unfold lead at hlead
  unfold followers
  split <;> split <;> grind

/-! ## Texts -/

theorem utf8EncodeChar_lt {c d : Char} (hlt : c < d) (x y : List UInt8) :
    String.utf8EncodeChar c ++ x < String.utf8EncodeChar d ++ y := by
  have hval : c.val.toNat < d.val.toNat := hlt
  have hd := codePoint_lt d
  rw [utf8EncodeChar_eq, utf8EncodeChar_eq, List.cons_append, List.cons_append,
    List.cons_lt_cons_iff]
  generalize c.val.toNat = a at hval
  generalize d.val.toNat = b at hval hd
  rcases Nat.lt_or_eq_of_le (lead_mono (Nat.le_of_lt hval)) with hlead | hlead
  · left
    have hfits := lead_lt hd
    rw [UInt8.lt_iff_toNat_lt, UInt8.toNat_ofNat', UInt8.toNat_ofNat']
    omega
  · obtain ⟨hsame, htop⟩ := followers_of_lead (Nat.le_of_lt hval) hlead
    exact Or.inr ⟨by rw [hlead], by rw [← hsame]; exact continuation_lt hval htop x y⟩

theorem flatMap_utf8EncodeChar_lt {a b : List Char} (hlt : a < b) :
    a.flatMap String.utf8EncodeChar < b.flatMap String.utf8EncodeChar := by
  induction hlt with
  | @nil d b =>
    obtain ⟨byte, rest, heq⟩ := List.exists_cons_of_ne_nil (String.utf8EncodeChar_ne_nil (c := d))
    rw [List.flatMap_cons, heq]
    exact List.nil_lt_cons byte _
  | rel hlt => exact utf8EncodeChar_lt hlt _ _
  | cons _ ih => exact List.append_left_lt ih

/-- **The order of names** is that of their bytes. -/
theorem utf8_lt {s t : String} (hlt : s < t) : utf8 s < utf8 t := by
  rw [utf8_eq, utf8_eq]
  exact flatMap_utf8EncodeChar_lt (String.lt_iff.1 hlt)

end Offside.Text
