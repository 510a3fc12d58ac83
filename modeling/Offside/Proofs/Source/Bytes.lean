import Offside.Proofs.Source.Positions
import Offside.Proofs.Text.ByteOrder

/-!
# Places read off the bytes

Line, column and line of an origin again, this time found in the text as it is stored: line feeds
are counted among bytes, the line is cut out at the feeds around the offset, and the column is a
difference of offsets. Each of these can fail, at an offset that is no boundary or lies outside the
text. For the origins of a source none does, and they give what the characters give.

Results:
* `count_feeds`: the line feeds of a text are those of its bytes.
* `Origin.lineStart?_origin`, `Origin.lineEnd?_origin`: where the line of an origin starts and ends.
* `Origin.line?_origin`, `Origin.column?_origin`, `Origin.lineText?_origin`,
  `Origin.message?_origin`: what the origins of a source are asked for is defined.
-/

namespace Offside

open Text

/-! ## Line feeds -/

namespace Text

/-- The offset of the first line feed. -/
def firstFeed? : List Char → Option Nat
  | [] => none
  | c :: cs => if c = '\n' then some 0 else (firstFeed? cs).map (c.utf8Size + ·)

/-- The offset of the last line feed. -/
def lastFeed? : List Char → Option Nat
  | [] => none
  | c :: cs =>
    match lastFeed? cs with
    | some i => some (c.utf8Size + i)
    | none => if c = '\n' then some 0 else none

theorem firstFeed?_of_notMem {cs : List Char} (h : '\n' ∉ cs) : firstFeed? cs = none := by
  induction cs with
  | nil => rfl
  | cons c cs ih =>
    simp only [List.mem_cons, not_or] at h
    rw [firstFeed?, if_neg (Ne.symm h.1), ih h.2]; rfl

theorem firstFeed?_append {a : List Char} (ha : '\n' ∉ a) (b : List Char) :
    firstFeed? (a ++ '\n' :: b) = some (byteLength a) := by
  induction a with
  | nil => rfl
  | cons c a ih =>
    simp only [List.mem_cons, not_or] at ha
    rw [List.cons_append, firstFeed?, if_neg (Ne.symm ha.1), ih ha.2]; rfl

theorem lastFeed?_of_notMem {cs : List Char} (h : '\n' ∉ cs) : lastFeed? cs = none := by
  induction cs with
  | nil => rfl
  | cons c cs ih =>
    simp only [List.mem_cons, not_or] at h
    rw [lastFeed?, ih h.2]
    exact if_neg (Ne.symm h.1)

theorem lastFeed?_append (a : List Char) {b : List Char} (hb : '\n' ∉ b) :
    lastFeed? (a ++ '\n' :: b) = some (byteLength a) := by
  induction a with
  | nil =>
    rw [List.nil_append, lastFeed?, lastFeed?_of_notMem hb]; rfl
  | cons c a ih => rw [List.cons_append, lastFeed?, ih]; rfl

theorem feed_notMem_continuation (k v : Nat) : 10 ∉ continuation k v := by
  induction k with
  | zero => simp [continuation]
  | succ k ih =>
    rw [continuation, List.mem_cons, not_or]
    refine ⟨fun heq => ?_, ih⟩
    have hbyte := congrArg UInt8.toNat heq
    rw [UInt8.toNat_ofNat', show (10 : UInt8).toNat = 10 from rfl] at hbyte
    omega

/-- Only a line feed has the byte of one. -/
theorem count_utf8EncodeChar (c : Char) :
    (String.utf8EncodeChar c).count 10 = if c = '\n' then 1 else 0 := by
  have hlead : UInt8.ofNat (lead c.val.toNat) = 10 ↔ c = '\n' := by
    have hfits := lead_lt (codePoint_lt c)
    have hfeed : c = '\n' ↔ c.val.toNat = 10 := by
      rw [Char.ext_iff, ← UInt32.toNat_inj]; rfl
    rw [hfeed, ← UInt8.toNat_inj, UInt8.toNat_ofNat', Nat.mod_eq_of_lt hfits,
      show (10 : UInt8).toNat = 10 from rfl]
    unfold lead
    split
    · rfl
    · split
      · omega
      · split <;> omega
  rw [utf8EncodeChar_eq, List.count_cons,
    List.count_eq_zero_of_not_mem (feed_notMem_continuation _ _)]
  simp only [beq_iff_eq, hlead, Nat.zero_add]

theorem count_feeds (cs : List Char) :
    (cs.flatMap String.utf8EncodeChar).count 10 = cs.count '\n' := by
  induction cs with
  | nil => rfl
  | cons c cs ih =>
    rw [List.flatMap_cons, List.count_append, count_utf8EncodeChar, ih, List.count_cons]
    simp only [beq_iff_eq]
    omega

theorem length_utf8 (cs : List Char) :
    (cs.flatMap String.utf8EncodeChar).length = byteLength cs := by
  induction cs with
  | nil => rfl
  | cons c cs ih => simp [ih]

end Text

namespace Origin

/-- The number of line feeds among the bytes before an origin, and one. -/
def line? (o : Origin) : Option Nat :=
  if o.offset ≤ (utf8 o.source.text).length then
    some (1 + ((utf8 o.source.text).take o.offset).count 10)
  else none

/-- The offset after the last line feed before an origin. -/
def lineStart? (o : Origin) : Option Nat := do
  let before ← slice? o.source.text 0 o.offset
  some ((lastFeed? before.toList).elim 0 (· + 1))

/-- The offset of the first line feed from an origin on. -/
def lineEnd? (o : Origin) : Option Nat := do
  let size := o.source.text.utf8ByteSize
  let after ← slice? o.source.text o.offset size
  some ((firstFeed? after.toList).elim size (o.offset + ·))

def column? (o : Origin) : Option Nat := do sub? (1 + o.offset) (← o.lineStart?)

def lineText? (o : Origin) : Option String := do
  let line ← slice? o.source.text (← o.lineStart?) (← o.lineEnd?)
  some (String.ofList (dropReturn line.toList))

def message? (o : Origin) : Option String := do
  let column ← o.column?
  let line ← o.line?
  let text ← o.lineText?
  let margin ← sub? column 1
  some ("in " ++ o.source.name ++ " on line " ++ toString line ++ " column " ++ toString column
    ++ "\n" ++ text ++ "\n" ++ String.ofList (List.replicate margin ' ') ++ "*\n")

variable (source : Source) (n : Nat)

theorem line?_origin : (source.origin n).line? = some (source.origin n).line := by
  obtain ⟨htext, hoffset⟩ := source.origin_spec n
  have hbytes : utf8 source.text =
      (source.origin n).before.flatMap String.utf8EncodeChar ++
        (source.origin n).after.flatMap String.utf8EncodeChar := by
    rw [utf8_eq, ← List.flatMap_append, ← htext]; rfl
  have hle : (source.origin n).offset ≤ (utf8 source.text).length := by
    rw [hbytes, List.length_append, length_utf8, hoffset]; omega
  unfold line?
  rw [show (source.origin n).source = source from rfl, if_pos hle, hbytes, hoffset, ← length_utf8,
    List.take_left, count_feeds]
  rfl

/-- What is before the line of an origin, and where that line starts. -/
theorem lineStart?_origin :
    ∃ lead, (source.origin n).before = lead ++ lastLine (source.origin n).before ∧
      (source.origin n).lineStart? = some (byteLength lead) := by
  obtain ⟨htext, hoffset⟩ := source.origin_spec n
  obtain ⟨lead, hlead, hbreak, hfeed⟩ := exists_lastLine (source.origin n).before
  have hslice : slice? source.text 0 (source.origin n).offset =
      some (String.ofList (source.origin n).before) := by
    have hall : source.text.toList = [] ++ ((source.origin n).before ++ (source.origin n).after) :=
      htext
    have := slice?_of_append hall
    rwa [byteLength_nil, Nat.zero_add, ← hoffset] at this
  refine ⟨lead, hlead, ?_⟩
  rw [lineStart?, show (source.origin n).source = source from rfl, hslice]
  simp only [Option.bind_eq_bind, Option.bind_some, String.toList_ofList]
  generalize lastLine (source.origin n).before = line at hlead hfeed
  rw [hlead]
  rcases hbreak with rfl | hbreak
  · rw [List.nil_append, lastFeed?_of_notMem hfeed]; rfl
  · obtain ⟨front, rfl⟩ := List.getLast?_eq_some_iff.1 hbreak
    rw [List.append_assoc, List.singleton_append, lastFeed?_append front hfeed, byteLength_append]
    rfl

theorem lineEnd?_origin :
    (source.origin n).lineEnd? =
      some ((source.origin n).offset + byteLength (firstLine (source.origin n).after)) := by
  obtain ⟨htext, hoffset⟩ := source.origin_spec n
  have hsize : source.text.utf8ByteSize =
      (source.origin n).offset + byteLength (source.origin n).after := by
    rw [← source.size_eq, ← source.size_eq_offset_add n]
  have hslice : slice? source.text (source.origin n).offset source.text.utf8ByteSize =
      some (String.ofList (source.origin n).after) := by
    rw [hsize, hoffset]
    refine slice?_of_append (?_ : _ = _ ++ (_ ++ []))
    rw [List.append_nil]; exact htext
  rw [lineEnd?, show (source.origin n).source = source from rfl, hslice]
  simp only [Option.bind_eq_bind, Option.bind_some, String.toList_ofList, hsize]
  obtain ⟨next, hnext, hfeed, hend⟩ := exists_firstLine (source.origin n).after
  generalize firstLine (source.origin n).after = line at hnext hfeed
  rw [hnext]
  rcases hend with rfl | hend
  · rw [List.append_nil, firstFeed?_of_notMem hfeed]; rfl
  · obtain ⟨more, rfl⟩ := List.head?_eq_some_iff.1 hend
    rw [firstFeed?_append hfeed]; rfl

theorem column?_origin : (source.origin n).column? = some (source.origin n).column := by
  obtain ⟨-, hoffset⟩ := source.origin_spec n
  obtain ⟨lead, hlead, hstart⟩ := lineStart?_origin source n
  have hsize := congrArg byteLength hlead
  rw [byteLength_append, ← hoffset] at hsize
  rw [column?, hstart, column]
  simp only [Option.bind_eq_bind, Option.bind_some, sub?]
  rw [if_pos (by omega)]
  congr 1
  omega

theorem lineText?_origin : (source.origin n).lineText? = some (source.origin n).lineText := by
  obtain ⟨htext, hoffset⟩ := source.origin_spec n
  obtain ⟨lead, hlead, hstart⟩ := lineStart?_origin source n
  obtain ⟨next, hnext, -⟩ := exists_firstLine (source.origin n).after
  have hsize := congrArg byteLength hlead
  rw [byteLength_append, ← hoffset] at hsize
  have hline : source.text.toList = lead ++
      ((lastLine (source.origin n).before ++ firstLine (source.origin n).after) ++ next) := by
    rw [List.append_assoc, ← List.append_assoc lead, ← hlead, ← hnext]
    exact htext
  have hslice := slice?_of_append hline
  rw [byteLength_append, ← Nat.add_assoc, ← hsize] at hslice
  rw [lineText?, hstart, lineEnd?_origin]
  simp only [Option.bind_eq_bind, Option.bind_some, show (source.origin n).source = source from rfl,
    hslice, String.toList_ofList]
  rfl

theorem message?_origin : (source.origin n).message? = some (source.origin n).message := by
  have hcolumn : sub? (source.origin n).column 1 = some ((source.origin n).column - 1) :=
    if_pos (Nat.le_add_right 1 _)
  rw [message?, column?_origin, line?_origin, lineText?_origin]
  simp only [Option.bind_eq_bind, Option.bind_some, hcolumn]
  rfl

end Origin

end Offside
