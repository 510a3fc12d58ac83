import Offside.Proofs.Source.Positions

/-!
# The text from an origin on

A slice starts at an origin and is asked to end anywhere: before the origin, after the text, or
inside a character. Its end is first moved between the origin and the end of the text. It is not
moved to a boundary, as the offset of an origin is, and a slice that would end inside a character
is empty. So slices grow with their ends, except that they shrink to nothing wherever an end falls
inside a character.

Results:
* `Source.textTo_eq`, `Source.textTo_eq_slice?`: what a slice is.
* `Source.textTo_isPrefix_iff`, `Source.not_textTo_isPrefix_iff`: the ends between which slices
  grow, and those between which they do not.
* `Source.slices_grow_iff`: slices against the rest of the text and against each other.
-/

namespace Offside

open Text

/-! ## Cuts of a text -/

namespace Text

/-- Does an offset lie before the end of a text, at no boundary of it? -/
def InsideChar (text : String) (offset : Nat) : Prop :=
  offset < text.utf8ByteSize ∧ ¬ IsBoundary text offset

instance (text : String) (offset : Nat) : Decidable (InsideChar text offset) :=
  inferInstanceAs (Decidable (_ ∧ _))

theorem isBoundary_utf8ByteSize (text : String) : IsBoundary text text.utf8ByteSize :=
  isBoundary_iff.2 ⟨text.toList, List.prefix_refl _, byteLength_toList text⟩

theorem byteLength_eq_zero_iff {cs : List Char} : byteLength cs = 0 ↔ cs = [] := by
  refine ⟨fun h => ?_, fun h => h ▸ rfl⟩
  have := length_le_byteLength cs
  exact List.length_eq_zero_iff.1 (by omega)

theorem takeBytes_mono {m n : Nat} (h : m ≤ n) (cs : List Char) :
    takeBytes m cs <+: takeBytes n cs :=
  isPrefix_takeBytes (takeBytes_isPrefix m cs) (Nat.le_trans (byteLength_takeBytes_le m cs) h)

theorem takeBytes_of_byteLength_le {n : Nat} {cs : List Char} (h : byteLength cs ≤ n) :
    takeBytes n cs = cs :=
  (takeBytes_isPrefix n cs).eq_of_length_le (isPrefix_takeBytes (List.prefix_refl cs) h).length_le

/-- A cut behind a prefix takes all the bytes it may exactly if it is made at a boundary. -/
theorem byteLength_takeBytes_eq_iff {text : String} {before rest : List Char}
    (h : text.toList = before ++ rest) (k : Nat) :
    byteLength (takeBytes k rest) = k ↔ IsBoundary text (byteLength before + k) := by
  constructor
  · intro hk
    obtain ⟨more, hmore⟩ := takeBytes_isPrefix k rest
    have hcut : text.toList = (before ++ takeBytes k rest) ++ more := by
      rw [h, List.append_assoc, hmore]
    have hboundary := isBoundary_of_append hcut
    rwa [byteLength_append, hk] at hboundary
  · intro hboundary
    -- No cut of as many bytes is longer, so the prefix that ends at the boundary fits into it.
    obtain ⟨p, hp, hsize⟩ := isBoundary_iff.1 hboundary
    have hcut : p <+: before ++ takeBytes k rest := by
      rw [← takeBytes_append, Nat.add_comm, ← h]
      exact isPrefix_takeBytes hp (Nat.le_of_eq hsize)
    obtain ⟨more, hmore⟩ := hcut
    have hbytes := congrArg byteLength hmore
    have hle := byteLength_takeBytes_le k rest
    simp only [byteLength_append] at hbytes
    omega

end Text

/-! ## Slices -/

/-- Where a slice from an origin on ends if it is asked to end at `stop`: not before the origin and
not after the text. -/
def Origin.clamp (o : Origin) (stop : Nat) : Nat := max o.offset (min stop o.source.size)

namespace Origin

variable (o : Origin) {stop : Nat}

theorem offset_le_clamp (stop : Nat) : o.offset ≤ o.clamp stop := Nat.le_max_left _ _

theorem clamp_mono {a b : Nat} (h : a ≤ b) : o.clamp a ≤ o.clamp b := by
  unfold clamp
  omega

theorem clamp_of_le_offset (h : stop ≤ o.offset) : o.clamp stop = o.offset :=
  Nat.max_eq_left (Nat.le_trans (Nat.min_le_left _ _) h)

theorem clamp_of_le_size (hoffset : o.offset ≤ stop) (hsize : stop ≤ o.source.size) :
    o.clamp stop = stop := by
  rw [clamp, Nat.min_eq_left hsize, Nat.max_eq_right hoffset]

theorem clamp_of_size_le (hoffset : o.offset ≤ o.source.size) (h : o.source.size ≤ stop) :
    o.clamp stop = o.source.size := by
  rw [clamp, Nat.min_eq_right h, Nat.max_eq_right hoffset]

end Origin

namespace Source

variable (source : Source) (n : Nat)

theorem origin_offset_mono {a b : Nat} (h : a ≤ b) :
    (source.origin a).offset ≤ (source.origin b).offset := by
  obtain ⟨⟨hboundary, hle⟩, -⟩ := source.isGreatest_origin a
  refine (source.isGreatest_origin b).2 ⟨hboundary, ?_⟩
  omega

/-- The end of a slice is a boundary unless it was asked for inside a character of the rest. -/
theorem isBoundary_clamp_iff (stop : Nat) :
    IsBoundary source.text ((source.origin n).clamp stop) ↔
      stop ≤ (source.origin n).offset ∨ ¬ InsideChar source.text stop := by
  have hsize := (source.origin_offset_le n).2
  by_cases hbefore : stop ≤ (source.origin n).offset
  · rw [Origin.clamp_of_le_offset _ hbefore]
    exact iff_of_true (source.isGreatest_origin n).1.1 (Or.inl hbefore)
  · by_cases hend : stop < source.size
    · rw [Origin.clamp_of_le_size _ (by omega) (Nat.le_of_lt hend)]
      rw [source.size_eq] at hend
      simp only [InsideChar, hbefore, hend, true_and, false_or, Decidable.not_not]
    · rw [Origin.clamp_of_size_le _ hsize (Nat.not_lt.1 hend)]
      rw [source.size_eq] at hend
      refine iff_of_true ?_ (Or.inr fun hinside => hend hinside.1)
      show IsBoundary source.text source.size
      rw [source.size_eq]
      exact isBoundary_utf8ByteSize _

/-- The bytes that a slice may take are whole characters exactly if it ends at a boundary. -/
theorem byteLength_takeBytes_after_iff (stop : Nat) :
    byteLength (takeBytes ((source.origin n).clamp stop - (source.origin n).offset)
        (source.origin n).after) = (source.origin n).clamp stop - (source.origin n).offset ↔
      IsBoundary source.text ((source.origin n).clamp stop) := by
  obtain ⟨htext, hoffset⟩ := source.origin_spec n
  have hcut := byteLength_takeBytes_eq_iff htext
    ((source.origin n).clamp stop - (source.origin n).offset)
  rwa [← hoffset, Nat.add_sub_of_le (Origin.offset_le_clamp _ stop)] at hcut

/-- **Slices.** A slice takes all the bytes from the origin to its end, or none if it would end
inside a character. -/
theorem textTo_eq (stop : Nat) :
    (source.origin n).textTo stop =
      if IsBoundary source.text ((source.origin n).clamp stop) then
        String.ofList (takeBytes ((source.origin n).clamp stop - (source.origin n).offset)
          (source.origin n).after)
      else "" := by
  have hroom : min stop source.size - (source.origin n).offset =
      (source.origin n).clamp stop - (source.origin n).offset := by
    rw [Origin.clamp, show (source.origin n).source = source from rfl]
    omega
  simp only [Origin.textTo, show (source.origin n).source = source from rfl, hroom,
    byteLength_takeBytes_after_iff]

/-- The same slice, cut out of the text at the two offsets. -/
theorem textTo_eq_slice? (stop : Nat) :
    (source.origin n).textTo stop =
      (slice? source.text (source.origin n).offset ((source.origin n).clamp stop)).getD "" := by
  rw [textTo_eq]
  split
  · next hboundary =>
    obtain ⟨htext, hoffset⟩ := source.origin_spec n
    obtain ⟨more, hmore⟩ := takeBytes_isPrefix
      ((source.origin n).clamp stop - (source.origin n).offset) (source.origin n).after
    rw [← hmore] at htext
    have hslice := slice?_of_append htext
    rw [(source.byteLength_takeBytes_after_iff n stop).2 hboundary, ← hoffset,
      Nat.add_sub_of_le (Origin.offset_le_clamp _ stop)] at hslice
    rw [hslice, Option.getD_some]
  · next hboundary =>
    rw [slice?, dif_neg fun h => hboundary h.2.1, Option.getD_none]

theorem textTo_isPrefix_after (stop : Nat) :
    ((source.origin n).textTo stop).toList <+: (source.origin n).after := by
  rw [textTo_eq]
  split
  · rw [String.toList_ofList]
    exact takeBytes_isPrefix _ _
  · exact List.nil_prefix

/-- A slice that is asked to end at the end of the text or after it is the whole rest. -/
theorem textTo_of_size_le {stop : Nat} (h : source.size ≤ stop) :
    ((source.origin n).textTo stop).toList = (source.origin n).after := by
  have hsize := source.size_eq_offset_add n
  have hboundary : IsBoundary source.text ((source.origin n).clamp stop) := by
    rw [isBoundary_clamp_iff]
    refine Or.inr fun hinside => ?_
    have := hinside.1
    rw [source.size_eq] at h
    omega
  rw [textTo_eq, if_pos hboundary, String.toList_ofList]
  apply takeBytes_of_byteLength_le
  rw [Origin.clamp, show (source.origin n).source = source from rfl]
  omega

theorem textTo_eq_empty_iff (stop : Nat) :
    (source.origin n).textTo stop = "" ↔
      (source.origin n).clamp stop = (source.origin n).offset ∨
        ¬ IsBoundary source.text ((source.origin n).clamp stop) := by
  have hle := (source.origin n).offset_le_clamp stop
  rw [textTo_eq]
  split
  · next hboundary =>
    have hbytes := (source.byteLength_takeBytes_after_iff n stop).2 hboundary
    rw [← String.toList_inj, String.toList_ofList, show "".toList = [] from rfl,
      ← byteLength_eq_zero_iff, hbytes]
    simp only [hboundary, not_true_eq_false, or_false]
    omega
  · next hboundary => exact iff_of_true rfl (Or.inr hboundary)

/-- A slice begins with the slice of an earlier end if it ends at a boundary. Else it is empty, and
so is what it begins with. -/
theorem textTo_isPrefix_iff {a b : Nat} (h : a ≤ b) :
    ((source.origin n).textTo a).toList <+: ((source.origin n).textTo b).toList ↔
      IsBoundary source.text ((source.origin n).clamp b) ∨ (source.origin n).textTo a = "" := by
  by_cases hb : IsBoundary source.text ((source.origin n).clamp b)
  · refine iff_of_true ?_ (Or.inl hb)
    rw [textTo_eq, textTo_eq, if_pos hb]
    split
    · rw [String.toList_ofList, String.toList_ofList]
      exact takeBytes_mono (Nat.sub_le_sub_right (Origin.clamp_mono _ h) _) _
    · exact List.nil_prefix
  · have hempty : (source.origin n).textTo b = "" :=
      (source.textTo_eq_empty_iff n b).2 (Or.inr hb)
    rw [hempty, show "".toList = [] from rfl, List.prefix_nil, String.toList_eq_nil_iff]
    simp only [hb, false_or]

/-- **Growth.** The ends that break it: an earlier one at a boundary behind the origin, where the
slice has text, and a later one inside a character, where it has none. -/
theorem not_textTo_isPrefix_iff {a b : Nat} (h : a ≤ b) :
    ¬ ((source.origin n).textTo a).toList <+: ((source.origin n).textTo b).toList ↔
      (source.origin n).offset < a ∧ IsBoundary source.text a ∧ InsideChar source.text b := by
  -- What lies inside a character lies before the end of the text, and `a` lies before it too:
  -- behind the origin it is not moved.
  have hclamp : (source.origin n).offset < a → InsideChar source.text b →
      (source.origin n).clamp a = a := by
    intro hpast hb
    have hend := hb.1
    rw [← source.size_eq] at hend
    exact Origin.clamp_of_le_size _ (Nat.le_of_lt hpast)
      (Nat.le_trans h (Nat.le_of_lt hend))
  rw [textTo_isPrefix_iff _ _ h, isBoundary_clamp_iff, textTo_eq_empty_iff]
  simp only [not_or, Decidable.not_not, Nat.not_le]
  constructor
  · rintro ⟨⟨-, hb⟩, hne, ha⟩
    have hpast : (source.origin n).offset < a :=
      Nat.not_le.1 fun hbefore => hne (Origin.clamp_of_le_offset _ hbefore)
    rw [hclamp hpast hb] at ha
    exact ⟨hpast, ha, hb⟩
  · rintro ⟨hpast, ha, hb⟩
    rw [hclamp hpast hb]
    exact ⟨⟨Nat.lt_of_lt_of_le hpast h, hb⟩, Nat.ne_of_gt hpast, ha⟩

/-! ## The main result -/

/-- **Slices.** An origin cuts the text in two, and each slice is a beginning of the second part:
what lies between the two offsets if the text can be cut there, else nothing, and the whole part
once the end of the text is reached. Between two ends slices grow, except from a boundary behind the
origin to the inside of a character. Between ends that are moved to boundaries as origins are, they
always grow. -/
theorem slices_grow_iff :
    ∃ before rest, source.text.toList = before ++ rest ∧
      byteLength before = (source.origin n).offset ∧
      (∀ stop, ((source.origin n).textTo stop).toList <+: rest) ∧
      (∀ stop, source.text.utf8ByteSize ≤ stop →
        ((source.origin n).textTo stop).toList = rest) ∧
      (∀ stop, (source.origin n).textTo stop =
        (slice? source.text (source.origin n).offset ((source.origin n).clamp stop)).getD "") ∧
      (∀ a b, a ≤ b →
        (((source.origin n).textTo a).toList <+: ((source.origin n).textTo b).toList ↔
          ¬ ((source.origin n).offset < a ∧ IsBoundary source.text a ∧
            InsideChar source.text b))) ∧
      ∀ a b, a ≤ b →
        ((source.origin n).textTo (source.origin a).offset).toList <+:
          ((source.origin n).textTo (source.origin b).offset).toList := by
  obtain ⟨htext, hoffset⟩ := source.origin_spec n
  refine ⟨_, _, htext, hoffset.symm, source.textTo_isPrefix_after n, ?_,
    source.textTo_eq_slice? n, ?_, ?_⟩
  · intro stop hstop
    rw [← source.size_eq] at hstop
    exact source.textTo_of_size_le n hstop
  · intro a b h
    exact (not_iff_comm.1 (source.not_textTo_isPrefix_iff n h)).symm
  · intro a b h
    rw [textTo_isPrefix_iff _ _ (source.origin_offset_mono h), isBoundary_clamp_iff]
    exact Or.inl (Or.inr fun hinside => hinside.2 (source.isGreatest_origin b).1.1)

/-- A character of two bytes between two of one. -/
def accentedSample : Source := ⟨"sample", "aéb"⟩

theorem slices_grow_iff_accentedSample :
    accentedSample.text.utf8ByteSize ≤ 4 ∧ accentedSample.text.utf8ByteSize ≤ 9 ∧
      ((accentedSample.origin 1).textTo 4).toList = ((accentedSample.origin 1).textTo 9).toList ∧
      1 ≤ 3 ∧ ¬ InsideChar accentedSample.text 3 ∧
      ((accentedSample.origin 0).textTo 1).toList <+:
        ((accentedSample.origin 0).textTo 3).toList ∧
      1 ≤ 2 ∧ IsBoundary accentedSample.text 1 ∧ InsideChar accentedSample.text 2 ∧
      (¬ ((accentedSample.origin 0).textTo 1).toList <+:
        ((accentedSample.origin 0).textTo 2).toList) ∧
      ((accentedSample.origin 0).textTo (accentedSample.origin 1).offset).toList <+:
        ((accentedSample.origin 0).textTo (accentedSample.origin 2).offset).toList := by
  obtain ⟨-, rest, -, -, -, hwhole, -⟩ := slices_grow_iff accentedSample 1
  obtain ⟨-, -, -, -, -, -, -, hgrow, hmoved⟩ := slices_grow_iff accentedSample 0
  have hsize : accentedSample.text.utf8ByteSize ≤ 4 := by decide +kernel
  have hone : IsBoundary accentedSample.text 1 := by decide +kernel
  have htwo : InsideChar accentedSample.text 2 := by decide +kernel
  have hthree : ¬ InsideChar accentedSample.text 3 := by decide +kernel
  refine ⟨hsize, by omega, ?_, by decide, hthree, ?_, by decide, hone, htwo, ?_, ?_⟩
  · rw [hwhole 4 hsize, hwhole 9 (by omega)]
  · exact (hgrow 1 3 (by decide)).2 fun h => hthree h.2.2
  · exact fun h => (hgrow 1 2 (by decide)).1 h ⟨by decide, hone, htwo⟩
  · exact hmoved 1 2 (by decide)

/-- One byte of the accented letter more, and the letter before it is gone too. -/
theorem slices_shrink_insideChar :
    1 ≤ 2 ∧ (accentedSample.origin 0).textTo 1 = "a" ∧ (accentedSample.origin 0).textTo 2 = "" ∧
      (accentedSample.origin 0).textTo 3 = "aé" ∧
      ¬ ((accentedSample.origin 0).textTo 1).toList <+:
        ((accentedSample.origin 0).textTo 2).toList := by
  decide +kernel

end Source

end Offside
