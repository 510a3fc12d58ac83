import Mathlib.Data.List.Basic
import Mathlib.Logic.Relation
import Offside.Proofs.Value.Scopes

/-!
# Shadowing

A write to one table changes what a name means in every table below it, as far down as no nearer
table holds the name. `Visits` says how far a search comes: it passes the tables that do not hold
the name. Two heaps that differ in one entry at most, `AgreesOff`, answer a search alike unless it
is for this name and visits this table; then both go on from there.

Results:
* `Heap.AgreesOff.lookup_eq`, `Heap.AgreesOff.lookup_of_visits`: what a change of one entry does to
  every lookup.
* `Heap.lookup_congr_chain`: a lookup reads the tables on the chain of parents and nothing else.
* `Heap.shadowing`: what names mean after an entry is set or removed.
-/

namespace Offside

namespace Heap

/-- Is the second table the first one or one of its ancestors? -/
def OnChain (h : Heap) : TableId → TableId → Prop :=
  Relation.ReflTransGen fun t p => h.parent? t = some p

/-- A search for the name that begins at the first table comes to the second: it is on the chain,
and no table before it holds the name. -/
inductive Visits (h : Heap) (name : String) : TableId → TableId → Prop
  | here {t : TableId} : Visits h name t t
  | above {x p t : TableId} (hx : h.contains x name = false) (hp : h.parent? x = some p)
      (ht : Visits h name p t) : Visits h name x t

/-- The heaps have the same parents, and the same entries but for `name` in `t`. -/
structure AgreesOff (h h' : Heap) (t : TableId) (name : String) : Prop where
  parent? : ∀ x, h'.parent? x = h.parent? x
  get? : ∀ x m, ¬ (x = t ∧ m = name) → h'.get? x m = h.get? x m

section

variable {h h' : Heap} {t x : TableId} {name m : String} {v : Value}

theorem contains_eq_false_iff : h.contains x name = false ↔ h.get? x name = none :=
  Option.isSome_eq_false_iff.trans Option.isNone_iff_eq_none

/-- A name resolves to the first table visited that holds it. -/
theorem resolves_iff_visits :
    h.Resolves name x t ↔ h.Visits name x t ∧ h.contains t name = true := by
  constructor
  · intro hr
    induction hr with
    | here ht => exact ⟨.here, ht⟩
    | above hx hp _ ih => exact ⟨.above hx hp ih.1, ih.2⟩
  · rintro ⟨hv, ht⟩
    induction hv with
    | here => exact .here ht
    | above hx hp _ ih => exact .above hx hp (ih ht)

theorem Visits.le (ho : h.Ordered) (hv : h.Visits name x t) : t ≤ x := by
  induction hv with
  | here => exact Nat.le_refl _
  | above _ hp _ ih => exact Nat.le_trans ih (Nat.le_of_lt (ho.parent _ _ hp))

/-! ## Steps of a search -/

theorem lookup_step (ho : h.Ordered) (x : TableId) (m : String) :
    h.lookup x m =
      match h.get? x m with
      | some v => .ok v
      | none => (h.parent? x).elim (.error (undefined m)) (h.lookup · m) := by
  unfold lookup
  rw [scopes_eq ho, List.findSome?_cons]
  cases h.get? x m with
  | some v => rfl
  | none => cases h.parent? x <;> rfl

theorem lookup_of_get? (ho : h.Ordered) (hv : h.get? x m = some v) : h.lookup x m = .ok v := by
  rw [lookup_step ho, hv]

theorem lookup_of_get?_eq_none (ho : h.Ordered) (hx : h.get? x m = none) :
    h.lookup x m = (h.parent? x).elim (.error (undefined m)) (h.lookup · m) := by
  rw [lookup_step ho, hx]

/-! ## One entry -/

namespace AgreesOff

variable (hoff : h.AgreesOff h' t name)

include hoff

/-- A search for another name, or one that does not come to the table, finds what it found. -/
theorem lookup_eq (ho : h.Ordered) (ho' : h'.Ordered) (hx : ¬ (m = name ∧ h.Visits name x t)) :
    h'.lookup x m = h.lookup x m := by
  -- Along the parents of `x`, which are older: what is not visited from `x` is not from its parent.
  induction x using Nat.strongRecOn with
  | _ x ih =>
    have hget : h'.get? x m = h.get? x m := by
      apply hoff.get?
      rintro ⟨rfl, rfl⟩
      exact hx ⟨rfl, .here⟩
    cases hv : h.get? x m with
    | some v => rw [lookup_of_get? ho hv, lookup_of_get? ho' (hget.trans hv)]
    | none =>
      rw [lookup_of_get?_eq_none ho hv, lookup_of_get?_eq_none ho' (hget.trans hv), hoff.parent?]
      cases hp : h.parent? x with
      | none => rfl
      | some p =>
        apply ih p (ho.parent x p hp)
        rintro ⟨rfl, hvis⟩
        exact hx ⟨rfl, .above (contains_eq_false_iff.2 hv) hp hvis⟩

/-- A search for the name that comes to the table finds what a search from there does. -/
theorem lookup_of_visits (ho : h.Ordered) (ho' : h'.Ordered) (hv : h.Visits name x t) :
    h'.lookup x name = h'.lookup t name := by
  induction hv with
  | here => rfl
  | @above x p t hx hp hvis ih =>
    have hlt : t < x := Nat.lt_of_le_of_lt (hvis.le ho) (ho.parent x p hp)
    have hget : h'.get? x name = none :=
      (hoff.get? x name fun heq => Nat.ne_of_gt hlt heq.1).trans (contains_eq_false_iff.1 hx)
    rw [lookup_of_get?_eq_none ho' hget, hoff.parent?, hp]
    exact ih hoff

end AgreesOff

theorem get?_set (ht : h.Has t) (x : TableId) (m : String) :
    (h.set t name v).2.get? x m = if x = t ∧ m = name then some v else h.get? x m := by
  unfold Heap.get?
  rw [set_heap, entries_update ht]
  by_cases hx : x = t <;> by_cases hm : m = name <;> simp [hx, hm]

theorem get?_remove (ht : h.Has t) (x : TableId) (m : String) :
    (h.remove t name).2.get? x m = if x = t ∧ m = name then none else h.get? x m := by
  unfold Heap.get?
  rw [remove_heap, entries_update ht]
  by_cases hx : x = t <;> by_cases hm : m = name <;> simp [hx, hm]

theorem agreesOff_set (ht : h.Has t) : h.AgreesOff (h.set t name v).2 t name where
  parent? := parent?_update h t _
  get? x m hne := by rw [get?_set ht, if_neg hne]

theorem agreesOff_remove (ht : h.Has t) : h.AgreesOff (h.remove t name).2 t name where
  parent? := parent?_update h t _
  get? x m hne := by rw [get?_remove ht, if_neg hne]

/-! ## Restoring -/

theorem update_update (h : Heap) (t : TableId) (f g : Entries Value → Entries Value) :
    (h.update t f).update t g = h.update t (g ∘ f) := by
  unfold update
  congr 1
  apply Array.ext_getElem?
  intro i
  simp only [Array.getElem?_modify]
  split
  · rw [Option.map_map]; rfl
  · rfl

/-- A change that leaves every entry of the table leaves the heap. -/
theorem update_eq_self {f : Entries Value → Entries Value}
    (hf : ∀ m, (f (h.entries t)).get? m = h.get? t m) : h.update t f = h := by
  have hentries : f (h.entries t) = h.entries t := Entries.ext hf
  unfold update
  congr 1
  apply Array.ext_getElem?
  intro i
  rw [Array.getElem?_modify]
  split
  · next hi =>
    subst hi
    cases htable : h.tables[t]? with
    | none => rfl
    | some table =>
      rw [entries, Heap.table, htable, Option.getD_some] at hentries
      rw [Option.map_some, hentries]
  · rfl

theorem remove_eq_self (hname : h.contains t name = false) : (h.remove t name).2 = h := by
  rw [remove_heap]
  apply update_eq_self
  intro m
  rw [Entries.get?_erase]
  by_cases hm : m = name
  · rw [if_pos hm, hm]; exact (contains_eq_false_iff.1 hname).symm
  · rw [if_neg hm]; rfl

theorem remove_set (hname : h.contains t name = false) :
    ((h.set t name v).2.remove t name).2 = h := by
  rw [remove_heap, set_heap, update_update]
  apply update_eq_self
  intro m
  rw [Function.comp, Entries.get?_erase, Entries.get?_insert]
  by_cases hm : m = name
  · rw [if_pos hm, hm]; exact (contains_eq_false_iff.1 hname).symm
  · rw [if_neg hm, if_neg hm]; rfl

/-- Setting a name back to the value that it had leaves the heap as it was. -/
theorem set_set {u : Value} (hu : h.get? t name = some u) :
    ((h.set t name v).2.set t name u).2 = h := by
  rw [set_heap, set_heap, update_update]
  apply update_eq_self
  intro m
  rw [Function.comp, Entries.get?_insert, Entries.get?_insert]
  by_cases hm : m = name
  · rw [if_pos hm, hm]; exact hu.symm
  · rw [if_neg hm, if_neg hm]; rfl

/-! ## What a lookup reads -/

/-- **Lookups.** A lookup depends on the tables on the chain of parents, on nothing but their
parents and their entries for the name. -/
theorem lookup_congr_chain (ho : h.Ordered)
    (hchain : ∀ s, h.OnChain x s → h'.parent? s = h.parent? s ∧ h'.get? s m = h.get? s m) :
    h'.lookup x m = h.lookup x m := by
  have hscopes : h'.scopes x = h.scopes x ∧ ∀ s ∈ h.scopes x, h'.get? s m = h.get? s m := by
    induction x using Nat.strongRecOn with
    | _ x ih =>
      obtain ⟨hparent, hget⟩ := hchain x .refl
      rw [scopes_eq ho, scopes, hparent]
      cases hp : h.parent? x with
      | none =>
        refine ⟨rfl, ?_⟩
        intro s hs
        rw [List.mem_singleton.1 hs]; exact hget
      | some p =>
        have hlt := ho.parent x p hp
        obtain ⟨hscopes, hgets⟩ := ih p hlt fun s hs => hchain s (.head hp hs)
        refine ⟨by simp [hlt, hscopes], ?_⟩
        intro s hs
        rcases List.mem_cons.1 hs with rfl | hs
        · exact hget
        · exact hgets s hs
  unfold lookup
  rw [hscopes.1, ← List.head?_filterMap, ← List.head?_filterMap, List.filterMap_congr hscopes.2]

/-! ## Setting and removing -/

/-- **Shadowing.** After `name` is set in `t`, it has the new value exactly where a search for it
comes to `t`. After it is removed, it means what it means in the parent of `t`, exactly where it
resolved to `t`. All else means what it meant. So removing a name that was new, or setting one back
to its old value, restores the heap. Metatables, and tables off the chain of parents, do not
matter to a lookup. -/
theorem shadowing {rs : List Registry} (hreach : Reachable rs h) (ht : h.Has t) (name : String)
    (v : Value) :
    (∀ x m, (m = name ∧ h.Visits name x t → (h.set t name v).2.lookup x m = .ok v) ∧
      (¬ (m = name ∧ h.Visits name x t) → (h.set t name v).2.lookup x m = h.lookup x m)) ∧
    (∀ x m, (m = name ∧ h.Resolves name x t → (h.remove t name).2.lookup x m =
        (h.parent? t).elim (.error ⟨.undefinedName name, none⟩) (h.lookup · name)) ∧
      (¬ (m = name ∧ h.Resolves name x t) → (h.remove t name).2.lookup x m = h.lookup x m)) ∧
    (h.contains t name = false → ((h.set t name v).2.remove t name).2 = h) ∧
    (∀ u, h.get? t name = some u → ((h.set t name v).2.set t name u).2 = h) ∧
    ∀ (h' : Heap) x m,
      (∀ s, h.OnChain x s → h'.parent? s = h.parent? s ∧ h'.get? s m = h.get? s m) →
      h'.lookup x m = h.lookup x m := by
  have ho := hreach.sane.ordered
  have hset : (h.set t name v).2.Ordered := ho.update t (·.insert name v)
  have hremove : (h.remove t name).2.Ordered := ho.update t (·.erase name)
  refine ⟨fun x m => ⟨?_, ?_⟩, fun x m => ⟨?_, ?_⟩, remove_set, fun u => set_set,
    fun h' x m => lookup_congr_chain ho⟩
  · rintro ⟨rfl, hv⟩
    rw [(agreesOff_set ht).lookup_of_visits ho hset hv]
    exact lookup_of_get? hset (by simp [get?_set ht])
  · exact (agreesOff_set ht).lookup_eq ho hset
  · rintro ⟨rfl, hr⟩
    have hoff : h.AgreesOff (h.remove t m).2 t m := agreesOff_remove ht
    rw [hoff.lookup_of_visits ho hremove (resolves_iff_visits.1 hr).1,
      lookup_of_get?_eq_none hremove (by simp [get?_remove ht]), hoff.parent?]
    cases hp : h.parent? t with
    | none => rfl
    | some p =>
      apply hoff.lookup_eq ho hremove
      intro hv
      exact Nat.not_lt.2 (hv.2.le ho) (ho.parent t p hp)
  · intro hr
    cases hname : h.contains t name with
    | true =>
      apply (agreesOff_remove ht).lookup_eq ho hremove
      intro hv
      exact hr ⟨hv.1, resolves_iff_visits.2 ⟨hv.2, hname⟩⟩
    | false => rw [remove_eq_self hname]

end

theorem shadowing_nestedScopes :
    (nestedScopes.set 6 "x" (.table 6)).2.lookup 7 "x" = .ok (.table 6) ∧
      (nestedScopes.set 6 "x" (.table 6)).2.lookup 8 "x" = .ok (.table 8) ∧
      (nestedScopes.remove 8 "x").2.lookup 8 "x" = .ok firstRegistry.makeNil := by
  have ho := reachable_nestedScopes.sane.ordered
  have hseven : nestedScopes.Visits "x" 7 6 := .above (by decide) (by decide) .here
  have height : nestedScopes.Resolves "x" 8 8 := .here (by decide)
  have hnot : ¬ nestedScopes.Visits "x" 8 6 := by
    intro hv
    have hsix := height.unique (resolves_iff_visits.2 ⟨hv, by decide⟩)
    exact absurd hsix (by decide)
  obtain ⟨hset, -⟩ := shadowing reachable_nestedScopes (t := 6) (by decide) "x" (.table 6)
  obtain ⟨-, hremove, -⟩ := shadowing reachable_nestedScopes (t := 8) (by decide) "x" (.table 6)
  refine ⟨(hset 7 "x").1 ⟨rfl, hseven⟩, ?_, ?_⟩
  · rw [(hset 8 "x").2 fun hv => hnot hv.2]
    exact lookup_of_get? ho (by decide)
  · rw [(hremove 8 "x").1 ⟨rfl, height⟩]
    exact lookup_of_get? (x := 6) ho (by decide)

end Heap

end Offside
