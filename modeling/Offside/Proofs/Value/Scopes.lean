import Offside.Proofs.Value.Reachable

/-!
# Scopes

A name is looked up in a table, then in its parent, and so on; the first table that holds it
decides. `Resolves` says so without the search that finds it. Assigning replaces the entry of that
table and nothing else, so it changes what a name means exactly where it was resolved to this table.

Results:
* `Heap.definer?_eq_some_iff`: the search finds what a name resolves to.
* `Heap.Replaces.lookup_eq`: what every name means after the replacement of an entry.
* `Heap.assign_exact`: assignment.
-/

namespace Offside

namespace Heap

/-- The first table that holds the name, among a table and its ancestors. -/
inductive Resolves (h : Heap) (name : String) : TableId → TableId → Prop
  | here {t : TableId} (ht : h.contains t name = true) : Resolves h name t t
  | above {t p d : TableId} (ht : h.contains t name = false) (hp : h.parent? t = some p)
      (hd : Resolves h name p d) : Resolves h name t d

section

variable {h h' : Heap} {t d : TableId} {name : String} {v : Value}

theorem Resolves.contains (hd : h.Resolves name t d) : h.contains d name = true := by
  induction hd with
  | here ht => exact ht
  | above _ _ _ ih => exact ih

theorem Resolves.unique {d' : TableId} (hd : h.Resolves name t d) (hd' : h.Resolves name t d') :
    d' = d := by
  induction hd with
  | here ht =>
    cases hd' with
    | here _ => rfl
    | above ht' _ _ => rw [ht] at ht'; cases ht'
  | above ht hp _ ih =>
    cases hd' with
    | here ht' => rw [ht] at ht'; cases ht'
    | above _ hp' hd' =>
      rw [hp] at hp'
      cases hp'
      exact ih hd'

theorem scopes_eq (ho : h.Ordered) (t : TableId) :
    h.scopes t = t :: (h.parent? t).elim [] h.scopes := by
  rw [scopes]
  cases hp : h.parent? t with
  | none => rfl
  | some p => simp [ho.parent t p hp]

theorem definer?_eq (ho : h.Ordered) (t : TableId) (name : String) :
    h.definer? t name =
      if h.contains t name then some t else (h.parent? t).bind fun p => h.definer? p name := by
  unfold definer?
  rw [scopes_eq ho, List.find?_cons]
  cases h.contains t name with
  | true => rfl
  | false => cases h.parent? t <;> rfl

/-- **The search.** It finds the table that a name resolves to. -/
theorem definer?_eq_some_iff (ho : h.Ordered) :
    h.definer? t name = some d ↔ h.Resolves name t d := by
  constructor
  · intro hd
    induction t using Nat.strongRecOn with
    | _ t ih =>
      rw [definer?_eq ho] at hd
      split at hd
      · next ht => cases hd; exact .here ht
      · next ht =>
        obtain ⟨p, hp, hd⟩ := Option.bind_eq_some_iff.1 hd
        exact .above (by simpa using ht) hp (ih p (ho.parent t p hp) hd)
  · intro hd
    induction hd with
    | here ht => rw [definer?_eq ho, if_pos ht]
    | above ht hp _ ih => rw [definer?_eq ho, hp]; simpa [ht] using ih

/-! ## Looking up -/

theorem findSome?_eq_bind_find? {α β : Type} (f : α → Option β) (l : List α) :
    l.findSome? f = (l.find? fun a => (f a).isSome).bind f := by
  induction l with
  | nil => rfl
  | cons a l ih =>
    rw [List.findSome?_cons, List.find?_cons]
    cases hf : f a with
    | none => exact ih
    | some b => exact hf.symm

/-- A lookup reads the entry of the table that the search finds. -/
theorem lookup_eq (h : Heap) (t : TableId) (name : String) :
    h.lookup t name =
      match (h.definer? t name).bind fun d => h.get? d name with
      | some v => .ok v
      | none => .error (undefined name) := by
  unfold lookup
  rw [findSome?_eq_bind_find?]
  rfl

theorem lookup_of_definer? (hd : h.definer? t name = some d) (hv : h.get? d name = some v) :
    h.lookup t name = .ok v := by
  rw [lookup_eq, hd, Option.bind_some, hv]

theorem lookup_of_definer?_eq_none (hd : h.definer? t name = none) :
    h.lookup t name = .error (undefined name) := by
  rw [lookup_eq, hd, Option.bind_none]

theorem contains_of_definer? (hd : h.definer? t name = some d) : h.contains d name = true := by
  have hfound := List.find?_some hd
  exact hfound

theorem contains_iff_mem_keys : h.contains t name = true ↔ name ∈ h.keys t := Entries.contains_iff

theorem exists_get?_of_contains (hd : h.contains d name = true) :
    ∃ v, h.get? d name = some v := Option.isSome_iff_exists.1 hd

theorem exists_lookup_iff : (∃ u, h.lookup t name = .ok u) ↔ ∃ d, h.definer? t name = some d := by
  constructor
  · intro hu
    obtain ⟨u, hu⟩ := hu
    cases hd : h.definer? t name with
    | some d => exact ⟨d, rfl⟩
    | none => rw [lookup_of_definer?_eq_none hd] at hu; cases hu
  · intro hd
    obtain ⟨d, hd⟩ := hd
    obtain ⟨u, hu⟩ := exists_get?_of_contains (contains_of_definer? hd)
    exact ⟨u, lookup_of_definer? hd hu⟩

/-! ## Replacing an entry -/

/-- The second heap is the first, but for the entry `name` of `d`, which was there and is now
`v`. -/
structure Replaces (h h' : Heap) (d : TableId) (name : String) (v : Value) : Prop where
  tables : h'.tables.size = h.tables.size
  forms : h'.forms = h.forms
  get? : ∀ x m, h'.get? x m = if x = d ∧ m = name then some v else h.get? x m
  keys : ∀ x, h'.keys x = h.keys x
  size : ∀ x, h'.size x = h.size x
  parent? : ∀ x, h'.parent? x = h.parent? x
  metatable : ∀ x, h'.metatable x = h.metatable x
  isRoot : ∀ x, h'.isRoot x = h.isRoot x

theorem has_of_contains (hd : h.contains d name = true) : h.Has d := by
  rcases Nat.lt_or_ge d h.tables.size with hlt | hge
  · exact hlt
  · have htable : h.table d = {} := by rw [table, Array.getElem?_eq_none hge, Option.getD_none]
    rw [contains, entries, htable] at hd
    cases hd

/-- To insert a name that is there is to replace its entry. -/
theorem replaces_update (hd : h.contains d name = true) :
    h.Replaces (h.update d (·.insert name v)) d name v := by
  have hentries := entries_update (has_of_contains hd) (·.insert name v)
  have hkeys : ∀ x, (h.update d (·.insert name v)).keys x = h.keys x := by
    intro x
    unfold keys
    rw [hentries]
    split
    · next hx => rw [hx]; exact Entries.keys_insert hd v
    · rfl
  refine ⟨by simp, rfl, ?_, hkeys, ?_, parent?_update h d _, ?_, ?_⟩
  · intro x m
    unfold Heap.get?
    rw [hentries]
    by_cases hx : x = d <;> by_cases hm : m = name <;> simp [hx, hm]
  · intro x
    have hlength := congrArg List.length (hkeys x)
    simp only [keys, Entries.length_keys] at hlength
    exact hlength
  · intro x
    rw [Heap.metatable, Heap.metatable, metatable_update]
  · intro x
    rw [Heap.isRoot, Heap.isRoot, metatable_update]

/-- The parents decide which tables are searched. -/
theorem scopes_congr (hp : ∀ x, h'.parent? x = h.parent? x) (t : TableId) :
    h'.scopes t = h.scopes t := by
  induction t using Nat.strongRecOn with
  | _ t ih =>
    rw [scopes, scopes, hp]
    cases h.parent? t with
    | none => rfl
    | some p =>
      by_cases hlt : p < t
      · simp [hlt, ih p hlt]
      · simp [hlt]

namespace Replaces

variable (hrep : h.Replaces h' d name v)

include hrep

/-- The names of all tables stay, and so does what names resolve to. -/
theorem definer?_eq (x : TableId) (m : String) : h'.definer? x m = h.definer? x m := by
  have hcontains : ∀ s, h'.contains s m = h.contains s m := by
    intro s
    rw [Bool.eq_iff_iff, contains_iff_mem_keys, contains_iff_mem_keys, hrep.keys]
  unfold definer?
  rw [scopes_congr hrep.parent?]
  simp only [hcontains]

theorem lookup_eq (x : TableId) (m : String) :
    (m = name ∧ h.definer? x name = some d → h'.lookup x m = .ok v) ∧
      (¬ (m = name ∧ h.definer? x name = some d) → h'.lookup x m = h.lookup x m) := by
  constructor
  · intro hm
    obtain ⟨rfl, hd⟩ := hm
    exact lookup_of_definer? ((hrep.definer?_eq x m).trans hd) (by rw [hrep.get?]; simp)
  · intro hne
    rw [Heap.lookup_eq, Heap.lookup_eq, hrep.definer?_eq]
    cases hd : h.definer? x m with
    | none => rfl
    | some s =>
      have hs : ¬ (s = d ∧ m = name) := by
        intro hs
        obtain ⟨rfl, rfl⟩ := hs
        exact hne ⟨rfl, hd⟩
      rw [Option.bind_some, Option.bind_some, hrep.get?, if_neg hs]

end Replaces

/-! ## Assigning -/

/-- **Assignment.** Assigning succeeds exactly where looking up does. It then replaces the entry of
the table that the name resolves to and nothing else; so a name has the new value exactly if it is
this name and resolves to this table, and all else means what it meant. If it fails, the fault names
the name, without a context, and the heap is as it was. -/
theorem assign_exact {rs : List Registry} (hreach : Reachable rs h) (t : TableId) (name : String)
    (v : Value) :
    ((∃ h', h.assign t name v = (.ok (), h')) ↔ ∃ u, h.lookup t name = .ok u) ∧
    (∀ h', h.assign t name v = (.ok (), h') →
      ∃ d, h.Resolves name t d ∧ h.Replaces h' d name v ∧
        ∀ x m, (m = name ∧ h.Resolves name x d → h'.lookup x m = .ok v) ∧
          (¬ (m = name ∧ h.Resolves name x d) → h'.lookup x m = h.lookup x m)) ∧
    ∀ fault h', h.assign t name v = (.error fault, h') →
      fault = ⟨.undefinedName name, none⟩ ∧ h' = h := by
  have ho := hreach.sane.ordered
  rw [exists_lookup_iff]
  unfold assign
  cases hd : h.definer? t name with
  | none =>
    refine ⟨by simp, by simp, ?_⟩
    intro fault h' heq
    cases heq
    exact ⟨rfl, rfl⟩
  | some d =>
    refine ⟨by simp, ?_, by simp⟩
    intro h' heq
    cases heq
    have hresolves := (definer?_eq_some_iff ho).1 hd
    have hrep : h.Replaces (h.update d (·.insert name v)) d name v :=
      replaces_update hresolves.contains
    refine ⟨d, hresolves, hrep, fun x m => ?_⟩
    rw [← definer?_eq_some_iff ho]
    exact hrep.lookup_eq x m

end

def firstRegistry : Registry := (Registry.bootstrap {}).1

/-- A table 6 with two children, of which the second, 8, has an `x` of its own. -/
def nestedScopes : Heap :=
  let h := (firstRegistry.makeTable (Registry.bootstrap {}).2).2
  let h := (h.set 6 "x" firstRegistry.makeNil).2
  let h := (firstRegistry.makeChild 6 (firstRegistry.makeChild 6 h).2).2
  (h.set 8 "x" (.table 8)).2

theorem reachable_nestedScopes : Reachable [firstRegistry] nestedScopes := by
  have hmem : firstRegistry ∈ [firstRegistry] := List.mem_singleton_self _
  have htable := Reachable.start.bootstrap.makeTable hmem
  have hset := htable.set (t := 6) (v := firstRegistry.makeNil) "x" (by decide)
    (show Has _ _ by decide)
  have hchildren := (hset.makeChild (p := 6) hmem (by decide)).makeChild (p := 6) hmem (by decide)
  exact hchildren.set "x" (by decide) (show Has _ _ by decide)

theorem assign_exact_nestedScopes :
    ∃ h', nestedScopes.assign 7 "x" (.table 7) = (.ok (), h') ∧ h'.lookup 6 "x" = .ok (.table 7) ∧
      h'.lookup 8 "x" = .ok (.table 8) := by
  have ho := reachable_nestedScopes.sane.ordered
  have hsix : nestedScopes.Resolves "x" 6 6 := .here (by decide)
  have hseven : nestedScopes.Resolves "x" 7 6 := .above (by decide) (by decide) hsix
  have height : nestedScopes.Resolves "x" 8 8 := .here (by decide)
  obtain ⟨hiff, hok, -⟩ := assign_exact reachable_nestedScopes 7 "x" (.table 7)
  obtain ⟨h', hassign⟩ := hiff.2 (exists_lookup_iff.2 ⟨6, (definer?_eq_some_iff ho).2 hseven⟩)
  obtain ⟨d, hd, -, hlookup⟩ := hok h' hassign
  obtain rfl : d = 6 := hseven.unique hd
  refine ⟨h', hassign, (hlookup 6 "x").1 ⟨rfl, hsix⟩, ?_⟩
  rw [(hlookup 8 "x").2 fun h => absurd (height.unique h.2) (by decide)]
  exact lookup_of_definer? ((definer?_eq_some_iff ho).2 height) (by decide)

end Heap

end Offside
