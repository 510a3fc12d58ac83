import Mathlib.Data.List.Iterate
import Mathlib.Logic.Function.Iterate
import Mathlib.Tactic.IntervalCases
import Offside.Proofs.Value.Operations
import Offside.Proofs.Value.Shadowing

/-!
# Metatables and parents

Both links of a table lead to older tables, but for the roots, which are their own metatables. So
no chain of parents comes back to where it began, every search ends, and taking metatables ends at
a root. `RootAfter` counts the steps to it. The entries of tables have no part in this: they may
hold any tables.

Results:
* `Heap.Reachable.rooted`: the roots are those of the registries, and the defaults are below them.
* `Heap.exists_rootAfter`: every table has a root above it.
* `Heap.links_wellFounded`: parents, metatables and the number of steps to the root.
-/

namespace Offside

theorem Registry.metatableFor_mem (r : Registry) (kind : Kind) :
    r.metatableFor kind ∈ r.tables := by
  cases kind <;> simp [metatableFor, tables]

namespace Heap

/-- The metatable of a value, as a value. -/
def up (h : Heap) (v : Value) : Value := .table (h.metatableOf v)

/-- Taking the metatable `n` times leads from a value to the root, and to no root before. -/
structure RootAfter (h : Heap) (v : Value) (n : Nat) (root : TableId) : Prop where
  reached : h.up^[n] v = .table root
  isRoot : h.isRoot root = true
  first : ∀ k t, k < n → h.up^[k] v = .table t → h.isRoot t = false

/-- The roots are those of the registries, and each is above the default metatables of its own. -/
structure Rooted (rs : List Registry) (h : Heap) : Prop where
  roots : ∀ t, h.Has t → (h.isRoot t = true ↔ ∃ r ∈ rs, r.root = t)
  defaults : ∀ r ∈ rs, ∀ kind, kind ≠ .table →
    (h.table (r.metatableFor kind)).metatable = some r.root

section

variable {rs : List Registry} {h h' : Heap} {t m root : TableId} {v : Value} {n : Nat}

/-! ## One step -/

theorem isRoot_iff : h.isRoot t = true ↔ (h.table t).metatable = none :=
  Option.isNone_iff_eq_none

theorem isRoot_eq_false_iff : h.isRoot t = false ↔ ∃ m, (h.table t).metatable = some m := by
  rw [Heap.isRoot, Option.isNone_eq_false_iff, Option.isSome_iff_exists]

theorem metatable_of_isRoot (ht : h.isRoot t = true) : h.metatable t = t := by
  rw [Heap.metatable, isRoot_iff.1 ht, Option.getD_none]

theorem metatable_of_some (hm : (h.table t).metatable = some m) : h.metatable t = m := by
  rw [Heap.metatable, hm, Option.getD_some]

theorem up_table (h : Heap) (t : TableId) : h.up (.table t) = .table (h.metatable t) := rfl

theorem up_of_isRoot (ht : h.isRoot t = true) : h.up (.table t) = .table t := by
  rw [up_table, metatable_of_isRoot ht]

theorem up_iterate_table (h : Heap) (t : TableId) (n : Nat) :
    h.up^[n] (.table t) = .table (h.metatable^[n] t) := by
  induction n generalizing t with
  | zero => rfl
  | succ n ih => rw [Function.iterate_succ_apply, Function.iterate_succ_apply, up_table, ih]

/-- The metatable of a table is not younger, and it is older unless the table is a root. -/
theorem metatable_le (ho : h.Ordered) (t : TableId) : h.metatable t ≤ t := by
  cases hm : (h.table t).metatable with
  | none => rw [metatable_of_isRoot (isRoot_iff.2 hm)]
  | some m => rw [metatable_of_some hm]; exact Nat.le_of_lt (ho.metatable t m hm)

theorem metatable_lt (ho : h.Ordered) (ht : h.isRoot t = false) : h.metatable t < t := by
  obtain ⟨m, hm⟩ := isRoot_eq_false_iff.1 ht
  rw [metatable_of_some hm]; exact ho.metatable t m hm

theorem metatable_eq_self_iff (ho : h.Ordered) : h.metatable t = t ↔ h.isRoot t = true := by
  constructor
  · intro heq
    cases ht : h.isRoot t with
    | true => rfl
    | false => exact absurd heq (Nat.ne_of_lt (metatable_lt ho ht))
  · exact metatable_of_isRoot

theorem metatable_iterate_le (ho : h.Ordered) (n : Nat) (t : TableId) :
    h.metatable^[n] t ≤ t := by
  induction n generalizing t with
  | zero => exact Nat.le_refl t
  | succ n ih =>
    rw [Function.iterate_succ_apply]
    exact Nat.le_trans (ih _) (metatable_le ho t)

/-- A cycle of metatables is the loop of a root. -/
theorem isRoot_of_cycle (ho : h.Ordered) (hn : 0 < n) (hcycle : h.up^[n] (.table t) = .table t) :
    h.isRoot t = true := by
  obtain ⟨n, rfl⟩ := Nat.exists_eq_succ_of_ne_zero (Nat.ne_of_gt hn)
  rw [up_iterate_table, Function.iterate_succ_apply] at hcycle
  have hle := metatable_iterate_le ho n (h.metatable t)
  rw [Value.table.inj hcycle] at hle
  exact (metatable_eq_self_iff ho).1 (Nat.le_antisymm (metatable_le ho t) hle)

/-! ## Counting the steps -/

theorem rootAfter_zero (hroot : h.isRoot root = true) : h.RootAfter (.table root) 0 root :=
  ⟨rfl, hroot, fun _ _ hk => absurd hk (Nat.not_lt_zero _)⟩

/-- One step more than from the metatable, for a value that is no root. -/
theorem RootAfter.succ (hm : h.RootAfter (h.up v) n root)
    (hv : ∀ t, v = .table t → h.isRoot t = false) : h.RootAfter v (n + 1) root where
  reached := hm.reached
  isRoot := hm.isRoot
  first k t hk hup := by
    cases k with
    | zero => exact hv t hup
    | succ k => exact hm.first k t (Nat.lt_of_succ_lt_succ hk) hup

theorem RootAfter.stays (hv : h.RootAfter v n root) {k : Nat} (hk : n ≤ k) :
    h.up^[k] v = .table root := by
  obtain ⟨j, rfl⟩ := Nat.exists_eq_add_of_le hk
  rw [Nat.add_comm, Function.iterate_add_apply, hv.reached]
  exact Function.iterate_fixed (up_of_isRoot hv.isRoot) j

/-- Every table has a root above it; the metatables up to it are listed by `metatables`. -/
theorem exists_rootAfter (ho : h.Ordered) (t : TableId) :
    ∃ n root, h.RootAfter (.table t) n root ∧
      h.metatables t = List.iterate h.metatable t (n + 1) := by
  induction t using Nat.strongRecOn with
  | _ t ih =>
    cases ht : (h.table t).metatable with
    | none =>
      refine ⟨0, t, rootAfter_zero (isRoot_iff.2 ht), ?_⟩
      rw [metatables, ht]; rfl
    | some m =>
      have hlt := ho.metatable t m ht
      obtain ⟨n, root, hroot, hlist⟩ := ih m hlt
      have hup : h.up (.table t) = .table m := by rw [up_table, metatable_of_some ht]
      refine ⟨n + 1, root, .succ (by rw [hup]; exact hroot) ?_, ?_⟩
      · intro s hs
        cases hs
        exact isRoot_eq_false_iff.2 ⟨m, ht⟩
      · rw [metatables, ht, List.iterate, metatable_of_some ht, ← hlist]
        simp [hlt]

/-! ## Along a program -/

theorem KeepsLinks.metatableOf (hl : KeepsLinks h h') (hv : h.Knows v) :
    h'.metatableOf v = h.metatableOf v := by
  cases v with
  | table t => exact hl.metatable hv
  | _ => rfl

theorem knows_up (ho : h.Ordered) (hv : h.Knows v) : h.Knows (h.up v) := by
  cases v with
  | table t => exact Nat.lt_of_le_of_lt (metatable_le ho t) hv
  | form f m => exact hv.2
  | _ => exact hv

theorem KeepsLinks.up_iterate (hl : KeepsLinks h h') (ho : h.Ordered) (hv : h.Knows v) (n : Nat) :
    h'.up^[n] v = h.up^[n] v ∧ h.Knows (h.up^[n] v) := by
  induction n generalizing v with
  | zero => exact ⟨rfl, hv⟩
  | succ n ih =>
    have hup : h'.up v = h.up v := congrArg Value.table (hl.metatableOf hv)
    rw [Function.iterate_succ_apply, Function.iterate_succ_apply, hup]
    exact ih (knows_up ho hv)

theorem RootAfter.keep (hv : h.RootAfter v n root) (hl : KeepsLinks h h') (ho : h.Ordered)
    (hknows : h.Knows v) : h'.RootAfter v n root := by
  have hroot : h.Has root := by
    have hlast := (hl.up_iterate ho hknows n).2
    rw [hv.reached] at hlast
    exact hlast
  refine ⟨(hl.up_iterate ho hknows n).1.trans hv.reached, (hl.isRoot hroot).trans hv.isRoot, ?_⟩
  intro k t hk hup
  obtain ⟨hsame, hknown⟩ := hl.up_iterate ho hknows k
  rw [hsame] at hup
  rw [hup] at hknown
  exact (hl.isRoot hknown).trans (hv.first k t hk hup)

/-! ## Roots -/

theorem Rooted.keep (hr : Rooted rs h) (hs : Sane rs h) (hl : KeepsLinks h h')
    (hnew : ∀ t, h'.Has t → ¬ h.Has t → h'.isRoot t = false) : Rooted rs h' where
  roots t ht := by
    by_cases hold : h.Has t
    · rw [hl.isRoot hold]; exact hr.roots t hold
    · constructor
      · intro hroot
        rw [hnew t ht hold] at hroot
        cases hroot
      · intro hroot
        obtain ⟨r, hmem, rfl⟩ := hroot
        exact absurd (hs.root hmem) hold
  defaults r hmem kind hkind := by
    rw [hl.link _ (hs.registries r hmem _ (r.metatableFor_mem kind))]
    exact hr.defaults r hmem kind hkind

theorem Rooted.newTable (hr : Rooted rs h) (hs : Sane rs h) (m : TableId)
    (parent : Option TableId) : Rooted rs (h.newTable (some m) parent).2 := by
  apply hr.keep hs (keepsLinks_newTable h _ _)
  intro t ht hold
  have hlast : t = h.tables.size := by
    rw [Has, size_newTable] at ht
    exact Nat.le_antisymm (Nat.le_of_lt_succ ht) (Nat.not_lt.1 hold)
  rw [isRoot_eq_false_iff, table_newTable, if_pos hlast]
  exact ⟨m, rfl⟩

theorem Rooted.update (hr : Rooted rs h) (hs : Sane rs h) (d : TableId)
    (f : Entries Value → Entries Value) : Rooted rs (h.update d f) := by
  apply hr.keep hs (keepsLinks_update h d f)
  intro t ht hold
  rw [Has, size_update] at ht
  exact absurd ht hold

/-- The first of the six tables of a new registry is a root, and the metatable of the others. -/
theorem link_bootstrap (h : Heap) {i : Nat} (hi : i < 6) :
    ((Registry.bootstrap h).2.table (h.tables.size + i)).metatable =
      if i = 0 then none else some h.tables.size := by
  have htables : (Registry.bootstrap h).2 =
      ((((((h.newTable none none).2.newTable (some h.tables.size) none).2.newTable
        (some h.tables.size) none).2.newTable (some h.tables.size) none).2.newTable
        (some h.tables.size) none).2.newTable (some h.tables.size) none).2 := rfl
  rw [htables]
  interval_cases i <;> simp [table_newTable, Nat.add_assoc]

/-- The default metatables come after the root. -/
theorem metatableFor_bootstrap (h : Heap) {kind : Kind} (hkind : kind ≠ .table) :
    ∃ i, 0 < i ∧ i < 6 ∧ (Registry.bootstrap h).1.metatableFor kind = h.tables.size + i := by
  cases kind <;>
    simp [Registry.bootstrap, Registry.metatableFor, newTable, Nat.add_assoc] at hkind ⊢

theorem Rooted.bootstrap (hr : Rooted rs h) (hs : Sane rs h) :
    Rooted ((Registry.bootstrap h).1 :: rs) (Registry.bootstrap h).2 where
  roots t ht := by
    have hroot : (Registry.bootstrap h).1.root = h.tables.size := rfl
    rw [List.exists_mem_cons_iff, hroot]
    by_cases hold : h.Has t
    · rw [(keepsLinks_bootstrap h).isRoot hold, hr.roots t hold]
      exact (or_iff_right (Nat.ne_of_gt hold)).symm
    · obtain ⟨i, rfl⟩ := Nat.exists_eq_add_of_le (Nat.not_lt.1 hold)
      have hi : i < 6 := by
        rw [Has, size_bootstrap] at ht
        exact Nat.lt_of_add_lt_add_left ht
      have hnone : ¬ ∃ r ∈ rs, r.root = h.tables.size + i := by
        rintro ⟨r, hmem, heq⟩
        exact hold (heq ▸ hs.root hmem)
      rw [isRoot_iff, link_bootstrap h hi, or_iff_left hnone]
      by_cases hzero : i = 0 <;> simp [hzero]
  defaults r hmem kind hkind := by
    rcases List.mem_cons.1 hmem with rfl | hmem
    · obtain ⟨i, hpos, hi, heq⟩ := metatableFor_bootstrap h hkind
      rw [heq, link_bootstrap h hi, if_neg (Nat.ne_of_gt hpos)]
      rfl
    · rw [(keepsLinks_bootstrap h).link _ (hs.registries r hmem _ (r.metatableFor_mem kind))]
      exact hr.defaults r hmem kind hkind

/-- **Roots.** In every reachable heap they are those of the registries. -/
theorem Reachable.rooted (hr : Reachable rs h) : Rooted rs h := by
  induction hr with
  | start => exact ⟨nofun, nofun⟩
  | bootstrap hr ih => exact ih.bootstrap hr.sane
  | makeTable hr _ ih => exact ih.newTable hr.sane _ _
  | makeTableWith hr _ ih => exact ih.newTable hr.sane _ _
  | makeChild hr _ _ ih => exact ih.newTable hr.sane _ _
  | makeForm name role _ _ ih => exact ⟨ih.roots, ih.defaults⟩
  | set name hr _ _ ih => exact ih.update hr.sane _ (·.insert name _)
  | remove name hr _ ih => exact ih.update hr.sane _ (·.erase name)
  | @assign _ h t v name hr _ _ ih =>
    rcases h.assign_heap t name v with hh | ⟨d, hh⟩
    · rw [hh]; exact ih
    · rw [hh]; exact ih.update hr.sane d _

/-! ## Values as they are made -/

/-- A value that is no table takes one step more than its metatable. -/
theorem rootAfter_of_metatableOf (hkind : v.kind ≠ .table) (hm : h.metatableOf v = m)
    (hroot : h.RootAfter (.table m) n root) : h.RootAfter v (n + 1) root := by
  refine .succ (by rw [up, hm]; exact hroot) ?_
  rintro t rfl
  exact absurd rfl hkind

theorem metatableOf_withMetatable (hkind : v.kind ≠ .table) (m : TableId) :
    h.metatableOf (v.withMetatable m) = m := by
  cases v with
  | table t => exact absurd rfl hkind
  | _ => rfl

theorem kind_withMetatable (v : Value) (m : TableId) : (v.withMetatable m).kind = v.kind := by
  cases v <;> rfl

theorem Rooted.isRoot (hr : Rooted rs h) (hs : Sane rs h) {r : Registry} (hmem : r ∈ rs) :
    h.isRoot r.root = true := (hr.roots r.root (hs.root hmem)).2 ⟨r, hmem, rfl⟩

theorem rootAfter_of_some (hm : (h.table t).metatable = some m)
    (hroot : h.RootAfter (.table m) n root) : h.RootAfter (.table t) (n + 1) root := by
  refine .succ (by rw [up_table, metatable_of_some hm]; exact hroot) ?_
  rintro s hs
  cases hs
  exact isRoot_eq_false_iff.2 ⟨m, hm⟩

theorem rootAfter_newTable (ho : h.Ordered) (hm : h.Has m) (hroot : h.RootAfter (.table m) n root)
    (parent : Option TableId) :
    (h.newTable (some m) parent).2.RootAfter (.table h.tables.size) (n + 1) root := by
  apply rootAfter_of_some (m := m)
  · rw [table_newTable, if_pos rfl]
  · exact hroot.keep (keepsLinks_newTable h _ _) ho hm

/-- A value with the default metatable of its kind takes two steps, but for a table. -/
theorem Rooted.rootAfter_default (hr : Rooted rs h) (hs : Sane rs h) {r : Registry} (hmem : r ∈ rs)
    (kind : Kind) (hkind : kind ≠ .table) (hv : v.kind = kind)
    (hm : h.metatableOf v = r.metatableFor kind) : h.RootAfter v 2 r.root :=
  rootAfter_of_metatableOf (hv ▸ hkind) hm
    (rootAfter_of_some (hr.defaults r hmem kind hkind) (rootAfter_zero (hr.isRoot hs hmem)))

/-! ## Searches -/

theorem Visits.lookup_eq (ho : h.Ordered) {name : String} {d : TableId}
    (hv : h.Visits name t d) : h.lookup t name = h.lookup d name :=
  AgreesOff.lookup_of_visits ⟨fun _ => rfl, fun _ _ _ => rfl⟩ ho ho hv

theorem exists_visits (ho : h.Ordered) (t : TableId) (name : String) :
    ∃ d, h.Visits name t d ∧ (h.contains d name = true ∨ h.parent? d = none) := by
  induction t using Nat.strongRecOn with
  | _ t ih =>
    cases ht : h.contains t name with
    | true => exact ⟨t, .here, Or.inl ht⟩
    | false =>
      cases hp : h.parent? t with
      | none => exact ⟨t, .here, Or.inr hp⟩
      | some p =>
        obtain ⟨d, hvis, hend⟩ := ih p (ho.parent t p hp)
        exact ⟨d, .above ht hp hvis, hend⟩

/-- **Searches end.** Looking up and assigning stop at the same table: the first one that holds the
name, or the last one there is. -/
theorem search_ends (ho : h.Ordered) (t : TableId) (name : String) :
    ∃ d, h.Visits name t d ∧
      ((∃ u, h.get? d name = some u ∧ h.lookup t name = .ok u ∧
          ∀ v, h.assign t name v = (.ok (), h.update d (·.insert name v))) ∨
        h.get? d name = none ∧ h.parent? d = none ∧ h.lookup t name = .error (undefined name) ∧
          ∀ v, h.assign t name v = (.error (undefined name), h)) := by
  obtain ⟨d, hvis, hend⟩ := exists_visits ho t name
  refine ⟨d, hvis, ?_⟩
  cases hd : h.get? d name with
  | some u =>
    have hlookup : h.lookup t name = .ok u := (hvis.lookup_eq ho).trans (lookup_of_get? ho hd)
    have hdefiner : h.definer? t name = some d := by
      rw [definer?_eq_some_iff ho, resolves_iff_visits]
      exact ⟨hvis, by rw [contains]; exact Option.isSome_of_eq_some hd⟩
    refine Or.inl ⟨u, rfl, hlookup, fun v => ?_⟩
    rw [assign, hdefiner]
  | none =>
    have hlast : h.parent? d = none := by
      rcases hend with hend | hend
      · rw [contains_eq_false_iff.2 hd] at hend
        cases hend
      · exact hend
    have hlookup : h.lookup t name = .error (undefined name) := by
      rw [hvis.lookup_eq ho, lookup_of_get?_eq_none ho hd, hlast]; rfl
    refine Or.inr ⟨rfl, hlast, hlookup, fun v => ?_⟩
    cases hdefiner : h.definer? t name with
    | none => rw [assign, hdefiner]
    | some s =>
      obtain ⟨u, hu⟩ := exists_lookup_iff.2 ⟨s, hdefiner⟩
      rw [hlookup] at hu
      cases hu

theorem lt_of_transGen_parent (ho : h.Ordered) {p : TableId}
    (hp : Relation.TransGen (fun t p => h.parent? t = some p) t p) : p < t := by
  induction hp with
  | single hp => exact ho.parent _ _ hp
  | tail _ hp ih => exact Nat.lt_trans (ho.parent _ _ hp) ih

/-- **Links.** Whatever a program does later, the parents and metatables of its tables stay as they
are, and so do the steps from its values to their roots. No chain of parents comes back, and every
search ends. Exactly the roots of the registries are their own metatables; taking metatables ends
at one of them, and comes back to no other table. Values that a registry makes take two steps to
its root and tables take one; a table with a metatable of its own, or a value given one, takes one
step more than that metatable. -/
theorem links_wellFounded (hreach : Reachable rs h) :
    (∀ rs' h', Later rs h rs' h' →
      (∀ t, h.Has t → h'.parent? t = h.parent? t ∧ h'.metatable t = h.metatable t ∧
        h'.isRoot t = h.isRoot t) ∧
      ∀ v n root, h.Knows v → h.RootAfter v n root → h'.RootAfter v n root) ∧
    (∀ t, ¬ Relation.TransGen (fun t p => h.parent? t = some p) t t) ∧
    (∀ t name, ∃ d, h.Visits name t d ∧
      ((∃ u, h.get? d name = some u ∧ h.lookup t name = .ok u ∧
          ∀ v, h.assign t name v = (.ok (), h.update d (·.insert name v))) ∨
        h.get? d name = none ∧ h.parent? d = none ∧
          h.lookup t name = .error ⟨.undefinedName name, none⟩ ∧
          ∀ v, h.assign t name v = (.error ⟨.undefinedName name, none⟩, h))) ∧
    (∀ t, h.Has t → (h.metatable t = t ↔ h.isRoot t = true) ∧
      (h.isRoot t = true ↔ ∃ r ∈ rs, r.root = t)) ∧
    (∀ t, h.Has t → ∃ n root, h.RootAfter (.table t) n root ∧ h.Has root ∧
      (∀ k, n ≤ k → h.up^[k] (.table t) = .table root) ∧
      h.metatables t = List.iterate h.metatable t (n + 1)) ∧
    (∀ t n, 0 < n → h.up^[n] (.table t) = .table t → h.isRoot t = true) ∧
    (∀ r ∈ rs,
      h.RootAfter r.makeNil 2 r.root ∧ (∀ b, h.RootAfter (r.makeBoolean b) 2 r.root) ∧
      (∀ x, h.RootAfter (r.makeNumber x) 2 r.root) ∧ (∀ s, h.RootAfter (r.makeString s) 2 r.root) ∧
      (∀ name role, (r.makeForm name role h).2.RootAfter (r.makeForm name role h).1 2 r.root) ∧
      (r.makeTable h).2.RootAfter (.table (r.makeTable h).1) 1 r.root ∧
      ∀ p, (r.makeChild p h).2.RootAfter (.table (r.makeChild p h).1) 1 r.root) ∧
    ∀ m n root, h.Has m → h.RootAfter (.table m) n root →
      (Registry.makeTableWith m h).2.RootAfter (.table (Registry.makeTableWith m h).1) (n + 1)
        root ∧
      ∀ v : Value, v.kind ≠ .table → h.RootAfter (v.withMetatable m) (n + 1) root := by
  have hs := hreach.sane
  have ho := hs.ordered
  have hr := hreach.rooted
  refine ⟨?_, ?_, search_ends ho, ?_, ?_, fun t n => isRoot_of_cycle ho, ?_, ?_⟩
  · intro rs' h' hl
    have hlinks := hl.keepsLinks
    refine ⟨fun t ht => ⟨hlinks.parent? t ht, hlinks.metatable ht, hlinks.isRoot ht⟩, ?_⟩
    exact fun v n root hv hroot => hroot.keep hlinks ho hv
  · exact fun t hcycle => Nat.lt_irrefl t (lt_of_transGen_parent ho hcycle)
  · exact fun t ht => ⟨metatable_eq_self_iff ho, hr.roots t ht⟩
  · intro t ht
    obtain ⟨n, root, hroot, hlist⟩ := exists_rootAfter ho t
    have hhas : h.Has root := by
      have hlast := hroot.reached
      rw [up_iterate_table] at hlast
      rw [← Value.table.inj hlast]
      exact Nat.lt_of_le_of_lt (metatable_iterate_le ho n t) ht
    exact ⟨n, root, hroot, hhas, fun k => hroot.stays, hlist⟩
  · intro r hmem
    have hroot : h.RootAfter (.table r.root) 0 r.root := rootAfter_zero (hr.isRoot hs hmem)
    refine ⟨hr.rootAfter_default hs hmem .nil (by decide) rfl rfl,
      fun b => hr.rootAfter_default hs hmem .boolean (by decide) rfl rfl,
      fun x => hr.rootAfter_default hs hmem .number (by decide) rfl rfl,
      fun s => hr.rootAfter_default hs hmem .string (by decide) rfl rfl,
      fun name role => ?_, ?_, fun p => ?_⟩
    · have hform := hreach.makeForm name role hmem
      exact hform.rooted.rootAfter_default hform.sane hmem .form (by decide) rfl rfl
    · exact rootAfter_newTable ho (hs.root hmem) hroot none
    · exact rootAfter_newTable ho (hs.root hmem) hroot (some p)
  · intro m n root hm hroot
    refine ⟨rootAfter_newTable ho hm hroot none, fun v hkind => ?_⟩
    exact rootAfter_of_metatableOf (by rw [kind_withMetatable]; exact hkind)
      (metatableOf_withMetatable hkind m) hroot

end

def secondRegistry : Registry := (Registry.bootstrap (Registry.bootstrap {}).2).1

/-- Two registries, the second with its root at 6. Table 12 has the second one's metatable for nil,
and is an entry of it and of itself; table 13, of the first registry, is its child. -/
def crossedLinks : Heap :=
  let h := (Registry.bootstrap (Registry.bootstrap {}).2).2
  let h := (Registry.makeTableWith secondRegistry.nil h).2
  let h := ((h.set 12 "self" (.table 12)).2.set 7 "user" (.table 12)).2
  (firstRegistry.makeChild 12 h).2

theorem reachable_crossedLinks : Reachable [secondRegistry, firstRegistry] crossedLinks := by
  have hmem : firstRegistry ∈ [secondRegistry, firstRegistry] := by simp
  have htable := Reachable.start.bootstrap.bootstrap.makeTableWith (m := 7) (by decide)
  have hself := htable.set (t := 12) (v := .table 12) "self" (by decide) (show Has _ _ by decide)
  have hentry := hself.set (t := 7) (v := .table 12) "user" (by decide) (show Has _ _ by decide)
  exact hentry.makeChild hmem (by decide)

theorem links_wellFounded_crossedLinks :
    crossedLinks.RootAfter (.table 12) 2 6 ∧
      crossedLinks.RootAfter (firstRegistry.makeNil.withMetatable 12) 3 6 ∧
      (∃ d, crossedLinks.Visits "self" 13 d ∧ crossedLinks.lookup 13 "self" = .ok (.table 12)) ∧
      ∀ h', Later [secondRegistry, firstRegistry] crossedLinks [secondRegistry, firstRegistry] h' →
        h'.metatable 12 = 7 ∧ h'.parent? 13 = some 12 := by
  obtain ⟨hlater, -, hsearch, hroots, -, -, -, hwrapped⟩ := links_wellFounded reachable_crossedLinks
  have hroot : crossedLinks.isRoot 6 = true :=
    (hroots 6 (by decide)).2.2 ⟨secondRegistry, by simp, by decide⟩
  have hnil : crossedLinks.RootAfter (.table 7) 1 6 :=
    rootAfter_of_some (m := 6) (by decide) (rootAfter_zero hroot)
  have htable : crossedLinks.RootAfter (.table 12) 2 6 :=
    rootAfter_of_some (m := 7) (by decide) hnil
  refine ⟨htable, (hwrapped 12 2 6 (by decide) htable).2 _ (by decide), ?_, ?_⟩
  · obtain ⟨d, hvis, -⟩ := hsearch 13 "self"
    have hstep : crossedLinks.Visits "self" 13 12 := .above (by decide) (by decide) .here
    have ho := reachable_crossedLinks.sane.ordered
    exact ⟨d, hvis, (hstep.lookup_eq ho).trans (lookup_of_get? ho (by decide))⟩
  · intro h' hl
    obtain ⟨hkept, -⟩ := hlater _ h' hl
    exact ⟨(hkept 12 (by decide)).2.1.trans (by decide), (hkept 13 (by decide)).1.trans (by decide)⟩

end Heap

end Offside
