import Offside.Value.Call

/-!
# Reachable heaps

The heaps that a program can make: from no tables, by making registries, tables and forms, and by
changing the entries of tables. What it puts into a table it got from the heap before. Calls do
nothing else to a heap.

Results:
* `Heap.Reachable.sane`: every parent and every metatable is older than the table it belongs to.
* `Heap.Reachable.call`: a call leads from a reachable heap to a reachable one.
-/

namespace Offside

theorem Value.eq_table_of_asTable? {v : Value} {t : TableId} (h : v.asTable? = some t) :
    v = .table t := by
  cases v with
  | table id => cases h; rfl
  | _ => cases h

theorem Value.eq_table_of_expectTable {v : Value} {t : TableId} (h : v.expectTable = .ok t) :
    v = .table t := by
  cases v with
  | table id => cases h; rfl
  | _ => cases h

namespace Heap

/-- Is `t` the identity of a table? -/
def Has (h : Heap) (t : TableId) : Prop := t < h.tables.size

instance (h : Heap) (t : TableId) : Decidable (h.Has t) := inferInstanceAs (Decidable (_ < _))

/-- Do the tables and the form that a value refers to exist? -/
def Knows (h : Heap) : Value → Prop
  | .table t => h.Has t
  | .nil m | .boolean _ m | .number _ m | .string _ m => h.Has m
  | .form f m => f.id < h.forms ∧ h.Has m

/-- A heap that a program can make, with the registries it has made. -/
inductive Reachable : List Registry → Heap → Prop
  | start : Reachable [] {}
  | bootstrap {rs : List Registry} {h : Heap} (hr : Reachable rs h) :
      Reachable ((Registry.bootstrap h).1 :: rs) (Registry.bootstrap h).2
  | makeTable {rs : List Registry} {h : Heap} {r : Registry} (hr : Reachable rs h) (hmem : r ∈ rs) :
      Reachable rs (r.makeTable h).2
  | makeTableWith {rs : List Registry} {h : Heap} {m : TableId} (hr : Reachable rs h)
      (hm : h.Has m) : Reachable rs (Registry.makeTableWith m h).2
  | makeChild {rs : List Registry} {h : Heap} {r : Registry} {p : TableId} (hr : Reachable rs h)
      (hmem : r ∈ rs) (hp : h.Has p) : Reachable rs (r.makeChild p h).2
  | makeForm {rs : List Registry} {h : Heap} {r : Registry} (name : String) (role : Form.Role)
      (hr : Reachable rs h) (hmem : r ∈ rs) : Reachable rs (r.makeForm name role h).2
  | set {rs : List Registry} {h : Heap} {t : TableId} {v : Value} (name : String)
      (hr : Reachable rs h) (ht : h.Has t) (hv : h.Knows v) : Reachable rs (h.set t name v).2
  | remove {rs : List Registry} {h : Heap} {t : TableId} (name : String) (hr : Reachable rs h)
      (ht : h.Has t) : Reachable rs (h.remove t name).2
  | assign {rs : List Registry} {h : Heap} {t : TableId} {v : Value} (name : String)
      (hr : Reachable rs h) (ht : h.Has t) (hv : h.Knows v) : Reachable rs (h.assign t name v).2

/-! ## Tables after a change -/

theorem table_newTable (h : Heap) (metatable parent : Option TableId) (t : TableId) :
    (h.newTable metatable parent).2.table t =
      if t = h.tables.size then { metatable, parent } else h.table t := by
  simp only [table, newTable, Array.getElem?_push]
  split <;> rfl

@[simp] theorem size_newTable (h : Heap) (metatable parent : Option TableId) :
    (h.newTable metatable parent).2.tables.size = h.tables.size + 1 := by
  simp [newTable]

@[simp] theorem size_update (h : Heap) (t : TableId) (f : Entries Value → Entries Value) :
    (h.update t f).tables.size = h.tables.size := by
  simp [update]

theorem Has.mono {h h' : Heap} {t : TableId} (ht : h.Has t) (hle : h.tables.size ≤ h'.tables.size) :
    h'.Has t := Nat.lt_of_lt_of_le ht hle

theorem table_update (h : Heap) (d : TableId) (f : Entries Value → Entries Value) (t : TableId) :
    (h.update d f).table t =
      if t = d ∧ h.Has d then { h.table t with entries := f (h.entries t) } else h.table t := by
  by_cases htd : t = d
  · subst htd
    by_cases ht : h.Has t
    · have hget : h.tables[t]? = some h.tables[t] := Array.getElem?_eq_getElem ht
      simp [table, update, entries, Array.getElem?_modify, ht, hget]
    · have hget : h.tables[t]? = none := Array.getElem?_eq_none (Nat.not_lt.1 ht)
      simp [table, update, Array.getElem?_modify, ht, hget]
  · simp [table, update, Array.getElem?_modify, htd, Ne.symm htd]

theorem entries_update {h : Heap} {d : TableId} (hd : h.Has d) (f : Entries Value → Entries Value)
    (t : TableId) :
    (h.update d f).entries t = if t = d then f (h.entries t) else h.entries t := by
  unfold entries
  rw [table_update]
  simp only [hd, and_true]
  split <;> rfl

theorem parent?_update (h : Heap) (d : TableId) (f : Entries Value → Entries Value) (t : TableId) :
    (h.update d f).parent? t = h.parent? t := by
  unfold parent?
  rw [table_update]
  split <;> rfl

theorem metatable_update (h : Heap) (d : TableId) (f : Entries Value → Entries Value)
    (t : TableId) : ((h.update d f).table t).metatable = (h.table t).metatable := by
  rw [table_update]
  split <;> rfl

theorem set_heap (h : Heap) (t : TableId) (name : String) (v : Value) :
    (h.set t name v).2 = h.update t (·.insert name v) := rfl

theorem remove_heap (h : Heap) (t : TableId) (name : String) :
    (h.remove t name).2 = h.update t (·.erase name) := rfl

theorem assign_heap (h : Heap) (t : TableId) (name : String) (v : Value) :
    (h.assign t name v).2 = h ∨ ∃ d, (h.assign t name v).2 = h.update d (·.insert name v) := by
  unfold assign
  split
  · next d _ => exact Or.inr ⟨d, rfl⟩
  · exact Or.inl rfl

/-! ## Links -/

/-- Parents and metatables are older than the tables that have them. -/
structure Ordered (h : Heap) : Prop where
  parent : ∀ t p, h.parent? t = some p → p < t
  metatable : ∀ t m, (h.table t).metatable = some m → m < t

namespace Ordered

variable {h : Heap}

theorem newTable (ho : h.Ordered) {metatable parent : Option TableId}
    (hm : ∀ m, metatable = some m → h.Has m) (hp : ∀ p, parent = some p → h.Has p) :
    (h.newTable metatable parent).2.Ordered where
  parent := by
    intro t p
    unfold Heap.parent?
    rw [table_newTable]
    split
    · next ht => exact fun h => ht ▸ hp p h
    · exact ho.parent t p
  metatable := by
    intro t m
    rw [table_newTable]
    split
    · next ht => exact fun h => ht ▸ hm m h
    · exact ho.metatable t m

theorem update (ho : h.Ordered) (d : TableId) (f : Entries Value → Entries Value) :
    (h.update d f).Ordered where
  parent := by
    intro t p
    rw [parent?_update]; exact ho.parent t p
  metatable := by
    intro t m
    rw [metatable_update]; exact ho.metatable t m

end Ordered

theorem bootstrap_tables (h : Heap) :
    (Registry.bootstrap h).1.tables = List.range' h.tables.size 6 := by
  simp [Registry.bootstrap, Registry.tables, newTable, List.range']

theorem size_bootstrap (h : Heap) :
    (Registry.bootstrap h).2.tables.size = h.tables.size + 6 := by
  simp [Registry.bootstrap, newTable]

/-- What every reachable heap has: its links are in order, and so are its registries. -/
structure Sane (rs : List Registry) (h : Heap) : Prop where
  ordered : h.Ordered
  registries : ∀ r ∈ rs, ∀ t ∈ r.tables, h.Has t

namespace Sane

variable {rs : List Registry} {h : Heap}

theorem root (hs : Sane rs h) {r : Registry} (hmem : r ∈ rs) : h.Has r.root :=
  hs.registries r hmem r.root List.mem_cons_self

theorem newTable (hs : Sane rs h) {metatable parent : Option TableId}
    (hm : ∀ m, metatable = some m → h.Has m) (hp : ∀ p, parent = some p → h.Has p) :
    Sane rs (h.newTable metatable parent).2 where
  ordered := hs.ordered.newTable hm hp
  registries r hr t ht := (hs.registries r hr t ht).mono (by simp)

theorem update (hs : Sane rs h) (d : TableId) (f : Entries Value → Entries Value) :
    Sane rs (h.update d f) where
  ordered := hs.ordered.update d f
  registries r hr t ht := (hs.registries r hr t ht).mono (by simp)

/-- The six tables of a new registry come after all others, the root first. -/
theorem bootstrap (hs : Sane rs h) :
    Sane ((Registry.bootstrap h).1 :: rs) (Registry.bootstrap h).2 := by
  have hroot : Sane rs (h.newTable none none).2 ∧ (h.newTable none none).2.Has h.tables.size :=
    ⟨hs.newTable nofun nofun, by simp [Has]⟩
  have hderive : ∀ {h' : Heap}, Sane rs h' ∧ h'.Has h.tables.size →
      Sane rs (h'.newTable (some h.tables.size) none).2 ∧
        (h'.newTable (some h.tables.size) none).2.Has h.tables.size := by
    intro h' hs'
    exact ⟨hs'.1.newTable (fun m hm => Option.some.inj hm ▸ hs'.2) nofun, hs'.2.mono (by simp)⟩
  have hall : Sane rs (Registry.bootstrap h).2 :=
    (hderive (hderive (hderive (hderive (hderive hroot))))).1
  refine ⟨hall.ordered, ?_⟩
  intro r hr t ht
  rcases List.mem_cons.1 hr with rfl | hr
  · rw [bootstrap_tables, List.mem_range'_1] at ht
    show t < _
    rw [size_bootstrap]; exact ht.2
  · exact hall.registries r hr t ht

end Sane

theorem Reachable.sane {rs : List Registry} {h : Heap} (hr : Reachable rs h) : Sane rs h := by
  induction hr with
  | start => exact ⟨⟨nofun, nofun⟩, nofun⟩
  | bootstrap _ ih => exact ih.bootstrap
  | makeTable _ hmem ih => exact ih.newTable (fun m hm => Option.some.inj hm ▸ ih.root hmem) nofun
  | makeTableWith _ hm ih => exact ih.newTable (fun _ h => Option.some.inj h ▸ hm) nofun
  | makeChild _ hmem hp ih =>
    exact ih.newTable (fun m hm => Option.some.inj hm ▸ ih.root hmem)
      fun _ h => Option.some.inj h ▸ hp
  | makeForm name role _ _ ih => exact ⟨⟨ih.ordered.parent, ih.ordered.metatable⟩, ih.registries⟩
  | @set _ h t v name _ _ _ ih => exact ih.update t (·.insert name v)
  | @remove _ h t name _ _ ih => exact ih.update t (·.erase name)
  | @assign rs h t v name _ _ _ ih =>
    rcases h.assign_heap t name v with hh | ⟨d, hh⟩
    · rw [hh]; exact ih
    · rw [hh]; exact ih.update _ _

/-! ## Calls -/

/-- A body changes a heap only by storing an argument, or nil, in a table. -/
theorem Reachable.run {rs : List Registry} {h : Heap} {r : Registry} {args : List Value}
    (hr : Reachable rs h) (hmem : r ∈ rs) (hargs : ∀ v ∈ args, h.Knows v) (p : Primitive) :
    Reachable rs (p.run r h args).2 := by
  have harg : ∀ i : Nat, h.Knows (args[i]?.getD r.makeNil) := by
    intro i
    cases hi : args[i]? with
    | some v => exact hargs v (List.mem_of_getElem? hi)
    | none => exact hr.sane.registries r hmem r.nil (by simp [Registry.tables])
  cases p with
  | put =>
    simp only [Primitive.run]
    split
    · exact hr
    · exact hr
    · next t name ht _ =>
      have htable := harg 0
      rw [Value.eq_table_of_expectTable ht] at htable
      exact hr.set name htable (harg 2)
  | sum | concat | identity => exact hr
  | lookup => simp only [Primitive.run]; split <;> exact hr
  | undefined context => simp only [Primitive.run]; split <;> exact hr

theorem Reachable.enter {rs : List Registry} {h : Heap} {args : List Value} (hr : Reachable rs h)
    (f : Form) {run : Body → Except Fault Value × Heap}
    (hrun : ∀ body, Reachable rs (run body).2) : Reachable rs (f.enter h args run).2 := by
  unfold Form.enter
  split
  · exact hr
  · next arity body _ =>
    split
    · exact hrun body
    · exact hr

/-- **Calls.** A call leads from a reachable heap to a reachable one. -/
theorem Reachable.call {rs : List Registry} {h : Heap} {r : Registry} {args : List Value}
    (hr : Reachable rs h) (hmem : r ∈ rs) (hargs : ∀ v ∈ args, h.Knows v) (f : Form) :
    Reachable rs (f.call r h args).2 := by
  induction args generalizing f with
  | nil =>
    rw [Form.call]
    refine hr.enter f fun body => ?_
    cases body with
    | primitive p => rw [Body.run]; exact hr.run hmem hargs p
    | apply => rw [Body.run]; exact hr
  | cons v args ih =>
    rw [Form.call]
    refine hr.enter f fun body => ?_
    cases body with
    | primitive p => rw [Body.run]; exact hr.run hmem hargs p
    | apply =>
      cases v with
      | form g m =>
        rw [Body.run]
        exact ih (fun v hv => hargs v (List.mem_cons_of_mem _ hv)) g
      | _ =>
        rw [Body.run]
        · exact hr
        · intro g m hform
          cases hform

end Heap

end Offside
