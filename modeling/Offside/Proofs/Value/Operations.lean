import Offside.Proofs.Value.Reachable

/-!
# Operations

What a program does to a heap, one operation at a time: it makes something new, or it changes an
entry. `Later` is any number of them in a row, so a heap is reachable exactly if it is later than
the heap without tables. No operation touches the parent or the metatable of a table that exists.

Results:
* `Heap.reachable_iff_later`: the operations are those of `Reachable`.
* `Heap.Later.keepsLinks`: parents and metatables are fixed once a table is made.
-/

namespace Offside

namespace Heap

/-- What a program can make. -/
inductive Making where
  | registry
  | table (r : Registry)
  | tableWith (metatable : TableId)
  | child (r : Registry) (parent : TableId)
  | form (r : Registry) (name : String) (role : Form.Role)

namespace Making

/-- Does a program with these registries and this heap have what it takes? -/
def Allowed (rs : List Registry) (h : Heap) : Making → Prop
  | registry => True
  | table r => r ∈ rs
  | tableWith metatable => h.Has metatable
  | child r parent => r ∈ rs ∧ h.Has parent
  | form r _ _ => r ∈ rs

/-- The registries afterwards. -/
def registries (rs : List Registry) (h : Heap) : Making → List Registry
  | registry => (Registry.bootstrap h).1 :: rs
  | _ => rs

/-- The heap afterwards. -/
def heap (h : Heap) : Making → Heap
  | registry => (Registry.bootstrap h).2
  | table r => (r.makeTable h).2
  | tableWith metatable => (Registry.makeTableWith metatable h).2
  | child r parent => (r.makeChild parent h).2
  | form r name role => (r.makeForm name role h).2

end Making

/-- What a program can do to a heap. -/
inductive Operation where
  | make (m : Making)
  | set (t : TableId) (name : String) (v : Value)
  | remove (t : TableId) (name : String)
  | assign (t : TableId) (name : String) (v : Value)

namespace Operation

/-- Does a program with these registries and this heap have what it takes? -/
def Allowed (rs : List Registry) (h : Heap) : Operation → Prop
  | make m => m.Allowed rs h
  | set t _ v | assign t _ v => h.Has t ∧ h.Knows v
  | remove t _ => h.Has t

/-- The registries afterwards. -/
def registries (rs : List Registry) (h : Heap) : Operation → List Registry
  | make m => m.registries rs h
  | _ => rs

/-- The heap afterwards. -/
def heap (h : Heap) : Operation → Heap
  | make m => m.heap h
  | set t name v => (h.set t name v).2
  | remove t name => (h.remove t name).2
  | assign t name v => (h.assign t name v).2

end Operation

/-- The registries and the heap that a program can have, later than the given ones. -/
inductive Later (rs : List Registry) (h : Heap) : List Registry → Heap → Prop
  | now : Later rs h rs h
  | next {rs' : List Registry} {h' : Heap} (hl : Later rs h rs' h') (op : Operation)
      (hop : op.Allowed rs' h') : Later rs h (op.registries rs' h') (op.heap h')

section

variable {rs rs' : List Registry} {h h' h'' : Heap}

theorem Reachable.operation (hr : Reachable rs h) {op : Operation} (hop : op.Allowed rs h) :
    Reachable (op.registries rs h) (op.heap h) := by
  cases op with
  | make m =>
    cases m with
    | registry => exact hr.bootstrap
    | table r => exact hr.makeTable hop
    | tableWith metatable => exact hr.makeTableWith hop
    | child r parent => exact hr.makeChild hop.1 hop.2
    | form r name role => exact hr.makeForm name role hop
  | set t name v => exact hr.set name hop.1 hop.2
  | remove t name => exact hr.remove name hop
  | assign t name v => exact hr.assign name hop.1 hop.2

theorem Reachable.later (hr : Reachable rs h) (hl : Later rs h rs' h') : Reachable rs' h' := by
  induction hl with
  | now => exact hr
  | next _ op hop ih => exact ih.operation hop

theorem reachable_iff_later : Reachable rs h ↔ Later [] {} rs h := by
  constructor
  · intro hr
    induction hr with
    | start => exact .now
    | bootstrap _ ih => exact ih.next (.make .registry) trivial
    | @makeTable _ _ r _ hmem ih => exact ih.next (.make (.table r)) hmem
    | @makeTableWith _ _ m _ hm ih => exact ih.next (.make (.tableWith m)) hm
    | @makeChild _ _ r p _ hmem hp ih => exact ih.next (.make (.child r p)) ⟨hmem, hp⟩
    | @makeForm _ _ r name role _ hmem ih => exact ih.next (.make (.form r name role)) hmem
    | @set _ _ t v name _ ht hv ih => exact ih.next (.set t name v) ⟨ht, hv⟩
    | @remove _ _ t name _ ht ih => exact ih.next (.remove t name) ht
    | @assign _ _ t v name _ ht hv ih => exact ih.next (.assign t name v) ⟨ht, hv⟩
  · exact Reachable.start.later

/-! ## Links -/

/-- The tables of the first heap are in the second, with the same parents and metatables. -/
structure KeepsLinks (h h' : Heap) : Prop where
  has : ∀ t, h.Has t → h'.Has t
  parent? : ∀ t, h.Has t → h'.parent? t = h.parent? t
  link : ∀ t, h.Has t → (h'.table t).metatable = (h.table t).metatable

namespace KeepsLinks

theorem refl (h : Heap) : KeepsLinks h h := ⟨fun _ ht => ht, fun _ _ => rfl, fun _ _ => rfl⟩

theorem trans (hl : KeepsLinks h h') (hl' : KeepsLinks h' h'') : KeepsLinks h h'' where
  has t ht := hl'.has t (hl.has t ht)
  parent? t ht := (hl'.parent? t (hl.has t ht)).trans (hl.parent? t ht)
  link t ht := (hl'.link t (hl.has t ht)).trans (hl.link t ht)

theorem metatable (hl : KeepsLinks h h') {t : TableId} (ht : h.Has t) :
    h'.metatable t = h.metatable t := by
  rw [Heap.metatable, Heap.metatable, hl.link t ht]

theorem isRoot (hl : KeepsLinks h h') {t : TableId} (ht : h.Has t) :
    h'.isRoot t = h.isRoot t := by
  rw [Heap.isRoot, Heap.isRoot, hl.link t ht]

end KeepsLinks

theorem table_newTable_of_has {t : TableId} (ht : h.Has t) (metatable parent : Option TableId) :
    (h.newTable metatable parent).2.table t = h.table t := by
  rw [table_newTable, if_neg (Nat.ne_of_lt ht)]

theorem keepsLinks_newTable (h : Heap) (metatable parent : Option TableId) :
    KeepsLinks h (h.newTable metatable parent).2 where
  has t ht := ht.mono (by simp)
  parent? t ht := congrArg Table.parent (table_newTable_of_has ht metatable parent)
  link t ht := congrArg Table.metatable (table_newTable_of_has ht metatable parent)

theorem keepsLinks_update (h : Heap) (d : TableId) (f : Entries Value → Entries Value) :
    KeepsLinks h (h.update d f) where
  has t ht := ht.mono (by simp)
  parent? t _ := parent?_update h d f t
  link t _ := metatable_update h d f t

theorem keepsLinks_bootstrap (h : Heap) : KeepsLinks h (Registry.bootstrap h).2 := by
  have hderive : ∀ {h' : Heap}, KeepsLinks h h' →
      KeepsLinks h (h'.newTable (some h.tables.size) none).2 :=
    fun hl => hl.trans (keepsLinks_newTable _ _ _)
  exact hderive (hderive (hderive (hderive (hderive (keepsLinks_newTable h none none)))))

theorem Making.keepsLinks (m : Making) (h : Heap) : KeepsLinks h (m.heap h) := by
  cases m with
  | registry => exact keepsLinks_bootstrap h
  | table r => exact keepsLinks_newTable h _ _
  | tableWith metatable => exact keepsLinks_newTable h _ _
  | child r parent => exact keepsLinks_newTable h _ _
  | form r name role => exact ⟨fun _ ht => ht, fun _ _ => rfl, fun _ _ => rfl⟩

theorem Operation.keepsLinks (op : Operation) (h : Heap) : KeepsLinks h (op.heap h) := by
  cases op with
  | make m => exact m.keepsLinks h
  | set t name v => exact keepsLinks_update h t (·.insert name v)
  | remove t name => exact keepsLinks_update h t (·.erase name)
  | assign t name v =>
    rcases h.assign_heap t name v with hh | ⟨d, hh⟩
    · rw [heap, hh]; exact .refl h
    · rw [heap, hh]; exact keepsLinks_update h d _

/-- **Links.** Parents and metatables stay as they are, whatever a program does later. -/
theorem Later.keepsLinks (hl : Later rs h rs' h') : KeepsLinks h h' := by
  induction hl with
  | now => exact .refl h
  | next _ op _ ih => exact ih.trans (op.keepsLinks _)

end

end Heap

end Offside
