import Mathlib.Data.Finmap
import Offside.Proofs.Text.ByteOrder
import Offside.Proofs.Value.Metatables

/-!
# Tables as finite maps

A session is what a running program has: a heap, the values it keeps in registers, and the
snapshots it took. It gets at tables through handles, and many handles may lead to one table.
Every step is recorded as the writes it makes, each with the identity of the table it goes to; an
assignment goes to the table that the name resolves to. What a table holds is then what the writes
to its identity leave, replayed on a finite map.

Results:
* `Session.Sound.has_of_table?`: every handle leads to a table that exists.
* `Session.Steps.get?_eq`: a table holds what its writes leave.
* `Session.refines_maps`: all that is observed of tables and of snapshots.
-/

namespace Offside

open Text

/-! ## Finite maps -/

/-- A finite map from names to values. -/
abbrev Bindings := Finmap fun _ : String => Value

/-- A change of one binding. -/
inductive Write where
  | put (name : String) (v : Value)
  | drop (name : String)

def Write.apply (m : Bindings) : Write → Bindings
  | put name v => m.insert name v
  | drop name => m.erase name

/-- What the writes to a table leave in it, of all writes in their order. -/
def contents (t : TableId) (history : List (TableId × Write)) : Bindings :=
  (history.filter (·.1 = t)).foldl (fun m w => w.2.apply m) ∅

/-- What is read of a table, or of a snapshot, is what the map has. -/
structure Observed (m : Bindings) (get? : String → Option Value) (contains : String → Bool)
    (size : Nat) (keys : List String) : Prop where
  get?_eq : ∀ name, get? name = m.lookup name
  contains_iff : ∀ name, contains name = true ↔ name ∈ m
  size_eq : size = m.keys.card
  empty_iff : size = 0 ↔ m = ∅
  mem_keys : ∀ name, name ∈ keys ↔ name ∈ m
  /-- The names are collected in any order and sorted. -/
  sorted : ∀ names : List String, names.Nodup → (∀ name, name ∈ names ↔ name ∈ m) →
    keys = names.mergeSort
  increasing : keys.Pairwise fun a b => utf8 a < utf8 b
  nodup : keys.Nodup
  length_keys : keys.length = size

/-- What a write leaves of a binding of `name`. -/
def Write.rebind (name : String) (old : Option Value) : Write → Option Value
  | put other v => if name = other then some v else old
  | drop other => if name = other then none else old

theorem Write.lookup_apply (m : Bindings) (w : Write) (name : String) :
    (w.apply m).lookup name = w.rebind name (m.lookup name) := by
  cases w with
  | put other v =>
    rw [Write.apply, Write.rebind]
    split
    · next heq => rw [heq, Finmap.lookup_insert]
    · next hne => exact Finmap.lookup_insert_of_ne m hne
  | drop other =>
    rw [Write.apply, Write.rebind]
    split
    · next heq => rw [heq, Finmap.lookup_erase]
    · next hne => exact Finmap.lookup_erase_ne hne

theorem contents_snoc (t u : TableId) (history : List (TableId × Write)) (w : Write) :
    contents t (history ++ [(u, w)]) =
      if u = t then w.apply (contents t history) else contents t history := by
  unfold contents
  rw [List.filter_append, List.foldl_append]
  by_cases hu : u = t <;> simp [hu]

/-- Entries that answer every name as the map does show the map. -/
theorem Entries.observed {e : Entries Value} {m : Bindings}
    (hget : ∀ name, e.get? name = m.lookup name) :
    Observed m e.get? e.contains e.size e.keys := by
  have hcontains : ∀ name, e.contains name = true ↔ name ∈ m := by
    intro name
    rw [Entries.contains, hget, Finmap.lookup_isSome]
  have hkeys : ∀ name, name ∈ e.keys ↔ name ∈ m :=
    fun name => Entries.contains_iff.symm.trans (hcontains name)
  have hnodup : e.keys.Nodup := e.increasing_keys.imp String.ne_of_lt
  -- No name is listed twice, so the list is as long as the set is large.
  have hsize : e.size = m.keys.card := by
    rw [← e.length_keys, ← List.toFinset_card_of_nodup hnodup]
    congr 1
    ext name
    rw [List.mem_toFinset, Finmap.mem_keys, hkeys]
  have hsorted : ∀ names : List String, names.Nodup → (∀ name, name ∈ names ↔ name ∈ m) →
      e.keys = names.mergeSort := fun names hdistinct hnames =>
    Entries.keys_eq_mergeSort hdistinct fun name => (hnames name).trans (hcontains name).symm
  refine ⟨hget, hcontains, hsize, ?_, hkeys, hsorted, e.increasing_keys.imp utf8_lt, hnodup,
    e.length_keys⟩
  rw [hsize, Finset.card_eq_zero]
  constructor
  · intro hempty
    apply Finmap.ext_lookup
    intro name
    rw [Finmap.lookup_empty, Finmap.lookup_eq_none, ← Finmap.mem_keys, hempty]
    exact Finset.notMem_empty name
  · intro hempty
    rw [hempty, Finmap.keys_empty]

/-! ## Sessions -/

/-- How a program gets at a table. -/
inductive Handle where
  /-- A table that it keeps. -/
  | register (i : Nat)
  /-- A table that is stored in another. -/
  | entry (of : Handle) (name : String)
  | parent (of : Handle)
  | metatable (of : Handle)

/-- What a running program has. -/
structure Session where
  registries : List Registry := []
  heap : Heap := {}
  /-- The values it keeps. -/
  registers : List Value := []
  /-- The entries of tables, as they were when they were taken. -/
  snapshots : List (Entries Value) := []

namespace Session

open Heap

/-- The table that a handle leads to. -/
def table? (s : Session) : Handle → Option TableId
  | .register i => s.registers[i]?.bind Value.asTable?
  | .entry of name => (s.table? of).bind fun t => (s.heap.get? t name).bind Value.asTable?
  | .parent of => (s.table? of).bind s.heap.parent?
  | .metatable of => (s.table? of).map s.heap.metatable

/-- Takes a snapshot of a table. -/
def snapshot (s : Session) (t : TableId) : Session :=
  { s with snapshots := s.snapshots ++ [s.heap.entries t] }

/-- A step of a program, with the writes that it makes. -/
inductive Step : Session → List (TableId × Write) → Session → Prop
  | make {s : Session} (m : Making) (hm : m.Allowed s.registries s.heap) :
      Step s [] { s with
        registries := m.registries s.registries s.heap
        heap := m.heap s.heap }
  | keep {s : Session} (v : Value) (hv : s.heap.Knows v) :
      Step s [] { s with registers := s.registers ++ [v] }
  | set {s : Session} {t : TableId} (on : Handle) (name : String) (v : Value)
      (hon : s.table? on = some t) (hv : s.heap.Knows v) :
      Step s [(t, .put name v)] { s with heap := (s.heap.set t name v).2 }
  | remove {s : Session} {t : TableId} (on : Handle) (name : String)
      (hon : s.table? on = some t) :
      Step s [(t, .drop name)] { s with heap := (s.heap.remove t name).2 }
  | assign {s : Session} {t d : TableId} (on : Handle) (name : String) (v : Value)
      (hon : s.table? on = some t) (hv : s.heap.Knows v) (hd : s.heap.Resolves name t d) :
      Step s [(d, .put name v)] { s with heap := (s.heap.assign t name v).2 }
  | assignUndefined {s : Session} {t : TableId} (on : Handle) (name : String) (v : Value)
      (hon : s.table? on = some t) (hv : s.heap.Knows v) (hd : ∀ d, ¬ s.heap.Resolves name t d) :
      Step s [] { s with heap := (s.heap.assign t name v).2 }
  | snapshot {s : Session} {t : TableId} (on : Handle) (hon : s.table? on = some t) :
      Step s [] (s.snapshot t)

/-- Any number of steps, with all the writes that they make. -/
inductive Steps (s : Session) : List (TableId × Write) → Session → Prop
  | none : Steps s [] s
  | next {history writes : List (TableId × Write)} {s' s'' : Session}
      (hs : Steps s history s') (hstep : Step s' writes s'') : Steps s (history ++ writes) s''

end Session

/-! ## What exists -/

namespace Heap

/-- Every value in a table refers to tables and forms that exist. -/
def Closed (h : Heap) : Prop := ∀ t name v, h.get? t name = some v → h.Knows v

section

variable {rs : List Registry} {h h' : Heap} {v : Value}

theorem Knows.mono (hv : h.Knows v) (hl : KeepsLinks h h') (hforms : h.forms ≤ h'.forms) :
    h'.Knows v := by
  cases v with
  | form f m => exact ⟨Nat.lt_of_lt_of_le hv.1 hforms, hl.has m hv.2⟩
  | _ => exact hl.has _ hv

theorem entries_newTable (h : Heap) (metatable parent : Option TableId) (t : TableId) :
    (h.newTable metatable parent).2.entries t = h.entries t := by
  unfold entries
  rw [table_newTable]
  split
  · next ht =>
    rw [ht, Heap.table, Array.getElem?_eq_none (Nat.le_refl _), Option.getD_none]
  · rfl

theorem Making.entries (m : Making) (h : Heap) (t : TableId) :
    (m.heap h).entries t = h.entries t := by
  cases m with
  | registry => simp only [heap, Registry.bootstrap, entries_newTable]
  | table r => exact entries_newTable h _ _ t
  | tableWith metatable => exact entries_newTable h _ _ t
  | child r parent => exact entries_newTable h _ _ t
  | form r name role => rfl

theorem Making.forms_le (m : Making) (h : Heap) : h.forms ≤ (m.heap h).forms := by
  cases m with
  | form r name role => exact Nat.le_succ _
  | _ => exact Nat.le_refl _

theorem Operation.forms_le (op : Operation) (h : Heap) : h.forms ≤ (op.heap h).forms := by
  cases op with
  | make m => exact m.forms_le h
  | set t name v => exact Nat.le_refl _
  | remove t name => exact Nat.le_refl _
  | assign t name v =>
    rcases h.assign_heap t name v with hh | ⟨d, hh⟩
    · rw [heap, hh]
    · rw [heap, hh]; exact Nat.le_refl _

theorem Operation.knows (op : Operation) (hv : h.Knows v) : (op.heap h).Knows v :=
  hv.mono (op.keepsLinks h) (op.forms_le h)

section

variable {t d : TableId} {name : String}

theorem assign_of_resolves (ho : h.Ordered) (hd : h.Resolves name t d) :
    h.Replaces (h.assign t name v).2 d name v := by
  rw [assign, (definer?_eq_some_iff ho).2 hd]
  exact replaces_update hd.contains

theorem assign_of_not_resolves (ho : h.Ordered) (hd : ∀ d, ¬ h.Resolves name t d) :
    (h.assign t name v).2 = h := by
  unfold assign
  cases hdefiner : h.definer? t name with
  | none => rfl
  | some d => exact absurd ((definer?_eq_some_iff ho).1 hdefiner) (hd d)

end

theorem Closed.operation (hc : h.Closed) (ho : h.Ordered) {op : Operation}
    (hop : op.Allowed rs h) : (op.heap h).Closed := by
  intro x m u hu
  -- What is read afterwards was known before: it is the value that was stored, or it was there.
  apply op.knows
  cases op with
  | make making =>
    unfold Heap.get? at hu
    rw [Operation.heap, making.entries] at hu
    exact hc x m u hu
  | set t name v =>
    rw [Operation.heap, get?_set hop.1] at hu
    split at hu
    · cases hu; exact hop.2
    · exact hc x m u hu
  | remove t name =>
    rw [Operation.heap, get?_remove hop] at hu
    split at hu
    · cases hu
    · exact hc x m u hu
  | assign t name v =>
    by_cases hd : ∃ d, h.Resolves name t d
    · obtain ⟨d, hd⟩ := hd
      rw [Operation.heap, (assign_of_resolves ho hd).get?] at hu
      split at hu
      · cases hu; exact hop.2
      · exact hc x m u hu
    · rw [Operation.heap, assign_of_not_resolves ho (not_exists.1 hd)] at hu
      exact hc x m u hu

theorem Reachable.closed (hr : Reachable rs h) : h.Closed := by
  have hlater := reachable_iff_later.1 hr
  clear hr
  induction hlater with
  | now => exact fun t name v hv => by cases hv
  | next hl op hop ih => exact ih.operation (reachable_iff_later.2 hl).sane.ordered hop

end

end Heap

namespace Session

open Heap

/-- The heap is one that a program can make, and what is kept exists in it. -/
structure Sound (s : Session) : Prop where
  reachable : Reachable s.registries s.heap
  registers : ∀ v ∈ s.registers, s.heap.Knows v

section

variable {s s' s'' : Session} {history writes : List (TableId × Write)} {on : Handle} {t : TableId}

theorem start_sound : Sound {} := ⟨.start, fun _ hv => by cases hv⟩

theorem Sound.has_of_table? (hs : Sound s) (hon : s.table? on = some t) : s.heap.Has t := by
  have ho := hs.reachable.sane.ordered
  induction on generalizing t with
  | register i =>
    obtain ⟨v, hv, ht⟩ := Option.bind_eq_some_iff.1 hon
    have hknows := hs.registers v (List.mem_of_getElem? hv)
    rw [Value.eq_table_of_asTable? ht] at hknows
    exact hknows
  | entry of name ih =>
    obtain ⟨u, hu, hentry⟩ := Option.bind_eq_some_iff.1 hon
    obtain ⟨v, hv, ht⟩ := Option.bind_eq_some_iff.1 hentry
    have hknows := hs.reachable.closed u name v hv
    rw [Value.eq_table_of_asTable? ht] at hknows
    exact hknows
  | parent of ih =>
    obtain ⟨u, hu, hp⟩ := Option.bind_eq_some_iff.1 hon
    exact Nat.lt_trans (ho.parent u t hp) (ih hu)
  | metatable of ih =>
    obtain ⟨u, hu, rfl⟩ := Option.map_eq_some_iff.1 hon
    exact Nat.lt_of_le_of_lt (metatable_le ho u) (ih hu)

/-! ## One step -/

theorem Sound.operation (hs : Sound s) (op : Operation) (hop : op.Allowed s.registries s.heap) :
    Sound { s with registries := op.registries s.registries s.heap, heap := op.heap s.heap } where
  reachable := hs.reachable.operation hop
  registers v hv := op.knows (hs.registers v hv)

theorem Step.sound (hs : Sound s) (hstep : Step s writes s') : Sound s' := by
  cases hstep with
  | make m hm => exact hs.operation (.make m) hm
  | keep v hv =>
    refine ⟨hs.reachable, fun u hu => ?_⟩
    rcases List.mem_append.1 hu with hu | hu
    · exact hs.registers u hu
    · rw [List.mem_singleton.1 hu]; exact hv
  | @set t on name v hon hv =>
    exact hs.operation (.set t name v) ⟨hs.has_of_table? hon, hv⟩
  | @remove t on name hon => exact hs.operation (.remove t name) (hs.has_of_table? hon)
  | @assign t d on name v hon hv hd =>
    exact hs.operation (.assign t name v) ⟨hs.has_of_table? hon, hv⟩
  | @assignUndefined t on name v hon hv hd =>
    exact hs.operation (.assign t name v) ⟨hs.has_of_table? hon, hv⟩
  | snapshot on hon => exact ⟨hs.reachable, hs.registers⟩

/-- What a step does to the tables: nothing, or the one write that it is recorded with. -/
theorem Step.get?_cases (hs : Sound s) (hstep : Step s writes s') :
    (writes = [] ∧ ∀ x m, s'.heap.get? x m = s.heap.get? x m) ∨
      ∃ u w, writes = [(u, w)] ∧ ∀ x m,
        s'.heap.get? x m = if x = u then w.rebind m (s.heap.get? x m) else s.heap.get? x m := by
  have ho := hs.reachable.sane.ordered
  cases hstep with
  | make making hm =>
    refine Or.inl ⟨rfl, fun x m => ?_⟩
    unfold Heap.get?
    rw [making.entries]
  | keep v hv => exact Or.inl ⟨rfl, fun _ _ => rfl⟩
  | @set t on name v hon hv =>
    refine Or.inr ⟨t, .put name v, rfl, fun x m => ?_⟩
    rw [get?_set (hs.has_of_table? hon), Write.rebind, ite_and]
  | @remove t on name hon =>
    refine Or.inr ⟨t, .drop name, rfl, fun x m => ?_⟩
    rw [get?_remove (hs.has_of_table? hon), Write.rebind, ite_and]
  | @assign t d on name v hon hv hd =>
    refine Or.inr ⟨d, .put name v, rfl, fun x m => ?_⟩
    rw [(assign_of_resolves ho hd).get?, Write.rebind, ite_and]
  | assignUndefined on name v hon hv hd =>
    refine Or.inl ⟨rfl, fun x m => ?_⟩
    rw [assign_of_not_resolves ho hd]
  | snapshot on hon => exact Or.inl ⟨rfl, fun _ _ => rfl⟩

theorem Step.contents_eq (hs : Sound s) (hstep : Step s writes s')
    (hcontents : ∀ t name, s.heap.get? t name = (contents t history).lookup name) (t : TableId)
    (name : String) : s'.heap.get? t name = (contents t (history ++ writes)).lookup name := by
  rcases hstep.get?_cases hs with ⟨rfl, hsame⟩ | ⟨u, w, rfl, hwrite⟩
  · rw [hsame, hcontents, List.append_nil]
  · rw [hwrite, hcontents, contents_snoc]
    by_cases hu : t = u
    · rw [if_pos hu, if_pos hu.symm, Write.lookup_apply]
    · rw [if_neg hu, if_neg (Ne.symm hu)]

/-- A step leaves the tables that it does not write to. -/
theorem Step.entries_eq (hs : Sound s) (hstep : Step s writes s') (ht : ∀ w, (t, w) ∉ writes) :
    s'.heap.entries t = s.heap.entries t := by
  apply Entries.ext
  intro name
  rcases hstep.get?_cases hs with ⟨-, hsame⟩ | ⟨u, w, rfl, hwrite⟩
  · exact hsame t name
  · refine (hwrite t name).trans (if_neg ?_)
    rintro rfl
    exact ht w (List.mem_singleton_self _)

theorem Step.snapshots_isPrefix (hstep : Step s writes s') : s.snapshots <+: s'.snapshots := by
  cases hstep with
  | snapshot on hon => exact List.prefix_append _ _
  | _ => exact List.prefix_rfl

/-! ## Whole runs -/

theorem Steps.sound (hs : Sound s) (hsteps : Steps s history s') : Sound s' := by
  induction hsteps with
  | none => exact hs
  | next _ hstep ih => exact hstep.sound ih

/-- **Replaying.** A table holds what the writes to it leave. -/
theorem Steps.get?_eq (hsteps : Steps {} history s) (t : TableId) (name : String) :
    s.heap.get? t name = (contents t history).lookup name := by
  induction hsteps generalizing t name with
  | none => rfl
  | next hsteps hstep ih => exact hstep.contents_eq (hsteps.sound start_sound) ih t name

theorem Steps.snapshots_isPrefix (hsteps : Steps s history s') : s.snapshots <+: s'.snapshots := by
  induction hsteps with
  | none => exact List.prefix_rfl
  | next _ hstep ih => exact ih.trans hstep.snapshots_isPrefix

/-- **Tables are finite maps.** After any steps of a program, every table shows the map that the
writes to its identity leave, and a change of it answers with what that map had. A step leaves all
tables that it does not write to. A snapshot shows the map of the moment when it was taken, whatever
steps follow. -/
theorem refines_maps (hsteps : Steps {} history s) :
    (∀ t, Observed (contents t history) (s.heap.get? t) (s.heap.contains t) (s.heap.size t)
        (s.heap.keys t) ∧
      ∀ name, (∀ v, (s.heap.set t name v).1 = (contents t history).lookup name) ∧
        (s.heap.remove t name).1 = (contents t history).lookup name) ∧
    (∀ writes s', Step s writes s' → ∀ t, (∀ w, (t, w) ∉ writes) →
      s'.heap.entries t = s.heap.entries t) ∧
    ∀ t later s', Steps (s.snapshot t) later s' →
      ∃ e : Entries Value, s'.snapshots[s.snapshots.length]? = some e ∧
        Observed (contents t history) e.get? e.contains e.size e.keys := by
  have hs := hsteps.sound start_sound
  have hget := hsteps.get?_eq
  refine ⟨fun t => ⟨Entries.observed (hget t), fun name => ⟨fun v => hget t name, hget t name⟩⟩,
    fun writes s' hstep t => hstep.entries_eq hs, ?_⟩
  -- Entries are values: what was taken stays in its place among the snapshots.
  intro t later s' hlater
  obtain ⟨rest, hrest⟩ := hlater.snapshots_isPrefix
  refine ⟨s.heap.entries t, ?_, Entries.observed (hget t)⟩
  rw [← hrest, snapshot]
  simp

end

/-- A table 6 with a child 7; both are kept. -/
def keptTables : Session where
  registries := [firstRegistry]
  heap := (firstRegistry.makeChild 6 (firstRegistry.makeTable (Registry.bootstrap {}).2).2).2
  registers := [.table 6, .table 7]

theorem steps_keptTables : Steps {} [] keptTables := by
  have hmem : firstRegistry ∈ [firstRegistry] := List.mem_singleton_self _
  have hregistry : Steps {} [] _ := Steps.none.next (.make .registry trivial)
  have htable := hregistry.next (.make (.table firstRegistry) hmem)
  have hchild := htable.next (.make (.child firstRegistry 6) ⟨hmem, by decide⟩)
  exact (hchild.next (.keep (.table 6) (show Has _ _ by decide))).next
    (.keep (.table 7) (show Has _ _ by decide))

/-- Table 6 holds itself under `self`, where its `x` is set; then the child assigns to `x`. -/
def aliasedTable : Session :=
  let h := (keptTables.heap.set 6 "self" (.table 6)).2
  let h := (h.set 6 "x" firstRegistry.makeNil).2
  { keptTables with heap := (h.assign 7 "x" (.table 7)).2 }

theorem steps_aliasedTable :
    Steps {} [(6, .put "self" (.table 6)), (6, .put "x" firstRegistry.makeNil),
      (6, .put "x" (.table 7))] aliasedTable := by
  have hself := steps_keptTables.next
    (.set (t := 6) (.register 0) "self" (.table 6) rfl (show Has _ _ by decide))
  have hx := hself.next (.set (t := 6) (.entry (.register 0) "self") "x" firstRegistry.makeNil
    (by decide) (show Has _ _ by decide))
  exact hx.next (.assign (.register 1) "x" (.table 7) rfl (show Has _ _ by decide)
    (.above (by decide) (by decide) (.here (by decide))))

/-- The snapshot has the `x` that is removed after it. -/
theorem refines_maps_aliasedTable :
    ∃ s, Steps (aliasedTable.snapshot 6) [(6, .drop "x")] s ∧ s.heap.get? 6 "x" = none ∧
      ∃ e : Entries Value, s.snapshots[0]? = some e ∧ e.get? "x" = some (.table 7) ∧
        e.keys = ["self", "x"] := by
  have hsnapshot := steps_aliasedTable.next (.snapshot (t := 6) (.register 0) rfl)
  have hremove := Step.remove (s := aliasedTable.snapshot 6) (t := 6) (.register 0) "x" rfl
  obtain ⟨-, -, hsnapshots⟩ := refines_maps steps_aliasedTable
  obtain ⟨e, he, hobserved⟩ := hsnapshots 6 _ _ (Steps.none.next hremove)
  refine ⟨_, Steps.none.next hremove, ?_, e, he, ?_, ?_⟩
  · rw [(hsnapshot.next hremove).get?_eq]
    exact Finmap.lookup_erase _ _
  · rw [hobserved.get?_eq]
    exact Finmap.lookup_insert _
  · have hkeys := hobserved.sorted ["self", "x"] (by decide) fun name => by
      simp [contents, Write.apply, Finmap.notMem_empty, or_comm]
    exact hkeys.trans (List.mergeSort_of_pairwise (by decide))

end Session

end Offside
