/-!
# Entries of a table

A finite map from names to values. It has no order of its own: it is what a list of pairs answers
to names, and lists that answer alike are the same map. The names are sorted when they are listed,
by their code points, which is also the order of their UTF-8 bytes.

Results:
* `Entries.ext`: entries that answer every name alike are equal.
* `Entries.get?_insert`, `Entries.get?_erase`: what a change does to every name.
* `Entries.keys_eq_mergeSort`, `Entries.increasing_keys`: the names are listed in order, each once.
* `Entries.keys_insert`: replacing a value leaves the names.
-/

namespace Offside

/-- Pairs of names and values, no name twice. -/
structure Pairs (α : Type) where
  list : List (String × α)
  distinct : (list.map (·.1)).Nodup

namespace Pairs

variable {α : Type}

/-! ## Lists of pairs -/

/-- The value of the first pair with the name. -/
def find? (name : String) : List (String × α) → Option α
  | [] => none
  | (key, value) :: rest => if name = key then some value else find? name rest

/-- Puts a pair in the place of the one with its name, or else at the end. -/
def put (name : String) (value : α) : List (String × α) → List (String × α)
  | [] => [(name, value)]
  | (key, old) :: rest =>
    if name = key then (name, value) :: rest else (key, old) :: put name value rest

theorem names_put (name : String) (value : α) (pairs : List (String × α)) :
    (put name value pairs).map (·.1) =
      if name ∈ pairs.map (·.1) then pairs.map (·.1) else pairs.map (·.1) ++ [name] := by
  induction pairs with
  | nil => rfl
  | cons p rest ih =>
    obtain ⟨key, old⟩ := p
    by_cases hk : name = key
    · simp [put, hk]
    · rw [put, if_neg hk, List.map_cons, ih]
      by_cases hmem : name ∈ rest.map (·.1) <;> simp_all

theorem distinct_put (name : String) (value : α) {pairs : List (String × α)}
    (h : (pairs.map (·.1)).Nodup) : ((put name value pairs).map (·.1)).Nodup := by
  rw [names_put]
  split
  · exact h
  · next hmem =>
    refine List.nodup_append.2 ⟨h, List.pairwise_singleton _ _, fun a ha b hb heq => hmem ?_⟩
    rw [← List.mem_singleton.1 hb, ← heq]
    exact ha

theorem find?_put (name : String) (value : α) (pairs : List (String × α)) (other : String) :
    find? other (put name value pairs) =
      if other = name then some value else find? other pairs := by
  induction pairs with
  | nil => rfl
  | cons p rest ih =>
    obtain ⟨key, old⟩ := p
    by_cases hk : name = key
    · rw [put, if_pos hk, find?, find?, ← hk]
      by_cases ho : other = name <;> simp [ho]
    · rw [put, if_neg hk, find?, find?, ih]
      by_cases ho : other = key
      · rw [if_pos ho, if_pos ho, if_neg (ho ▸ Ne.symm hk)]
      · rw [if_neg ho, if_neg ho]

theorem find?_filter (name : String) (pairs : List (String × α)) (other : String) :
    find? other (pairs.filter (·.1 ≠ name)) = if other = name then none else find? other pairs := by
  induction pairs with
  | nil => simp [find?]
  | cons p rest ih =>
    obtain ⟨key, old⟩ := p
    by_cases hk : key = name
    · subst hk
      rw [List.filter_cons_of_neg (by simp), ih]
      by_cases ho : other = key <;> simp [find?, ho]
    · rw [List.filter_cons_of_pos (by simpa using hk)]
      simp only [find?, ih]
      by_cases ho : other = key
      · subst ho; simp [hk]
      · simp [ho]

theorem find?_isSome {name : String} {pairs : List (String × α)} :
    (find? name pairs).isSome = true ↔ name ∈ pairs.map (·.1) := by
  induction pairs with
  | nil => simp [find?]
  | cons p rest ih =>
    obtain ⟨key, old⟩ := p
    by_cases hk : name = key
    · simp [find?, hk]
    · rw [find?, if_neg hk, ih, List.map_cons, List.mem_cons, or_iff_right hk]

/-! ## Sorted names -/

theorem pairwise_mergeSort (names : List String) : names.mergeSort.Pairwise (· ≤ ·) := by
  have hsorted : names.mergeSort.Pairwise fun a b => decide (a ≤ b) = true :=
    List.pairwise_mergeSort (by simpa using fun a b c => String.le_trans)
      (by simpa using String.le_total) names
  exact hsorted.imp of_decide_eq_true

/-- Sorting forgets the order that names had. -/
theorem mergeSort_congr {names others : List String} (h : names.Perm others) :
    names.mergeSort = others.mergeSort := by
  have hperm : names.mergeSort.Perm others.mergeSort :=
    ((List.mergeSort_perm names _).trans h).trans (List.mergeSort_perm others _).symm
  exact hperm.eq_of_pairwise (fun _ _ _ _ => String.le_antisymm) (pairwise_mergeSort names)
    (pairwise_mergeSort others)

/-- The names, in increasing order. -/
def sortedNames (p : Pairs α) : List String := (p.list.map (·.1)).mergeSort

theorem sortedNames_perm (p : Pairs α) : p.sortedNames.Perm (p.list.map (·.1)) :=
  List.mergeSort_perm _ _

theorem sortedNames_lt (p : Pairs α) : p.sortedNames.Pairwise (· < ·) := by
  have hdistinct := p.sortedNames_perm.nodup_iff.2 p.distinct
  refine ((pairwise_mergeSort _).and hdistinct).imp fun h => ?_
  exact Std.lt_of_le_of_ne h.1 h.2

/-! ## Lists that answer alike -/

instance setoid (α : Type) : Setoid (Pairs α) where
  r a b := ∀ name, find? name a.list = find? name b.list
  iseqv :=
    ⟨fun _ _ => rfl, fun h name => (h name).symm, fun h h' name => (h name).trans (h' name)⟩

theorem find?_eq {a b : Pairs α} (h : a ≈ b) (name : String) :
    find? name a.list = find? name b.list := h name

/-- They have the same names. -/
theorem names_perm {a b : Pairs α} (h : a ≈ b) :
    (a.list.map (·.1)).Perm (b.list.map (·.1)) := by
  rw [List.perm_ext_iff_of_nodup a.distinct b.distinct]
  intro name
  rw [← find?_isSome, ← find?_isSome, find?_eq h]

theorem length_eq {a b : Pairs α} (h : a ≈ b) : a.list.length = b.list.length := by
  simpa using (names_perm h).length_eq

theorem sortedNames_eq {a b : Pairs α} (h : a ≈ b) : a.sortedNames = b.sortedNames :=
  mergeSort_congr (names_perm h)

end Pairs

/-! ## Maps -/

/-- A finite map from names. -/
def Entries (α : Type) : Type := Quotient (Pairs.setoid α)

namespace Entries

variable {α : Type}

/-- No entries. -/
def empty : Entries α := Quotient.mk _ ⟨[], .nil⟩

instance : EmptyCollection (Entries α) := ⟨empty⟩

def get? (e : Entries α) (name : String) : Option α :=
  e.lift (fun p => Pairs.find? name p.list) fun _ _ h => Pairs.find?_eq h name

def contains (e : Entries α) (name : String) : Bool := (e.get? name).isSome

def insert (e : Entries α) (name : String) (value : α) : Entries α :=
  e.lift
    (fun p => Quotient.mk _ ⟨Pairs.put name value p.list, Pairs.distinct_put name value p.distinct⟩)
    fun _ _ h => Quotient.sound fun other => by
      rw [Pairs.find?_put, Pairs.find?_put, Pairs.find?_eq h]

def erase (e : Entries α) (name : String) : Entries α :=
  e.lift
    (fun p => Quotient.mk _ ⟨p.list.filter (·.1 ≠ name),
      p.distinct.sublist (List.filter_sublist.map _)⟩)
    fun _ _ h => Quotient.sound fun other => by
      rw [Pairs.find?_filter, Pairs.find?_filter, Pairs.find?_eq h]

/-- The number of entries. -/
def size (e : Entries α) : Nat := e.lift (·.list.length) fun _ _ => Pairs.length_eq

/-- The names, in increasing order. -/
def keys (e : Entries α) : List String := e.lift Pairs.sortedNames fun _ _ => Pairs.sortedNames_eq

@[simp] theorem get?_empty (name : String) : (empty : Entries α).get? name = none := rfl

@[simp] theorem get?_insert (e : Entries α) (name : String) (value : α) (other : String) :
    (e.insert name value).get? other = if other = name then some value else e.get? other := by
  induction e using Quotient.ind with
  | _ p => exact Pairs.find?_put name value p.list other

@[simp] theorem get?_erase (e : Entries α) (name other : String) :
    (e.erase name).get? other = if other = name then none else e.get? other := by
  induction e using Quotient.ind with
  | _ p => exact Pairs.find?_filter name p.list other

theorem ext {a b : Entries α} (h : ∀ name, a.get? name = b.get? name) : a = b := by
  induction a using Quotient.ind with
  | _ p =>
    induction b using Quotient.ind with
    | _ q => exact Quotient.sound h

theorem contains_iff {e : Entries α} {name : String} :
    e.contains name = true ↔ name ∈ e.keys := by
  induction e using Quotient.ind with
  | _ p => exact Pairs.find?_isSome.trans p.sortedNames_perm.mem_iff.symm

theorem increasing_keys (e : Entries α) : e.keys.Pairwise (· < ·) := by
  induction e using Quotient.ind with
  | _ p => exact p.sortedNames_lt

/-- The names are what sorting gives, in whatever order they are collected. -/
theorem keys_eq_mergeSort {e : Entries α} {names : List String} (hdistinct : names.Nodup)
    (hnames : ∀ name, name ∈ names ↔ e.contains name = true) : e.keys = names.mergeSort := by
  induction e using Quotient.ind with
  | _ p =>
    refine Pairs.mergeSort_congr ((List.perm_ext_iff_of_nodup p.distinct hdistinct).2 ?_)
    intro name
    rw [hnames]
    exact Pairs.find?_isSome.symm

theorem length_keys (e : Entries α) : e.keys.length = e.size := by
  induction e using Quotient.ind with
  | _ p => exact p.sortedNames_perm.length_eq.trans (List.length_map _)

/-- Names stay when the value of one of them is replaced. -/
theorem keys_insert {e : Entries α} {name : String} (h : e.contains name = true) (value : α) :
    (e.insert name value).keys = e.keys := by
  induction e using Quotient.ind with
  | _ p =>
    have hnames := Pairs.names_put name value p.list
    rw [if_pos (Pairs.find?_isSome.1 h)] at hnames
    exact congrArg (·.mergeSort) hnames

end Entries

end Offside
