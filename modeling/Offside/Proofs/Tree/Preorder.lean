import Offside.Tree.Walk

/-!
# Pre-order

The nodes of a tree in pre-order, by recursion on the tree: a node, and then its children's trees
one after the other. A walk keeps no such recursion, only a stack; what it has visited and the
pre-order of what is on its stack stay the same list together.

A node is told apart from others that look like it by its path, the indices of the children that
lead to it. In lexicographic order a path stands before the paths that continue it, and these before
the paths of the siblings to the right.

Results:
* `Walk.next?_some`, `Walk.next?_none`: one call.
* `Walk.Visits.append_remaining`: any calls.
* `Walk.visits_remaining`: the calls end.
* `Node.map_at?_paths`, `Node.mem_paths_iff`, `Node.pairwise_paths`, `Node.paths_subtree`: the paths
  of a tree in the order of its nodes.
* `Node.walk_preorder`: what a walk visits.
-/

namespace Offside

namespace Node

mutual

/-- The nodes of a tree in pre-order. -/
def preorder : Node → List Node
  | ⟨kind, literal, children, origin⟩ => ⟨kind, literal, children, origin⟩ :: preorderAll children

/-- The nodes of several trees, one after the other. -/
def preorderAll : List Node → List Node
  | [] => []
  | n :: ns => n.preorder ++ preorderAll ns

end

theorem preorderAll_eq (ns : List Node) : preorderAll ns = ns.flatMap preorder := by
  induction ns with
  | nil => rfl
  | cons n ns ih => rw [preorderAll, ih, List.flatMap_cons]

theorem preorder_eq (n : Node) : n.preorder = n :: n.children.flatMap preorder := by
  cases n
  rw [preorder, preorderAll_eq]

theorem count_le_countAll {n : Node} {ns : List Node} (h : n ∈ ns) : n.count ≤ countAll ns := by
  induction ns with
  | nil => cases h
  | cons m ns ih =>
    rw [countAll]
    rcases List.mem_cons.1 h with rfl | h
    · exact Nat.le_add_right _ _
    · exact Nat.le_trans (ih h) (Nat.le_add_left _ _)

theorem childInduction {motive : Node → Prop}
    (step : ∀ n : Node, (∀ c ∈ n.children, motive c) → motive n) (n : Node) : motive n :=
  step n fun c hc =>
    have : c.count < n.count := by
      rw [n.count_eq]; exact Nat.lt_succ_of_le (count_le_countAll hc)
    childInduction step c
termination_by n.count

end Node

/-! ## The walk -/

namespace Walk

/-- What a walk has still to visit. -/
def remaining (w : Walk) : List Node := w.stack.flatMap Node.preorder

/-- Calls from `w` on have visited the nodes `seen` and left the last argument. -/
inductive Visits (w : Walk) : List Node → Walk → Prop
  | nil : Visits w [] w
  | snoc {seen : List Node} {n : Node} {w' w'' : Walk} (h : Visits w seen w')
      (hn : w'.next? = some (n, w'')) : Visits w (seen ++ [n]) w''

theorem next?_some {w w' : Walk} {n : Node} (h : w.next? = some (n, w')) :
    w.remaining = n :: w'.remaining := by
  obtain ⟨stack⟩ := w
  cases stack with
  | nil => cases h
  | cons m rest =>
    cases h
    simp only [remaining, List.flatMap_cons, List.flatMap_append, Node.preorder_eq n,
      List.cons_append]

theorem next?_none {w : Walk} (h : w.next? = none) : w.remaining = [] := by
  obtain ⟨stack⟩ := w
  cases stack with
  | nil => rfl
  | cons m rest => cases h

/-- What was visited and what is still to be visited make one list. -/
theorem Visits.append_remaining {w w' : Walk} {seen : List Node} (h : Visits w seen w') :
    seen ++ w'.remaining = w.remaining := by
  induction h with
  | nil => rfl
  | snoc _ hn ih => rw [← ih, next?_some hn, List.append_assoc, List.singleton_append]

theorem Visits.cons {w w' w'' : Walk} {n : Node} {seen : List Node} (hn : w.next? = some (n, w'))
    (h : Visits w' seen w'') : Visits w (n :: seen) w'' := by
  induction h with
  | nil => exact Visits.nil.snoc hn
  | snoc _ hm ih => exact ih.snoc hm

/-- The calls end, when all that remained has been visited. -/
theorem visits_remaining (w : Walk) : ∃ w', Visits w w.remaining w' ∧ w'.next? = none := by
  cases h : w.next? with
  | none => exact ⟨w, by rw [next?_none h]; exact .nil, h⟩
  | some visit =>
    obtain ⟨n, w'⟩ := visit
    have hlt := countAll_next?_lt h
    obtain ⟨last, hvisits, hlast⟩ := visits_remaining w'
    exact ⟨last, by rw [next?_some h]; exact hvisits.cons h, hlast⟩
termination_by Node.countAll w.stack

theorem nodes_eq_remaining (w : Walk) : w.nodes = w.remaining := by
  rw [nodes_eq]
  cases h : w.next? with
  | none => rw [next?_none h]
  | some visit =>
    obtain ⟨n, w'⟩ := visit
    have hlt := countAll_next?_lt h
    rw [next?_some h, ← nodes_eq_remaining w']
termination_by Node.countAll w.stack

end Walk

namespace Node

theorem walk_eq_preorder (n : Node) : n.walk = n.preorder := by
  rw [walk, Walk.nodes_eq_remaining, Walk.remaining, List.flatMap_singleton]

/-! ## Paths -/

/-- The node that a path of child indices leads to. -/
def at? (n : Node) : List Nat → Option Node
  | [] => some n
  | i :: path => n.children[i]?.bind fun c => c.at? path

mutual

/-- The paths to the nodes of a tree, in pre-order. -/
def paths : Node → List (List Nat)
  | ⟨_, _, children, _⟩ => [] :: pathsFrom 0 children

/-- The paths to the nodes of several trees, the first tree being the child number `i`. -/
def pathsFrom (i : Nat) : List Node → List (List Nat)
  | [] => []
  | n :: ns => n.paths.map (i :: ·) ++ pathsFrom (i + 1) ns

end

theorem paths_eq (n : Node) : n.paths = [] :: pathsFrom 0 n.children := by
  cases n; rfl

theorem pathsFrom_append (i : Nat) (ns ms : List Node) :
    pathsFrom i (ns ++ ms) = pathsFrom i ns ++ pathsFrom (i + ns.length) ms := by
  induction ns generalizing i with
  | nil => rfl
  | cons n ns ih =>
    rw [List.cons_append, pathsFrom, pathsFrom, ih, List.append_assoc, List.length_cons,
      Nat.add_assoc, Nat.add_comm 1]

theorem at?_append (n : Node) (path more : List Nat) :
    n.at? (path ++ more) = (n.at? path).bind fun m => m.at? more := by
  induction path generalizing n with
  | nil => rfl
  | cons i path ih => simp only [List.cons_append, at?, ih, Option.bind_assoc]

theorem at?_cons {n c : Node} {i : Nat} (h : n.children[i]? = some c) (path : List Nat) :
    n.at? (i :: path) = c.at? path := by
  rw [at?, h, Option.bind_some]

/-- The paths from the child number `i` on lead to the nodes of the children from there on. -/
theorem map_at?_pathsFrom {n : Node} {i : Nat} {ns : List Node} (h : n.children.drop i = ns)
    (ih : ∀ c ∈ ns, c.paths.map c.at? = c.preorder.map some) :
    (pathsFrom i ns).map n.at? = (ns.flatMap preorder).map some := by
  induction ns generalizing i with
  | nil => rfl
  | cons c ns ihns =>
    have hc : n.children[i]? = some c := by
      rw [← List.head?_drop, h, List.head?_cons]
    have hdrop : n.children.drop (i + 1) = ns := by
      rw [← List.drop_drop, h, List.drop_one, List.tail_cons]
    have hchild : (c.paths.map (i :: ·)).map n.at? = c.preorder.map some := by
      rw [List.map_map, ← ih c List.mem_cons_self]
      exact List.map_congr_left fun path _ => at?_cons hc path
    rw [pathsFrom, List.map_append, hchild, List.flatMap_cons, List.map_append,
      ihns hdrop fun d hd => ih d (List.mem_cons_of_mem c hd)]

theorem map_at?_paths (n : Node) : n.paths.map n.at? = n.preorder.map some := by
  induction n using childInduction with
  | step n ih =>
    rw [paths_eq, preorder_eq, List.map_cons, List.map_cons, map_at?_pathsFrom List.drop_zero ih]
    rfl

theorem mem_pathsFrom {i : Nat} {ns : List Node} {path : List Nat} :
    path ∈ pathsFrom i ns ↔
      ∃ j c more, ns[j]? = some c ∧ more ∈ c.paths ∧ path = (i + j) :: more := by
  induction ns generalizing i with
  | nil => simp [pathsFrom]
  | cons n ns ih =>
    rw [pathsFrom, List.mem_append, List.mem_map, ih]
    constructor
    · rintro (⟨more, hmore, rfl⟩ | ⟨j, c, more, hc, hmore, rfl⟩)
      · exact ⟨0, n, more, rfl, hmore, rfl⟩
      · exact ⟨j + 1, c, more, hc, hmore, by rw [Nat.add_assoc, Nat.add_comm 1]⟩
    · rintro ⟨j, c, more, hc, hmore, rfl⟩
      cases j with
      | zero =>
        cases hc
        exact Or.inl ⟨more, hmore, rfl⟩
      | succ j => exact Or.inr ⟨j, c, more, hc, hmore, by rw [Nat.add_assoc, Nat.add_comm 1]⟩

/-- Every path that leads to a node is listed, and no other. -/
theorem mem_paths_iff {n : Node} {path : List Nat} : path ∈ n.paths ↔ (n.at? path).isSome := by
  induction path generalizing n with
  | nil => simp [paths_eq, at?]
  | cons i path ih =>
    rw [paths_eq, List.mem_cons, mem_pathsFrom]
    constructor
    · rintro (h | ⟨j, c, more, hc, hmore, h⟩)
      · cases h
      · rw [Nat.zero_add] at h
        cases h
        rw [at?_cons hc]; exact ih.1 hmore
    · intro h
      obtain ⟨m, hm⟩ := Option.isSome_iff_exists.1 h
      obtain ⟨c, hc, hm⟩ := Option.bind_eq_some_iff.1 hm
      exact Or.inr ⟨i, c, path, hc, ih.2 (by rw [hm]; rfl), by rw [Nat.zero_add]⟩

theorem pairwise_pathsFrom {ns : List Node} (h : ∀ c ∈ ns, c.paths.Pairwise (· < ·)) (i : Nat) :
    (pathsFrom i ns).Pairwise (· < ·) := by
  induction ns generalizing i with
  | nil => exact List.Pairwise.nil
  | cons n ns ih =>
    rw [pathsFrom, List.pairwise_append]
    refine ⟨?_, ih (fun c hc => h c (List.mem_cons_of_mem n hc)) (i + 1), ?_⟩
    · refine (h n List.mem_cons_self).map _ fun p q hpq => ?_
      exact List.cons_lt_cons_iff.2 (Or.inr ⟨rfl, hpq⟩)
    · intro p hp q hq
      obtain ⟨p, -, rfl⟩ := List.mem_map.1 hp
      obtain ⟨j, c, more, -, -, rfl⟩ := mem_pathsFrom.1 hq
      exact List.cons_lt_cons_iff.2 (Or.inl (by omega))

theorem pairwise_paths (n : Node) : n.paths.Pairwise (· < ·) := by
  induction n using childInduction with
  | step n ih =>
    rw [paths_eq, List.pairwise_cons]
    refine ⟨?_, pairwise_pathsFrom ih 0⟩
    intro path hpath
    obtain ⟨j, c, more, -, -, rfl⟩ := mem_pathsFrom.1 hpath
    exact List.nil_lt_cons _ _

/-- The siblings to both sides of a child. -/
theorem getElem?_split {ns : List Node} {i : Nat} {c : Node} (h : ns[i]? = some c) :
    ∃ left right, ns = left ++ c :: right ∧ left.length = i := by
  obtain ⟨hi, hget⟩ := List.getElem?_eq_some_iff.1 h
  refine ⟨ns.take i, ns.drop (i + 1), ?_, List.length_take_of_le (Nat.le_of_lt hi)⟩
  rw [← hget, List.getElem_cons_drop, List.take_append_drop]

/-- The paths that continue a path follow one another. -/
theorem paths_subtree {n m : Node} {path : List Nat} (h : n.at? path = some m) :
    ∃ a b, n.paths = a ++ m.paths.map (path ++ ·) ++ b := by
  induction path generalizing n with
  | nil =>
    cases h
    exact ⟨[], [], by simp⟩
  | cons i path ih =>
    obtain ⟨c, hc, hm⟩ := Option.bind_eq_some_iff.1 h
    obtain ⟨a, b, hab⟩ := ih hm
    obtain ⟨left, right, hsplit, hleft⟩ := getElem?_split hc
    refine ⟨[] :: (pathsFrom 0 left ++ a.map (i :: ·)),
      b.map (i :: ·) ++ pathsFrom (i + 1) right, ?_⟩
    rw [paths_eq, hsplit, pathsFrom_append, hleft, Nat.zero_add, pathsFrom, hab]
    simp [List.map_map, Function.comp_def]

/-- The nodes of a subtree follow one another, at the place of their paths. -/
theorem preorder_subtree {n m : Node} {path : List Nat} (h : n.at? path = some m) :
    ∃ a b before after, n.paths = a ++ m.paths.map (path ++ ·) ++ b ∧
      n.preorder = before ++ m.preorder ++ after ∧ before.length = a.length := by
  obtain ⟨a, b, hpaths⟩ := paths_subtree h
  have hnodes := n.map_at?_paths
  have hsub : (m.paths.map (path ++ ·)).map n.at? = m.preorder.map some := by
    rw [List.map_map, ← m.map_at?_paths]
    refine List.map_congr_left fun more _ => ?_
    rw [Function.comp_apply, at?_append, h, Option.bind_some]
  rw [hpaths, List.map_append, List.map_append, hsub] at hnodes
  obtain ⟨front, after, hpre, hfront, -⟩ := List.map_eq_append_iff.1 hnodes.symm
  obtain ⟨before, mid, rfl, hbefore, hmid⟩ := List.map_eq_append_iff.1 hfront
  have hm : mid = m.preorder := (List.map_inj_right fun _ _ => Option.some.inj).1 hmid
  refine ⟨a, b, before, after, hpaths, by rw [hpre, hm], ?_⟩
  have hlen := congrArg List.length hbefore
  rwa [List.length_map, List.length_map] at hlen

/-- **Walks.** A walk from a node visits its tree in pre-order and then ends. From any walk under
way, whatever it has on its stack, the nodes still to come are those of the stack in pre-order from
the top down. The nodes visited stand at the paths of the tree: every path once, a path before the
paths that continue it, siblings from left to right, and every subtree in one piece. -/
theorem walk_preorder (n : Node) :
    n.walk = n.preorder ∧
    (∃ w, Walk.Visits ⟨[n]⟩ n.preorder w ∧ w.next? = none) ∧
    (∀ seen w, Walk.Visits ⟨[n]⟩ seen w → seen ++ w.stack.flatMap preorder = n.preorder) ∧
    (∀ w : Walk, w.nodes = w.stack.flatMap preorder) ∧
    n.paths.map n.at? = n.walk.map some ∧
    (∀ path, path ∈ n.paths ↔ (n.at? path).isSome) ∧
    n.paths.Pairwise (· < ·) ∧
    ∀ path m, n.at? path = some m →
      ∃ a b before after, n.paths = a ++ m.paths.map (path ++ ·) ++ b ∧
        n.walk = before ++ m.walk ++ after ∧ before.length = a.length := by
  have hremaining : (Walk.mk [n]).remaining = n.preorder := by
    rw [Walk.remaining, List.flatMap_singleton]
  refine ⟨n.walk_eq_preorder, ?_, ?_, Walk.nodes_eq_remaining, ?_, fun _ => mem_paths_iff,
    n.pairwise_paths, ?_⟩
  · rw [← hremaining]; exact Walk.visits_remaining _
  · intro seen w hvisits
    rw [← hremaining]; exact hvisits.append_remaining
  · rw [walk_eq_preorder]; exact n.map_at?_paths
  · intro path m hm
    rw [walk_eq_preorder, walk_eq_preorder]; exact preorder_subtree hm

end Node

end Offside
