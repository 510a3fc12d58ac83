import Offside.Tree.Node

/-!
# Walks through a tree

A walk visits a node and all its descendants, a node before its children and these in order. It
keeps the nodes still to be visited on a stack: visiting a node replaces it by its children.

Results:
* `Walk.nodes_eq`: the nodes of a walk are the next one and those of the walk after it.
-/

namespace Offside

namespace Node

mutual

/-- The number of nodes of a tree. -/
def count : Node → Nat
  | ⟨_, _, children, _⟩ => countAll children + 1

/-- The number of nodes of several trees. -/
def countAll : List Node → Nat
  | [] => 0
  | n :: ns => n.count + countAll ns

end

theorem countAll_append (a b : List Node) : countAll (a ++ b) = countAll a + countAll b := by
  induction a with
  | nil => simp [countAll]
  | cons n ns ih => simp [countAll, ih, Nat.add_assoc]

theorem count_eq (n : Node) : n.count = countAll n.children + 1 := by
  cases n; rfl

end Node

/-- A walk under way. -/
structure Walk where
  /-- The trees still to be visited, the next one first. -/
  stack : List Node

namespace Walk

/-- The next node and the walk after it. -/
def next? (w : Walk) : Option (Node × Walk) :=
  match w.stack with
  | [] => none
  | n :: rest => some (n, ⟨n.children ++ rest⟩)

theorem countAll_next?_lt {w w' : Walk} {n : Node} (h : w.next? = some (n, w')) :
    Node.countAll w'.stack < Node.countAll w.stack := by
  obtain ⟨stack⟩ := w
  cases stack with
  | nil => simp [next?] at h
  | cons m rest =>
    simp only [next?, Option.some.injEq, Prod.mk.injEq] at h
    obtain ⟨rfl, rfl⟩ := h
    simp only [Node.countAll_append, Node.countAll, Node.count_eq]
    omega

/-- The nodes still to be visited, in order. -/
def nodes (w : Walk) : List Node :=
  match _h : w.next? with
  | none => []
  | some (n, w') => n :: w'.nodes
termination_by Node.countAll w.stack
decreasing_by exact countAll_next?_lt _h

theorem nodes_eq (w : Walk) :
    w.nodes = match w.next? with
      | none => []
      | some (n, w') => n :: w'.nodes := by
  rw [nodes]; split <;> simp_all

end Walk

/-- A node and all its descendants, each before its children. -/
def Node.walk (n : Node) : List Node := (Walk.mk [n]).nodes

end Offside
