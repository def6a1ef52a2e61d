import Outline.Proofs.Merging

/-! The walk over a stack is the recursive pre-order. A round visits the first pending node, and what
is to be visited from then on is the pre-order without it (`flatMap_visitsOf_cons`). So after any
number of rounds that many visits of the pre-order are made, and the pre-orders of what is pending
are the rest of it (`flatMap_pendingAfter`): the loop ends when they are all made, and not before
(`pendingAfter_eq_nil_iff`). -/

namespace Outline

namespace Tree

variable {α : Type}

/-- What is pending after some rounds of the loop. -/
def pendingAfter : Nat → List (Visit α) → List (Visit α)
  | 0, pending => pending
  | _ + 1, [] => []
  | rounds + 1, v :: pending =>
    pendingAfter rounds (v.node.children.map (Visit.mk · (some v.node)) ++ pending)

theorem flatMap_visitsOf_cons (v : Visit α) (pending : List (Visit α)) :
    (v :: pending).flatMap visitsOf =
      v :: (v.node.children.map (Visit.mk · (some v.node)) ++ pending).flatMap visitsOf := by
  rw [List.flatMap_cons, visitsOf_eq, List.flatMap_append, List.cons_append]

theorem walkFrom_eq_take (rounds : Nat) (pending : List (Visit α)) :
    walkFrom rounds pending = (pending.flatMap visitsOf).take rounds := by
  induction rounds generalizing pending with
  | zero => rfl
  | succ rounds ih =>
    cases pending with
    | nil => rfl
    | cons v pending => rw [walkFrom, ih, flatMap_visitsOf_cons, List.take_succ_cons]

theorem flatMap_pendingAfter (rounds : Nat) (pending : List (Visit α)) :
    (pendingAfter rounds pending).flatMap visitsOf = (pending.flatMap visitsOf).drop rounds := by
  induction rounds generalizing pending with
  | zero => rfl
  | succ rounds ih =>
    cases pending with
    | nil => rfl
    | cons v pending => rw [pendingAfter, ih, flatMap_visitsOf_cons, List.drop_succ_cons]

/-- As something is visited below whatever is pending, nothing is pending exactly when there is
nothing left to visit. -/
theorem pendingAfter_eq_nil_iff (rounds : Nat) (pending : List (Visit α)) :
    pendingAfter rounds pending = [] ↔ (pending.flatMap visitsOf).length ≤ rounds := by
  rw [← List.drop_eq_nil_iff, ← flatMap_pendingAfter]
  constructor
  · intro h
    rw [h]
    rfl
  · intro h
    cases hp : pendingAfter rounds pending with
    | nil => rfl
    | cons v rest =>
      rw [hp, flatMap_visitsOf_cons] at h
      cases h

end Tree

namespace Node

theorem textContent_node (a : Entry) (ts : List Node) :
    textContent (.node a ts) = a.words ++ ts.flatMap textContent := by
  rw [textContent_eq, Tree.labels_node, List.flatMap_cons, List.flatMap_assoc]
  exact congrArg _ (List.flatMap_congr fun t _ => (textContent_eq t).symm)

/-- For every tree, also with nodes at several places: each round of the loop makes the next visit of
the recursive pre-order, in which the root has no parent and the children of a node come in order
after it, and the loop ends after the last visit. So the text of a node is its own if it is a text,
and then that of its children in order. -/
theorem walk_preorder (root : Node) :
    root.walk = Tree.visitsFrom none root ∧
    (∀ rounds, Tree.walkFrom rounds [⟨root, none⟩] = (Tree.visitsFrom none root).take rounds ∧
      (Tree.pendingAfter rounds [⟨root, none⟩] = [] ↔
        (Tree.visitsFrom none root).length ≤ rounds)) ∧
    (∀ (parent : Option Node) (n : Node), Tree.visitsFrom parent n =
      ⟨n, parent⟩ :: n.children.flatMap (Tree.visitsFrom (some n))) ∧
    ∀ n : Node, n.textContent =
      (if n.label.kind = Kind.text then n.label.value.getD [] else []) ++
        n.children.flatMap textContent := by
  have hpending : [(⟨root, none⟩ : Visit Entry)].flatMap Tree.visitsOf =
      Tree.visitsFrom none root := List.flatMap_singleton ..
  refine ⟨Tree.walk_eq_visits root, fun rounds => ?_, ?_, ?_⟩
  · rw [Tree.walkFrom_eq_take, Tree.pendingAfter_eq_nil_iff, hpending]
    exact ⟨rfl, Iff.rfl⟩
  · rintro parent ⟨a, ts⟩
    exact Tree.visitsFrom_node parent a ts
  · rintro ⟨a, ts⟩
    exact textContent_node a ts

def emphasized : Node :=
  let text : Node := .node { id := 2, kind := Kind.text, value := some ['a'] } []
  .node { id := 0, kind := Kind.heading, depth := .int 1 } [text,
    .node { id := 1, kind := Kind.emphasis } [
      .node { id := 3, kind := Kind.text, value := some ['b'] } [], text],
    .node { id := 4, kind := Kind.text } []]

example : emphasized.walk.map (fun v => (v.node.label.id, v.parent.map (·.label.id))) =
    [(0, none), (2, some 0), (1, some 0), (3, some 1), (2, some 1), (4, some 0)] ∧
    emphasized.textContent = "aba".toList := by decide

end Node
end Outline
