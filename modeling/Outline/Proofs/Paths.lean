import Mathlib.Data.List.Chain
import Outline.Proofs.Preorder

/-! Pre-orders that say where each node stands. In `withPaths` it is the path from the root: these are
the visits in their order, and the last node of a path is the parent (`visitsFrom_eq_withPaths`). The
first node of a path after the root is the child of the root that the visited node is below
(`withPaths_cases`). The lengths of the paths are enough to read the tree back: below a node is what
follows it as long as it is deeper (`nest_indented`). -/

namespace Outline

namespace Tree

variable {α β : Type}

mutual

/-- Every node in pre-order with the nodes above it, from the outside. -/
def withPaths (above : List (Tree α)) : Tree α → List (Tree α × List (Tree α))
  | node a ts => (node a ts, above) :: withPathsAll (above ++ [node a ts]) ts

def withPathsAll (above : List (Tree α)) : List (Tree α) → List (Tree α × List (Tree α))
  | [] => []
  | t :: ts => withPaths above t ++ withPathsAll above ts

end

theorem withPathsAll_eq (above ts : List (Tree α)) :
    withPathsAll above ts = ts.flatMap (withPaths above) := by
  induction ts with
  | nil => rfl
  | cons t ts ih => rw [withPathsAll, ih, List.flatMap_cons]

theorem withPaths_eq (above : List (Tree α)) (t : Tree α) :
    t.withPaths above = (t, above) :: t.children.flatMap (withPaths (above ++ [t])) := by
  cases t
  rw [withPaths, withPathsAll_eq]
  rfl

theorem visitsFrom_eq_withPaths (above : List (Tree α)) (t : Tree α) :
    visitsFrom above.getLast? t = (t.withPaths above).map fun e => ⟨e.1, e.2.getLast?⟩ := by
  induction t using induct generalizing above with
  | h a ts ih =>
    rw [visitsFrom_node, withPaths_eq, List.map_cons, List.map_flatMap]
    congr 1
    apply List.flatMap_congr
    intro t ht
    have h := ih t ht (above ++ [node a ts])
    rwa [List.getLast?_concat] at h

structure Leads (root : Tree α) (path : List (Tree α)) (n : Tree α) : Prop where
  start : (path ++ [n]).head? = some root
  steps : (path ++ [n]).IsChain fun p c => c ∈ p.children

theorem leads_of_mem_withPaths {t n : Tree α} {above path : List (Tree α)}
    (h : (n, path) ∈ t.withPaths above) : ∃ rest, path = above ++ rest ∧ t.Leads rest n := by
  induction t using induct generalizing above with
  | h a ts ih =>
    rw [withPaths_eq] at h
    rcases List.mem_cons.1 h with he | h
    · cases he
      exact ⟨[], (List.append_nil _).symm, rfl, .singleton _⟩
    · obtain ⟨c, hc, h⟩ := List.mem_flatMap.1 h
      obtain ⟨rest, rfl, hstart, hsteps⟩ := ih c hc h
      refine ⟨node a ts :: rest, by rw [List.append_assoc]; rfl, rfl, ?_⟩
      refine hsteps.cons fun d hd => ?_
      obtain rfl : c = d := Option.some.inj (hstart.symm.trans hd)
      exact hc

/-- What is said of each node in pre-order, after the number of nodes above it. -/
def indented (f : Tree α → β) (above : List (Tree α)) (t : Tree α) : List (Nat × β) :=
  (t.withPaths above).map fun e => (e.2.length, f e.1)

theorem indented_eq (f : Tree α → β) (above : List (Tree α)) (t : Tree α) :
    t.indented f above =
      (above.length, f t) :: t.children.flatMap (indented f (above ++ [t])) := by
  rw [indented, withPaths_eq, List.map_cons, List.map_flatMap]
  rfl

/-- Puts what follows a label, as long as it is deeper, below this label. -/
def nest : List (Nat × α) → List (Nat × Tree α)
  | [] => []
  | (depth, a) :: rest =>
    (depth, node a (((nest rest).takeWhile (depth < ·.1)).map (·.2))) ::
      (nest rest).dropWhile (depth < ·.1)

def NoDeeper (depth : Nat) (rest : List (Nat × α)) : Prop := ∀ e ∈ rest.head?, e.1 ≤ depth

section Nest

variable {depth : Nat} {a : α} {rest : List (Nat × α)} {after : List (Nat × Tree α)}
  {ts : List (Tree α)}

theorem NoDeeper.nest (h : NoDeeper depth rest) : NoDeeper depth (nest rest) := by
  cases rest with
  | nil => simp [NoDeeper, Tree.nest]
  | cons e rest => simpa [NoDeeper, Tree.nest] using h

theorem NoDeeper.takeWhile_eq (h : NoDeeper depth rest) : rest.takeWhile (depth < ·.1) = [] := by
  cases rest with
  | nil => rfl
  | cons e rest => exact List.takeWhile_cons_of_neg (by simpa [NoDeeper] using h)

theorem NoDeeper.dropWhile_eq (h : NoDeeper depth rest) :
    rest.dropWhile (depth < ·.1) = rest := by
  cases rest with
  | nil => rfl
  | cons e rest => exact List.dropWhile_cons_of_neg (by simpa [NoDeeper] using h)

theorem nest_cons (h : nest rest = ts.map (depth + 1, ·) ++ after) (hafter : NoDeeper depth after) :
    nest ((depth, a) :: rest) = (depth, node a ts) :: after := by
  have hdeeper : ∀ e ∈ ts.map (depth + 1, ·), decide (depth < e.1) = true := by simp
  rw [nest, h, List.takeWhile_append_of_pos hdeeper, List.dropWhile_append_of_pos hdeeper,
    hafter.takeWhile_eq, hafter.dropWhile_eq, List.append_nil, List.map_map]
  simp [Function.comp_def]

end Nest

variable {f : α → β} {above : List (Tree α)}

theorem nest_siblings {ts : List (Tree α)} {rest : List (Nat × β)}
    (ih : ∀ t ∈ ts, ∀ rest, NoDeeper above.length rest →
      nest (t.indented (f ·.label) above ++ rest) = (above.length, t.map f) :: nest rest)
    (h : NoDeeper above.length rest) :
    nest (ts.flatMap (indented (f ·.label) above) ++ rest) =
      (ts.map (map f)).map (above.length, ·) ++ nest rest := by
  induction ts with
  | nil => rfl
  | cons t ts ihts =>
    have hnext : NoDeeper above.length (ts.flatMap (indented (f ·.label) above) ++ rest) := by
      cases ts with
      | nil => exact h
      | cons u ts => simp [NoDeeper, indented_eq]
    rw [List.flatMap_cons, List.append_assoc, ih t List.mem_cons_self _ hnext,
      ihts fun u hu => ih u (List.mem_cons_of_mem _ hu)]
    rfl

/-- A tree is read back, up to what follows it that is no deeper than its root. -/
theorem nest_indented_append (f : α → β) (above : List (Tree α)) (t : Tree α)
    (rest : List (Nat × β)) (h : NoDeeper above.length rest) :
    nest (t.indented (f ·.label) above ++ rest) = (above.length, t.map f) :: nest rest := by
  induction t using induct generalizing above rest with
  | h a ts ih =>
    have hlength : (above ++ [node a ts]).length = above.length + 1 := by simp
    have hchildren := nest_siblings (fun t ht => ih t ht (above ++ [node a ts]))
      (fun e he => hlength ▸ Nat.le_succ_of_le (h e he))
    rw [hlength] at hchildren
    rw [indented_eq, map_node, List.cons_append]
    exact nest_cons hchildren h.nest

theorem nest_indented (f : α → β) (t : Tree α) :
    nest (t.indented (f ·.label) []) = [(0, t.map f)] := by
  have h := nest_indented_append f [] t [] (by simp [NoDeeper])
  rwa [List.append_nil] at h

end Tree

namespace Node

variable {root n m : Node} {above path : List Node}

theorem map_fst_withPaths (above : List Node) (n : Node) :
    (n.withPaths above).map (·.1) = n.nodes := by
  rw [← map_node_visitsFrom above.getLast? n, Tree.visitsFrom_eq_withPaths, List.map_map]
  rfl

theorem isPrefix_of_mem_withPaths (h : (m, path) ∈ n.withPaths above) : above <+: path := by
  obtain ⟨rest, rfl, -⟩ := Tree.leads_of_mem_withPaths h
  exact List.prefix_append _ _

/-- The first node of a path after the root is the child of the root that the visited node is
below. -/
theorem withPaths_cases (h : (m, path) ∈ root.withPaths []) :
    (path = [] ∧ m = root) ∨ (path = [root] ∧ m ∈ root.children) ∨
      ∃ top : Node, top ∈ root.children ∧ m ∈ top.nodes ∧ ∃ rest, path = root :: top :: rest := by
  rw [Tree.withPaths_eq] at h
  rcases List.mem_cons.1 h with he | h
  · cases he
    exact .inl ⟨rfl, rfl⟩
  · obtain ⟨top, htop, h⟩ := List.mem_flatMap.1 h
    have hm : m ∈ nodes top := by
      rw [← map_fst_withPaths]
      exact List.mem_map_of_mem h
    rw [Tree.withPaths_eq] at h
    rcases List.mem_cons.1 h with he | h
    · cases he
      exact .inr (.inl ⟨rfl, htop⟩)
    · obtain ⟨d, -, h⟩ := List.mem_flatMap.1 h
      obtain ⟨rest, rfl⟩ := isPrefix_of_mem_withPaths h
      exact .inr (.inr ⟨top, htop, hm, rest, rfl⟩)

end Node
end Outline
