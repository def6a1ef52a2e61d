/-!
Ordered trees with labels and their pre-order. `visits` is the pre-order by recursion: every node
with its parent. `walk` is the same sequence from a loop over a stack of pending visits
(`walk_eq_visits`), in which a visited node puts its children in front of what is pending.
-/

namespace Outline

inductive Tree (α : Type) where
  | node (label : α) (children : List (Tree α))

structure Visit (α : Type) where
  node : Tree α
  parent : Option (Tree α)

namespace Tree

-- The core library's zero under a sum, also where another is in scope.
attribute [local instance (high)] Zero.ofOfNat0

variable {α β : Type}

instance [Inhabited α] : Inhabited (Tree α) := ⟨node default []⟩

def label : Tree α → α
  | node a _ => a

def children : Tree α → List (Tree α)
  | node _ ts => ts

mutual

def visitsFrom (parent : Option (Tree α)) : Tree α → List (Visit α)
  | node a ts => ⟨node a ts, parent⟩ :: visitsAll (node a ts) ts

def visitsAll (parent : Tree α) : List (Tree α) → List (Visit α)
  | [] => []
  | t :: ts => visitsFrom (some parent) t ++ visitsAll parent ts

end

def visits (t : Tree α) : List (Visit α) := visitsFrom none t

mutual

def size : Tree α → Nat
  | node _ ts => sizeAll ts + 1

def sizeAll : List (Tree α) → Nat
  | [] => 0
  | t :: ts => size t + sizeAll ts

end

/-- At most `fuel` steps of the loop: take the first pending visit and put the visits of its
children in front of the others. -/
def walkFrom : Nat → List (Visit α) → List (Visit α)
  | 0, _ => []
  | _ + 1, [] => []
  | fuel + 1, v :: pending =>
    v :: walkFrom fuel (v.node.children.map (⟨·, some v.node⟩) ++ pending)

def walk (t : Tree α) : List (Visit α) := walkFrom t.size [⟨t, none⟩]

def visitsOf (v : Visit α) : List (Visit α) := visitsFrom v.parent v.node

theorem visitsAll_eq (p : Tree α) (ts : List (Tree α)) :
    visitsAll p ts = (ts.map (⟨·, some p⟩)).flatMap visitsOf := by
  induction ts with
  | nil => simp [visitsAll]
  | cons t ts ih => simp [visitsAll, visitsOf, ih]

theorem visitsOf_eq (v : Visit α) :
    visitsOf v = v :: (v.node.children.map (⟨·, some v.node⟩)).flatMap visitsOf := by
  obtain ⟨⟨a, ts⟩, p⟩ := v
  simp [visitsOf, visitsFrom, children, visitsAll_eq]

theorem sizeAll_eq (ts : List (Tree α)) : sizeAll ts = (ts.map size).sum := by
  induction ts with
  | nil => simp [sizeAll]
  | cons t ts ih => simp [sizeAll, ih]

theorem size_eq (t : Tree α) : t.size = (t.children.map size).sum + 1 := by
  cases t; simp [size, children, sizeAll_eq]

theorem walkFrom_eq (fuel : Nat) (pending : List (Visit α))
    (h : (pending.map (·.node.size)).sum ≤ fuel) :
    walkFrom fuel pending = pending.flatMap visitsOf := by
  induction fuel generalizing pending with
  | zero =>
    cases pending with
    | nil => rfl
    | cons v pending => have := size_eq v.node; simp at h; omega
  | succ fuel ih =>
    cases pending with
    | nil => rfl
    | cons v pending =>
      have hs := size_eq v.node
      simp only [List.map_cons, List.sum_cons] at h
      rw [walkFrom, ih, List.flatMap_cons, visitsOf_eq v]
      · simp
      · simp only [List.map_append, List.map_map, List.sum_append]
        change (v.node.children.map size).sum + _ ≤ fuel
        omega

@[simp] theorem walk_eq_visits (t : Tree α) : t.walk = t.visits := by
  rw [walk, walkFrom_eq] <;> simp [visitsOf, visits]

mutual

def map (f : α → β) : Tree α → Tree β
  | node a ts => node (f a) (mapAll f ts)

def mapAll (f : α → β) : List (Tree α) → List (Tree β)
  | [] => []
  | t :: ts => map f t :: mapAll f ts

end

mutual

/-- Pairs every label with its place in the pre-order, counted from `n`; also the next free
number. -/
def numberFrom (n : Nat) : Tree α → Tree (Nat × α) × Nat
  | node a ts =>
    let (us, m) := numberAll (n + 1) ts
    (node (n, a) us, m)

def numberAll (n : Nat) : List (Tree α) → List (Tree (Nat × α)) × Nat
  | [] => ([], n)
  | t :: ts =>
    let (u, m) := numberFrom n t
    let (us, k) := numberAll m ts
    (u :: us, k)

end

def number (t : Tree α) : Tree (Nat × α) := (numberFrom 0 t).1

end Tree
end Outline
