import Mathlib.Data.Char
import Mathlib.Data.List.Lex
import Mathlib.Data.List.Sort
import Outline.Graph.Query

/-! Members of a node in a graph, without the grouping of edges. A sort that succeeds gives a
permutation (`sortBy_perm`), and it succeeds where any two entries can be compared (`sortBy_ok`).
Ranks that are numbers, with names, have a total order, so that sorting by them forgets the order that
grouping gave to the edges (`members_eq_sort`). -/

namespace Outline

namespace Value

/-- Values that can stand in either order before a sort: they are the same, or they have an order. -/
def Comparable (a b : Value) : Bool :=
  (a.same b || (a.before? b).isSome) && (b.same a || (b.before? a).isSome)

theorem comparable_comm (a b : Value) : Comparable a b = Comparable b a := Bool.and_comm _ _

theorem isSome_before? {a b : Value} (h : Comparable a b) (hs : ¬ b.same a = true) :
    (b.before? a).isSome := by
  unfold Comparable at h
  simp only [Bool.and_eq_true, Bool.or_eq_true] at h
  exact h.2.resolve_left hs

section Integers

variable {a b : Value} {m n : Int}

theorem same_of_asInt? (ha : a.asInt? = some m) (hb : b.asInt? = some n) :
    a.same b = decide (m = n) := by
  cases a <;> cases ha <;> cases b <;> cases hb <;>
    simp [same, sameScalar, asInt?, Bool.beq_eq_decide_eq]

theorem before?_of_asInt? (ha : a.asInt? = some m) (hb : b.asInt? = some n) :
    a.before? b = some (decide (m < n)) := by
  cases a <;> cases ha <;> cases b <;> cases hb <;> simp [before?, scalarBefore?, asInt?]

end Integers

end Value

namespace Graph

section Sorting

variable {α : Type} {before? : α → α → Option Bool} {x : α} {xs ys : List α}

theorem insertBy_perm (h : insertBy before? x xs = .ok ys) : ys.Perm (x :: xs) := by
  induction xs generalizing ys with
  | nil => cases h; exact .refl _
  | cons z xs ih =>
    rw [insertBy] at h
    rcases hz : before? z x with _ | _ | _
    · rw [hz] at h; cases h
    · rw [hz] at h; cases h; exact .refl _
    · rw [hz] at h
      rcases hi : insertBy before? x xs with _ | zs
      · rw [hi] at h; cases h
      · rw [hi] at h
        cases h
        exact ((ih hi).cons z).trans (.swap x z xs)

theorem sortBy_perm (h : sortBy before? xs = .ok ys) : ys.Perm xs := by
  induction xs generalizing ys with
  | nil => cases h; exact .refl _
  | cons x xs ih =>
    rw [sortBy] at h
    rcases hs : sortBy before? xs with _ | zs
    · rw [hs] at h; cases h
    · rw [hs] at h
      exact (insertBy_perm h).trans ((ih hs).cons x)

theorem insertBy_ok (h : ∀ y ∈ xs, (before? y x).isSome) : ∃ ys, insertBy before? x xs = .ok ys := by
  induction xs with
  | nil => exact ⟨_, rfl⟩
  | cons z xs ih =>
    obtain ⟨hz, hxs⟩ := List.forall_mem_cons.1 h
    obtain ⟨ys, hi⟩ := ih hxs
    obtain ⟨b, hb⟩ := Option.isSome_iff_exists.1 hz
    rw [insertBy, hb, hi]
    cases b <;> exact ⟨_, rfl⟩

theorem sortBy_ok (h : xs.Pairwise fun a b => (before? b a).isSome) :
    ∃ ys, sortBy before? xs = .ok ys := by
  induction xs with
  | nil => exact ⟨_, rfl⟩
  | cons x xs ih =>
    obtain ⟨hx, hxs⟩ := List.pairwise_cons.1 h
    obtain ⟨ys, hs⟩ := ih hxs
    rw [sortBy, hs]
    exact insertBy_ok fun y hy => hx y ((sortBy_perm hs).subset hy)

/-- Where every question has an answer and `le` says it, the sort is the library's. -/
theorem sortBy_eq_insertionSort {le : α → α → Bool}
    (h : ∀ a ∈ xs, ∀ b ∈ xs, before? b a = some (!le a b)) :
    sortBy before? xs = .ok (xs.insertionSort (le · ·)) := by
  have hinsert (x : α) : ∀ ys : List α, (∀ y ∈ ys, before? y x = some (!le x y)) →
      insertBy before? x ys = .ok (ys.orderedInsert (le · ·) x) := by
    intro ys hys
    induction ys with
    | nil => rfl
    | cons y ys ih =>
      obtain ⟨hy, hys⟩ := List.forall_mem_cons.1 hys
      rw [insertBy, hy, ih hys, List.orderedInsert]
      cases le x y <;> rfl
  induction xs with
  | nil => rfl
  | cons x xs ih =>
    rw [sortBy, ih fun a ha b hb => h a (List.mem_cons_of_mem _ ha) b (List.mem_cons_of_mem _ hb)]
    refine hinsert x _ fun y hy => h x List.mem_cons_self y ?_
    exact List.mem_cons_of_mem _ ((List.perm_insertionSort _ xs).subset hy)

end Sorting

def rankedBefore (a b : Int × Text) : Bool := a.1 < b.1 || (a.1 == b.1 && !decide (b.2 < a.2))

theorem rankedBefore_iff {a b : Int × Text} :
    rankedBefore a b = true ↔ a.1 < b.1 ∨ (a.1 = b.1 ∧ a.2 ≤ b.2) := by
  simp [rankedBefore]

instance : Std.Total (fun a b : Int × Text => rankedBefore a b = true) where
  total a b := by
    simp only [rankedBefore_iff]
    rcases lt_trichotomy a.1 b.1 with h | h | h
    · exact .inl (.inl h)
    · rcases le_total a.2 b.2 with h2 | h2
      · exact .inl (.inr ⟨h, h2⟩)
      · exact .inr (.inr ⟨h.symm, h2⟩)
    · exact .inr (.inl h)

instance : IsTrans (Int × Text) (fun a b => rankedBefore a b = true) where
  trans a b c := by
    simp only [rankedBefore_iff]
    rintro (h | ⟨h, h2⟩) (k | ⟨k, k2⟩)
    · exact .inl (h.trans k)
    · exact .inl (k ▸ h)
    · exact .inl (h ▸ k)
    · exact .inr ⟨h.trans k, h2.trans k2⟩

theorem rankedBefore_antisymm {a b : Int × Text} (h : rankedBefore a b = true)
    (k : rankedBefore b a = true) : a = b := by
  rw [rankedBefore_iff] at h k
  rcases h with h | ⟨h, h2⟩
  · rcases k with k | ⟨k, -⟩ <;> omega
  · rcases k with k | ⟨-, k2⟩
    · omega
    · exact Prod.ext h (le_antisymm h2 k2)

/-- Sorting gives the one sorted arrangement, whatever the order was before. -/
theorem insertionSort_eq_of_perm {xs ys : List (Int × Text)} (h : xs.Perm ys)
    (hs : ys.Pairwise (rankedBefore · ·)) : xs.insertionSort (rankedBefore · ·) = ys :=
  List.Perm.eq_of_pairwise (fun _ _ _ _ => rankedBefore_antisymm)
    (List.pairwise_insertionSort _ xs) hs ((List.perm_insertionSort _ xs).trans h)

def rankNumber (rank : Value) : Int := rank.asInt?.getD 0

def rankKey (a : Value × Text) : Int × Text := (rankNumber a.1, a.2)

theorem rankedBefore?_eq {a b : Value × Text} (ha : a.1.asInt?.isSome) (hb : b.1.asInt?.isSome) :
    rankedBefore? b a = some (!rankedBefore (rankKey a) (rankKey b)) := by
  obtain ⟨m, hm⟩ := Option.isSome_iff_exists.1 ha
  obtain ⟨n, hn⟩ := Option.isSome_iff_exists.1 hb
  have hle := @rankedBefore_iff (rankKey a) (rankKey b)
  simp only [rankKey, rankNumber, hm, hn, Option.getD_some] at hle ⊢
  rw [rankedBefore?, Value.same_of_asInt? hn hm, Value.before?_of_asInt? hn hm]
  rcases lt_trichotomy n m with hlt | rfl | hlt
  · have hnot : rankedBefore (m, a.2) (n, b.2) = false := by
      rw [← Bool.not_eq_true, hle]
      omega
    rw [if_neg (by simpa using hlt.ne), hnot]
    simpa using hlt
  · rw [if_pos (by simp)]
    simp [rankedBefore]
  · rw [if_neg (by simpa using hlt.ne'), hle.2 (.inl hlt)]
    simpa using hlt.le

/-- Ranks that are integers, or truth values, which count as such. -/
def Integral (es : List Edge) : Prop := ∀ e ∈ es, e.rank.asInt?.isSome

instance (es : List Edge) : Decidable (Integral es) := List.decidableBAll _ _

namespace Multigraph

variable {key : Edge → Text} {es : List Edge} {x : Text} {xs : List Text} {g : Multigraph}
  {type : Value} {id : Text} {ms : List Text}

theorem mem_firsts : x ∈ firsts xs ↔ x ∈ xs := by
  induction xs with
  | nil => rfl
  | cons y xs ih =>
    rw [firsts, List.mem_cons, List.mem_cons, List.mem_filter, ih]
    by_cases h : x = y <;> simp [h]

theorem nodup_firsts (xs : List Text) : (firsts xs).Nodup := by
  induction xs with
  | nil => exact List.nodup_nil
  | cons y xs ih =>
    rw [firsts, List.nodup_cons]
    exact ⟨by simp, ih.filter _⟩

theorem flatMap_filter_perm {ks : List Text} (hd : ks.Nodup) (hk : ∀ e ∈ es, key e ∈ ks) :
    (ks.flatMap fun k => es.filter (key · == k)).Perm es := by
  induction ks generalizing es with
  | nil =>
    cases es with
    | nil => exact List.Perm.refl _
    | cons e es => cases hk e List.mem_cons_self
  | cons k ks ih =>
    rw [List.nodup_cons] at hd
    have hrest : ks.flatMap (fun j => es.filter (key · == j)) =
        ks.flatMap fun j => (es.filter (! key · == k)).filter (key · == j) := by
      apply List.flatMap_congr
      intro j hj
      rw [List.filter_filter]
      apply List.filter_congr
      intro e _
      have hjk : j ≠ k := fun h => hd.1 (h ▸ hj)
      by_cases he : key e = j <;> simp [he, hjk]
    rw [List.flatMap_cons, hrest]
    refine (List.Perm.append_left _ (ih hd.2 fun e he => ?_)).trans (List.filter_append_perm _ _)
    rw [List.mem_filter] at he
    have := hk e he.1
    simpa [show key e ≠ k by simpa using he.2] using this

theorem grouped_perm (key : Edge → Text) (es : List Edge) : (grouped key es).Perm es :=
  flatMap_filter_perm (nodup_firsts _) fun _ he => mem_firsts.2 (List.mem_map_of_mem he)

def edgesFrom (g : Multigraph) (type : Value) (id : Text) : List Edge :=
  g.edges.filter fun e => e.source == id && e.type.same type

def targets (g : Multigraph) (type : Value) (id : Text) : List Text :=
  (g.edgesFrom type id).map (·.target)

def ranks (g : Multigraph) (type : Value) (id : Text) : List Value :=
  (g.edgesFrom type id).map Edge.rank

theorem grouped_edgesFrom (g : Multigraph) (type : Value) (id : Text) :
    ((g.outEdges id).filter fun e => e.type.same type).Perm (g.edgesFrom type id) := by
  have hp := (grouped_perm (·.target) (g.edges.filter (·.source == id))).filter
    fun e => e.type.same type
  rw [List.filter_filter] at hp
  simpa only [edgesFrom, outEdges, Bool.and_comm] using hp

theorem members_perm_targets (h : g.members type id = .ok ms) : ms.Perm (g.targets type id) := by
  unfold members at h
  dsimp only at h
  rcases hs : sortBy Graph.rankedBefore? (((g.outEdges id).filter fun e => e.type.same type).map
    fun e => (e.rank, e.target)) with _ | ranked
  · rw [hs] at h; cases h
  · rw [hs] at h
    cases h
    refine ((sortBy_perm hs).map _).trans ?_
    rw [List.map_map]
    exact (grouped_edgesFrom g type id).map _

/-- Members can be given where any two ranks can be compared. -/
theorem members_ok (h : (g.ranks type id).Pairwise (Value.Comparable · ·)) :
    ∃ ms, g.members type id = .ok ms := by
  have hpairs : ((g.outEdges id).filter fun e => e.type.same type).Pairwise
      fun d e => Value.Comparable d.rank e.rank := by
    refine ((grouped_edgesFrom g type id).pairwise_iff fun hab => ?_).2 (List.pairwise_map.1 h)
    rwa [Value.comparable_comm]
  have hask : (((g.outEdges id).filter fun e => e.type.same type).map
      fun e => (e.rank, e.target)).Pairwise fun a b => (Graph.rankedBefore? b a).isSome := by
    rw [List.pairwise_map]
    refine hpairs.imp fun {d e} hde => ?_
    unfold Graph.rankedBefore?
    split_ifs with hsame
    · rfl
    · exact Value.isSome_before? hde hsame
  obtain ⟨ranked, hs⟩ := sortBy_ok hask
  unfold members
  dsimp only
  rw [hs]
  exact ⟨_, rfl⟩

def keyOf (e : Edge) : Int × Text := rankKey (e.rank, e.target)

/-- Members are the targets of the containment edges of a node, by rank and then by name. -/
theorem members_eq_sort (h : Integral (g.edgesFrom type id)) : g.members type id =
    .ok ((((g.edgesFrom type id).map keyOf).insertionSort (rankedBefore · ·)).map (·.2)) := by
  have hperm := grouped_edgesFrom g type id
  have hask : ∀ a ∈ ((g.outEdges id).filter fun e => e.type.same type).map
      (fun e => (e.rank, e.target)), a.1.asInt?.isSome :=
    List.forall_mem_map.2 fun e he => h e (hperm.subset he)
  unfold members
  dsimp only
  rw [sortBy_eq_insertionSort fun a ha b hb => rankedBefore?_eq (hask a ha) (hask b hb)]
  -- the keys are sorted as their entries are, and a key has the name of its entry
  have hkeys : (((((g.outEdges id).filter fun e => e.type.same type).map
      fun e => (e.rank, e.target)).insertionSort
        fun a b => rankedBefore (rankKey a) (rankKey b) = true).map rankKey) =
      ((g.edgesFrom type id).map keyOf).insertionSort (rankedBefore · ·) := by
    rw [List.map_insertionSort _ (rankedBefore · ·) rankKey _ fun _ _ _ _ => Iff.rfl, List.map_map]
    exact insertionSort_eq_of_perm ((hperm.map _).trans (List.perm_insertionSort _ _).symm)
      (List.pairwise_insertionSort _ _)
  rw [← hkeys, List.map_map]
  rfl

theorem inEdges_perm (g : Multigraph) (id : Text) :
    (g.inEdges id).Perm (g.edges.filter (·.target == id)) :=
  grouped_perm _ _

end Multigraph
end Graph
end Outline
