import Outline.Proofs.Naming
import Outline.Proofs.Ranked

/-! The edges that placements add to a named graph: one for each pair of names, at its first
placement, ranked in that order (`edges_placeAll`). What the queries give on such edges is said in
terms of the pairs. -/

namespace Outline.Graph

open Containment

def edgeOf (settings : GraphSettings) (q : (Text × Text) × Nat) : Edge :=
  ⟨q.1.1, q.1.2, [("edge_type".toList, textValue settings.edgeType), ("rank".toList, .int q.2)]⟩

variable {settings : GraphSettings} {pairs : List (Text × Text)} {q : Text × Text} {x : Text}

@[simp] theorem source_edgeOf (q : (Text × Text) × Nat) : (edgeOf settings q).source = q.1.1 := rfl

@[simp] theorem target_edgeOf (q : (Text × Text) × Nat) : (edgeOf settings q).target = q.1.2 := rfl

@[simp] theorem type_edgeOf (q : (Text × Text) × Nat) :
    (edgeOf settings q).type = textValue settings.edgeType := rfl

@[simp] theorem rank_edgeOf (q : (Text × Text) × Nat) :
    (edgeOf settings q).rank = .int q.2 := rfl

theorem textValue_same (t : Option Text) : (textValue t).same (textValue t) = true := by
  cases t with
  | none => rfl
  | some t => simp [textValue, Value.same, Value.sameScalar]

theorem pairwise_zipIdx {α : Type} (xs : List α) :
    xs.zipIdx.Pairwise (fun a b => a.2 < b.2) := by
  have : (xs.zipIdx.map (·.2)).Pairwise (· < ·) := by
    rw [List.zipIdx_map_snd]
    exact List.pairwise_lt_range'
  exact List.pairwise_map.1 this

theorem exists_mem_zipIdx (hq : q ∈ pairs) : ∃ i, (q, i) ∈ pairs.zipIdx := by
  obtain ⟨i, hi, rfl⟩ := List.getElem_of_mem hq
  exact ⟨i, by simp [List.mem_zipIdx_iff_getElem?, hi]⟩

section Firsts

variable {α : Type} [BEq α] [LawfulBEq α]

theorem eraseDups_concat (xs : List α) (x : α) :
    (xs ++ [x]).eraseDups = if x ∈ xs then xs.eraseDups else xs.eraseDups ++ [x] := by
  rw [List.eraseDups_append]
  split_ifs with h <;> simp [List.removeAll, h, List.eraseDups_cons]

theorem eraseDups_nodup (xs : List α) : xs.eraseDups.Nodup := by
  induction xs using List.reverseRecOn with
  | nil => exact List.nodup_nil
  | append_singleton xs x ih =>
    rw [eraseDups_concat]
    split_ifs with hx
    · exact ih
    · rw [← List.concat_eq_append]
      exact ih.concat fun hmem => hx (List.mem_eraseDups.1 hmem)

theorem eraseDups_of_nodup {xs : List α} (h : xs.Nodup) : xs.eraseDups = xs := by
  induction xs using List.reverseRecOn with
  | nil => rfl
  | append_singleton xs x ih =>
    rw [List.nodup_append] at h
    have hx : x ∉ xs := fun hx => h.2.2 x hx x (by simp) rfl
    rw [eraseDups_concat, if_neg hx, ih h.1]

end Firsts

namespace Multigraph

variable {g : Multigraph}

/-- Ranks keep the members of a node in the order of the pairs. -/
theorem members_of_edges (hg : g.edges = pairs.zipIdx.map (edgeOf settings)) (x : Text) :
    g.members (textValue settings.edgeType) x = .ok ((pairs.filter (·.1 == x)).map (·.2)) := by
  have hf : g.edgesFrom (textValue settings.edgeType) x =
      (pairs.zipIdx.filter (·.1.1 == x)).map (edgeOf settings) := by
    rw [edgesFrom, hg, List.filter_map]
    simp only [Function.comp_def, source_edgeOf, type_edgeOf, textValue_same, Bool.and_true]
  have hint : Integral (g.edgesFrom (textValue settings.edgeType) x) := by
    rw [hf]
    exact List.forall_mem_map.2 fun q _ => rfl
  have hs : (((pairs.zipIdx.filter (·.1.1 == x)).map (edgeOf settings)).map keyOf).Pairwise
      (rankedBefore · ·) := by
    rw [List.map_map, List.pairwise_map]
    apply ((pairwise_zipIdx pairs).filter _).imp
    intro a b h
    exact rankedBefore_iff.2 (.inl (Int.ofNat_lt.2 h))
  rw [members_eq_sort hint, hf, insertionSort_eq_of_perm (List.Perm.refl _) hs]
  conv_rhs => rw [← List.zipIdx_map_fst 0 pairs, List.filter_map]
  simp only [List.map_map]
  rfl

theorem mem_inEdges (hg : g.edges = pairs.zipIdx.map (edgeOf settings)) {e : Edge} :
    e ∈ g.inEdges x ↔ ∃ q ∈ pairs.zipIdx, edgeOf settings q = e ∧ e.target = x := by
  rw [(inEdges_perm g x).mem_iff, List.mem_filter, hg, List.mem_map]
  simp only [beq_iff_eq]
  constructor
  · rintro ⟨⟨q, hq, he⟩, ht⟩
    exact ⟨q, hq, he, ht⟩
  · rintro ⟨q, hq, he, ht⟩
    exact ⟨⟨q, hq, he⟩, ht⟩

theorem container?_eq_some (hg : g.edges = pairs.zipIdx.map (edgeOf settings)) (hq : q ∈ pairs)
    (hu : ∀ r ∈ pairs, r.2 = q.2 → r = q) :
    g.container? (textValue settings.edgeType) q.2 = some q.1 := by
  unfold container?
  rcases hf : (g.inEdges q.2).find? fun e => e.type.same (textValue settings.edgeType) with _ | e
  · obtain ⟨i, hi⟩ := exists_mem_zipIdx hq
    have := List.find?_eq_none.1 hf _ ((mem_inEdges hg).2 ⟨_, hi, rfl, rfl⟩)
    exact absurd (textValue_same _) this
  · obtain ⟨r, hr, rfl, ht⟩ := (mem_inEdges hg).1 (List.mem_of_find?_eq_some hf)
    have hr1 := List.fst_mem_of_mem_zipIdx hr
    rw [hf, Option.map_some, source_edgeOf, hu r.1 hr1 ht]

theorem container?_eq_none (hg : g.edges = pairs.zipIdx.map (edgeOf settings))
    (hx : ∀ r ∈ pairs, r.2 ≠ x) : g.container? (textValue settings.edgeType) x = none := by
  unfold container?
  rcases hf : (g.inEdges x).find? fun e => e.type.same (textValue settings.edgeType) with _ | e
  · rw [hf, Option.map_none]
  · obtain ⟨r, hr, rfl, ht⟩ := (mem_inEdges hg).1 (List.mem_of_find?_eq_some hf)
    have hr1 := List.fst_mem_of_mem_zipIdx hr
    exact absurd ht (hx r.1 hr1)

end Multigraph

namespace State

variable {s : State} {p : Placement} {ps : List Placement} {n : Node}

def placeAll (settings : GraphSettings) (s : State) (ps : List Placement) : State :=
  ps.foldl (addPlacement settings) s

def nameIn (s : State) (n : Node) : Text := (s.nameOf? n).getD []

def pairOf (s : State) (p : Placement) : Text × Text := (s.nameIn p.container, s.nameIn p.member)

def Covers (s : State) (p : Placement) : Prop :=
  s.nameOf? p.container = some (s.nameIn p.container) ∧
    s.nameOf? p.member = some (s.nameIn p.member)

theorem placeAll_concat :
    placeAll settings s (ps ++ [p]) = addPlacement settings (placeAll settings s ps) p := by
  simp [placeAll]

theorem names_addPlacement : (addPlacement settings s p).names = s.names := by
  unfold addPlacement
  split
  · split_ifs <;> rfl
  · rfl

theorem names_placeAll (settings : GraphSettings) (s : State) (ps : List Placement) :
    (placeAll settings s ps).names = s.names := by
  induction ps using List.reverseRecOn with
  | nil => rfl
  | append_singleton ps p ih => rw [placeAll_concat, names_addPlacement, ih]

theorem nameOf?_placeAll (settings : GraphSettings) (s : State) (ps : List Placement) (n : Node) :
    (placeAll settings s ps).nameOf? n = s.nameOf? n := by
  rw [nameOf?, names_placeAll]
  rfl

theorem nameIn_placeAll (settings : GraphSettings) (s : State) (ps : List Placement) (n : Node) :
    (placeAll settings s ps).nameIn n = s.nameIn n := by
  rw [nameIn, nameOf?_placeAll]
  rfl

theorem pairOf_placeAll (settings : GraphSettings) (s : State) (ps : List Placement) :
    (placeAll settings s ps).pairOf = s.pairOf := by
  funext p
  simp only [pairOf, nameIn_placeAll]

theorem hasNode_placeAll (settings : GraphSettings) (ps : List Placement)
    (h : s.graph.hasNode x) : (placeAll settings s ps).graph.hasNode x := by
  induction ps using List.reverseRecOn with
  | nil => exact h
  | append_singleton ps p ih =>
    rw [placeAll_concat]
    unfold addPlacement
    split
    · split_ifs
      · exact ih
      · exact Multigraph.hasNode_addEdge.2 (.inr (.inr ih))
    · exact ih

theorem hasEdge_iff {g : Multigraph} (hg : g.edges = pairs.zipIdx.map (edgeOf settings))
    (q : Text × Text) : hasEdge g q.1 q.2 = true ↔ q ∈ pairs := by
  unfold hasEdge
  rw [hg, List.any_map, List.any_eq_true]
  simp only [Function.comp_apply, source_edgeOf, target_edgeOf, Bool.and_eq_true, beq_iff_eq]
  constructor
  · rintro ⟨r, hr, h1, h2⟩
    have hrq : r.1 = q := Prod.ext h1 h2
    exact hrq ▸ List.fst_mem_of_mem_zipIdx hr
  · intro hq
    obtain ⟨i, hi⟩ := exists_mem_zipIdx hq
    exact ⟨_, hi, rfl, rfl⟩

/-- A placement of named nodes adds the edge of its pair unless the pair has one. -/
theorem addPlacement_eq (h1 : s.nameOf? p.container = some q.1)
    (h2 : s.nameOf? p.member = some q.2) :
    addPlacement settings s p = if hasEdge s.graph q.1 q.2 then s
      else { s with graph := s.graph.addEdge (edgeOf settings (q, s.graph.edges.length)) } := by
  unfold addPlacement
  rw [h1, h2]
  rfl

/-- Later repetitions of a pair add no edge, and the edges are ranked as they come. -/
theorem edges_placeAll (hs : s.graph.edges = []) (hc : ∀ p ∈ ps, s.Covers p) :
    (placeAll settings s ps).graph.edges =
      (ps.map s.pairOf).eraseDups.zipIdx.map (edgeOf settings) := by
  induction ps using List.reverseRecOn with
  | nil => exact hs
  | append_singleton ps p ih =>
    have hg := ih fun r hr => hc r (List.mem_append_left _ hr)
    obtain ⟨h1, h2⟩ := hc p (by simp)
    rw [← nameOf?_placeAll settings s ps] at h1 h2
    have he := hasEdge_iff hg (s.pairOf p)
    rw [List.mem_eraseDups] at he
    rw [placeAll_concat, List.map_append, List.map_singleton, eraseDups_concat,
      addPlacement_eq (q := s.pairOf p) h1 h2]
    split_ifs with h3 h4 h4
    · exact hg
    · exact absurd (he.1 h3) h4
    · exact absurd (he.2 h4) h3
    · have hlen := congrArg List.length hg
      rw [List.length_map, List.length_zipIdx] at hlen
      rw [List.zipIdx_append, List.map_append, ← hg]
      simp [Multigraph.addEdge, Multigraph.addNode, hlen]

end State
end Outline.Graph
