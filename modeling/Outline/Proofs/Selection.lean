import Outline.Proofs.Naming

/-! Queries for nodes. The search stops at the limit, but it looks at the limit only after a match.
So what it finds from some node on is a beginning of all matches from there on, and its length is
what the limit still leaves, though one match at least (`collect_some`). A whole answer is then the
beginning of the list of all nodes that satisfy the query, in the order in which they came to the
graph (`elements_limited`). -/

namespace Outline.Graph

namespace Attributes

def Shows (as : Attributes) (name : Text) (v : Value) : Prop :=
  ((as.lookup name).getD .null).same v = true

instance (as : Attributes) (name : Text) (v : Value) : Decidable (as.Shows name v) :=
  inferInstanceAs (Decidable (_ = true))

structure Satisfies (as : Attributes) (nodeType : Value) (properties : Attributes) : Prop where
  type : as.Shows "node_type".toList nodeType
  property : ∀ p ∈ properties, as.Shows p.1 p.2

instance (as : Attributes) (nodeType : Value) (properties : Attributes) :
    Decidable (as.Satisfies nodeType properties) :=
  decidable_of_iff (as.Shows "node_type".toList nodeType ∧ ∀ p ∈ properties, as.Shows p.1 p.2)
    ⟨fun h => ⟨h.1, h.2⟩, fun h => ⟨h.type, h.property⟩⟩

theorem get_eq_lookup (as : Attributes) (name : Text) :
    as.get name = (as.lookup name).getD .null := by
  unfold get
  induction as with
  | nil => rfl
  | cons a as ih =>
    rw [List.find?_cons, List.lookup_cons, BEq.comm]
    split
    · rfl
    · exact ih

end Attributes

namespace Multigraph

variable {g : Multigraph} {nodeType : Value} {properties as : Attributes} {id : Text}

theorem isMatch_iff : isMatch nodeType properties as = true ↔ as.Satisfies nodeType properties := by
  rw [isMatch, Bool.and_eq_true, List.all_eq_true]
  simp only [Attributes.get_eq_lookup]
  exact ⟨fun h => ⟨h.1, h.2⟩, fun h => ⟨h.type, h.property⟩⟩

section Collect

variable (isMatch : Attributes → Bool)

theorem collect_none (found : Nat) (all : List Attributes) :
    collect isMatch none found all = all.filter isMatch := by
  induction all generalizing found with
  | nil => rfl
  | cons as all ih =>
    unfold collect
    by_cases hm : isMatch as
    · rw [if_pos hm, List.filter_cons_of_pos hm, ih]
      rfl
    · rw [if_neg hm, List.filter_cons_of_neg hm, ih]

/-- The limit counts the matches that were found before, and is looked at after the next one. -/
theorem collect_some (limit : Int) (found : Nat) (all : List Attributes) :
    collect isMatch (some limit) found all =
      (all.filter isMatch).take (max 1 (limit - found)).toNat := by
  induction all generalizing found with
  | nil => exact List.take_nil.symm
  | cons as all ih =>
    unfold collect
    by_cases hm : isMatch as
    · rw [if_pos hm, List.filter_cons_of_pos hm, Option.map_some, Option.getD_some]
      by_cases hlast : limit ≤ (found : Int) + 1
      · have hone : (max 1 (limit - found)).toNat = 1 := by omega
        rw [if_pos (decide_eq_true hlast), hone, List.take_succ_cons, List.take_zero]
      · have hmore : (max 1 (limit - found)).toNat =
            (max 1 (limit - ((found + 1 : Nat) : Int))).toNat + 1 := by omega
        rw [if_neg (by simpa using hlast), hmore, List.take_succ_cons, ih]
    · rw [if_neg hm, List.filter_cons_of_neg hm, ih]

end Collect

def satisfying (g : Multigraph) (nodeType : Value) (properties : Attributes) : List Attributes :=
  (g.nodes.filter fun n => n.2.Satisfies nodeType properties).map (·.2)

theorem filter_isMatch (g : Multigraph) (nodeType : Value) (properties : Attributes) :
    (g.nodes.map (·.2)).filter (isMatch nodeType properties) =
      g.satisfying nodeType properties := by
  rw [List.filter_map, satisfying]
  congr 1
  refine List.filter_congr fun n _ => ?_
  rw [Bool.eq_iff_iff, decide_eq_true_iff]
  exact isMatch_iff

theorem ids_updateNode (id : Text) (as : Attributes) (nodes : List (Text × Attributes)) :
    (updateNode id as nodes).map (·.1) =
      if id ∈ nodes.map (·.1) then nodes.map (·.1) else nodes.map (·.1) ++ [id] := by
  induction nodes with
  | nil => rfl
  | cons n nodes ih =>
    unfold updateNode
    by_cases hn : n.1 = id
    · rw [if_pos (beq_iff_eq.2 hn), List.map_cons, List.map_cons, hn, if_pos List.mem_cons_self]
    · have hmem : id ∈ (n :: nodes).map (·.1) ↔ id ∈ nodes.map (·.1) := by
        rw [List.map_cons, List.mem_cons, or_iff_right (Ne.symm hn)]
      rw [if_neg (mt beq_iff_eq.1 hn), List.map_cons, ih]
      simp only [hmem]
      split
      · rfl
      · rfl

/-- Without a limit a query gives the attributes of all nodes that satisfy it, and with a limit the
first of them, as many as the limit says, but one if it says less. They stand in the order in which
the nodes came to the graph. -/
theorem elements_limited (g : Multigraph) (nodeType : Value) (properties : Attributes) :
    g.elements nodeType properties none = g.satisfying nodeType properties ∧
    (∀ limit : Int, g.elements nodeType properties (some limit) =
      (g.satisfying nodeType properties).take (max 1 limit).toNat) ∧
    (∀ limit, g.elements nodeType properties limit <+: g.satisfying nodeType properties) ∧
    ∀ id as, (g.addNode id as).nodes.map (·.1) =
      if g.hasNode id then g.nodes.map (·.1) else g.nodes.map (·.1) ++ [id] := by
  have hall : g.elements nodeType properties none = g.satisfying nodeType properties := by
    rw [elements, collect_none, filter_isMatch]
  have hsome : ∀ limit : Int, g.elements nodeType properties (some limit) =
      (g.satisfying nodeType properties).take (max 1 limit).toNat := by
    intro limit
    have hfound : limit - ((0 : Nat) : Int) = limit := Int.sub_zero limit
    rw [elements, collect_some, filter_isMatch, hfound]
  refine ⟨hall, hsome, fun limit => ?_, fun id as => ?_⟩
  · cases limit with
    | none => exact hall ▸ List.prefix_refl _
    | some limit => exact hsome limit ▸ List.take_prefix _ _
  · simp only [hasNode_iff]
    exact ids_updateNode id as g.nodes

end Multigraph
end Outline.Graph
