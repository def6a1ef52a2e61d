import Outline.Proofs.Distance
import Outline.Proofs.Naming
import Outline.Proofs.Ranked

/-! The nodes below a node of a graph, by their distance. `Deepens` is the search without a bound on
its levels: it ends at the limit, with an empty level, or with a fault where the members of a node
have no order. As the ends of edges are nodes there is an empty level after as many levels as there
are nodes (`deepens_levels`). What holds of the search is an induction on it, with the rings around
the start as invariant. -/

namespace Outline.Graph.Multigraph

variable {g g' : Multigraph} {type : Value} {a b c x : Text} {d e k fuel fuel' : Nat}
  {limit : Option Int} {seen frontier xs out : List Text}
  {expand : List Text → Except OrderFault (List Text)} {res res' : Except OrderFault (List Text)}

/-- The search below a frontier at some depth: it goes on level by level until the depth is at the
limit or nothing is left to go on from. -/
inductive Deepens (expand : List Text → Except OrderFault (List Text)) (limit : Option Int) :
    Nat → List Text → List Text → Except OrderFault (List Text) → Prop
  | exhausted {d : Nat} {seen : List Text} : Deepens expand limit d seen [] (.ok [])
  | limited {d : Nat} {seen frontier : List Text} (h : ∃ k ∈ limit, k ≤ d) :
    Deepens expand limit d seen frontier (.ok [])
  | level {d : Nat} {seen frontier xs : List Text} {res : Except OrderFault (List Text)}
      (hf : frontier ≠ []) (h : ∀ k ∈ limit, d < k) (hx : expand frontier = .ok xs)
      (hr : Deepens expand limit (d + 1) (unseen seen xs).2 (unseen seen xs).1 res) :
    Deepens expand limit d seen frontier (res.map ((unseen seen xs).1 ++ ·))
  | fault {d : Nat} {seen frontier : List Text} {f : OrderFault} (hf : frontier ≠ [])
      (h : ∀ k ∈ limit, d < k) (hx : expand frontier = .error f) :
    Deepens expand limit d seen frontier (.error f)

theorem Deepens.functional (h : Deepens expand limit d seen frontier res)
    (h' : Deepens expand limit d seen frontier res') : res = res' := by
  have hclash {d : Nat} (hle : ∃ k ∈ limit, k ≤ (d : Int)) (hlt : ∀ k ∈ limit, (d : Int) < k) :
      False := by
    obtain ⟨k, hk, hle⟩ := hle
    have := hlt k hk
    omega
  induction h generalizing res' with
  | exhausted =>
    cases h' with
    | exhausted => rfl
    | limited => rfl
    | level hf => exact absurd rfl hf
    | fault hf => exact absurd rfl hf
  | limited h =>
    cases h' with
    | exhausted => rfl
    | limited => rfl
    | level _ hlt => exact (hclash h hlt).elim
    | fault _ hlt => exact (hclash h hlt).elim
  | level hf hlt hx _ ih =>
    cases h' with
    | exhausted => exact absurd rfl hf
    | limited h => exact (hclash h hlt).elim
    | level _ _ hx' hr =>
      obtain rfl := Except.ok.inj (hx.symm.trans hx')
      rw [ih hr]
    | fault _ _ hx' => cases hx.symm.trans hx'
  | fault hf hlt hx =>
    cases h' with
    | exhausted => exact absurd rfl hf
    | limited h => exact (hclash h hlt).elim
    | level _ _ hx' => cases hx.symm.trans hx'
    | fault _ _ hx' => exact hx.symm.trans hx'

/-- The ends of edges are nodes. So it is in every graph that is made by adding nodes and edges. -/
def Closed (g : Multigraph) : Prop := ∀ e ∈ g.edges, g.hasNode e.source ∧ g.hasNode e.target

instance (g : Multigraph) : Decidable g.Closed := List.decidableBAll _ _

theorem closed_empty : Closed {} := by simp [Closed]

theorem Closed.addNode (hg : g.Closed) (id : Text) (as : Attributes) : (g.addNode id as).Closed :=
  fun e he => ⟨hasNode_addNode.2 (.inr (hg e he).1), hasNode_addNode.2 (.inr (hg e he).2)⟩

theorem Closed.addEdge (hg : g.Closed) (e : Edge) : (g.addEdge e).Closed := by
  intro e' he
  rw [hasNode_addEdge, hasNode_addEdge]
  rcases List.mem_append.1 he with he | he
  · exact ⟨.inr (.inr (hg e' he).1), .inr (.inr (hg e' he).2)⟩
  · rw [List.mem_singleton.1 he]
    exact ⟨.inr (.inl rfl), .inl rfl⟩

theorem Closed.hasNode_of_target (hg : g.Closed) (hx : x ∈ g.targets type b) : g.hasNode x := by
  obtain ⟨e, he, rfl⟩ := List.mem_map.1 hx
  exact (hg e (List.mem_of_mem_filter he)).2

section Expand

theorem expand_cons (g : Multigraph) (type : Value) (c : Text) (frontier : List Text) :
    g.expand type (c :: frontier) = (g.members type c).bind fun own =>
      (g.expand type frontier).map (own ++ ·) := by
  rw [expand]
  rcases g.members type c with _ | own
  · rfl
  · rcases g.expand type frontier with _ | others <;> rfl

theorem mem_expand (h : g.expand type frontier = .ok xs) (x : Text) :
    x ∈ xs ↔ ∃ c ∈ frontier, x ∈ g.targets type c := by
  induction frontier generalizing xs with
  | nil => cases h; simp
  | cons c frontier ih =>
    rw [expand_cons] at h
    rcases hc : g.members type c with _ | own
    · rw [hc] at h; cases h
    · rcases ho : g.expand type frontier with _ | others
      · rw [hc, ho] at h; cases h
      · rw [hc, ho] at h
        cases h
        rw [List.mem_append, ih ho, (members_perm_targets hc).mem_iff, List.exists_mem_cons_iff]

theorem expand_error_iff : g.expand type frontier = .error .incomparable ↔
    ∃ c ∈ frontier, g.members type c = .error .incomparable := by
  induction frontier with
  | nil =>
    constructor
    · intro h; cases h
    · rintro ⟨c, hc, -⟩; cases hc
  | cons c frontier ih =>
    rw [expand_cons, List.exists_mem_cons_iff, ← ih]
    rcases g.members type c with ⟨⟨⟩⟩ | own
    · exact iff_of_true rfl (.inl rfl)
    · rcases g.expand type frontier with ⟨⟨⟩⟩ | others
      · exact iff_of_true rfl (.inr rfl)
      · refine iff_of_false (fun h => by cases h) ?_
        rintro (h | h) <;> cases h

theorem expand_congr (h : ∀ id, g.members type id = g'.members type id) :
    g.expand type = g'.expand type := by
  funext frontier
  induction frontier with
  | nil => rfl
  | cons c frontier ih => rw [expand_cons, expand_cons, h, ih]

end Expand

section Levels

theorem levels_succ (hf : frontier ≠ []) (hx : g.expand type frontier = .ok xs) :
    g.levels type (fuel + 1) seen frontier =
      (g.levels type fuel (unseen seen xs).2 (unseen seen xs).1).map
        ((unseen seen xs).1 ++ ·) := by
  rw [levels, if_neg (mt List.isEmpty_iff.1 hf), hx]
  change (g.levels type fuel (unseen seen xs).2 (unseen seen xs).1 >>= _) = _
  rcases g.levels type fuel (unseen seen xs).2 (unseen seen xs).1 with _ | rest <;> rfl

theorem levels_fault {f : OrderFault} (hf : frontier ≠ [])
    (hx : g.expand type frontier = .error f) :
    g.levels type (fuel + 1) seen frontier = .error f := by
  rw [levels, if_neg (mt List.isEmpty_iff.1 hf), hx]
  rfl

/-- The levels are the whole search if there are enough of them: up to the limit, or up to a
distance at which there is no node. -/
theorem deepens_levels (hr : Ring (g.targets type) a d seen frontier)
    (hf : ∀ k ∈ limit, fuel ≤ (k - d).toNat)
    (he : (∃ k ∈ limit, k ≤ (d + fuel : Nat)) ∨ ∀ x, ¬ AtDistance (g.targets type) a (d + fuel) x) :
    Deepens (g.expand type) limit d seen frontier (g.levels type fuel seen frontier) := by
  induction fuel generalizing d seen frontier with
  | zero =>
    rcases he with he | he
    · exact .limited he
    · obtain rfl : frontier = [] :=
        List.eq_nil_iff_forall_not_mem.2 fun x hx => he x ((hr.frontier x).1 hx)
      exact .exhausted
  | succ fuel ih =>
    by_cases hempty : frontier = []
    · rw [hempty]
      exact .exhausted
    · have hlimit : ∀ k ∈ limit, (d : Int) < k := fun k hk => by
        have := hf k hk
        omega
      rcases hx : g.expand type frontier with f | xs
      · rw [levels_fault hempty hx]
        exact .fault hempty hlimit hx
      · rw [levels_succ hempty hx]
        refine .level hempty hlimit hx (ih (hr.succ (mem_expand hx)) ?_ ?_)
        · intro k hk
          have := hf k hk
          omega
        · rwa [show d + 1 + fuel = d + (fuel + 1) by omega]

theorem levels_isPrefix (h : fuel ≤ fuel') (ho : g.levels type fuel' seen frontier = .ok out) :
    ∃ first, g.levels type fuel seen frontier = .ok first ∧ first <+: out := by
  induction fuel generalizing fuel' seen frontier out with
  | zero => exact ⟨[], rfl, List.nil_prefix⟩
  | succ fuel ih =>
    obtain ⟨fuel', rfl⟩ : ∃ m, fuel' = m + 1 := ⟨fuel' - 1, by omega⟩
    by_cases hempty : frontier = []
    · subst hempty
      cases ho
      exact ⟨[], rfl, List.prefix_refl _⟩
    · rcases hx : g.expand type frontier with f | xs
      · rw [levels_fault hempty hx] at ho
        cases ho
      · rw [levels_succ hempty hx] at ho
        rcases hl : g.levels type fuel' (unseen seen xs).2 (unseen seen xs).1 with _ | rest
        · rw [hl] at ho; cases ho
        · rw [hl] at ho
          cases ho
          obtain ⟨first, hfirst, hprefix⟩ := ih (by omega) hl
          rw [levels_succ hempty hx, hfirst]
          exact ⟨_, rfl, (List.prefix_append_right_inj _).2 hprefix⟩

/-- How many levels the search takes: as many as the limit says, but no more than there can be. -/
theorem descendants_eq_levels (hid : g.hasNode a) (type : Value) (limit : Option Int) :
    ∃ fuel, g.descendants type a limit = g.levels type fuel [a] [a] ∧
      (∀ k ∈ limit, fuel ≤ k.toNat) ∧
      (fuel = g.nodes.length + 1 ∨ ∃ k ∈ limit, fuel = k.toNat) := by
  unfold descendants
  rw [if_pos hid]
  cases limit with
  | none => exact ⟨_, rfl, by simp, .inl rfl⟩
  | some k =>
    refine ⟨_, rfl, ?_, ?_⟩
    · intro k' hk
      cases hk
      exact Nat.min_le_left _ _
    rcases Nat.le_total k.toNat (g.nodes.length + 1) with h | h
    · exact .inr ⟨k, rfl, Nat.min_eq_left h⟩
    · exact .inl (Nat.min_eq_right h)

theorem lt_of_atDistance (hid : g.hasNode a) (hg : g.Closed)
    (h : AtDistance (g.targets type) a d x) : d < g.nodes.length := by
  have hmem : ∀ k c, Walk (g.targets type) a k c → c ∈ g.nodes.map (·.1) := by
    intro k c hw
    have hc : g.hasNode c := by
      cases k with
      | zero => cases hw; exact hid
      | succ k => obtain ⟨b, -, hb⟩ := hw; exact hg.hasNode_of_target hb
    simpa [hasNode] using hc
  have hlt := h.lt_length hmem
  rwa [List.length_map] at hlt

theorem Closed.deepens (hg : g.Closed) (hid : g.hasNode a) (type : Value) (limit : Option Int) :
    Deepens (g.expand type) limit 0 [a] [a] (g.descendants type a limit) := by
  obtain ⟨fuel, he, hle, hfuel⟩ := descendants_eq_levels hid type limit
  rw [he]
  refine deepens_levels (Ring.start _ a) (by simpa using hle) ?_
  rcases hfuel with rfl | ⟨k, hk, rfl⟩
  · right
    intro x hx
    have := lt_of_atDistance hid hg hx
    omega
  · exact .inl ⟨k, hk, by omega⟩

end Levels

namespace Deepens

theorem mem_iff (h : Deepens (g.expand type) limit d seen frontier res)
    (hr : Ring (g.targets type) a d seen frontier) (ho : res = .ok out) (x : Text) :
    x ∈ out ↔ ∃ e : Nat, d < e ∧ (∀ k ∈ limit, e ≤ k) ∧ AtDistance (g.targets type) a e x := by
  induction h generalizing out with
  | exhausted =>
    cases ho
    refine iff_of_false List.not_mem_nil ?_
    rintro ⟨e, hde, -, hx⟩
    exact hr.not_atDistance hde.le hx
  | limited h =>
    cases ho
    refine iff_of_false List.not_mem_nil ?_
    rintro ⟨e, hde, hle, -⟩
    obtain ⟨k, hk, hkd⟩ := h
    have := hle k hk
    omega
  | @level d seen frontier xs res hf hlt hx _ ih =>
    rcases res with _ | rest
    · cases ho
    · cases ho
      have hnext := hr.succ (mem_expand hx)
      rw [List.mem_append, hnext.frontier, ih hnext rfl]
      constructor
      · rintro (h | ⟨e, hde, hle, hxe⟩)
        · exact ⟨d + 1, by omega, fun k hk => by have := hlt k hk; omega, h⟩
        · exact ⟨e, by omega, hle, hxe⟩
      · rintro ⟨e, hde, hle, hxe⟩
        rcases Nat.lt_or_ge (d + 1) e with hlt | hge
        · exact .inr ⟨e, hlt, hle, hxe⟩
        · obtain rfl : e = d + 1 := by omega
          exact .inl hxe
  | fault => cases ho

theorem nodup (h : Deepens (g.expand type) limit d seen frontier res)
    (hr : Ring (g.targets type) a d seen frontier) (ho : res = .ok out) : out.Nodup := by
  induction h generalizing out with
  | exhausted => cases ho; exact .nil
  | limited => cases ho; exact .nil
  | @level d seen frontier xs res hf hlt hx h ih =>
    rcases res with _ | rest
    · cases ho
    · cases ho
      have hnext := hr.succ (mem_expand hx)
      refine List.nodup_append.2 ⟨nodup_unseen_fst _ _, ih hnext rfl, ?_⟩
      rintro x hx' y hy rfl
      obtain ⟨e, he, -, hex⟩ := (h.mem_iff hnext rfl _).1 hy
      have := hex.unique ((hnext.frontier x).1 hx')
      omega
  | fault => cases ho

/-- Later levels are farther from the start. -/
theorem pairwise (h : Deepens (g.expand type) limit d seen frontier res)
    (hr : Ring (g.targets type) a d seen frontier) (ho : res = .ok out) :
    out.Pairwise fun x y =>
      ∀ i j, AtDistance (g.targets type) a i x → AtDistance (g.targets type) a j y → i ≤ j := by
  induction h generalizing out with
  | exhausted => cases ho; exact .nil
  | limited => cases ho; exact .nil
  | @level d seen frontier xs res hf hlt hx h ih =>
    rcases res with _ | rest
    · cases ho
    · cases ho
      have hnext := hr.succ (mem_expand hx)
      rw [List.pairwise_append]
      refine ⟨List.pairwise_of_forall_mem_list ?_, ih hnext rfl, ?_⟩
      · intro x hx y hy i j hi hj
        have h1 := hi.unique ((hnext.frontier x).1 hx)
        have h2 := hj.unique ((hnext.frontier y).1 hy)
        omega
      · intro x hx y hy i j hi hj
        have h1 := hi.unique ((hnext.frontier x).1 hx)
        obtain ⟨e, h2, -, he⟩ := (h.mem_iff hnext rfl y).1 hy
        have h3 := hj.unique he
        omega
  | fault => cases ho

/-- The search fails iff it comes to a node whose members have no order, before the limit. -/
theorem error_iff (h : Deepens (g.expand type) limit d seen frontier res)
    (hr : Ring (g.targets type) a d seen frontier) : res = .error .incomparable ↔
      ∃ (e : Nat) (c : Text), d ≤ e ∧ (∀ k ∈ limit, e < k) ∧ AtDistance (g.targets type) a e c ∧
        g.members type c = .error .incomparable := by
  induction h with
  | exhausted =>
    refine iff_of_false (fun h => by cases h) ?_
    rintro ⟨e, c, hde, -, hc, -⟩
    exact hr.not_atDistance hde hc
  | limited h =>
    refine iff_of_false (fun h => by cases h) ?_
    rintro ⟨e, c, hde, hlt, -⟩
    obtain ⟨k, hk, hkd⟩ := h
    have := hlt k hk
    omega
  | @level d seen frontier xs res hf hlt hx h ih =>
    have hnext := hr.succ (mem_expand hx)
    have hmap : res.map ((unseen seen xs).1 ++ ·) = .error .incomparable ↔
        res = .error .incomparable := by
      rcases res with _ | rest
      · exact Iff.rfl
      · exact iff_of_false (fun h => by cases h) fun h => by cases h
    rw [hmap, ih hnext]
    constructor
    · rintro ⟨e, c, hde, h⟩
      exact ⟨e, c, by omega, h⟩
    · rintro ⟨e, c, hde, hle, hc, hm⟩
      refine ⟨e, c, Nat.lt_of_le_of_ne hde ?_, hle, hc, hm⟩
      -- the members of the frontier could be sorted
      rintro rfl
      have := expand_error_iff.2 ⟨c, (hr.frontier c).2 hc, hm⟩
      rw [hx] at this
      cases this
  | @fault d seen frontier f hf hlt hx =>
    cases f
    obtain ⟨c, hc, hm⟩ := expand_error_iff.1 hx
    exact iff_of_true rfl ⟨d, c, le_refl d, hlt, (hr.frontier c).1 hc, hm⟩

end Deepens

/-- A list of the nodes at a distance from one up to a limit, by their distance. -/
structure ByDistance (next : Text → List Text) (a : Text) (limit : Option Int) (out : List Text) :
    Prop where
  mem : ∀ x, x ∈ out ↔ ∃ d : Nat, 1 ≤ d ∧ (∀ k ∈ limit, d ≤ k) ∧ AtDistance next a d x
  once : out.Nodup
  ordered : out.Pairwise fun x y => ∀ d e, AtDistance next a d x → AtDistance next a e y → d ≤ e

theorem Closed.byDistance (hg : g.Closed) (hid : g.hasNode a)
    (ho : g.descendants type a limit = .ok out) : ByDistance (g.targets type) a limit out := by
  have h := hg.deepens hid type limit
  exact ⟨h.mem_iff (Ring.start _ a) ho, h.nodup (Ring.start _ a) ho,
    h.pairwise (Ring.start _ a) ho⟩

theorem Closed.descendants_ok (hg : g.Closed)
    (hm : ∀ d c, AtDistance (g.targets type) a d c → (∀ k ∈ limit, (d : Int) < k) →
      ∃ ms, g.members type c = .ok ms) : ∃ out, g.descendants type a limit = .ok out := by
  by_cases hid : g.hasNode a
  · rcases hres : g.descendants type a limit with ⟨⟨⟩⟩ | out
    · obtain ⟨d, c, -, hlt, hc, hfault⟩ :=
        ((hg.deepens hid type limit).error_iff (Ring.start _ a)).1 hres
      obtain ⟨ms, hms⟩ := hm d c hc hlt
      cases hfault.symm.trans hms
    · exact ⟨out, rfl⟩
  · unfold descendants
    rw [if_neg hid]
    exact ⟨[], rfl⟩

theorem Closed.mem_descendants_iff (hg : g.Closed) (hid : g.hasNode a)
    (ho : g.descendants type a none = .ok out) : x ∈ out ↔
      x ≠ a ∧ Relation.ReflTransGen (fun b c => c ∈ g.targets type b) a x := by
  rw [(hg.byDistance hid ho).mem, reflTransGen_iff_walk]
  constructor
  · rintro ⟨e, h1, -, h3⟩
    refine ⟨?_, e, h3.1⟩
    rintro rfl
    exact h3.2 0 h1 rfl
  · rintro ⟨hxa, k, hw⟩
    obtain ⟨e, -, he⟩ := hw.atDistance
    refine ⟨e, ?_, by simp, he⟩
    rcases Nat.eq_zero_or_pos e with rfl | hpos
    · exact absurd he.1.symm hxa
    · exact hpos

/-- The nodes from which the search goes on before the limit have ranks that can be compared. -/
def Ordered (g : Multigraph) (type : Value) (a : Text) (limit : Option Int) : Prop :=
  ∀ (d : Nat) (c : Text), AtDistance (g.targets type) a d c → (∀ k ∈ limit, d < k) →
    (g.ranks type c).Pairwise (Value.Comparable · ·)

structure Searches (g : Multigraph) (type : Value) (a : Text) (limit : Option Int)
    (res : Except OrderFault (List Text)) : Prop where
  ends : Deepens (g.expand type) limit 0 [a] [a] res
  found : g.Ordered type a limit → ∃ out, res = .ok out
  byDistance : ∀ out, res = .ok out → ByDistance (g.targets type) a limit out
  fails : res = .error .incomparable ↔ ∃ (d : Nat) (c : Text), (∀ k ∈ limit, d < k) ∧
    AtDistance (g.targets type) a d c ∧ g.members type c = .error .incomparable

/-- Whatever the limit is, the search below a node comes to an end. Where ranks can be compared it
gives the nodes up to the limit, by their distance along edges of the type; it fails iff the members
of a node that is nearer than the limit cannot be sorted. Below what is no node there is nothing.
One more level only adds nodes at the end. -/
theorem descendants_byDistance (type : Value) (a : Text) (hg : g.Closed) :
    (g.hasNode a → ∀ limit, g.Searches type a limit (g.descendants type a limit)) ∧
    (¬ g.hasNode a → ∀ limit, g.descendants type a limit = .ok []) ∧
    ∀ (k : Int) (out : List Text), g.descendants type a (some (k + 1)) = .ok out →
      ∃ first, g.descendants type a (some k) = .ok first ∧ first <+: out := by
  refine ⟨fun hid limit => ?_, fun hid limit => ?_, fun k out ho => ?_⟩
  · have hends := hg.deepens hid type limit
    refine ⟨hends, fun hord => ?_, fun out ho => hg.byDistance hid ho, ?_⟩
    · exact hg.descendants_ok fun d c hc hlt => members_ok (hord d c hc hlt)
    · simpa using hends.error_iff (Ring.start _ a)
  · unfold descendants
    rw [if_neg hid]
  · unfold descendants at ho ⊢
    split_ifs at ho ⊢ with hid
    · exact levels_isPrefix (by dsimp only; omega) ho
    · cases ho
      exact ⟨[], rfl, List.prefix_refl _⟩

def edge (source target type : String) (rank : Option Value) : Edge :=
  ⟨source.toList, target.toList, ("edge_type".toList, .str type.toList) ::
    (rank.map fun r => ("rank".toList, r)).toList⟩

def sampleEdges : List Edge :=
  [edge "a" "b" "contains" (some (.int 1)), edge "a" "c" "contains" none,
    edge "b" "d" "contains" (some (.int 0)), edge "d" "a" "contains" (some (.int 7)),
    edge "a" "b" "contains" (some (.int 0)), edge "c" "e" "links" none]

theorem descendants_byDistance_sample :
    let g : Multigraph := sampleEdges.foldl addEdge {}
    let type : Value := .str "contains".toList
    g.Closed ∧ g.hasNode ['a'] ∧
      ByDistance (g.targets type) ['a'] (some 2) [['b'], ['c'], ['d']] ∧
      g.descendants type ['a'] (some 2) = .ok [['b'], ['c'], ['d']] ∧
      g.descendants type ['a'] (some 1) = .ok [['b'], ['c']] := by
  intro g type
  have hg : g.Closed := by decide
  have hid : g.hasNode ['a'] := by decide
  obtain ⟨h, -, hprefix⟩ := descendants_byDistance type ['a'] hg
  have ho : g.descendants type ['a'] (some 2) = .ok [['b'], ['c'], ['d']] := by rfl
  exact ⟨hg, hid, (h hid (some 2)).byDistance _ ho, ho, by rfl⟩

/-- Below the first node are two others, but a text and a number as ranks have no order. -/
theorem ranks_without_order :
    let g : Multigraph := [edge "a" "b" "contains" (some (.str ['x'])),
      edge "a" "c" "contains" (some (.int 1))].foldl addEdge {}
    let type : Value := .str "contains".toList
    g.hasNode ['a'] ∧ AtDistance (g.targets type) ['a'] 1 ['b'] ∧
      g.descendants type ['a'] none = .error .incomparable := by
  refine ⟨by decide, ⟨⟨['a'], rfl, by decide⟩, fun k hk hw => ?_⟩, by rfl⟩
  obtain rfl : k = 0 := by omega
  exact absurd (show ['a'] = ['b'] from hw) (by decide)

end Outline.Graph.Multigraph
