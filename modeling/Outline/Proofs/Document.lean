import Mathlib.Data.List.Dedup
import Outline.Proofs.Edges
import Outline.Proofs.Fold
import Outline.Proofs.Levels

/-! A document's graph and its hierarchy answer alike. Names tell the nodes of the tree apart and
the pairs of the graph's edges are the placements under those names, so every answer of the graph
is the hierarchy's answer under the names. Both kinds of descendants are what can be reached. -/

namespace Outline.Graph

open Containment Hierarchy

variable {settings : GraphSettings} {transparent : List Kind} {file : Option Text} {root n m : Node}
  {ps : List Placement} {s : State} {x : Text} {t : Hierarchy}

structure State.Names (s : State) (root : Node) : Prop where
  name : ∀ n ∈ root.nodes, s.nameOf? n = some (s.nameIn n)
  inj : ∀ n ∈ root.nodes, ∀ m ∈ root.nodes, s.nameIn n = s.nameIn m → n.label.id = m.label.id
  known : ∀ n ∈ root.nodes, s.graph.hasNode (s.nameIn n)

theorem State.names_named (settings : GraphSettings) (file : Option Text) (root : Node) :
    (State.named settings file root.visits).Names root := by
  have hname : ∀ n ∈ root.nodes, (State.named settings file root.visits).nameOf? n =
      some ((State.named settings file root.visits).nameIn n) := by
    intro n hn
    obtain ⟨v, hv, rfl⟩ := List.mem_map.1 hn
    obtain ⟨x, hx⟩ := State.exists_nameOf? settings file hv
    rw [State.nameIn, hx]
    rfl
  refine ⟨hname, ?_, ?_⟩
  · intro n hn m hm he
    exact State.id_eq_of_nameOf? (hname n hn) (he ▸ hname m hm)
  · intro n hn
    exact State.hasNode_of_nameOf? (hname n hn)

theorem State.Names.nameIn_beq (hs : s.Names root) (hn : n ∈ root.nodes) (hm : m ∈ root.nodes) :
    (s.nameIn n == s.nameIn m) = Node.is n m := by
  rw [Bool.eq_iff_iff, beq_iff_eq, Node.is_iff]
  constructor
  · exact hs.inj n hn m hm
  · intro h
    unfold nameIn nameOf?
    rw [NodeMap.get?_congr h]

/-- A graph of a document: all nodes have names, and the edges are the placements in order. -/
structure State.Holds (s : State) (settings : GraphSettings) (root : Node) (ps : List Placement) :
    Prop extends s.Names root where
  container : ∀ p ∈ ps, p.container ∈ root.nodes
  member : ∀ p ∈ ps, p.member ∈ root.nodes
  edges : s.graph.edges = (ps.map s.pairOf).zipIdx.map (edgeOf settings)

namespace State.Holds

theorem mem_nodes_of_received (h : s.Holds settings root ps) (hm : m ∈ received ps n) :
    m ∈ root.nodes := by
  obtain ⟨p, hp, -, rfl⟩ := mem_received.1 hm
  exact h.member p hp

theorem members_eq (h : s.Holds settings root ps) (hn : n ∈ root.nodes) :
    s.graph.members (textValue settings.edgeType) (s.nameIn n) =
      .ok ((received ps n).map s.nameIn) := by
  have hf : (ps.map s.pairOf).filter (·.1 == s.nameIn n) =
      (ps.filter fun p => Node.is p.container n).map s.pairOf := by
    rw [List.filter_map]
    apply congrArg (List.map s.pairOf)
    apply List.filter_congr
    intro p hp
    exact h.nameIn_beq (h.container p hp) hn
  rw [Multigraph.members_of_edges h.edges, hf, received, List.map_map, List.map_map]
  rfl

theorem mem_targets (h : s.Holds settings root ps) (hn : n ∈ root.nodes) :
    x ∈ s.graph.targets (textValue settings.edgeType) (s.nameIn n) ↔
      ∃ m ∈ received ps n, s.nameIn m = x := by
  rw [← (Multigraph.members_perm_targets (h.members_eq hn)).mem_iff, List.mem_map]

theorem closed (h : s.Holds settings root ps) : s.graph.Closed := by
  intro e he
  rw [h.edges] at he
  obtain ⟨q, hq, rfl⟩ := List.mem_map.1 he
  obtain ⟨p, hp, hpq⟩ := List.mem_map.1 (List.fst_mem_of_mem_zipIdx hq)
  rw [source_edgeOf, target_edgeOf, ← hpq]
  exact ⟨h.known _ (h.container p hp), h.known _ (h.member p hp)⟩

theorem container?_eq (h : s.Holds settings root ps) (hd : (ps.map (·.member.label.id)).Nodup)
    (hn : n ∈ root.nodes) :
    s.graph.container? (textValue settings.edgeType) (s.nameIn n) =
      ((ofPlacements root ps).containers.get? n).map s.nameIn := by
  have hmem : ∀ p ∈ ps, s.nameIn p.member = s.nameIn n → Node.is p.member n := by
    intro p hp he
    rw [← h.nameIn_beq (h.member p hp) hn, he]
    exact beq_self_eq_true _
  by_cases hp : ∃ p ∈ ps, Node.is p.member n
  · obtain ⟨p, hp, hpn⟩ := hp
    have hq : s.pairOf p ∈ ps.map s.pairOf := List.mem_map_of_mem hp
    have hname : s.nameIn n = (s.pairOf p).2 := by
      have := h.nameIn_beq (h.member p hp) hn
      rw [hpn, beq_iff_eq] at this
      exact this.symm
    rw [hname, Multigraph.container?_eq_some h.edges hq, ← NodeMap.get?_congr (Node.is_iff.1 hpn),
      container_of_mem hd hp]
    · rfl
    · intro r hr he
      obtain ⟨p', hp', rfl⟩ := List.mem_map.1 hr
      have hid := Node.is_iff.1 (hmem p' hp' (he.trans hname.symm))
      rw [List.inj_on_of_nodup_map hd hp' hp (hid.trans (Node.is_iff.1 hpn).symm)]
  · rw [Multigraph.container?_eq_none h.edges]
    · rcases hc : (ofPlacements root ps).containers.get? n with _ | c
      · rfl
      · obtain ⟨p, hp', hpn, -⟩ := mem_of_container hc
        exact absurd ⟨p, hp', hpn⟩ hp
    · intro r hr he
      obtain ⟨p, hp', rfl⟩ := List.mem_map.1 hr
      exact hp ⟨p, hp', hmem p hp' he⟩

/-- What can be reached in the graph is what can be reached in the document, under its name. -/
theorem reaches_iff (h : s.Holds settings root ps) (hn : n ∈ root.nodes) :
    Relation.ReflTransGen (fun b c => c ∈ s.graph.targets (textValue settings.edgeType) b)
        (s.nameIn n) x ↔
      ∃ m ∈ root.nodes, Relation.ReflTransGen (fun a b => b ∈ received ps a) n m ∧
        s.nameIn m = x := by
  constructor
  · intro hr
    induction hr with
    | refl => exact ⟨n, hn, .refl, rfl⟩
    | tail _ hx ih =>
      obtain ⟨m, hm, hr, rfl⟩ := ih
      obtain ⟨k, hk, rfl⟩ := (h.mem_targets hm).1 hx
      exact ⟨k, h.mem_nodes_of_received hk, hr.tail hk, rfl⟩
  · rintro ⟨m, -, hr, rfl⟩
    induction hr with
    | refl => exact .refl
    | @tail m k hr hk ih =>
      have hm : m ∈ root.nodes := by
        rcases hr.cases_tail with rfl | ⟨j, -, hj⟩
        · exact hn
        · exact h.mem_nodes_of_received hj
      exact ih.tail ((h.mem_targets hm).2 ⟨k, hk, rfl⟩)

theorem descendants_perm (h : s.Holds settings root ps) (hp : placements transparent root = .ok ps)
    (hu : root.Unshared) (hn : n ∈ root.nodes) :
    ∃ out, s.graph.descendants (textValue settings.edgeType) (s.nameIn n) none = .ok out ∧
      out.Perm ((descendants (ofPlacements root ps).members n).map s.nameIn) := by
  obtain ⟨out, ho⟩ : ∃ out, s.graph.descendants (textValue settings.edgeType) (s.nameIn n) none =
      .ok out :=
    h.closed.descendants_ok fun _ c _ _ => ⟨_, Multigraph.members_of_edges h.edges c⟩
  refine ⟨out, ho, ?_⟩
  obtain ⟨-, hd, hsub⟩ := descendants_listing hp hu hn
  have hnodes : ∀ m ∈ descendants (ofPlacements root ps).members n, m ∈ root.nodes :=
    fun m hm => placed_subset_nodes transparent root (hsub hm)
  have hinj : ∀ a ∈ root.nodes, ∀ b ∈ root.nodes, s.nameIn a = s.nameIn b → a = b :=
    fun a ha b hb he => hu.node_eq ha hb (h.inj a ha b hb he)
  have hnd : ((descendants (ofPlacements root ps).members n).map s.nameIn).Nodup := by
    refine List.Nodup.map_on ?_ (List.nodup_cons.1 hd.of_map).2
    intro a ha b hb
    exact hinj a (hnodes a ha) b (hnodes b hb)
  have hknown := h.known n hn
  apply (List.perm_ext_iff_of_nodup (h.closed.byDistance hknown ho).once hnd).2
  intro x
  rw [h.closed.mem_descendants_iff hknown ho, h.reaches_iff hn, List.mem_map]
  constructor
  · rintro ⟨hx, m, -, hr, rfl⟩
    have hmn : m ≠ n := fun he => hx (congrArg s.nameIn he)
    exact ⟨m, (mem_descendants hp hu hn).2 ⟨hmn, hr⟩, rfl⟩
  · rintro ⟨m, hm, rfl⟩
    obtain ⟨hmn, hr⟩ := (mem_descendants hp hu hn).1 hm
    exact ⟨fun he => hmn (hinj m (hnodes m hm) n hn he), m, hnodes m hm, hr, rfl⟩

end State.Holds

theorem addDocument_eq (settings : GraphSettings) (file : Option Text) (s : State)
    (h : placements transparent root = .ok ps) :
    s.addDocument settings transparent file root =
      (State.placeAll settings (State.named settings file root.visits) ps, none) := by
  unfold State.addDocument
  rw [resolve_eq h, Tree.walk_eq_visits]
  rfl

theorem State.Names.placeAll (hs : s.Names root) (settings : GraphSettings)
    (ps : List Placement) : (State.placeAll settings s ps).Names root := by
  refine ⟨fun n hn => ?_, fun n hn m hm he => ?_, fun n hn => ?_⟩
  · rw [State.nameOf?_placeAll, State.nameIn_placeAll]
    exact hs.name n hn
  · rw [State.nameIn_placeAll, State.nameIn_placeAll] at he
    exact hs.inj n hn m hm he
  · rw [State.nameIn_placeAll]
    exact State.hasNode_placeAll settings ps (hs.known n hn)

theorem holds_placeAll (settings : GraphSettings) (file : Option Text)
    (h : placements transparent root = .ok ps) (hu : root.Unshared) :
    (State.placeAll settings (State.named settings file root.visits) ps).Holds settings root
      ps := by
  have hs := State.names_named settings file root
  have hcontainer : ∀ p ∈ ps, p.container ∈ root.nodes := fun p => container_mem_nodes h
  have hmember : ∀ p ∈ ps, p.member ∈ root.nodes :=
    fun p hp => placed_subset_nodes transparent root (member_placed h hp)
  have hnd : (ps.map (State.named settings file root.visits).pairOf).Nodup := by
    have hd := members_distinct h hu
    refine List.Nodup.map_on ?_ hd.of_map
    intro p hp q hq he
    exact List.inj_on_of_nodup_map hd hp hq
      (hs.inj _ (hmember p hp) _ (hmember q hq) (congrArg Prod.snd he))
  refine ⟨hs.placeAll settings ps, hcontainer, hmember, ?_⟩
  rw [State.pairOf_placeAll, State.edges_placeAll (State.edges_named settings file root.visits),
    eraseDups_of_nodup hnd]
  intro p hp
  exact ⟨hs.name _ (hcontainer p hp), hs.name _ (hmember p hp)⟩

structure State.AnswersAs (s : State) (type : Value) (t : Hierarchy) (n : Node) (name : Text) :
    Prop where
  named : s.nameOf? n = some name
  members : ∃ names, s.graph.members type name = .ok names ∧
    names.map some = (membersOf t.members n).map s.nameOf?
  container : (s.graph.container? type name).map some = (t.containers.get? n).map s.nameOf?
  descendants : ∃ names, s.graph.descendants type name none = .ok names ∧
    (names.map some).Perm ((descendants t.members n).map s.nameOf?)

theorem State.Holds.answersAs (hs : s.Holds settings root ps)
    (h : placements transparent root = .ok ps) (hu : root.Unshared) (hn : n ∈ root.nodes) :
    s.AnswersAs (textValue settings.edgeType) (ofPlacements root ps) n (s.nameIn n) := by
  have hnames : ∀ ns : List Node, (∀ m ∈ ns, m ∈ root.nodes) →
      (ns.map s.nameIn).map some = ns.map s.nameOf? := by
    intro ns hns
    rw [List.map_map]
    exact List.map_congr_left fun m hm => (hs.name m (hns m hm)).symm
  refine ⟨hs.name n hn, ?_, ?_, ?_⟩
  · refine ⟨_, hs.members_eq hn, ?_⟩
    rw [membersOf_ofPlacements]
    exact hnames _ fun m hm => hs.mem_nodes_of_received hm
  · rw [hs.container?_eq (members_distinct h hu) hn]
    rcases hc : (ofPlacements root ps).containers.get? n with _ | c
    · rfl
    · obtain ⟨p, hp, -, rfl⟩ := mem_of_container hc
      exact congrArg some (hs.name _ (hs.container p hp)).symm
  · obtain ⟨out, ho, hperm⟩ := hs.descendants_perm h hu hn
    rw [← hnames _ fun m hm => placed_subset_nodes transparent root
      ((descendants_listing h hu hn).2.2 hm)]
    exact ⟨out, ho, hperm.map some⟩

/-- The graph of a document without shared nodes answers for every node of the tree as the
hierarchy of the document does, descendants in an order of their own. -/
theorem addDocument_answers (settings : GraphSettings) (file : Option Text) (s : State)
    (hu : root.Unshared) (hb : build transparent root = .ok t) :
    (s.addDocument settings transparent file root).2 = none ∧
    ∀ n ∈ root.nodes, ∃ name,
      (s.addDocument settings transparent file root).1.AnswersAs (textValue settings.edgeType) t n
        name := by
  obtain ⟨ps, h, rfl⟩ := build_ok hb
  rw [addDocument_eq settings file s h]
  exact ⟨rfl, fun n hn => ⟨_, (holds_placeAll settings file h hu).answersAs h hu hn⟩⟩

theorem addDocument_answers_sample :
    Node.sample.Unshared ∧ ∃ t, build [Kind.root, Kind.list, Kind.text] Node.sample = .ok t ∧
      (∀ n ∈ Node.sample.nodes, ∃ name,
        (State.addDocument {} [Kind.root, Kind.list, Kind.text] none {} Node.sample).1.AnswersAs
          (textValue (some "contains".toList)) t n name) ∧
      (descendants t.members Node.sample).map (·.label.id) =
        [1, 4, 5, 7, 8, 9, 10, 11, 12, 13, 15] ∧
      let s := (State.addDocument {} [Kind.root, Kind.list, Kind.text] none {} Node.sample).1
      (s.graph.descendants (textValue (some "contains".toList)) "root-0".toList none).map
          (·.map String.ofList) =
        .ok ["heading-1", "listItem-10", "heading-11", "heading-13", "paragraph-15", "listItem-4",
          "heading-12", "paragraph-5", "listItem-7", "blockquote-8", "listItem-9"] := by
  have hu : Node.sample.Unshared := by decide
  obtain ⟨t, hb⟩ : ∃ t, build [Kind.root, Kind.list, Kind.text] Node.sample = .ok t := ⟨_, rfl⟩
  refine ⟨hu, t, hb, (addDocument_answers {} none {} hu hb).2, ?_, ?_⟩
  · cases hb
    rfl
  · rfl

end Outline.Graph

