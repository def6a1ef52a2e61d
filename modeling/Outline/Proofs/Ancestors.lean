import Mathlib.Algebra.GroupWithZero.Nat
import Outline.Cursor.Context
import Outline.Proofs.Paths

/-! The search of ancestors. It answers with the path to the first visit of its target
(`ancestors?_eq`). Where places with the same identity hold the same node, this is a path to the
target: it is empty, or the root alone, or it goes on with the child of the root that the target is
below (`ancestors?_cases`). The text around a node is that of this child, so all nodes whose first
visits are below one child of the root have the same text around them (`context_by_topLevel`). -/

namespace Outline

namespace Cursor

variable {root n target : Node}

theorem ancestorsFrom_eq (target : Node) (fuel : Nat) (pending : List Pending)
    (h : (pending.map (·.1.size)).sum ≤ fuel) :
    ancestorsFrom target fuel pending =
      ((pending.flatMap fun e => e.1.withPaths e.2).find? (Node.is ·.1 target)).map (·.2) := by
  induction fuel generalizing pending with
  | zero =>
    cases pending with
    | nil => rfl
    | cons e pending =>
      have := Tree.size_eq e.1
      rw [List.map_cons, List.sum_cons] at h
      omega
  | succ fuel ih =>
    cases pending with
    | nil => rfl
    | cons e pending =>
      obtain ⟨n, path⟩ := e
      have hs := Tree.size_eq n
      rw [List.map_cons, List.sum_cons] at h
      dsimp only at h
      rw [ancestorsFrom, List.flatMap_cons, Tree.withPaths_eq, List.cons_append, List.find?_cons]
      by_cases hn : Node.is n target = true
      · simp [hn]
      · rw [if_neg hn, ih]
        · simp [hn, List.flatMap_map]
        · rw [List.map_append, List.map_map, List.sum_append]
          change (n.children.map Tree.size).sum + _ ≤ fuel
          omega

theorem ancestors?_eq (root target : Node) : ancestors? root target =
    ((root.withPaths []).find? (Node.is ·.1 target)).map (·.2) := by
  rw [ancestors?, ancestorsFrom_eq] <;> simp

theorem exists_path (hi : root.Coherent) (hn : n ∈ root.nodes) :
    ∃ path, (n, path) ∈ root.withPaths [] ∧ ancestors? root n = some path := by
  obtain ⟨e, he, rfl⟩ : ∃ e ∈ root.withPaths [], e.1 = n := by
    rw [← Node.map_fst_withPaths []] at hn
    exact List.mem_map.1 hn
  obtain ⟨⟨m, path⟩, hfind⟩ : ∃ f, (root.withPaths []).find? (Node.is ·.1 e.1) = some f :=
    Option.isSome_iff_exists.1 (List.find?_isSome.2 ⟨e, he, Node.is_self _⟩)
  have hmem := List.mem_of_find?_eq_some hfind
  have hm : m ∈ root.nodes := by
    rw [← Node.map_fst_withPaths []]
    exact List.mem_map_of_mem hmem
  -- the first visit with the identity of the target is a visit of the target
  have hid : Node.is m e.1 = true := by simpa using List.find?_some hfind
  obtain rfl : m = e.1 := hi m hm e.1 hn (Node.is_iff.1 hid)
  refine ⟨path, hmem, ?_⟩
  rw [ancestors?_eq, hfind]
  rfl

/-- The path to a node of the tree: none for the root, the root alone for its children, and for all
others the root and then the child that they are below. -/
theorem ancestors?_cases (hi : root.Coherent) (hn : n ∈ root.nodes) :
    (ancestors? root n = some [] ∧ n = root) ∨
    (ancestors? root n = some [root] ∧ n ∈ root.children) ∨
    ∃ top : Node, top ∈ root.children ∧ n ∈ top.nodes ∧
      ∃ rest, ancestors? root n = some (root :: top :: rest) := by
  obtain ⟨path, hmem, hpath⟩ := exists_path hi hn
  rw [hpath]
  rcases Node.withPaths_cases hmem with ⟨rfl, hroot⟩ | ⟨rfl, hchild⟩ | ⟨top, htop, hbelow, rest, rfl⟩
  · exact .inl ⟨rfl, hroot⟩
  · exact .inr (.inl ⟨rfl, hchild⟩)
  · exact .inr (.inr ⟨top, htop, hbelow, rest, rfl⟩)

/-- The path to the first visit of the target in pre-order. -/
def FirstVisit (root target : Node) (path : List Node) : Prop :=
  ∃ before n after, root.withPaths [] = before ++ (n, path) :: after ∧
    Node.is n target = true ∧ ∀ e ∈ before, Node.is e.1 target = false

def FirstIn (root top target : Node) : Prop :=
  ∃ before after, root.children = before ++ top :: after ∧
    (∀ c ∈ before, ∀ n ∈ Node.nodes c, Node.is n target = false) ∧ target ∈ Node.nodes top

theorem ancestors?_eq_none : ancestors? root target = none ↔
    ∀ n ∈ root.nodes, Node.is n target = false := by
  rw [ancestors?_eq, Option.map_eq_none_iff, List.find?_eq_none, ← Node.map_fst_withPaths []]
  simp

theorem ancestors?_eq_some {path : List Node} :
    ancestors? root target = some path ↔ FirstVisit root target path := by
  rw [ancestors?_eq, Option.map_eq_some_iff]
  constructor
  · rintro ⟨⟨n, path⟩, hfind, rfl⟩
    obtain ⟨hn, before, after, hsplit, hbefore⟩ := List.find?_eq_some_iff_append.1 hfind
    exact ⟨before, n, after, hsplit, hn, fun e he => by simpa using hbefore e he⟩
  · rintro ⟨before, n, after, hsplit, hn, hbefore⟩
    refine ⟨(n, path), List.find?_eq_some_iff_append.2 ⟨hn, before, after, hsplit, ?_⟩, rfl⟩
    exact fun e he => by simpa using hbefore e he

theorem FirstVisit.leads {path : List Node} (h : FirstVisit root target path) :
    ∃ n, Node.is n target = true ∧ root.Leads path n := by
  obtain ⟨before, n, after, hsplit, hn, -⟩ := h
  have hmem : (n, path) ∈ root.withPaths [] := by rw [hsplit]; simp
  obtain ⟨rest, rfl, hleads⟩ := Tree.leads_of_mem_withPaths hmem
  exact ⟨n, hn, hleads⟩

theorem FirstIn.ancestors? {top : Node} (h : FirstIn root top target)
    (hroot : Node.is root target = false) :
    ∃ n path, (n, path) ∈ top.withPaths [root] ∧ Node.is n target = true ∧
      ancestors? root target = some path := by
  obtain ⟨before, after, hchildren, hbefore, hbelow⟩ := h
  have hbefore' : (before.flatMap (Tree.withPaths [root])).find? (Node.is ·.1 target) = none := by
    rw [List.find?_eq_none]
    intro e he
    obtain ⟨c, hc, he⟩ := List.mem_flatMap.1 he
    have hn : e.1 ∈ Node.nodes c := by
      rw [← Node.map_fst_withPaths [root]]
      exact List.mem_map_of_mem he
    rw [hbefore c hc e.1 hn]
    exact Bool.false_ne_true
  obtain ⟨⟨n, path⟩, hfind⟩ :
      ∃ e, (top.withPaths [root]).find? (Node.is ·.1 target) = some e := by
    rw [← Node.map_fst_withPaths [root]] at hbelow
    obtain ⟨e, he, rfl⟩ := List.mem_map.1 hbelow
    exact Option.isSome_iff_exists.1 (List.find?_isSome.2 ⟨e, he, Node.is_self _⟩)
  have hn : Node.is n target = true := by simpa using List.find?_some hfind
  refine ⟨n, path, List.mem_of_find?_eq_some hfind, hn, ?_⟩
  rw [ancestors?_eq, Tree.withPaths_eq, List.find?_cons, hroot, hchildren, List.nil_append]
  dsimp only
  rw [List.flatMap_append, List.flatMap_cons, List.find?_append, hbefore', Option.none_or,
    List.find?_append, hfind]
  rfl

theorem FirstIn.topLevel? {top : Node} (h : FirstIn root top target) (hi : root.Coherent) :
    topLevel? root (some target) = some top := by
  obtain ⟨before, after, hchildren, -, hbelow⟩ := id h
  have htop : top ∈ root.children := by rw [hchildren]; simp
  have hself := Node.self_mem_nodes root
  have hroot : Node.is root target = false := by
    rw [Bool.eq_false_iff, ne_eq, Node.is_iff]
    exact fun hid => hi.ne_of_below hself htop hbelow hid.symm
  obtain ⟨n, path, hmem, hn, hpath⟩ := h.ancestors? hroot
  rw [Tree.withPaths_eq] at hmem
  rcases List.mem_cons.1 hmem with he | hmem
  · cases he
    have htop' : top ∈ root.nodes := Node.child_mem_nodes hself htop
    have htarget : target ∈ root.nodes := (Node.infix_of_mem_nodes htop').subset hbelow
    obtain rfl : top = target := hi top htop' target htarget (Node.is_iff.1 hn)
    simp only [Cursor.topLevel?, hpath]
  · obtain ⟨d, -, hmem⟩ := List.mem_flatMap.1 hmem
    obtain ⟨rest, rfl⟩ := Node.isPrefix_of_mem_withPaths hmem
    simp only [Cursor.topLevel?, hpath]
    rfl

theorem context_eq (hs : target.label.span.isSome) (source : Text) :
    context root (some target) source =
      ((topLevel? root (some target)).map (content · source)).getD source := by
  have hsome : target.label.span.isNone = false := by simpa using hs
  unfold context topLevel?
  simp only [hsome, Bool.false_eq_true, if_false]
  rcases ancestors? root target with _ | _ | ⟨a, _ | ⟨b, path⟩⟩ <;> rfl

/-- The search answers iff the target is in the tree, with the path to its first visit. The text
around a node with a span is that of the top-level block, or all if there is none. So it is the same
for all nodes that are first visited in one top-level block. -/
theorem context_by_topLevel (root target : Node) (source : Text) :
    (ancestors? root target = none ↔ ∀ n ∈ root.nodes, Node.is n target = false) ∧
    (∀ path, ancestors? root target = some path ↔ FirstVisit root target path) ∧
    (∀ path, FirstVisit root target path → ∃ n, Node.is n target = true ∧ root.Leads path n) ∧
    (target.label.span.isSome → context root (some target) source =
      ((topLevel? root (some target)).map (content · source)).getD source) ∧
    (root.Coherent → ∀ top, FirstIn root top target →
      topLevel? root (some target) = some top ∧
      ∀ other, FirstIn root top other → target.label.span.isSome → other.label.span.isSome →
        context root (some other) source = context root (some target) source) := by
  refine ⟨ancestors?_eq_none, fun _ => ancestors?_eq_some, fun _ h => h.leads,
    fun hs => context_eq hs source, fun hi top htarget => ⟨htarget.topLevel? hi, ?_⟩⟩
  intro other hother hs ho
  rw [context_eq hs, context_eq ho, htarget.topLevel? hi, hother.topLevel? hi]

def sharedParagraph : Node :=
  .node { id := 3, kind := Kind.paragraph, span := some ⟨⟨2, 3, none⟩, ⟨2, 4, none⟩⟩ } [
    .node { id := 4, kind := Kind.text, span := some ⟨⟨2, 3, none⟩, ⟨2, 4, none⟩⟩ } []]

def quotedTwice : Node :=
  .node { id := 0, kind := Kind.root, span := some ⟨⟨1, 1, none⟩, ⟨3, 4, none⟩⟩ } [
    .node { id := 1, kind := Kind.blockquote, span := some ⟨⟨1, 1, none⟩, ⟨2, 4, none⟩⟩ } [
      .node { id := 2, kind := Kind.paragraph, span := some ⟨⟨1, 3, none⟩, ⟨1, 4, none⟩⟩ } [],
      sharedParagraph],
    sharedParagraph,
    .node { id := 5, kind := Kind.thematicBreak, span := some ⟨⟨3, 1, none⟩, ⟨3, 4, none⟩⟩ } []]

/-- Of the shared paragraph the first visit counts, and so the two lines of the quote are around it,
as around the other paragraph of the quote. -/
theorem context_by_topLevel_sample : quotedTwice.Coherent ∧
    ∃ quote other : Node, FirstIn quotedTwice quote sharedParagraph ∧
      FirstIn quotedTwice quote other ∧ other.label.id = 2 ∧
      topLevel? quotedTwice (some sharedParagraph) = some quote ∧
      content quote "> a\n> b\n---".toList = "> a\n> b".toList ∧
      context quotedTwice (some other) "> a\n> b\n---".toList =
        context quotedTwice (some sharedParagraph) "> a\n> b\n---".toList := by
  have hi : quotedTwice.Coherent := Node.coherent_of_table
    (fun i => (quotedTwice.nodes.find? (·.label.id == i)).getD quotedTwice) rfl
  have hshared : FirstIn quotedTwice (quotedTwice.children.headD quotedTwice) sharedParagraph :=
    ⟨[], _, rfl, by simp, .tail _ (.tail _ (.head _))⟩
  have hother : FirstIn quotedTwice (quotedTwice.children.headD quotedTwice)
      ((quotedTwice.children.headD quotedTwice).children.headD quotedTwice) :=
    ⟨[], _, rfl, by simp, .tail _ (.head _)⟩
  obtain ⟨-, -, -, -, hfirst⟩ :=
    context_by_topLevel quotedTwice sharedParagraph "> a\n> b\n---".toList
  obtain ⟨htop, hsame⟩ := hfirst hi _ hshared
  exact ⟨hi, _, _, hshared, hother, rfl, htop, rfl, hsame _ hother rfl rfl⟩

end Cursor
end Outline
