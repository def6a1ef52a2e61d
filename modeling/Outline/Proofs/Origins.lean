import Outline.Proofs.Progress

/-! Where the nodes of a document come from. `Origin` names it: the document, its metadata block, or
the token at some place. `StandsBelow` says from the tokens alone which origins a node's children
may have, and `blockPlaces` which tokens make a block. A `Marked` tree carries the origins along, so
what the fold does to a tree can be followed without its other labels (`Under`, `origins`). -/

namespace Outline

namespace Document

def madeKind? (token : BlockToken) : Option Kind :=
  match token.nesting with
  | .opens => blockKind? token.type
  | .closes => none
  | .stands => if token.type = "inline" then none else some (leafInfo none token).kind

def blockPlaces (tokens : List BlockToken) : List Nat :=
  (tokens.zipIdx.filter fun p => (madeKind? p.1).isSome).map (·.2)

/-- The places of the open tokens, innermost first, after another token. -/
def afterPlace (os : List Nat) (p : BlockToken × Nat) : List Nat :=
  if opensBlock p.1 then p.2 :: os else if closesBlock p.1 then os.tail else os

def openPlaces (tokens : List BlockToken) : List Nat := tokens.zipIdx.foldl afterPlace []

inductive Origin where
  | document
  | metadata
  /-- The token at some place, by itself or by its running text. -/
  | token (place : Nat)
  deriving DecidableEq

def Origin.ofOpen (os : List Nat) : Origin := os.head?.elim .document .token

def innermost (tokens : List BlockToken) : Origin := .ofOpen (openPlaces tokens)

def kindAt (tokens : List BlockToken) (i : Nat) : Option Kind := tokens[i]?.bind madeKind?

/-- All but what comes from running text. -/
def Origin.isBlock (tokens : List BlockToken) : Origin → Bool
  | .token i => (kindAt tokens i).isSome
  | _ => true

/-- The token at this place is running text. -/
def IsRunning (tokens : List BlockToken) (i : Nat) : Prop :=
  ∃ token, tokens[i]? = some token ∧ token.nesting = .stands ∧ token.type = "inline"

/-- A node of some origin and kind may stand directly below a node of another origin: a block below
the innermost block in front of its token, and running text there or below other running text of its
token. -/
inductive StandsBelow (tokens : List BlockToken) (p : Origin) : Origin → Kind → Prop
  | metadata (hp : p = .document) : StandsBelow tokens p .metadata Kind.yaml
  | block (i : Nat) (kind : Kind) (hk : kindAt tokens i = some kind)
      (hp : p = innermost (tokens.take i)) : StandsBelow tokens p (.token i) kind
  | running (i : Nat) (kind : Kind) (ht : IsRunning tokens i)
      (hp : p = innermost (tokens.take i) ∨ p = .token i) : StandsBelow tokens p (.token i) kind

/-- A leaf's content is its text, unless running text in the same block went on with it. -/
def GoesOnIn (tokens : List BlockToken) (p : Origin) (content value : Text) : Prop :=
  value = content ∨
    content <+: value ∧ ∃ j, IsRunning tokens j ∧ innermost (tokens.take j) = p

/-- The leaf at place `i` stands in a paragraph in a list item, the tokens of which are at places `p`
and `q`. The leaf's text, with the running text that went on with it, is a task box. -/
structure BoxLeaf (tokens : List BlockToken) (q p i : Nat) : Prop where
  leaf : ∃ token, tokens[i]? = some token ∧ token.nesting = .stands ∧ token.type = "text" ∧
    ∃ value done n, GoesOnIn tokens (.token p) token.content value ∧
      taskBox? value = some (done, n) ∧ value.length ≤ n
  inParagraph : innermost (tokens.take i) = .token p
  paragraph : kindAt tokens p = some Kind.paragraph
  inItem : innermost (tokens.take p) = .token q
  item : kindAt tokens q = some Kind.listItem

/-- Between an item's token and that of a leaf, no token but the paragraph's makes a block, and none
has running text among the nodes that were found. -/
def StandsFirst (tokens : List BlockToken) (found : List Origin) (q p i : Nat) : Prop :=
  ∀ j, q < j → j < i → j ≠ p → kindAt tokens j = none ∧ .token j ∉ found

/-- The token at this place is a leaf that a task box took with it: it was the box, and stood first
in the first paragraph of its item. -/
structure Droppable (tasks : Bool) (tokens : List BlockToken) (found : List Origin) (i : Nat) :
    Prop where
  tasks : tasks = true
  box : ∃ q p, BoxLeaf tokens q p i ∧ StandsFirst tokens found q p i

theorem GoesOnIn.isPrefix {tokens : List BlockToken} {p : Origin} {content value : Text}
    (h : GoesOnIn tokens p content value) : content <+: value :=
  h.elim (fun heq => heq ▸ List.prefix_refl _) And.left

section Places

variable {tokens pre : List BlockToken} {token : BlockToken} {kind : Kind}

theorem blockPlaces_concat (pre : List BlockToken) (token : BlockToken) :
    blockPlaces (pre ++ [token]) =
      blockPlaces pre ++ if (madeKind? token).isSome then [pre.length] else [] := by
  unfold blockPlaces
  rw [List.zipIdx_append, List.filter_append, List.map_append, List.zipIdx_singleton,
    List.filter_singleton, Nat.zero_add]
  cases (madeKind? token).isSome <;> rfl

theorem openPlaces_concat (pre : List BlockToken) (token : BlockToken) :
    openPlaces (pre ++ [token]) = afterPlace (openPlaces pre) (token, pre.length) := by
  unfold openPlaces
  rw [List.zipIdx_append, List.foldl_append, List.zipIdx_singleton, Nat.zero_add]
  rfl

theorem openPlaces_of_opens (pre : List BlockToken) (h : opensBlock token = true) :
    openPlaces (pre ++ [token]) = pre.length :: openPlaces pre := by
  rw [openPlaces_concat, afterPlace, if_pos h]

theorem openPlaces_of_closes (pre : List BlockToken) (h : closesBlock token = true) :
    openPlaces (pre ++ [token]) = (openPlaces pre).tail := by
  have hopens : ¬ opensBlock token = true := by
    simp_all [opensBlock, closesBlock]
  rw [openPlaces_concat, afterPlace, if_neg hopens, if_pos h]

theorem openPlaces_of_neither (pre : List BlockToken) (ho : opensBlock token = false)
    (hc : closesBlock token = false) : openPlaces (pre ++ [token]) = openPlaces pre := by
  rw [openPlaces_concat, afterPlace, ho, hc]
  rfl

theorem getElem?_of_isPrefix (hp : pre ++ [token] <+: tokens) :
    tokens[pre.length]? = some token ∧ tokens.take pre.length = pre := by
  obtain ⟨post, rfl⟩ := hp
  simp

theorem kindAt_of_isPrefix (hp : pre ++ [token] <+: tokens) :
    kindAt tokens pre.length = madeKind? token := by
  rw [kindAt, (getElem?_of_isPrefix hp).1, Option.bind_some]

theorem mem_openPlaces_concat {i : Nat} (hi : i ∈ openPlaces (pre ++ [token])) :
    i = pre.length ∧ opensBlock token = true ∨ i ∈ openPlaces pre := by
  rw [openPlaces_concat, afterPlace] at hi
  split at hi
  · next hopens => exact (List.mem_cons.1 hi).imp_left fun hi => ⟨hi, hopens⟩
  · split at hi
    · exact .inr (List.mem_of_mem_tail hi)
    · exact .inr hi

theorem opensBlock_of_mem_openPlaces (hp : pre <+: tokens) {i : Nat} (hi : i ∈ openPlaces pre) :
    ∃ token, tokens[i]? = some token ∧ opensBlock token = true := by
  induction pre using List.reverseRecOn with
  | nil => cases hi
  | append_singleton pre token ih =>
    obtain ⟨rfl, hopens⟩ | hi := mem_openPlaces_concat hi
    · exact ⟨token, (getElem?_of_isPrefix hp).1, hopens⟩
    · exact ih ((List.prefix_append _ _).trans hp) hi

theorem lt_of_mem_openPlaces {i : Nat} (hi : i ∈ openPlaces pre) : i < pre.length := by
  induction pre using List.reverseRecOn with
  | nil => cases hi
  | append_singleton pre token ih =>
    rw [List.length_append, List.length_singleton]
    obtain ⟨rfl, -⟩ | hi := mem_openPlaces_concat hi
    · exact Nat.lt_succ_self _
    · exact Nat.lt_succ_of_lt (ih hi)

theorem openPlaces_sorted (pre : List BlockToken) : (openPlaces pre).Pairwise (· > ·) := by
  induction pre using List.reverseRecOn with
  | nil => exact .nil
  | append_singleton pre token ih =>
    rw [openPlaces_concat, afterPlace]
    split
    · exact List.pairwise_cons.2 ⟨fun i hi => lt_of_mem_openPlaces hi, ih⟩
    · split
      · exact ih.tail
      · exact ih

theorem mem_openPlaces_of_append {post : List BlockToken} {i : Nat}
    (hi : i ∈ openPlaces (pre ++ post)) (hlt : i < pre.length) : i ∈ openPlaces pre := by
  induction post using List.reverseRecOn with
  | nil => rwa [List.append_nil] at hi
  | append_singleton post token ih =>
    rw [← List.append_assoc] at hi
    obtain ⟨rfl, -⟩ | hi := mem_openPlaces_concat hi
    · rw [List.length_append] at hlt
      omega
    · exact ih hi

theorem mem_openPlaces_of_innermost {p : Nat} (h : innermost pre = .token p) :
    p ∈ openPlaces pre ∧ ∀ i ∈ openPlaces pre, i ≤ p := by
  have hsorted := openPlaces_sorted pre
  unfold innermost Origin.ofOpen at h
  rcases hos : openPlaces pre with _ | ⟨o, os⟩
  · rw [hos] at h
    cases h
  · rw [hos] at h hsorted
    cases h
    refine ⟨List.mem_cons_self, List.forall_mem_cons.2 ⟨Nat.le_refl _, fun i hi => ?_⟩⟩
    exact Nat.le_of_lt (List.rel_of_pairwise_cons hsorted hi)

theorem opensBlock_of_innermost {i p : Nat} (h : innermost (tokens.take i) = .token p) :
    ∃ token, tokens[p]? = some token ∧ opensBlock token = true :=
  opensBlock_of_mem_openPlaces (List.take_prefix i tokens) (mem_openPlaces_of_innermost h).1

theorem innermost_ne {i p : Nat} (ht : tokens[p]? = some token) (hn : token.nesting = .stands) :
    innermost (tokens.take i) ≠ .token p := by
  intro h
  obtain ⟨token', ht', hopens⟩ := opensBlock_of_innermost h
  cases ht.symm.trans ht'
  rw [opensBlock, hn] at hopens
  cases hopens

theorem madeKind?_of_leaf (hn : token.nesting = .stands) (ht : token.type ≠ "inline")
    (span : Option Span) : madeKind? token = some (leafInfo span token).kind := by
  unfold madeKind?
  rw [hn]
  dsimp only
  rw [if_neg ht]
  unfold leafInfo
  split_ifs <;> rfl

theorem type_of_madeKind? (h : madeKind? token = some Kind.text) :
    token.nesting = .stands ∧ token.type = "text" := by
  unfold madeKind? at h
  split at h
  · exact absurd rfl (kind_of_blockKind? h)
  · cases h
  · next hn =>
    refine ⟨hn, ?_⟩
    split at h
    · cases h
    · obtain hk | hk := kind_leafInfo none token
      · exact hk.symm.trans (Option.some.inj h)
      · rw [Option.some.inj h] at hk
        exact absurd hk (by decide)

end Places

abbrev Marked := Tree (Origin × Info)

namespace Marked

def tree (u : Marked) : Tree Info := u.map Prod.snd

def ofToken (i : Nat) (u : Tree Info) : Marked := u.map fun a => (.token i, a)

def originsOf (u : Marked) : List Origin := u.labels.map Prod.fst

/-- The same for trees that are given newest first. -/
def origins (ms : List Marked) : List Origin := ms.reverse.flatMap originsOf

/-- The tree may stand below a node of this origin. -/
def Under (tokens : List BlockToken) (p : Origin) (u : Marked) : Prop :=
  StandsBelow tokens p u.label.1 u.label.2.kind ∧ ∀ v ∈ u.visits, ∀ c ∈ v.node.children,
    StandsBelow tokens v.node.label.1 c.label.1 c.label.2.kind

/-- A leaf of text has all its content, and nothing else but running text of the block. -/
def Whole (tokens : List BlockToken) (p : Origin) (a : Origin × Info) : Prop :=
  ∀ i token, a.1 = .token i → tokens[i]? = some token → token.nesting = .stands →
    token.type = "text" → GoesOnIn tokens p token.content (a.2.value.getD [])

/-- The tree may stand in an open block of this origin: no text in it that can still be a task's
has lost anything. -/
structure Stands (tokens : List BlockToken) (p : Origin) (u : Marked) : Prop where
  under : Under tokens p u
  self : Whole tokens p u.label
  inside : u.label.2.kind = Kind.paragraph → ∀ c ∈ u.children, Whole tokens u.label.1 c.label

variable {tokens : List BlockToken} {p o : Origin} {i j : Info} {u : Marked} {ms ns : List Marked}

theorem tree_node (a : Origin × Info) (ms : List Marked) :
    tree (.node a ms) = .node a.2 (ms.map tree) :=
  Tree.map_node Prod.snd a ms

theorem tree_ofToken (i : Nat) (u : Tree Info) : tree (ofToken i u) = u := by
  induction u using Tree.induct with
  | h a us ih =>
    rw [ofToken, Tree.map_node, tree_node, List.map_map]
    congr 1
    exact (List.map_congr_left ih).trans (List.map_id us)

theorem origins_cons (u : Marked) (ms : List Marked) :
    origins (u :: ms) = origins ms ++ originsOf u := by
  rw [origins, List.reverse_cons, List.flatMap_append, List.flatMap_singleton]
  rfl

theorem origins_append (ms ns : List Marked) : origins (ms ++ ns) = origins ns ++ origins ms := by
  rw [origins, List.reverse_append, List.flatMap_append]
  rfl

theorem originsOf_node (a : Origin × Info) (us : List Marked) :
    originsOf (.node a us) = a.1 :: us.flatMap originsOf := by
  rw [originsOf, Tree.labels_node, List.map_cons, List.map_flatMap]
  rfl

theorem forall_below {a : Origin × Info} : (∀ v ∈ (Tree.node a ms).visits,
      ∀ c ∈ v.node.children, StandsBelow tokens v.node.label.1 c.label.1 c.label.2.kind) ↔
    ∀ u ∈ ms, Under tokens a.1 u := by
  have h : (∀ v ∈ (Tree.node a ms).visits, ∀ c ∈ v.node.children,
      StandsBelow tokens v.node.label.1 c.label.1 c.label.2.kind) ↔ _ :=
    Tree.forall_visits_node (P := fun u : Marked => ∀ c ∈ u.children,
      StandsBelow tokens u.label.1 c.label.1 c.label.2.kind)
  refine h.trans ⟨fun ⟨h, h'⟩ u hu => ⟨h u hu, h' u hu⟩, fun h => ?_⟩
  exact ⟨fun u hu => (h u hu).1, fun u hu => (h u hu).2⟩

theorem under_node : Under tokens p (.node (o, i) ms) ↔
    StandsBelow tokens p o i.kind ∧ ∀ u ∈ ms, Under tokens o u :=
  and_congr_right fun _ => forall_below

theorem under_ofToken {k : Nat} (ht : IsRunning tokens k)
    (hp : p = innermost (tokens.take k) ∨ p = .token k) (u : Tree Info) :
    Under tokens p (ofToken k u) := by
  induction u using Tree.induct generalizing p with
  | h a us ih =>
    rw [ofToken, Tree.map_node]
    refine under_node.2 ⟨.running k _ ht hp, fun u hu => ?_⟩
    obtain ⟨w, hw, rfl⟩ := List.mem_map.1 hu
    exact ih w hw (.inr rfl)

theorem whole_of_running {k : Nat} (ht : IsRunning tokens k) (i : Info) :
    Whole tokens p (.token k, i) := by
  rintro _ token ⟨⟩ htoken - htype
  obtain ⟨token', htoken', -, htype'⟩ := ht
  cases htoken.symm.trans htoken'
  rw [htype] at htype'
  exact absurd htype' (by decide)

theorem stands_ofToken {k : Nat} (ht : IsRunning tokens k)
    (hp : p = innermost (tokens.take k)) (u : Tree Info) : Stands tokens p (ofToken k u) := by
  refine ⟨under_ofToken ht (.inl hp) u, ?_, fun _ c hc => ?_⟩
  · obtain ⟨i, us⟩ := u
    rw [ofToken, Tree.map_node]
    exact whole_of_running ht i
  · obtain ⟨i, us⟩ := u
    rw [ofToken, Tree.map_node] at hc
    obtain ⟨⟨j, ws⟩, -, rfl⟩ := List.mem_map.1 hc
    rw [Tree.map_node]
    exact whole_of_running ht j

theorem eq_node_of_tree {us : List (Tree Info)} (h : tree u = .node i us) :
    ∃ o ws, u = .node (o, i) ws ∧ ws.map tree = us := by
  obtain ⟨⟨o, j⟩, ws⟩ := u
  rw [tree_node] at h
  obtain ⟨rfl, rfl⟩ := Tree.node.inj h
  exact ⟨o, ws, rfl, rfl⟩

theorem mem_originsOf_ofToken {k : Nat} {w : Tree Info} (ho : o ∈ originsOf (ofToken k w)) :
    o = .token k := by
  rw [originsOf, ofToken, Tree.labels_map, List.map_map] at ho
  obtain ⟨-, -, rfl⟩ := List.mem_map.1 ho
  rfl

theorem not_isBlock_of_under {k : Nat} {token : BlockToken} (ht : tokens[k]? = some token)
    (hn : token.nesting = .stands) (h : Under tokens (.token k) u) :
    ∀ o ∈ originsOf u, o.isBlock tokens = false := by
  induction u using Tree.induct with
  | h a us ih =>
    obtain ⟨o, i⟩ := a
    obtain ⟨hself, hbelow⟩ := under_node.1 h
    have hsame : o = .token k ∧ token.type = "inline" := by
      generalize i.kind = kind at hself
      cases hself with
      | metadata hp => cases hp
      | block j _ hk hp => exact absurd hp.symm (innermost_ne ht hn)
      | running j _ hrun hp =>
        obtain ⟨token', ht', -, hi⟩ := hrun
        obtain hp | hp := hp
        · exact absurd hp.symm (innermost_ne ht hn)
        · cases hp
          cases ht.symm.trans ht'
          exact ⟨rfl, hi⟩
    obtain ⟨rfl, hi⟩ := hsame
    rw [originsOf_node]
    refine List.forall_mem_cons.2 ⟨?_, fun o ho => ?_⟩
    · simp [Origin.isBlock, kindAt, madeKind?, ht, hn, hi]
    · obtain ⟨w, hw, ho⟩ := List.mem_flatMap.1 ho
      exact ih w hw (hbelow w hw) o ho

end Marked

end Document
end Outline
