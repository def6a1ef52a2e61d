import Mathlib.Data.List.Perm.Subperm
import Outline.Proofs.Origins

/-! Blocks in the order of their tokens. The open blocks are those of the opening tokens that no
closing token has ended, though blocks are closed by whatever closing token comes (`Traced`). So a
token that makes a block puts its node after all others, below the innermost open block; this is kept
by every token (`BlockWay.traced`). Nodes are lost in one place only: a task takes its text away if
the box was all of it, and a leaf can be such a text (`closedBlock_traced`). What an open item has
lost is nothing at all, so a leaf found right after item and paragraph stood first in them
(`Ledger.standsFirst`). -/

namespace Outline.Document

/-- Where block nodes come from, in the order of the tokens that make them. -/
def made (settings : ReadingSettings) (t : Text) (tokens : List BlockToken) : List Origin :=
  (.document :: if hasMetadata settings t then [.metadata] else []) ++
    (blockPlaces tokens).map .token

/-- The blocks among the nodes that were found are those that were made, in this order, except for
some that a task box took with it. -/
structure Accounted (tasks : Bool) (tokens : List BlockToken) (made found : List Origin) :
    Prop where
  order : (found.filter (Origin.isBlock tokens)).Sublist made
  lost : ∀ o ∈ made, o ∉ found.filter (Origin.isBlock tokens) →
    ∃ i, o = .token i ∧ Droppable tasks tokens found i

/-- The nodes that were found after `n` tokens, in the order of their tokens, while blocks are open
at the places `os`. What was lost was in items that are closed. -/
structure Ledger (tasks : Bool) (tokens : List BlockToken) (n : Nat) (os : List Nat)
    (made found : List Origin) : Prop where
  order : (found.filter (Origin.isBlock tokens)).Sublist made
  sorted : found.Pairwise fun a b => ∀ i j, a = .token i → b = .token j → i ≤ j
  bound : ∀ i, .token i ∈ found → i < n
  complete : ∀ i < n, (kindAt tokens i).isSome → .token i ∈ made
  lost : ∀ o ∈ made, o ∉ found.filter (Origin.isBlock tokens) → ∃ i, o = .token i ∧ i < n ∧
    tasks = true ∧ ∃ q p, q ∉ os ∧ BoxLeaf tokens q p i ∧ StandsFirst tokens found q p i

/-- Open blocks with the places of their tokens, and what is in them so far; the origins are those
of all nodes in pre-order. -/
inductive Traced (tokens : List BlockToken) (root : List (Tree Info)) :
    List Nat → List BlockFrame → List Origin → Prop
  | root (ms : List Marked) (hms : ms.map Marked.tree = root)
      (hu : ∀ u ∈ ms, Marked.Stands tokens .document u) :
    Traced tokens root [] [] (.document :: Marked.origins ms)
  | frame (i : Nat) (f : BlockFrame) (ms : List Marked) (os : List Nat) (fs : List BlockFrame)
      (order : List Origin) (hms : ms.map Marked.tree = f.children)
      (hu : ∀ u ∈ ms, Marked.Stands tokens (.token i) u) (hk : kindAt tokens i = some f.info.kind)
      (hi : Origin.ofOpen os = innermost (tokens.take i)) (h : Traced tokens root os fs order) :
    Traced tokens root (i :: os) (f :: fs) (order ++ .token i :: Marked.origins ms)

variable {load : Loader} {settings : ReadingSettings} {t : Text} {tasks : Bool}
  {tokens pre : List BlockToken} {token : BlockToken} {st st' : BlockState}
  {x : Except Fault BlockState} {os : List Nat} {order before after found : List Origin}
  {us : List (Tree Info)} {ms : List Marked} {o p : Origin}

theorem made_concat (settings : ReadingSettings) (t : Text) (pre : List BlockToken)
    (token : BlockToken) : made settings t (pre ++ [token]) = made settings t pre ++
      if (madeKind? token).isSome then [.token pre.length] else [] := by
  unfold made
  rw [blockPlaces_concat, List.map_append, List.append_assoc]
  congr 2
  split
  · rfl
  · rfl

theorem Accounted.eq (h : Accounted tasks tokens before found) (hnodup : before.Nodup)
    (hnone : ∀ i, ¬ Droppable tasks tokens found i) :
    found.filter (Origin.isBlock tokens) = before := by
  refine h.order.eq_of_length_le (List.subperm_of_subset hnodup fun o ho => ?_).length_le
  by_contra hnot
  obtain ⟨i, -, hdrop⟩ := h.lost o ho hnot
  exact hnone i hdrop

theorem BoxLeaf.lt {q p i : Nat} (h : BoxLeaf tokens q p i) : q < p ∧ p < i := by
  have hp := lt_of_mem_openPlaces (mem_openPlaces_of_innermost h.inParagraph).1
  have hq := lt_of_mem_openPlaces (mem_openPlaces_of_innermost h.inItem).1
  rw [List.length_take] at hp hq
  omega

namespace Ledger

variable {n : Nat} {os' : List Nat} {new a d b : List Origin}

theorem initial (hfound : ∀ o ∈ found, o = .document ∨ o = .metadata) (os : List Nat) :
    Ledger tasks tokens 0 os found found where
  order := List.filter_sublist
  sorted := by
    refine List.pairwise_of_forall_mem_list fun o ho _ _ i _ hi _ => ?_
    obtain rfl | rfl := hfound o ho
    · cases hi
    · cases hi
  bound := by
    intro i hi
    obtain h | h := hfound _ hi
    · cases h
    · cases h
  complete := fun i hi => absurd hi (Nat.not_lt_zero i)
  lost := by
    intro o ho hnot
    have hblock : o.isBlock tokens = true := by
      obtain rfl | rfl := hfound o ho
      · rfl
      · rfl
    exact absurd (List.mem_filter.2 ⟨ho, hblock⟩) hnot

theorem accounted (h : Ledger tasks tokens n os before found) :
    Accounted tasks tokens before found where
  order := h.order
  lost := by
    intro o ho hnot
    obtain ⟨i, hi, -, ht, q, p, -, hbox, hfirst⟩ := h.lost o ho hnot
    exact ⟨i, hi, ht, q, p, hbox, hfirst⟩

theorem append (h : Ledger tasks tokens n os before found) (hos : ∀ q ∈ os', q ∈ os ∨ q = n)
    (hnew : ∀ o ∈ new, o = .token n) (hmade : (kindAt tokens n).isSome → .token n ∈ new) :
    Ledger tasks tokens (n + 1) os' (before ++ new.filter (Origin.isBlock tokens))
      (found ++ new) where
  order := by
    rw [List.filter_append]
    exact h.order.append_right _
  sorted := by
    refine List.pairwise_append.2 ⟨h.sorted, ?_, ?_⟩
    · refine List.pairwise_of_forall_mem_list fun o ho o' ho' i j hi hj => ?_
      cases (hnew o ho).symm.trans hi
      cases (hnew o' ho').symm.trans hj
      exact Nat.le_refl _
    · rintro _ ho o' ho' i j rfl hj
      cases (hnew o' ho').symm.trans hj
      exact Nat.le_of_lt (h.bound i ho)
  bound := by
    intro i hi
    obtain hi | hi := List.mem_append.1 hi
    · exact Nat.lt_succ_of_lt (h.bound i hi)
    · cases hnew _ hi
      exact Nat.lt_succ_self _
  complete := by
    intro i hi hk
    rw [List.mem_append]
    obtain hi | rfl := Nat.lt_succ_iff_lt_or_eq.1 hi
    · exact .inl (h.complete i hi hk)
    · exact .inr (List.mem_filter.2 ⟨hmade hk, hk⟩)
  lost := by
    intro o ho hnot
    rw [List.filter_append, List.mem_append, not_or] at hnot
    obtain ho | ho := List.mem_append.1 ho
    · obtain ⟨i, hi, hlt, ht, q, p, hq, hbox, hfirst⟩ := h.lost o ho hnot.1
      have hplaces := hbox.lt
      refine ⟨i, hi, Nat.lt_succ_of_lt hlt, ht, q, p, fun hmem => ?_, hbox, fun j hj hji hjp => ?_⟩
      · obtain hmem | rfl := hos q hmem
        · exact hq hmem
        · omega
      · obtain ⟨hnone, hfound⟩ := hfirst j hj hji hjp
        refine ⟨hnone, fun hmem => ?_⟩
        obtain hmem | hmem := List.mem_append.1 hmem
        · exact hfound hmem
        · cases hnew _ hmem
          omega
    · exact absurd ho hnot.2

theorem drop (h : Ledger tasks tokens n os before (a ++ d ++ b))
    (hd : ∀ o ∈ d, o.isBlock tokens = true → ∃ i, o = .token i ∧ i < n ∧ tasks = true ∧
      ∃ q p, q ∉ os ∧ BoxLeaf tokens q p i ∧ StandsFirst tokens (a ++ d ++ b) q p i) :
    Ledger tasks tokens n os before (a ++ b) := by
  have hsub : (a ++ b).Sublist (a ++ d ++ b) := (List.sublist_append_left a d).append_right b
  refine ⟨(hsub.filter _).trans h.order, h.sorted.sublist hsub,
    fun i hi => h.bound i (hsub.subset hi), h.complete, fun o ho hnot => ?_⟩
  have hlost : ∃ i, o = .token i ∧ i < n ∧ tasks = true ∧ ∃ q p, q ∉ os ∧
      BoxLeaf tokens q p i ∧ StandsFirst tokens (a ++ d ++ b) q p i := by
    by_cases hmem : o ∈ (a ++ d ++ b).filter (Origin.isBlock tokens)
    · obtain ⟨hmem, hblock⟩ := List.mem_filter.1 hmem
      refine hd o ?_ hblock
      have hout : o ∉ a ++ b := fun hin => hnot (List.mem_filter.2 ⟨hin, hblock⟩)
      simp only [List.mem_append, not_or] at hmem hout
      tauto
    · exact h.lost o ho hmem
  obtain ⟨i, hi, hlt, ht, q, p, hq, hbox, hfirst⟩ := hlost
  refine ⟨i, hi, hlt, ht, q, p, hq, hbox, fun j hj hji hjp => ?_⟩
  obtain ⟨hnone, hfound⟩ := hfirst j hj hji hjp
  exact ⟨hnone, fun hmem => hfound (hsub.subset hmem)⟩

theorem not_mem_between {q p i j : Nat} (h : Ledger tasks tokens n os before
      (a ++ .token q :: .token p :: .token i :: b)) (hq : q < j) (hi : j < i) (hp : j ≠ p) :
    .token j ∉ a ++ .token q :: .token p :: .token i :: b := by
  intro hmem
  obtain ⟨-, hafter, hbefore⟩ := List.pairwise_append.1 h.sorted
  obtain hmem | hmem := List.mem_append.1 hmem
  · have := hbefore _ hmem _ List.mem_cons_self j q rfl rfl
    omega
  · obtain ⟨-, hafter⟩ := List.pairwise_cons.1 hafter
    obtain ⟨-, hafter⟩ := List.pairwise_cons.1 hafter
    obtain ⟨hafter, -⟩ := List.pairwise_cons.1 hafter
    simp only [List.mem_cons, Origin.token.injEq] at hmem
    obtain rfl | rfl | rfl | hmem := hmem
    · omega
    · omega
    · omega
    · have := hafter _ hmem i j rfl rfl
      omega

/-- A leaf that was found right after its paragraph, and that right after an item that is open,
stands first. -/
theorem standsFirst {q p i : Nat} (h : Ledger tasks tokens n os before
      (a ++ .token q :: .token p :: .token i :: b))
    (hos : os = openPlaces (tokens.take n)) (hq : q ∈ os) (hbox : BoxLeaf tokens q p i) :
    StandsFirst tokens (a ++ .token q :: .token p :: .token i :: b) q p i := by
  have hgap : ∀ j, q < j → j < i → j ≠ p →
      .token j ∉ a ++ .token q :: .token p :: .token i :: b :=
    fun j => h.not_mem_between
  have hi : i < n := h.bound i (by simp)
  have hlost : ∀ j, j < n → (kindAt tokens j).isSome →
      .token j ∉ a ++ .token q :: .token p :: .token i :: b →
      ∃ q' p', q' ∉ os ∧ BoxLeaf tokens q' p' j := by
    intro j hj hk hnot
    obtain ⟨_, hj, -, -, q', p', hq', hbox', -⟩ := h.lost _ (h.complete j hj hk)
      fun hmem => hnot (List.mem_filter.1 hmem).1
    cases hj
    exact ⟨q', p', hq', hbox'⟩
  refine fun j hj hji hjp => ⟨?_, hgap j hj hji hjp⟩
  by_contra hk
  obtain ⟨q', p', hq', hbox'⟩ := hlost j (by omega) (Option.isSome_iff_ne_none.2 hk)
    (hgap j hj hji hjp)
  obtain ⟨hplaces, hp'⟩ := hbox'.lt
  -- the item is open at the lost leaf, so the leaf's paragraph came after it
  have hopen : q ∈ openPlaces (tokens.take j) := by
    obtain ⟨token, htoken, -⟩ := hbox.leaf
    have hlength := (List.getElem?_eq_some_iff.1 htoken).1
    rw [hos, ← List.take_append_drop j (tokens.take n), List.take_take,
      Nat.min_eq_left (by omega)] at hq
    exact mem_openPlaces_of_append hq (by rw [List.length_take]; omega)
  have hle := (mem_openPlaces_of_innermost hbox'.inParagraph).2 q hopen
  have hne : q ≠ p' := by
    rintro rfl
    have hkinds := Option.some.inj (hbox.item.symm.trans hbox'.paragraph)
    exact absurd hkinds (by decide)
  by_cases hpp : p' = p
  · subst hpp
    cases hbox.inItem.symm.trans hbox'.inItem
    exact hq' hq
  · obtain ⟨q'', p'', -, hbox''⟩ := hlost p' (by omega) (by rw [hbox'.paragraph]; rfl)
      (hgap p' (by omega) (by omega) hpp)
    obtain ⟨token, htoken, hn, -⟩ := hbox''.leaf
    exact innermost_ne htoken hn hbox'.inParagraph

end Ledger

theorem nodup_made (settings : ReadingSettings) (t : Text) (tokens : List BlockToken) :
    (made settings t tokens).Nodup := by
  have hplaces : (blockPlaces tokens).Nodup := by
    have h : (tokens.zipIdx.map (·.2)).Nodup := by
      rw [List.zipIdx_map_snd]
      exact List.nodup_range'
    exact h.sublist (List.filter_sublist.map _)
  have htokens : ((blockPlaces tokens).map Origin.token).Nodup :=
    hplaces.map fun _ _ h => Origin.token.inj h
  unfold made
  refine List.nodup_append.2 ⟨?_, htokens, ?_⟩
  · split <;> simp
  · split <;> simp

section Task

/-- Of the text that a task box takes away, with what is below it, only the text itself can be a
block: a leaf in the paragraph of the item. -/
theorem boxLeaf_of_task {i n : Nat} {done : Bool} {paragraph text : Info} {bs ws : List Marked}
    {o o' : Origin} (hitem : kindAt tokens i = some Kind.listItem)
    (h : Marked.Stands tokens (.token i) (.node (o, paragraph) (.node (o', text) bs :: ws)))
    (hp : paragraph.kind = Kind.paragraph) (hk : text.kind = Kind.text)
    (hbox : taskBox? (text.value.getD []) = some (done, n))
    (hlength : (text.value.getD []).length ≤ n) :
    ∀ q ∈ Marked.originsOf (.node (o', text) bs), q.isBlock tokens = true →
      q = o' ∧ ∃ k j, o = .token k ∧ o' = .token j ∧ BoxLeaf tokens i k j := by
  obtain ⟨hparagraph, hchildren⟩ := Marked.under_node.1 h.under
  have hwhole := h.inside hp _ List.mem_cons_self
  have htext := hchildren _ List.mem_cons_self
  obtain ⟨hself, hbelow⟩ := Marked.under_node.1 htext
  generalize paragraph.kind = kind at hparagraph hp
  generalize text.kind = kind' at hself hk
  intro q hq hblock
  have hnone : ∀ {j : Nat} {token : BlockToken}, tokens[j]? = some token →
      token.nesting = .stands → Marked.Under tokens (.token j) (.node (o', text) bs) → False := by
    intro j token htoken hn hunder
    rw [Marked.not_isBlock_of_under htoken hn hunder q hq] at hblock
    cases hblock
  cases hparagraph with
  | metadata hroot => cases hroot
  | running k _ hrun hp' =>
    obtain ⟨token, htoken, hn, -⟩ := hrun
    exact (hnone htoken hn htext).elim
  | block k _ hkind hin =>
    rw [hp] at hkind
    cases hself with
    | metadata hroot => cases hroot
    | running j _ hrun hp' =>
      obtain ⟨token, htoken, hn, -⟩ := id hrun
      exact (hnone htoken hn (Marked.under_node.2 ⟨.running j _ hrun (.inr rfl), hbelow⟩)).elim
    | block j _ hkind' hin' =>
      rw [hk] at hkind'
      obtain ⟨token, htoken, hmade⟩ := Option.bind_eq_some_iff.1 hkind'
      obtain ⟨hn, htype⟩ := type_of_madeKind? hmade
      rw [Marked.originsOf_node] at hq
      obtain rfl | hq := List.mem_cons.1 hq
      · refine ⟨rfl, k, j, rfl, rfl, ⟨token, htoken, hn, htype, _, done, n, ?_, hbox, hlength⟩,
          hin'.symm, hkind, hin.symm, hitem⟩
        exact hwhole j token rfl htoken hn htype
      · obtain ⟨b, hb, hq⟩ := List.mem_flatMap.1 hq
        rw [Marked.not_isBlock_of_under htoken hn (hbelow b hb) q hq] at hblock
        cases hblock

theorem dropText_marked {text : Info} {bs : List Marked} {below : List (Tree Info)} {o o' : Origin}
    (hbs : bs.map Marked.tree = below) (h : Marked.Under tokens o (.node (o', text) bs)) (n : Nat) :
    ∃ left : List Marked, left.map Marked.tree = dropText text n below ∧
      (∀ v ∈ left, Marked.Under tokens o v) ∧
      (left = [] ∧ (text.value.getD []).length ≤ n ∨
        left.flatMap Marked.originsOf = Marked.originsOf (.node (o', text) bs)) := by
  obtain ⟨hnil, hlength⟩ | ⟨w, hw, hkind, -⟩ := dropText_cases text n below
  · exact ⟨[], hnil.symm, by simp, .inl ⟨rfl, hlength⟩⟩
  · obtain ⟨hself, hbelow⟩ := Marked.under_node.1 h
    refine ⟨[.node (o', w) bs], ?_, List.forall_mem_singleton.2 ?_, .inr ?_⟩
    · rw [hw, List.map_singleton, Marked.tree_node, hbs]
    · exact Marked.under_node.2 ⟨hkind ▸ hself, hbelow⟩
    · rw [List.flatMap_singleton, Marked.originsOf_node, Marked.originsOf_node]

theorem closedBlock_traced {f : BlockFrame} {i : Nat} (tasks : Bool)
    (hms : ms.map Marked.tree = f.children) (hu : ∀ u ∈ ms, Marked.Stands tokens (.token i) u)
    (hk : kindAt tokens i = some f.info.kind) (hi : p = innermost (tokens.take i))
    (hopens : ∃ token, tokens[i]? = some token ∧ opensBlock token = true) :
    ∃ u, Marked.tree u = closedBlock tasks f ∧ Marked.Stands tokens p u ∧
      ∃ a d b, .token i :: Marked.origins ms = a ++ d ++ b ∧ Marked.originsOf u = a ++ b ∧
        ∀ o ∈ d, o.isBlock tokens = true → tasks = true ∧ ∃ k j rest, o = .token j ∧
          BoxLeaf tokens i k j ∧ a ++ d ++ b = .token i :: .token k :: .token j :: rest := by
  have hchildren : ms.reverse.map Marked.tree = f.children.reverse := by
    rw [List.map_reverse, hms]
  have hstands : ∀ u ∈ ms.reverse, Marked.Stands tokens (.token i) u :=
    fun u hmem => hu u (List.mem_reverse.1 hmem)
  have hwhole : ∀ j : Info, Marked.Whole tokens p (.token i, j) := by
    rintro j _ token ⟨⟩ htoken hn -
    obtain ⟨token', htoken', hopens⟩ := hopens
    cases htoken.symm.trans htoken'
    rw [opensBlock, hn] at hopens
    cases hopens
  rw [Marked.origins]
  generalize ms.reverse = us at hchildren hstands ⊢
  have hway := closedBlock_way tasks f
  generalize closedBlock tasks f = closed at hway ⊢
  cases hway with
  | plain =>
    refine ⟨.node (.token i, f.info) us, ?_, ⟨Marked.under_node.2 ⟨.block i _ hk hi,
      fun u hmem => (hstands u hmem).under⟩, hwhole _, fun _ c hc => (hstands c hc).self⟩,
      _, [], [], ?_, (List.append_nil _).symm, by simp⟩
    · rw [Marked.tree_node, hchildren]
      rfl
    · rw [Marked.originsOf_node, List.append_nil, List.append_nil]
  | task ht hitem paragraph text below others rest hf hp hkind done n hbox =>
    rw [hf] at hchildren
    obtain ⟨u, us, rfl, hfirst, hrest⟩ := List.map_eq_cons_iff.1 hchildren
    obtain ⟨o, ws, rfl, hws⟩ := Marked.eq_node_of_tree hfirst
    obtain ⟨w, vs, rfl, hw, hvs⟩ := List.map_eq_cons_iff.1 hws
    obtain ⟨o', bs, rfl, hbs⟩ := Marked.eq_node_of_tree hw
    obtain ⟨hu1, hu2⟩ := List.forall_mem_cons.1 hstands
    obtain ⟨hparagraph, hin⟩ := Marked.under_node.1 hu1.under
    obtain ⟨htext, hothers⟩ := List.forall_mem_cons.1 hin
    obtain ⟨left, hleft, hkeeps, horigins⟩ := dropText_marked hbs htext n
    refine ⟨.node (.token i, { f.info with checked := some done })
      (.node (o, paragraph) (left ++ vs) :: us), ?_, ⟨?_, hwhole _, fun hpara => ?_⟩, ?_⟩
    · rw [Marked.tree_node, List.map_cons, Marked.tree_node, List.map_append, hleft, hvs, hrest]
    · exact Marked.under_node.2 ⟨.block i _ hk hi, List.forall_mem_cons.2
        ⟨Marked.under_node.2 ⟨hparagraph, List.forall_mem_append.2 ⟨hkeeps, hothers⟩⟩,
          fun u hmem => (hu2 u hmem).under⟩⟩
    · have hkinds : Kind.listItem = Kind.paragraph := hitem.symm.trans hpara
      exact absurd hkinds (by decide)
    · rw [Marked.originsOf_node, List.flatMap_cons, List.flatMap_cons, Marked.originsOf_node,
        Marked.originsOf_node, List.flatMap_cons, List.flatMap_append]
      obtain ⟨rfl, hlength⟩ | hsame := horigins
      · refine ⟨[.token i, o], Marked.originsOf (.node (o', text) bs),
          vs.flatMap Marked.originsOf ++ us.flatMap Marked.originsOf, ?_, rfl,
          fun q hq hblock => ?_⟩
        · simp only [List.cons_append, List.nil_append, List.append_assoc]
        · obtain ⟨rfl, k, j, rfl, rfl, hleaf⟩ :=
            boxLeaf_of_task (hitem ▸ hk) hu1 hp hkind hbox hlength q hq hblock
          refine ⟨ht, k, j, bs.flatMap Marked.originsOf ++
            (vs.flatMap Marked.originsOf ++ us.flatMap Marked.originsOf), rfl, hleaf, ?_⟩
          rw [Marked.originsOf_node, List.append_assoc]
          rfl
      · rw [hsame]
        exact ⟨_, [], [], (List.append_nil _).symm.trans (List.append_nil _).symm,
          (List.append_nil _).symm, by simp⟩

end Task

section Running

/-- Trees with running text of the token at some place: the nodes from before, the last text of
which may go on, and nodes of the token. -/
def GrowsInto (tokens : List BlockToken) (p : Origin) (i : Nat) (ms : List Marked)
    (us : List (Tree Info)) : Prop :=
  ∃ ns : List Marked, ns.map Marked.tree = us ∧ (∀ u ∈ ns, Marked.Stands tokens p u) ∧
    ∃ new, Marked.origins ns = Marked.origins ms ++ new ∧ ∀ o ∈ new, o = .token i

theorem prefix_of_addText {i w : Info} {below rest : List (Tree Info)} {value : Text}
    {span : Option Span} (hi : i.kind = Kind.text)
    (h : InlineState.addText value span (.node i below :: rest) = .node w below :: rest) :
    i.value.getD [] <+: w.value.getD [] := by
  simp only [InlineState.addText, if_pos hi] at h
  obtain ⟨rfl, -⟩ := Tree.node.inj (List.cons.inj h).1
  exact List.prefix_append _ _

namespace GrowsInto

variable {i : Nat} {ws : List (Tree Info)}

theorem refl (hms : ms.map Marked.tree = us) (hu : ∀ u ∈ ms, Marked.Stands tokens p u) :
    GrowsInto tokens p i ms us :=
  ⟨ms, hms, hu, [], (List.append_nil _).symm, by simp⟩

theorem append (h : GrowsInto tokens p i ms us) (ht : IsRunning tokens i)
    (hp : p = innermost (tokens.take i)) (ws : List (Tree Info)) :
    GrowsInto tokens p i ms (ws ++ us) := by
  obtain ⟨ns, hns, hu, new, horder, hnew⟩ := h
  refine ⟨ws.map (Marked.ofToken i) ++ ns, ?_, List.forall_mem_append.2 ⟨?_, hu⟩,
    new ++ Marked.origins (ws.map (Marked.ofToken i)), ?_, List.forall_mem_append.2 ⟨hnew, ?_⟩⟩
  · rw [List.map_append, List.map_map, hns]
    congr 1
    exact (List.map_congr_left fun w _ => Marked.tree_ofToken i w).trans (List.map_id ws)
  · rw [List.forall_mem_map]
    exact fun w _ => Marked.stands_ofToken ht hp w
  · rw [Marked.origins_append, horder, List.append_assoc]
  · intro o ho
    obtain ⟨u, hu, ho⟩ := List.mem_flatMap.1 ho
    obtain ⟨w, -, rfl⟩ := List.mem_map.1 (List.mem_reverse.1 hu)
    exact Marked.mem_originsOf_ofToken ho

theorem addText (h : GrowsInto tokens p i ms us) (ht : IsRunning tokens i)
    (hp : p = innermost (tokens.take i)) (value : Text) (span : Option Span) :
    GrowsInto tokens p i ms (InlineState.addText value span us) := by
  obtain hadd | ⟨j, w, below, rest, rfl, hadd, hj, hw, -⟩ := addText_cases value span us
  · rw [hadd]
    exact h.append ht hp [_]
  · obtain ⟨ns, hns, hu, new, horder, hnew⟩ := h
    obtain ⟨u, us, rfl, hfirst, hrest⟩ := List.map_eq_cons_iff.1 hns
    obtain ⟨o, bs, rfl, hbs⟩ := Marked.eq_node_of_tree hfirst
    obtain ⟨hfirst, hothers⟩ := List.forall_mem_cons.1 hu
    obtain ⟨hself, hbelow⟩ := Marked.under_node.1 hfirst.under
    rw [hj, ← hw] at hself
    have hwhole : Marked.Whole tokens p (o, w) := fun k token ho htoken hn htype =>
      .inr ⟨(hfirst.self k token ho htoken hn htype).isPrefix.trans (prefix_of_addText hj hadd),
        i, ht, hp.symm⟩
    have hkind : w.kind ≠ Kind.paragraph := by
      rw [hw]
      decide
    rw [hadd]
    refine ⟨.node (o, w) bs :: us, ?_, List.forall_mem_cons.2
      ⟨⟨Marked.under_node.2 ⟨hself, hbelow⟩, hwhole, fun h => absurd h hkind⟩, hothers⟩,
      new, ?_, hnew⟩
    · rw [List.map_cons, Marked.tree_node, hbs, hrest]
    · rw [← horder, Marked.origins_cons, Marked.origins_cons, Marked.originsOf_node,
        Marked.originsOf_node]

theorem onTop (h : GrowsInto tokens p i ms us) (frames : List InlineFrame) (search : Search)
    (f : List (Tree Info) → List (Tree Info))
    (hf : ∀ us, GrowsInto tokens p i ms us → GrowsInto tokens p i ms (f us)) :
    GrowsInto tokens p i ms (InlineState.onTop ⟨us, frames, search⟩ f).base := by
  rcases frames with _ | ⟨top, rest⟩
  · exact hf us h
  · exact h

theorem step {s : Source} {st st' : InlineState} {child : InlineToken}
    (h : GrowsInto tokens p i ms st.base) (ht : IsRunning tokens i)
    (hp : p = innermost (tokens.take i)) (hx : inlineStep s st child = .ok st') :
    GrowsInto tokens p i ms st'.base := by
  have hcons : ∀ w us, GrowsInto tokens p i ms us → GrowsInto tokens p i ms (w :: us) :=
    fun w us hus => hus.append ht hp [w]
  have htext : ∀ value span us, GrowsInto tokens p i ms us →
      GrowsInto tokens p i ms (InlineState.addText value span us) :=
    fun value span us hus => hus.addText ht hp value span
  have hw := inlineStep_way s child st
  rw [hx] at hw
  generalize hy : Except.ok st' = y at hw
  cases hw with
  | opens => cases hy; exact h
  | closesNone => cases hy; exact h
  | closes hn f rest hf =>
    obtain ⟨r, -, rfl⟩ := map_eq_ok.1 hy.symm
    exact h.onTop _ _ _ (hcons _)
  | emptyText => cases hy; exact h
  | text =>
    obtain ⟨r, -, rfl⟩ := map_eq_ok.1 hy.symm
    exact h.onTop _ _ _ (htext _ _)
  | softBreak => cases hy; exact h.onTop _ _ _ (htext _ _)
  | hardBreak => cases hy; exact h.onTop _ _ _ (hcons _)
  | literal =>
    obtain ⟨r, -, rfl⟩ := map_eq_ok.1 hy.symm
    exact h.onTop _ _ _ (hcons _)
  | image =>
    obtain ⟨r, -, rfl⟩ := map_eq_ok.1 hy.symm
    exact h.onTop _ _ _ (hcons _)
  | other => cases hy; exact h.onTop _ _ _ (hcons _)

theorem addInline {s : Source} {line : Option Int} {children : List InlineToken}
    (h : GrowsInto tokens p i ms us) (ht : IsRunning tokens i)
    (hp : p = innermost (tokens.take i)) (hx : addInline s line us children = .ok ws) :
    GrowsInto tokens p i ms ws := by
  obtain ⟨st, hst, hws⟩ := bind_eq_ok.1 hx
  cases hws
  have hbase : GrowsInto tokens p i ms st.base :=
    foldlM_ok (P := fun _ st => GrowsInto tokens p i ms (InlineState.base st)) hst h
      fun _ _ _ _ _ h hstep => h.step ht hp hstep
  exact hbase.append ht hp _

end GrowsInto

end Running

section Blocks

theorem Traced.top (h : Traced tokens st.root.children os st.frames order)
    (htop : st.top = .ok us) :
    ∃ ms before, ms.map Marked.tree = us ∧ (∀ u ∈ ms, Marked.Stands tokens (.ofOpen os) u) ∧
      order = before ++ Marked.origins ms ∧
      ∀ ns : List Marked, (∀ u ∈ ns, Marked.Stands tokens (.ofOpen os) u) →
        Traced tokens (st.setTop (ns.map Marked.tree)).root.children os
          (st.setTop (ns.map Marked.tree)).frames (before ++ Marked.origins ns) := by
  obtain ⟨source, ⟨info, children⟩, rootOpen, frames, depth⟩ := st
  dsimp only at h
  cases h with
  | root ms hms hu =>
    obtain rfl : children = us := by
      cases rootOpen
      · cases htop
      · exact Except.ok.inj htop
    exact ⟨ms, [.document], hms, hu, rfl, fun ns hns => .root ns rfl hns⟩
  | frame i f ms os fs order hms hu hk hi h =>
    cases htop
    refine ⟨ms, order ++ [.token i], hms, hu, ?_, fun ns hns => ?_⟩
    · rw [List.append_assoc]
      rfl
    · rw [List.append_assoc]
      exact .frame i { f with children := ns.map Marked.tree } ns os fs order rfl hns hk hi h

theorem Traced.push (h : Traced tokens st.root.children os st.frames order)
    (htop : st.top = .ok us) {u : Marked} (hu : Marked.Stands tokens (.ofOpen os) u) :
    Traced tokens (st.setTop (u.tree :: us)).root.children os (st.setTop (u.tree :: us)).frames
      (order ++ u.originsOf) := by
  obtain ⟨ms, before, rfl, hms, rfl, hset⟩ := h.top htop
  rw [List.append_assoc, ← Marked.origins_cons]
  exact hset (u :: ms) (List.forall_mem_cons.2 ⟨hu, hms⟩)

theorem value_leafInfo (span : Option Span) (ht : token.type = "text") :
    (leafInfo span token).value.getD [] = token.content := by
  unfold leafInfo
  rw [ht, if_neg (by decide), if_neg (by decide), if_neg (by decide), if_neg (by decide)]
  dsimp only
  split
  · next hempty => exact (List.isEmpty_iff.1 hempty).symm
  · rfl

theorem innermost_of_isPrefix (hp : pre ++ [token] <+: tokens) :
    innermost (tokens.take pre.length) = .ofOpen (openPlaces pre) := by
  rw [(getElem?_of_isPrefix hp).2, innermost]

/-- A token that makes a block puts its own place after all others, and another one may add places
of its running text. -/
theorem Ledger.step {new : List Origin}
    (h : Ledger tasks tokens pre.length (openPlaces pre) before order)
    (hp : pre ++ [token] <+: tokens) (hnew : ∀ o ∈ new, o = .token pre.length)
    (hmade : (madeKind? token).isSome → new = [.token pre.length]) :
    Ledger tasks tokens (pre.length + 1) (openPlaces (pre ++ [token]))
      (before ++ if (madeKind? token).isSome then [.token pre.length] else []) (order ++ new) := by
  have hkind := kindAt_of_isPrefix hp
  have hfilter : new.filter (Origin.isBlock tokens) =
      if (madeKind? token).isSome then [.token pre.length] else [] := by
    split
    · next hk =>
      rw [hmade hk, List.filter_singleton, Origin.isBlock, hkind, hk]
      rfl
    · next hk =>
      refine List.filter_eq_nil_iff.2 fun o ho => ?_
      rwa [hnew o ho, Origin.isBlock, hkind]
  rw [← hfilter]
  refine h.append (fun q hq => ?_) hnew fun hk => ?_
  · exact (mem_openPlaces_concat hq).symm.imp_right And.left
  · rw [hkind] at hk
    rw [hmade hk]
    exact List.mem_cons_self

/-- A closing token takes away what stood first in its block. -/
theorem Ledger.close {i n : Nat} {earlier a d b : List Origin}
    (h : Ledger tasks tokens n (i :: os) before (earlier ++ (a ++ d ++ b)))
    (hnext : Ledger tasks tokens (n + 1) os before (earlier ++ (a ++ d ++ b)))
    (hos : i :: os = openPlaces (tokens.take n))
    (hlost : ∀ o ∈ d, o.isBlock tokens = true → tasks = true ∧ ∃ k j rest, o = .token j ∧
      BoxLeaf tokens i k j ∧ a ++ d ++ b = .token i :: .token k :: .token j :: rest) :
    Ledger tasks tokens (n + 1) os before (earlier ++ (a ++ b)) := by
  have hclosed : i ∉ os := by
    have hsorted := openPlaces_sorted (tokens.take n)
    rw [← hos] at hsorted
    exact fun hi => Nat.lt_irrefl i (List.rel_of_pairwise_cons hsorted hi)
  have hall : earlier ++ (a ++ d ++ b) = earlier ++ a ++ d ++ b := by
    simp only [List.append_assoc]
  rw [← List.append_assoc]
  refine Ledger.drop (hall ▸ hnext) fun o ho hblock => ?_
  obtain ⟨ht, k, j, rest, rfl, hbox, hfront⟩ := hlost o ho hblock
  rw [← hall, hfront]
  rw [hfront] at h hnext
  exact ⟨j, rfl, hnext.bound j (by simp), ht, i, k, hclosed, hbox,
    h.standsFirst hos List.mem_cons_self hbox⟩

theorem BlockWay.traced (hw : BlockWay tasks token st x) (hx : x = .ok st')
    (hp : pre ++ [token] <+: tokens) (hclose : closesBlock token = true → st.frames ≠ [])
    (h : Traced tokens st.root.children (openPlaces pre) st.frames order)
    (ha : Ledger tasks tokens pre.length (openPlaces pre) before order) :
    ∃ after, Traced tokens st'.root.children (openPlaces (pre ++ [token])) st'.frames after ∧
      Ledger tasks tokens (pre ++ [token]).length (openPlaces (pre ++ [token]))
        (before ++ if (madeKind? token).isSome then [.token pre.length] else []) after := by
  have hplace := (getElem?_of_isPrefix hp).1
  have hkind := kindAt_of_isPrefix hp
  have hin := innermost_of_isPrefix hp
  have hstands : token.nesting = .stands → openPlaces (pre ++ [token]) = openPlaces pre :=
    fun hn => openPlaces_of_neither pre (by simp [opensBlock, hn]) (by simp [closesBlock, hn])
  rw [List.length_append, List.length_singleton]
  have hmade := ha.step hp (List.forall_mem_singleton.2 rfl) fun _ => rfl
  have hnothing : madeKind? token = none →
      Ledger tasks tokens (pre.length + 1) (openPlaces (pre ++ [token])) before order := by
    intro hk
    have hnext := ha.step hp (List.forall_mem_nil _) (by simp [hk])
    rwa [hk, Option.isSome_none, if_neg Bool.false_ne_true, List.append_nil,
      List.append_nil] at hnext
  cases hw with
  | opensNone hn hk =>
    cases hx
    have hk' : madeKind? token = none := by rw [madeKind?, hn, hk]
    rw [hk']
    refine ⟨order, ?_, (List.append_nil before).symm ▸ hnothing hk'⟩
    rw [openPlaces_of_neither pre (by simp [opensBlock, hk]) (by simp [closesBlock, hn])]
    exact h
  | opens hn kind hk =>
    obtain ⟨info, hinfo, htop⟩ := bind_eq_ok.1 hx
    obtain ⟨us, -, rfl⟩ := map_eq_ok.1 htop
    have hk' : madeKind? token = some kind := by rw [madeKind?, hn, hk]
    refine ⟨order ++ [.token pre.length], ?_, hmade⟩
    rw [openPlaces_of_opens pre (by simp [opensBlock, hn, hk])]
    refine .frame pre.length ⟨info, []⟩ [] _ _ order rfl (by simp) ?_ hin.symm h
    rw [hkind, hk', kind_openedInfo hinfo]
  | closesNone hn hk =>
    cases hx
    have hk' : madeKind? token = none := by rw [madeKind?, hn]
    rw [hk']
    refine ⟨order, ?_, (List.append_nil before).symm ▸ hnothing hk'⟩
    rw [openPlaces_of_neither pre (by simp [opensBlock, hn]) (by simp [closesBlock, hk])]
    exact h
  | closesRoot hn hk hf => exact absurd hf (hclose (by simp [closesBlock, hn, hk]))
  | closes hn hk f rest hf =>
    rw [BlockState.add_eq] at hx
    obtain ⟨us, htop, rfl⟩ := map_eq_ok.1 hx
    have hopens : ∀ i ∈ openPlaces pre, ∃ token, tokens[i]? = some token ∧ opensBlock token = true :=
      fun i hi => opensBlock_of_mem_openPlaces ((List.prefix_append _ _).trans hp) hi
    have hk' : madeKind? token = none := by rw [madeKind?, hn]
    have hnext := hnothing hk'
    rw [openPlaces_of_closes pre (by simp [closesBlock, hn, hk])] at hnext ⊢
    rw [hk', Option.isSome_none, if_neg Bool.false_ne_true, List.append_nil]
    rw [hf] at h
    have hos : openPlaces pre = openPlaces (tokens.take pre.length) := by
      rw [(getElem?_of_isPrefix hp).2]
    generalize openPlaces pre = os at h ha hnext hopens hos ⊢
    cases h with
    | frame i f ms os fs order hms hu hk' hi h =>
      obtain ⟨u, htree, hstanding, a, d, b, horder, hlabels, hlost⟩ :=
        closedBlock_traced tasks hms hu hk' hi (hopens i List.mem_cons_self)
      rw [horder] at ha hnext
      refine ⟨order ++ Marked.originsOf u, htree ▸ Traced.push h htop hstanding, ?_⟩
      rw [hlabels]
      exact ha.close hnext hos hlost
  | inline hn ht =>
    obtain ⟨us, htop, hx⟩ := bind_eq_ok.1 hx
    obtain ⟨ws, hws, rfl⟩ := map_eq_ok.1 hx
    obtain ⟨ms, earlier, rfl, hms, rfl, hset⟩ := h.top htop
    have hrun : IsRunning tokens pre.length := ⟨token, hplace, hn, ht⟩
    obtain ⟨ns, rfl, hns, new, horder, hnew⟩ :=
      (GrowsInto.refl rfl hms).addInline hrun hin.symm hws
    have hk : madeKind? token = none := by simp [madeKind?, hn, ht]
    refine ⟨_, hstands hn ▸ hset ns hns, ?_⟩
    rw [horder, ← List.append_assoc]
    exact ha.step hp hnew (by simp [hk])
  | leaf hn ht =>
    obtain ⟨us, htop, hx⟩ := bind_eq_ok.1 hx
    obtain ⟨span, -, rfl⟩ := map_eq_ok.1 hx
    have hk := madeKind?_of_leaf hn ht span
    refine ⟨order ++ [.token pre.length], ?_, hmade⟩
    have hunder : Marked.Under tokens (.ofOpen (openPlaces pre))
        (.node (.token pre.length, leafInfo span token) []) :=
      Marked.under_node.2 ⟨.block _ _ (hkind.trans hk) hin.symm, by simp⟩
    have hwhole : Marked.Whole tokens (.ofOpen (openPlaces pre))
        (.token pre.length, leafInfo span token) := by
      rintro _ token' ⟨⟩ htoken - htype
      cases hplace.symm.trans htoken
      exact .inl (value_leafInfo span htype)
    rw [hstands hn]
    exact Traced.push h htop ⟨hunder, hwhole, fun _ _ hc => absurd hc List.not_mem_nil⟩

/-- Closing the blocks that are still open puts no node elsewhere. -/
theorem Traced.finish {root : List (Tree Info)} {fs : List BlockFrame}
    (h : Traced tokens root os fs order) (ns : List Marked)
    (hns : ∀ u ∈ ns, Marked.Under tokens (.ofOpen os) u) :
    ∃ ms : List Marked,
      ms.map Marked.tree = fs.foldl (fun inner f =>
        [BlockFrame.close { f with children := inner ++ f.children }]) (ns.map Marked.tree) ++
          root ∧
      (∀ u ∈ ms, Marked.Under tokens .document u) ∧
      .document :: Marked.origins ms = order ++ Marked.origins ns := by
  induction h generalizing ns with
  | root ms hms hu =>
    refine ⟨ns ++ ms, ?_, List.forall_mem_append.2 ⟨hns, fun u hmem => (hu u hmem).under⟩, ?_⟩
    · rw [List.map_append, hms, List.foldl_nil]
    · rw [Marked.origins_append, List.cons_append]
  | frame i f ms os fs order hms hu hk hi h ih =>
    obtain ⟨ms', htree, hunder, horder⟩ := ih [.node (.token i, f.info) (ns ++ ms).reverse]
      (List.forall_mem_singleton.2 (Marked.under_node.2 ⟨.block i _ hk hi, fun u hmem =>
        (List.mem_append.1 (List.mem_reverse.1 hmem)).elim (hns u) fun hu' => (hu u hu').under⟩))
    refine ⟨ms', ?_, hunder, ?_⟩
    · rw [htree, List.foldl_cons, List.map_singleton, Marked.tree_node, List.map_reverse,
        List.map_append, hms]
      rfl
    · rw [horder, Marked.origins, List.reverse_singleton, List.flatMap_singleton,
        Marked.originsOf_node, ← Marked.origins, Marked.origins_append, List.append_assoc,
        List.cons_append]

end Blocks

def openQuotes (fs : List BlockFrame) : Nat := fs.countP fun f => f.info.kind == Kind.blockquote

theorem openQuotes_setTop (st : BlockState) (us : List (Tree Info)) :
    (st.setTop us).quoteDepth = st.quoteDepth ∧
      openQuotes (st.setTop us).frames = openQuotes st.frames := by
  obtain ⟨source, root, rootOpen, _ | ⟨f, rest⟩, depth⟩ := st
  · exact ⟨rfl, rfl⟩
  · refine ⟨rfl, ?_⟩
    unfold openQuotes BlockState.setTop
    rw [List.countP_cons, List.countP_cons]

theorem BlockWay.quotes (hw : BlockWay tasks token st x) (hx : x = .ok st')
    (h : st.quoteDepth = openQuotes st.frames) : st'.quoteDepth = openQuotes st'.frames := by
  cases hw with
  | opensNone hn hk =>
    cases hx
    exact h
  | opens hn kind hk =>
    obtain ⟨info, hinfo, htop⟩ := bind_eq_ok.1 hx
    obtain ⟨us, -, rfl⟩ := map_eq_ok.1 htop
    dsimp only
    rw [openQuotes, List.countP_cons, ← openQuotes, ← h, kind_openedInfo hinfo]
    split_ifs <;> simp_all
  | closesNone hn hk =>
    cases hx
    exact h
  | closesRoot hn hk hf =>
    split at hx
    · cases hx
      exact h
    · cases hx
  | closes hn hk f rest hf =>
    rw [BlockState.add_eq] at hx
    obtain ⟨us, -, rfl⟩ := map_eq_ok.1 hx
    rw [(openQuotes_setTop _ _).1, (openQuotes_setTop _ _).2]
    rw [hf, openQuotes, List.countP_cons, ← openQuotes] at h
    dsimp only
    rw [h]
    split_ifs <;> simp_all
  | inline hn ht =>
    obtain ⟨us, -, hx⟩ := bind_eq_ok.1 hx
    obtain ⟨ws, -, rfl⟩ := map_eq_ok.1 hx
    rw [(openQuotes_setTop _ _).1, (openQuotes_setTop _ _).2, h]
  | leaf hn ht =>
    obtain ⟨us, -, hx⟩ := bind_eq_ok.1 hx
    obtain ⟨span, -, rfl⟩ := map_eq_ok.1 hx
    rw [(openQuotes_setTop _ _).1, (openQuotes_setTop _ _).2, h]

/-- What holds after a beginning of balanced tokens, of the open blocks and of all nodes so far. -/
structure InStep (settings : ReadingSettings) (t : Text) (tokens pre : List BlockToken)
    (st : BlockState) : Prop where
  rootOpen : st.rootOpen = true
  count : st.frames.length + pre.countP closesBlock = pre.countP opensBlock
  quotes : st.quoteDepth = openQuotes st.frames
  traced : ∃ order, Traced tokens st.root.children (openPlaces pre) st.frames order ∧
    Ledger settings.taskItems tokens pre.length (openPlaces pre) (made settings t pre) order

theorem inStep_initial (h : initial load settings t = .ok st) (tokens : List BlockToken) :
    InStep settings t tokens [] st := by
  obtain ⟨offset, first, rfl, -, ⟨hno, rfl⟩ | ⟨hmeta, b, data, span, rfl, -⟩⟩ := initial_cases h
  · refine ⟨rfl, rfl, rfl, _, .root [] rfl (by simp), ?_⟩
    rw [made, hno]
    exact .initial (by simp [blockPlaces]) []
  · refine ⟨rfl, rfl, rfl, _, .root [.node (.metadata, (yamlNode b data span).label) []] rfl ?_, ?_⟩
    · refine List.forall_mem_singleton.2 ⟨Marked.under_node.2 ⟨.metadata rfl, by simp⟩, ?_, ?_⟩
      · rintro _ _ ⟨⟩
      · exact fun _ _ hc => absurd hc List.not_mem_nil
    · rw [made, hmeta]
      exact .initial (by simp [blockPlaces]) []

theorem InStep.step (h : InStep settings t tokens pre st) (hb : Balanced tokens)
    (hp : pre ++ [token] <+: tokens) (hx : blockStep settings.taskItems st token = .ok st') :
    InStep settings t tokens (pre ++ [token]) st' := by
  have hw := blockStep_way settings.taskItems token st
  have hclose := hb.frames_ne_nil hp h.count
  obtain ⟨hopen, hcount⟩ := hw.count hx h.rootOpen hclose
  obtain ⟨order, htraced, hledger⟩ := h.traced
  obtain ⟨after, htraced', hledger'⟩ := hw.traced hx hp hclose htraced hledger
  refine ⟨hopen, ?_, hw.quotes hx h.quotes, after, htraced', ?_⟩
  · have := h.count
    rw [List.countP_append, List.countP_append]
    omega
  · rw [made_concat]
    exact hledger'

theorem stateAfter_inStep (hb : Balanced tokens) (hp : pre <+: tokens)
    (h : stateAfter load settings t pre = .ok st) : InStep settings t tokens pre st :=
  stateAfter_ok h (fun _ hs => inStep_initial hs tokens) fun _ _ _ _ hp' hs hstep =>
    hs.step hb (hp'.trans hp) hstep

/-- Whatever balanced tokens a document is made of: after every beginning of them, the depth of
quotes is the number of open quotes, and if all blocks are closed again, none is open. In the tree,
block nodes stand in the order of the tokens that make them, each below the innermost block in front
of its token; none is missing but texts that were a task box. Other opening and closing tokens
change nothing. -/
theorem parseWith_folds {tree : Tree Info} (hb : Balanced tokens)
    (h : parseWith load settings (fun _ => tokens) t = .ok tree) :
    (∀ pre, pre <+: tokens → ∃ st, stateAfter load settings t pre = .ok st ∧ st.rootOpen = true ∧
      st.quoteDepth = openQuotes st.frames ∧
      (pre.countP opensBlock = pre.countP closesBlock → st.frames = [] ∧ st.quoteDepth = 0)) ∧
    (∃ m : Marked, m.tree = tree ∧ m.label.1 = .document ∧
      (∀ v ∈ m.visits, ∀ c ∈ v.node.children,
        StandsBelow tokens v.node.label.1 c.label.1 c.label.2.kind) ∧
      Accounted settings.taskItems tokens (made settings t tokens) m.originsOf ∧
      ((∀ i, ¬ Droppable settings.taskItems tokens m.originsOf i) →
        m.originsOf.filter (Origin.isBlock tokens) = made settings t tokens)) ∧
    ∀ token st, opensBlock token = false → closesBlock token = false → token.nesting ≠ .stands →
      blockStep settings.taskItems st token = .ok st := by
  rw [parseWith_eq] at h
  obtain ⟨final, hfinal, rfl⟩ := map_eq_ok.1 h
  refine ⟨fun pre hp => ?_, ?_, fun token st ho hc hn => ?_⟩
  · obtain ⟨st, hst⟩ := exists_stateAfter hfinal hp
    have hin := stateAfter_inStep hb hp hst
    refine ⟨st, hst, hin.rootOpen, hin.quotes, fun hcount => ?_⟩
    have hnil : st.frames = [] := by
      have := hin.count
      rw [← List.length_eq_zero_iff]
      omega
    refine ⟨hnil, ?_⟩
    rw [hin.quotes, hnil]
    rfl
  · have hin := stateAfter_inStep hb (List.prefix_refl tokens) hfinal
    obtain ⟨order, htraced, hledger⟩ := hin.traced
    obtain ⟨ms, htree, hunder, horder⟩ := htraced.finish [] (by simp)
    have horigins : Marked.originsOf (.node (.document, final.root.info) ms.reverse) = order := by
      rw [Marked.originsOf_node, ← Marked.origins, horder]
      exact List.append_nil order
    refine ⟨.node (.document, final.root.info) ms.reverse, ?_, rfl, ?_, ?_, fun hnone => ?_⟩
    · rw [Marked.tree_node, List.map_reverse, htree]
      rfl
    · exact Marked.forall_below.2 fun u hu => hunder u (List.mem_reverse.1 hu)
    · rw [horigins]
      exact hledger.accounted
    · rw [horigins] at hnone ⊢
      exact hledger.accounted.eq (nodup_made settings t tokens) hnone
  · have hw := blockStep_way settings.taskItems token st
    generalize blockStep settings.taskItems st token = x at hw ⊢
    cases hw with
    | opensNone => rfl
    | opens hn kind hk => simp [opensBlock, hn, hk] at ho
    | closesNone => rfl
    | closesRoot hn hk => simp [closesBlock, hn, hk] at hc
    | closes hn hk => simp [closesBlock, hn, hk] at hc
    | inline hn' => exact absurd hn' hn
    | leaf hn' => exact absurd hn' hn

def quoteAndTable : Text := "> - [x] a\n> ---\n\n| b |\n|---|\n| c |\n".toList

/-- All ten blocks are there, in the order of their tokens; the wrappers of the table's head and
body are none of them. -/
theorem parseWith_folds_sample :
    Balanced (Markdown.read {} quoteAndTable) ∧
    ∃ tree, parseWith Yaml.load {} (fun _ => Markdown.read {} quoteAndTable) quoteAndTable =
        .ok tree ∧
      ∃ m : Marked, m.tree = tree ∧
        m.originsOf.filter (Origin.isBlock (Markdown.read {} quoteAndTable)) =
          .document :: [0, 1, 2, 3, 8, 10, 12, 13, 19, 20].map .token := by
  have hb : Balanced (Markdown.read {} quoteAndTable) := by decide +kernel
  have hmade : made {} quoteAndTable (Markdown.read {} quoteAndTable) =
      .document :: [0, 1, 2, 3, 8, 10, 12, 13, 19, 20].map .token := by
    decide +kernel
  have hleaves : ∀ token ∈ Markdown.read {} quoteAndTable, token.type ≠ "text" := by
    decide +kernel
  have hok : (parseWith Yaml.load {} (fun _ => Markdown.read {} quoteAndTable)
      quoteAndTable).toOption.isSome = true := by
    decide +kernel
  rcases htree : parseWith Yaml.load {} (fun _ => Markdown.read {} quoteAndTable) quoteAndTable
    with e | tree
  · rw [htree] at hok
    cases hok
  · obtain ⟨-, ⟨m, hm, -, -, -, hall⟩, -⟩ := parseWith_folds hb htree
    refine ⟨hb, tree, rfl, m, hm, (hall fun i hdrop => ?_).trans hmade⟩
    obtain ⟨q, p, hbox, -⟩ := hdrop.box
    obtain ⟨token, htoken, -, htype, -⟩ := hbox.leaf
    exact hleaves token (List.mem_of_getElem? htoken) htype

def boxTokens : List BlockToken :=
  [{ type := "list_item_open", nesting := .opens },
   { type := "paragraph_open", nesting := .opens },
   { type := "text", content := "[ ]".toList },
   { type := "paragraph_close", nesting := .closes },
   { type := "list_item_close", nesting := .closes }]

/-- The leaf is taken away as a task box, so no node is left for it. -/
theorem box_leaf_lost :
    Balanced boxTokens ∧ ∃ tree, parseWith Yaml.load {} (fun _ => boxTokens) [] = .ok tree ∧
      tree.labels.map (·.kind) = [Kind.root, Kind.listItem, Kind.paragraph] ∧
      made {} [] boxTokens = [.document, .token 0, .token 1, .token 2] ∧
      ¬ ∃ m : Marked, m.tree = tree ∧
        m.originsOf.filter (Origin.isBlock boxTokens) = made {} [] boxTokens := by
  have hb : Balanced boxTokens := by decide +kernel
  have hmade : made {} [] boxTokens = [.document, .token 0, .token 1, .token 2] := by
    decide +kernel
  have hkinds : (parseWith Yaml.load {} (fun _ => boxTokens) []).toOption.map
      (fun tree => tree.labels.map (·.kind)) = some [Kind.root, Kind.listItem, Kind.paragraph] := by
    decide +kernel
  rcases htree : parseWith Yaml.load {} (fun _ => boxTokens) [] with e | tree
  · rw [htree] at hkinds
    cases hkinds
  · rw [htree] at hkinds
    have hkinds' := Option.some.inj hkinds
    refine ⟨hb, tree, rfl, hkinds', hmade, ?_⟩
    rintro ⟨m, rfl, hm⟩
    have hle : (made {} [] boxTokens).length ≤ m.originsOf.length :=
      hm ▸ List.length_filter_le _ _
    have hlength : m.labels.length = 3 := by
      simpa [Marked.tree, Tree.labels_map] using congrArg List.length hkinds'
    rw [hmade, Marked.originsOf, List.length_map, hlength] at hle
    exact absurd hle (by decide)

end Outline.Document
