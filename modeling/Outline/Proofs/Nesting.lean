import Mathlib.Data.List.Chain
import Outline.Proofs.Cut
import Outline.Proofs.Fold
import Outline.Proofs.Preorder

/-! The shape of the open scopes. From the inside outwards each scope's container is the next one,
and the last one's is the root; and what is open directly inside what obeys `Fits`: inside a
heading anything, a heading only inside a shallower one, an item inside an item only where its list
is a child of the outer one. Every way of a visit keeps this (`Step.stacked`). So along a chain of
containers the headings come first, with rising levels, and items and quotes after them
(`Nested`). -/

namespace Outline.Containment

def Deeper (a b : Node) : Prop :=
  ∃ d e, validDepth? a.label.depth = some d ∧ validDepth? b.label.depth = some e ∧ e < d

/-- What can be open directly inside what. -/
structure Fits (root inner outer : Node) : Prop where
  heading : inner.label.kind = Kind.heading → outer.label.kind = Kind.heading ∧ Deeper inner outer
  item : inner.label.kind = Kind.listItem → outer.label.kind = Kind.listItem →
    ∃ l, (⟨inner, some l⟩ : Visit Entry) ∈ root.visits ∧ l.label.kind = Kind.list ∧
      l ∈ outer.children

/-- Nested containers, the innermost first: outermost are headings whose levels rise inwards, and
inside them items and quotes. An item directly in an item comes from a list that is a child of the
outer one. -/
structure Nested (root : Node) (cs : List Node) : Prop where
  segments : ∃ inner headings, cs = inner ++ headings ∧
    (∀ c ∈ inner, c.label.kind = Kind.listItem ∨ c.label.kind = Kind.blockquote) ∧
    (∀ c ∈ headings, c.label.kind = Kind.heading) ∧ headings.Pairwise Deeper
  items : cs.IsChain fun inner outer =>
    inner.label.kind = Kind.listItem → outer.label.kind = Kind.listItem →
      ∃ l, (⟨inner, some l⟩ : Visit Entry) ∈ root.visits ∧ l.label.kind = Kind.list ∧
        l ∈ outer.children

variable {transparent : List Kind} {root m n : Node} {scopes scopes' kept : List Scope}
  {v : Visit Entry} {p? : Option Placement} {p : Placement} {ps : List Placement}
  {cs cs' : List Node} {within : Node → Node → Prop}

theorem Deeper.trans {a b c : Node} (hab : Deeper a b) (hbc : Deeper b c) : Deeper a c := by
  obtain ⟨d, e, hd, he, hlt⟩ := hab
  obtain ⟨e', f, he', hf, hlt'⟩ := hbc
  rw [he] at he'
  cases he'
  exact ⟨d, f, hd, hf, Int.lt_trans hlt' hlt⟩

/-- Around a heading there are only headings, each shallower than the ones in it. -/
theorem headings_around (hf : (n :: cs).IsChain (Fits root)) (hn : n.label.kind = Kind.heading) :
    (∀ c ∈ cs, c.label.kind = Kind.heading) ∧ (n :: cs).Pairwise Deeper := by
  induction cs generalizing n with
  | nil => exact ⟨nofun, List.pairwise_singleton _ _⟩
  | cons c cs ih =>
    obtain ⟨hnc, htail⟩ := List.isChain_cons_cons.1 hf
    obtain ⟨hc, hd⟩ := hnc.heading hn
    obtain ⟨hk, hp⟩ := ih htail hc
    refine ⟨?_, List.pairwise_cons.2 ⟨?_, hp⟩⟩
    · exact List.forall_mem_cons.2 ⟨hc, hk⟩
    · refine List.forall_mem_cons.2 ⟨hd, fun x hx => hd.trans ?_⟩
      exact (List.pairwise_cons.1 hp).1 x hx

theorem nested_of_fits (hk : ∀ c ∈ cs, c.label.kind = Kind.heading ∨
      c.label.kind = Kind.listItem ∨ c.label.kind = Kind.blockquote)
    (hf : cs.IsChain (Fits root)) : Nested root cs := by
  refine ⟨?_, hf.imp fun _ _ h => h.item⟩
  induction cs with
  | nil => exact ⟨[], [], rfl, nofun, nofun, .nil⟩
  | cons c cs ih =>
    rw [List.forall_mem_cons] at hk
    rcases hk.1 with hc | hc
    · obtain ⟨hall, hp⟩ := headings_around hf hc
      exact ⟨[], c :: cs, rfl, nofun, List.forall_mem_cons.2 ⟨hc, hall⟩, hp⟩
    · obtain ⟨inner, headings, rfl, hi, hh, hp⟩ := ih hk.2 hf.tail
      exact ⟨c :: inner, headings, rfl, List.forall_mem_cons.2 ⟨hc, hi⟩, hh, hp⟩

/-- Open scopes: all are nodes of the tree and no nested roots, each is in the next one, and the
last one is in the root. -/
structure Stacked (root : Node) (within : Node → Node → Prop) (scopes : List Scope) : Prop where
  opens : ∀ s ∈ scopes, s.Opens s.node
  mem : ∀ s ∈ scopes, s.node ∈ root.nodes
  proper : ∀ s ∈ scopes, s.role ≠ .root
  chain : (frames root scopes).IsChain within
  fits : (scopes.map (·.node)).IsChain (Fits root)

namespace Stacked

theorem nil : Stacked root within [] :=
  ⟨nofun, nofun, nofun, List.isChain_singleton _, List.isChain_nil⟩

theorem suffix (h : Stacked root within scopes) (hk : kept <:+ scopes) :
    Stacked root within kept := by
  obtain ⟨dropped, rfl⟩ := hk
  refine ⟨fun s hs => h.opens s ?_, fun s hs => h.mem s ?_, fun s hs => h.proper s ?_, ?_, ?_⟩
  · exact List.mem_append_right _ hs
  · exact List.mem_append_right _ hs
  · exact List.mem_append_right _ hs
  · have hc := h.chain
    rw [frames_append] at hc
    exact hc.right_of_append
  · have hf := h.fits
    rw [List.map_append] at hf
    exact hf.right_of_append

theorem kind {s : Scope} (h : Stacked root within scopes) (hs : s ∈ scopes) :
    s.node.label.kind = s.role.name :=
  Role.ofKind?_eq_some_iff.1 (h.opens s hs).role

theorem push {s : Scope} (h : Stacked root within kept) (hv : v.node ∈ root.nodes)
    (ho : s.Opens v.node) (hr : s.role ≠ .root) (hw : within v.node (innermost root kept))
    (hf : (v.node :: kept.map (·.node)).IsChain (Fits root)) :
    Stacked root within (s :: kept) := by
  have hn := ho.node
  refine ⟨?_, ?_, List.forall_mem_cons.2 ⟨hr, h.proper⟩, ?_, ?_⟩
  · exact List.forall_mem_cons.2 ⟨by rw [hn]; exact ho, h.opens⟩
  · exact List.forall_mem_cons.2 ⟨by rw [hn]; exact hv, h.mem⟩
  · obtain ⟨rest, hrest⟩ := frames_eq_cons root kept
    have hc := h.chain
    rw [frames_cons, hn, hrest]
    rw [hrest] at hc
    exact List.isChain_cons_cons.2 ⟨hw, hc⟩
  · rwa [List.map_cons, hn]

/-- A heading fits into the scopes that it leaves open: the innermost is a shallower heading. -/
theorem fits_heading {s : Scope} (h : Stacked root within scopes) (ho : s.Opens v.node)
    (hr : s.role = .heading) :
    (v.node :: (closeForHeading s.depth scopes).map (·.node)).IsChain (Fits root) := by
  have hk : v.node.label.kind = Kind.heading := by
    rw [Role.ofKind?_eq_some_iff.1 ho.role, hr]; rfl
  refine (h.suffix (List.dropWhile_suffix _)).fits.cons ?_
  intro y hy
  rw [List.head?_map] at hy
  obtain ⟨k, hk', rfl⟩ := Option.map_eq_some_iff.1 hy
  have hmem : k ∈ scopes := (List.dropWhile_suffix _).subset (List.mem_of_mem_head? hk')
  have hlast : k.outlasts s.depth := by
    have := List.head?_dropWhile_not (fun s' : Scope => !s'.outlasts s.depth) scopes
    rw [hk'] at this
    simpa using this
  have hkr : k.role = .heading ∧ k.depth < s.depth := by
    simpa [Scope.outlasts, h.proper k hmem] using hlast
  refine ⟨fun _ => ⟨?_, ?_⟩, fun hi => ?_⟩
  · rw [h.kind hmem, hkr.1]; rfl
  · exact ⟨s.depth, k.depth, ho.depth hr, (h.opens k hmem).depth hkr.1, hkr.2⟩
  · rw [hk] at hi; exact absurd hi (by decide)

theorem list_of_encloses {q : Node} (hu : root.Unshared) (hv : v ∈ root.visits)
    (hq : q ∈ root.nodes) (he : encloses q v.parent) :
    ∃ l, (⟨v.node, some l⟩ : Visit Entry) ∈ root.visits ∧ l.label.kind = Kind.list ∧
      l ∈ q.children := by
  obtain ⟨n, _ | l⟩ := v
  · cases he
  · simp only [encloses, Bool.and_eq_true, List.any_eq_true, beq_iff_eq] at he
    obtain ⟨hl, c, hc, -, hcl⟩ := he
    -- a child with the list's identity is the list itself, as no node is shared
    have hlist := (Node.parent_of_visit hv rfl).1
    have := hu.node_eq (Node.child_mem_nodes hq hc) hlist (Node.is_iff.1 hcl)
    exact ⟨l, hv, hl, this ▸ hc⟩

/-- An item fits into the scopes that it leaves open: if the innermost is an item, it holds the
list around the new one. -/
theorem fits_item {s : Scope} (h : Stacked root within scopes) (hu : root.Unshared)
    (hv : v ∈ root.visits) (ho : s.Opens v.node) (hr : s.role = .listItem) :
    (v.node :: (closeForItem v.parent scopes).map (·.node)).IsChain (Fits root) := by
  have hk : v.node.label.kind = Kind.listItem := by
    rw [Role.ofKind?_eq_some_iff.1 ho.role, hr]; rfl
  have hne : v.node.label.kind ≠ Kind.heading := by rw [hk]; decide
  cases scopes with
  | nil => exact List.isChain_singleton _
  | cons k rest =>
    rw [closeForItem]
    split_ifs with hc
    · exact List.isChain_singleton _
    · refine List.isChain_cons_cons.2 ⟨⟨fun hh => absurd hh hne, fun _ hki => ?_⟩, h.fits⟩
      have hrole : k.role = .listItem := by
        have := h.kind (s := k) List.mem_cons_self
        rw [hki] at this
        cases hkr : k.role <;> rw [hkr] at this <;> first | rfl | exact absurd this (by decide)
      have he : encloses k.node v.parent := by simpa [hrole] using hc
      exact list_of_encloses hu hv (h.mem k List.mem_cons_self) he

end Stacked

theorem node_mem_nodes (hv : v ∈ root.visits) : v.node ∈ root.nodes := List.mem_map_of_mem hv

theorem transparent_of_root (hr : Kind.root ∈ transparent) (hp : isPlaced transparent root v) :
    v.node.label.kind ≠ Kind.root := by
  intro hk
  have : isTransparent transparent v.node = true := by
    rw [isTransparent, hk]; simpa using hr
  simp [isPlaced, isVisible, this] at hp

theorem Stacked.fits_kept {s : Scope} (h : Stacked root within scopes)
    (hr : Kind.root ∈ transparent) (hu : root.Unshared) (hv : v ∈ root.visits)
    (hp : isPlaced transparent root v) (ho : s.Opens v.node) :
    s.role ≠ .root ∧ Stacked root within (keptUnder s v scopes) ∧
      (v.node :: (keptUnder s v scopes).map (·.node)).IsChain (Fits root) := by
  have hk := Role.ofKind?_eq_some_iff.1 ho.role
  have hroot := transparent_of_root hr hp
  refine ⟨?_, h.suffix (keptUnder_suffix s v scopes), ?_⟩
  · intro hs
    rw [hk, hs] at hroot
    exact hroot rfl
  · unfold keptUnder
    cases hs : s.role with
    | heading => exact h.fits_heading ho hs
    | listItem => exact h.fits_item hu hv ho hs
    | root => rw [hk, hs] at hroot; exact absurd rfl hroot
    | blockquote =>
      rw [hs] at hk
      refine h.fits.cons fun y _ => ⟨fun hh => ?_, fun hi => ?_⟩
      · rw [hk] at hh; exact absurd hh (by decide)
      · rw [hk] at hi; exact absurd hi (by decide)

theorem Step.stacked (hs : Step transparent root v scopes scopes' p?)
    (hr : Kind.root ∈ transparent) (hu : root.Unshared) (hv : v ∈ root.visits)
    (hw : ∀ p ∈ p?, within p.member p.container) (h : Stacked root within scopes) :
    Stacked root within scopes' := by
  cases hs with
  | hidden _ => exact h
  | reset _ => exact .nil
  | leaf _ _ => exact h
  | container hp s ho =>
    obtain ⟨hrole, hkept, hf⟩ := h.fits_kept hr hu hv hp ho
    exact hkept.push (node_mem_nodes hv) ho hrole (hw _ rfl) hf

theorem Step.placed_stacked (hs : Step transparent root v scopes scopes' (some p))
    (hr : Kind.root ∈ transparent) (hu : root.Unshared) (hv : v ∈ root.visits)
    (h : Stacked root within scopes) :
    ∃ kept, Stacked root within kept ∧ p.container = innermost root kept ∧
      (isContainer p.member.label.kind → (p.member :: kept.map (·.node)).IsChain (Fits root)) := by
  cases hs with
  | leaf _ hk =>
    refine ⟨scopes, h, rfl, fun hc => ?_⟩
    simp [isContainer, hk] at hc
  | container hp s ho =>
    obtain ⟨-, hkept, hf⟩ := h.fits_kept hr hu hv hp ho
    exact ⟨_, hkept, rfl, fun _ => hf⟩

/-- At every cut of a pass the scopes are stacked, if `within` holds of everything placed. -/
theorem stacked_scopesAfter {vs : List (Visit Entry)}
    (hs : scopesAfter transparent root scopes vs = .ok scopes') (hr : Kind.root ∈ transparent)
    (hu : root.Unshared) (hv : vs ⊆ root.visits)
    (hw : ∀ p ∈ (run transparent root scopes vs).placements, within p.member p.container)
    (h : Stacked root within scopes) : Stacked root within scopes' := by
  induction vs generalizing scopes with
  | nil => cases hs; exact h
  | cons v vs ih =>
    unfold scopesAfter at hs
    unfold run at hw
    rcases hstep : step transparent root scopes v with e | ⟨scopes₁, p?⟩
    · rw [hstep] at hs; cases hs
    · rw [hstep] at hs hw
      refine ih hs (List.cons_subset.1 hv).2 (fun p hp => hw p (List.mem_append_right _ hp)) ?_
      refine (step_ok hstep).stacked hr hu (hv List.mem_cons_self) (fun p hp => hw p ?_) h
      exact List.mem_append_left _ (Option.mem_toList.2 hp)

namespace Hierarchy

variable {t : Hierarchy} {before after : List (Visit Entry)}

def Within (t : Hierarchy) (a b : Node) : Prop := t.containers.get? a = some b

/-- The successive containers of a node up to the root, the innermost first and without the
root. -/
def Around (t : Hierarchy) (n : Node) (cs : List Node) : Prop :=
  (n :: (cs ++ [t.root])).IsChain t.Within

theorem Around.unique (htop : t.containers.get? t.root = none) (h : t.Around n cs)
    (h' : t.Around n cs') : cs' = cs := by
  -- the root is in nothing, so no chain goes on after it
  have hend : ∀ {c : Node} {rest : List Node}, (c :: (rest ++ [t.root])).IsChain t.Within →
      c ≠ t.root := by
    rintro c (_ | ⟨d, rest⟩) hc rfl
    · have := (List.isChain_cons_cons.1 hc).1
      rw [Within, htop] at this; cases this
    · have := (List.isChain_cons_cons.1 hc).1
      rw [Within, htop] at this; cases this
  induction cs generalizing n cs' with
  | nil =>
    cases cs' with
    | nil => rfl
    | cons c' cs' =>
      have hr : t.Within n t.root := (List.isChain_cons_cons.1 h).1
      obtain ⟨hc, hrest⟩ := List.isChain_cons_cons.1 h'
      exact absurd (Option.some.inj (hc.symm.trans hr)) (hend hrest)
  | cons c cs ih =>
    obtain ⟨hc, hrest⟩ := List.isChain_cons_cons.1 h
    cases cs' with
    | nil =>
      have hr : t.Within n t.root := (List.isChain_cons_cons.1 h').1
      exact absurd (Option.some.inj (hc.symm.trans hr)) (hend hrest)
    | cons c' cs' =>
      obtain ⟨hc', hrest'⟩ := List.isChain_cons_cons.1 h'
      obtain rfl : c' = c := Option.some.inj (hc'.symm.trans hc)
      rw [ih hrest hrest']

theorem within_of_mem (h : placements transparent root = .ok ps) (hu : root.Unshared)
    (hp : p ∈ ps) : (ofPlacements root ps).Within p.member p.container :=
  container_of_mem (members_distinct h hu) hp

theorem stacked_at (h : placements transparent root = .ok ps) (hr : Kind.root ∈ transparent)
    (hu : root.Unshared) (hs : scopesAfter transparent root [] before = .ok scopes)
    (hv : root.visits = before ++ after) :
    Stacked root (ofPlacements root ps).Within scopes := by
  have hrun := resolve_eq h
  unfold resolve at hrun
  rw [Tree.walk_eq_visits, hv] at hrun
  refine stacked_scopesAfter hs hr hu (by rw [hv]; exact List.subset_append_left _ _) ?_ .nil
  intro p hp
  have hpre := (placements_isPrefix transparent root [] before after).subset hp
  rw [hrun] at hpre
  exact within_of_mem h hu hpre

theorem exists_stacked (h : placements transparent root = .ok ps) (hr : Kind.root ∈ transparent)
    (hu : root.Unshared) (hp : p ∈ ps) :
    ∃ kept, Stacked root (ofPlacements root ps).Within kept ∧ p.container = innermost root kept ∧
      (isContainer p.member.label.kind → (p.member :: kept.map (·.node)).IsChain (Fits root)) := by
  have hrun := resolve_eq h
  unfold resolve at hrun
  rw [Tree.walk_eq_visits] at hrun
  have hp' : p ∈ (run transparent root [] root.visits).placements := by rw [hrun]; exact hp
  obtain ⟨before, v, after, scopes, scopes', hv, hs, hstep⟩ := exists_step_of_mem hp'
  have hmem : v ∈ root.visits := by rw [hv]; simp
  exact (step_ok hstep).placed_stacked hr hu hmem (stacked_at h hr hu hs hv)

theorem around_of_stacked (hs : Stacked root (ofPlacements root ps).Within kept)
    (hm : (ofPlacements root ps).Within m (innermost root kept)) :
    (ofPlacements root ps).Around m (kept.map (·.node)) := by
  obtain ⟨rest, hrest⟩ := frames_eq_cons root kept
  have hc := hs.chain
  unfold Around
  rw [root_ofPlacements]
  change (m :: frames root kept).IsChain _
  rw [hrest] at hc ⊢
  exact List.isChain_cons_cons.2 ⟨hm, hc⟩

theorem nested_of_stacked (hs : Stacked root within kept) : Nested root (kept.map (·.node)) := by
  refine nested_of_fits ?_ hs.fits
  intro c hc
  obtain ⟨s, hs', rfl⟩ := List.mem_map.1 hc
  rw [hs.kind hs']
  cases hr : s.role with
  | root => exact absurd hr (hs.proper s hs')
  | heading => exact .inl rfl
  | listItem => exact .inr (.inl rfl)
  | blockquote => exact .inr (.inr rfl)

/-- The containers around a placed node are nested, and around a heading there are only shallower
headings. At every visit of the pass the open scopes are such a chain of containers, up to the
root. -/
theorem scopes_nested {t : Hierarchy} (hr : Kind.root ∈ transparent) (hu : root.Unshared)
    (hb : build transparent root = .ok t) :
    (∀ m ∈ placed transparent root root.visits, ∃ cs, t.Around m cs ∧
      (∀ cs', t.Around m cs' → cs' = cs) ∧ Nested root cs ∧
      (m.label.kind = Kind.heading → ∀ c ∈ cs, c.label.kind = Kind.heading ∧ Deeper m c)) ∧
    ∀ before after, root.visits = before ++ after →
      ∃ scopes, scopesAfter transparent root [] before = .ok scopes ∧
        (resolve transparent root).placements = (run transparent root [] before).placements ++
          (run transparent root scopes after).placements ∧
        (scopes.map (·.node) ++ [root]).IsChain t.Within ∧ Nested root (scopes.map (·.node)) := by
  obtain ⟨ps, h, rfl⟩ := build_ok hb
  refine ⟨fun m hm => ?_, fun before after hv => ?_⟩
  · rw [← members_eq_placed h] at hm
    obtain ⟨p, hp, rfl⟩ := List.mem_map.1 hm
    obtain ⟨kept, hs, hc, hf⟩ := exists_stacked h hr hu hp
    have ha := around_of_stacked hs (hc ▸ within_of_mem h hu hp)
    refine ⟨_, ha, fun cs' => ha.unique (consistent h hu).top, nested_of_stacked hs, ?_⟩
    intro hk c hcs
    have hcont : isContainer p.member.label.kind := by rw [hk]; rfl
    obtain ⟨hall, hd⟩ := headings_around (hf hcont) hk
    exact ⟨hall c hcs, (List.pairwise_cons.1 hd).1 c hcs⟩
  · have hrun : run transparent root [] (before ++ after) = ⟨ps, none⟩ := by
      have := resolve_eq h
      rwa [resolve, Tree.walk_eq_visits, hv] at this
    obtain ⟨scopes, hs, -⟩ := scopesAfter_of_run (congrArg Trace.violation hrun)
    have hst := stacked_at h hr hu hs hv
    refine ⟨scopes, hs, ?_, hst.chain, nested_of_stacked hst⟩
    rw [resolve_eq h, ← hrun, run_append, hs]

theorem scopes_nested_sample :
    Kind.root ∈ [Kind.root, Kind.list, Kind.text] ∧ Node.sample.Unshared ∧
    ∃ t m cs scopes, build [Kind.root, Kind.list, Kind.text] Node.sample = .ok t ∧
      m ∈ placed [Kind.root, Kind.list, Kind.text] Node.sample Node.sample.visits ∧
      t.Around m cs ∧ Nested Node.sample cs ∧
      (m.label.id, cs.map (·.label.id)) = (8, [7, 4, 1]) ∧
      scopesAfter [Kind.root, Kind.list, Kind.text] Node.sample []
        (Node.sample.visits.take 10) = .ok scopes ∧
      (scopes.map (·.node) ++ [Node.sample]).IsChain t.Within ∧
      Nested Node.sample (scopes.map (·.node)) ∧
      scopes.map (·.node.label.id) = [9, 8, 7, 4, 1] := by
  have hr : Kind.root ∈ [Kind.root, Kind.list, Kind.text] := by decide
  have hu : Node.sample.Unshared := by decide
  obtain ⟨t, hb⟩ : ∃ t, build [Kind.root, Kind.list, Kind.text] Node.sample = .ok t := ⟨_, rfl⟩
  obtain ⟨hplaced, hcut⟩ := scopes_nested hr hu hb
  obtain ⟨m, hm⟩ : ∃ m,
      (placed [Kind.root, Kind.list, Kind.text] Node.sample Node.sample.visits)[4]? = some m :=
    ⟨_, rfl⟩
  obtain ⟨cs, ha, hunique, hn, -⟩ := hplaced m (List.mem_of_getElem? hm)
  obtain ⟨scopes, hs, -, hc, hns⟩ := hcut (Node.sample.visits.take 10) _
    (List.take_append_drop 10 _).symm
  refine ⟨hr, hu, t, m, cs, scopes, hb, List.mem_of_getElem? hm, ha, hn, ?_, hs, hc, hns, ?_⟩
  · obtain ⟨cs', ha', hids⟩ : ∃ cs', t.Around m cs' ∧
        (m.label.id, cs'.map (·.label.id)) = (8, [7, 4, 1]) := by
      cases hb
      cases hm
      exact ⟨[_, _, _], .cons_cons rfl (.cons_cons rfl (.cons_cons rfl
        (.cons_cons rfl (.singleton _)))), rfl⟩
    rw [← hunique cs' ha', hids]
  · cases hs
    rfl

end Hierarchy
end Outline.Containment
