import Outline.Proofs.Progress

/-! What can be picked from the labels of a document, in the order of its tokens. The open blocks
hold it from the outermost to the innermost one (`BlockState.picks`), and what is added to the
innermost block comes last (`BlockState.Bare.setTop`). A token brings what is picked from the block
that it makes, or from the leaves of its running text, whatever containers they are in (`Adds`,
`BlockWay.brings`). Closing a block changes nothing, nor does a task that takes away a text, as
nothing stands below a text (`Bare`) and nothing is picked from one (`IgnoresTasks`). In the end
this is what is picked from the tree (`picks_finish`). -/

namespace Outline.Document

def Bare (u : Tree Info) : Prop :=
  ∀ v ∈ u.visits, v.node.label.kind = Kind.text → v.node.children = []

structure BlockState.Bare (st : BlockState) : Prop where
  root : ∀ u ∈ st.root.children, Document.Bare u
  frames : ∀ f ∈ st.frames, ∀ u ∈ f.children, Document.Bare u
  kinds : ∀ f ∈ st.frames, f.info.kind ≠ Kind.text

section Pick

variable {γ : Type}

def picks (pick : Info → Option γ) (u : Tree Info) : List γ := u.labels.filterMap pick

def picksIn (pick : Info → Option γ) (us : List (Tree Info)) : List γ :=
  us.reverse.flatMap (picks pick)

/-- The same for all blocks so far, the open ones among them. -/
def BlockState.picks (pick : Info → Option γ) (st : BlockState) : List γ :=
  ((st.frames ++ [st.root]).map fun f => Document.picks pick f.close).reverse.flatten

/-- Nothing is picked from a text, and whether an item is a task does not matter. -/
structure IgnoresTasks (pick : Info → Option γ) : Prop where
  text : ∀ i : Info, i.kind = Kind.text → pick i = none
  checked : ∀ (i : Info) (done : Bool), pick { i with checked := some done } = pick i

/-- Running text was added to some nodes. What is picked from it has the property. -/
structure Adds (pick : Info → Option γ) (P : γ → Prop) (us ws : List (Tree Info)) : Prop where
  bare : ∀ w ∈ ws, Bare w
  picked : ∃ new, picksIn pick ws = picksIn pick us ++ new ∧ ∀ b ∈ new, P b

def Passes (pick : Info → Option γ) (i : Info) : Prop :=
  i.kind ≠ Kind.text ∧ ∀ span, pick { i with span := span } = none

/-- Running text was added to some nodes, and is added to the open containers. -/
structure InlineState.Adds (pick : Info → Option γ) (P : γ → Prop) (us : List (Tree Info))
    (st : InlineState) : Prop where
  base : Document.Adds pick P us st.base
  frames : ∀ f ∈ st.frames, Document.Adds pick P [] f.children
  containers : ∀ f ∈ st.frames, Passes pick f.info

end Pick

variable {γ : Type} {pick : Info → Option γ} {P : γ → Prop} {i : Info} {u : Tree Info}
  {us ws vs : List (Tree Info)} {st : BlockState} {f : BlockFrame}

theorem bare_node : Bare (.node i us) ↔ (i.kind = Kind.text → us = []) ∧ ∀ u ∈ us, Bare u :=
  Tree.forall_visits_node (P := fun u : Tree Info => u.label.kind = Kind.text → u.children = [])

theorem bare_leaf (i : Info) : Bare (.node i []) := bare_node.2 ⟨fun _ => rfl, nofun⟩

theorem picks_node (pick : Info → Option γ) (i : Info) (us : List (Tree Info)) :
    picks pick (.node i us) = (pick i).toList ++ us.flatMap (picks pick) := by
  rw [picks, Tree.labels_node, List.filterMap_cons, List.filterMap_flatMap]
  rcases pick i with _ | b
  · rfl
  · rfl

theorem picks_close (pick : Info → Option γ) (f : BlockFrame) :
    picks pick f.close = (pick f.info).toList ++ picksIn pick f.children :=
  picks_node pick f.info f.children.reverse

theorem picksIn_cons (pick : Info → Option γ) (u : Tree Info) (us : List (Tree Info)) :
    picksIn pick (u :: us) = picksIn pick us ++ picks pick u := by
  rw [picksIn, List.reverse_cons, List.flatMap_append, List.flatMap_singleton]
  rfl

theorem picksIn_append (pick : Info → Option γ) (us ws : List (Tree Info)) :
    picksIn pick (us ++ ws) = picksIn pick ws ++ picksIn pick us := by
  rw [picksIn, List.reverse_append, List.flatMap_append]
  rfl

theorem picks_root (pick : Info → Option γ) (hf : st.frames = []) :
    st.picks pick = picks pick st.root.close := by
  rw [BlockState.picks, hf]
  exact List.append_nil _

theorem picks_frame (pick : Info → Option γ) {fs : List BlockFrame} (hf : st.frames = f :: fs) :
    st.picks pick = BlockState.picks pick { st with frames := fs } ++ picks pick f.close := by
  rw [BlockState.picks, hf, List.cons_append, List.map_cons, List.reverse_cons,
    List.flatten_append, List.flatten_singleton]
  rfl

theorem BlockState.Bare.setTop (h : st.Bare) (htop : st.top = .ok us) :
    (∀ u ∈ us, Document.Bare u) ∧ ∀ ws, (∀ w ∈ ws, Document.Bare w) → (st.setTop ws).Bare ∧
      ∀ {γ : Type} (pick : Info → Option γ) (new : List γ),
        picksIn pick ws = picksIn pick us ++ new →
          (st.setTop ws).picks pick = st.picks pick ++ new := by
  obtain ⟨source, root, rootOpen, _ | ⟨f, rest⟩, depth⟩ := st
  · obtain rfl : root.children = us := by
      cases rootOpen
      · cases htop
      · exact Except.ok.inj htop
    refine ⟨h.root, fun ws hws => ⟨⟨hws, h.frames, h.kinds⟩, fun pick new hnew => ?_⟩⟩
    rw [picks_root pick rfl, picks_root pick rfl, picks_close, picks_close, List.append_assoc,
      ← hnew]
    rfl
  · cases htop
    obtain ⟨hf, hrest⟩ := List.forall_mem_cons.1 h.frames
    refine ⟨hf, fun ws hws => ⟨⟨h.root, List.forall_mem_cons.2 ⟨hws, hrest⟩,
      List.forall_mem_cons.2 (List.forall_mem_cons.1 h.kinds)⟩, fun pick new hnew => ?_⟩⟩
    let st : BlockState := ⟨source, root, rootOpen, f :: rest, depth⟩
    have hst : st.frames = f :: rest := rfl
    have hst' : (st.setTop ws).frames = { f with children := ws } :: rest := rfl
    rw [picks_frame pick hst, picks_frame pick hst', picks_close, picks_close, List.append_assoc,
      List.append_assoc, ← hnew]
    rfl

theorem dropText_bare {text : Info} (n : Nat) (ht : text.kind = Kind.text) :
    (∀ w ∈ dropText text n [], Bare w) ∧ ∀ {γ : Type} {pick : Info → Option γ},
      IgnoresTasks pick → (dropText text n []).flatMap (picks pick) = [] := by
  obtain ⟨hnil, -⟩ | ⟨w, hw, hwkind, -⟩ := dropText_cases text n []
  · rw [hnil]
    exact ⟨List.forall_mem_nil _, fun _ => rfl⟩
  · rw [hw]
    refine ⟨List.forall_mem_singleton.2 (bare_leaf w), fun hp => ?_⟩
    rw [List.flatMap_singleton, picks_node, hp.text w (hwkind.trans ht)]
    rfl

/-- Closing a block loses nothing that is picked: a task takes away only a text. -/
theorem closedBlock_picks (tasks : Bool) (hk : f.info.kind ≠ Kind.text)
    (h : ∀ u ∈ f.children, Bare u) : Bare (closedBlock tasks f) ∧
      ∀ {γ : Type} {pick : Info → Option γ}, IgnoresTasks pick →
        picks pick (closedBlock tasks f) = picks pick f.close := by
  have hchildren : ∀ u ∈ f.children.reverse, Bare u := fun u hu => h u (List.mem_reverse.1 hu)
  have hw := closedBlock_way tasks f
  generalize closedBlock tasks f = u at hw ⊢
  cases hw with
  | plain => exact ⟨bare_node.2 ⟨fun htext => absurd htext hk, hchildren⟩, fun _ => rfl⟩
  | task ht hitem paragraph text below others rest hf hp htext done n =>
    rw [BlockFrame.close, hf]
    rw [hf] at hchildren
    obtain ⟨hfirst, hrest⟩ := List.forall_mem_cons.1 hchildren
    obtain ⟨-, hinside⟩ := bare_node.1 hfirst
    obtain ⟨hself, hothers⟩ := List.forall_mem_cons.1 hinside
    obtain rfl : below = [] := (bare_node.1 hself).1 htext
    obtain ⟨hdrop, hnothing⟩ := dropText_bare n htext
    have hparagraph : paragraph.kind ≠ Kind.text := by
      rw [hp]
      decide
    refine ⟨bare_node.2 ⟨fun htext => absurd htext hk, List.forall_mem_cons.2 ⟨bare_node.2
      ⟨fun htext => absurd htext hparagraph, List.forall_mem_append.2 ⟨hdrop, hothers⟩⟩, hrest⟩⟩,
      fun hpick => ?_⟩
    simp only [picks_node, List.flatMap_cons, List.flatMap_append, hnothing hpick,
      hpick.text text htext, hpick.checked, List.flatMap_nil, Option.toList_none, List.nil_append]

/-- Blocks that are still open are closed around what is in them. -/
theorem picks_finish (pick : Info → Option γ) (st : BlockState) :
    picks pick st.finish = st.picks pick := by
  have hclosed : ∀ (fs : List BlockFrame) (inner : List (Tree Info)),
      picksIn pick (fs.foldl (fun inner f =>
        [BlockFrame.close { f with children := inner ++ f.children }]) inner) =
      (fs.map fun f => picks pick f.close).reverse.flatten ++ picksIn pick inner := by
    intro fs
    induction fs with
    | nil => exact fun _ => rfl
    | cons f fs ih =>
      intro inner
      rw [List.foldl_cons, ih, picksIn_cons, picks_close, picksIn_append, List.map_cons,
        List.reverse_cons, List.flatten_append, List.flatten_singleton, picks_close]
      simp only [List.append_assoc]
      rfl
  rw [BlockState.finish, picks_close, picksIn_append, hclosed, BlockState.picks,
    List.map_append, List.reverse_append, List.flatten_append, List.map_singleton,
    List.reverse_singleton, List.flatten_singleton, picks_close, List.append_assoc]
  exact congrArg (fun l => _ ++ (_ ++ l)) (List.append_nil _)

section Inline

namespace Adds

theorem refl (h : ∀ u ∈ us, Bare u) : Adds pick P us us :=
  ⟨h, [], (List.append_nil _).symm, List.forall_mem_nil _⟩

theorem cons (h : Adds pick P us ws) (hu : Bare u) (hnew : ∀ b ∈ picks pick u, P b) :
    Adds pick P us (u :: ws) where
  bare := List.forall_mem_cons.2 ⟨hu, h.bare⟩
  picked := by
    obtain ⟨new, hpicks, hfound⟩ := h.picked
    refine ⟨new ++ picks pick u, ?_, List.forall_mem_append.2 ⟨hfound, hnew⟩⟩
    rw [picksIn_cons, hpicks, List.append_assoc]

theorem append (h : Adds pick P us ws) (hnew : ∀ v ∈ vs, Bare v ∧ ∀ b ∈ picks pick v, P b) :
    Adds pick P us (vs ++ ws) := by
  induction vs with
  | nil => exact h
  | cons v vs ih =>
    obtain ⟨⟨hbare, hfound⟩, hrest⟩ := List.forall_mem_cons.1 hnew
    exact (ih hrest).cons hbare hfound

theorem push (h : Adds pick P us ws) (hi : ∀ b ∈ pick i, P b) :
    Adds pick P us (.node i [] :: ws) := by
  refine h.cons (bare_leaf i) fun b hb => hi b ?_
  rw [picks_node, List.flatMap_nil, List.append_nil, Option.mem_toList] at hb
  exact hb

theorem addText (h : Adds pick P us ws) (hpick : IgnoresTasks pick) (value : Text)
    (span : Option Span) : Adds pick P us (InlineState.addText value span ws) := by
  obtain hnew | ⟨i, w, below, rest, rfl, hjoined, hi, hw, -⟩ := addText_cases value span ws
  · rw [hnew]
    refine h.push fun b hb => ?_
    rw [hpick.text _ rfl] at hb
    cases hb
  · rw [hjoined]
    obtain ⟨hfirst, hrest⟩ := List.forall_mem_cons.1 h.bare
    have hnode := (bare_node.1 hfirst).1 hi
    have hsame : picksIn pick (.node w below :: rest) = picksIn pick (.node i below :: rest) := by
      rw [picksIn_cons, picksIn_cons, picks_node, picks_node, hpick.text i hi, hpick.text w hw]
    refine ⟨List.forall_mem_cons.2 ⟨?_, hrest⟩, hsame ▸ h.picked⟩
    exact bare_node.2 ⟨fun _ => hnode, (bare_node.1 hfirst).2⟩

theorem close (h : Adds pick P [] ws) (hi : Passes pick i) (span : Option Span) :
    Bare (.node { i with span := span } ws.reverse) ∧
      ∀ b ∈ picks pick (.node { i with span := span } ws.reverse), P b := by
  refine ⟨bare_node.2 ⟨fun htext => absurd htext hi.1, fun u hu => h.bare u
    (List.mem_reverse.1 hu)⟩, fun b hb => ?_⟩
  obtain ⟨new, hpicks, hfound⟩ := h.picked
  rw [picks_node, hi.2 span] at hb
  rw [picksIn] at hpicks
  rw [hpicks] at hb
  exact hfound b hb

end Adds

namespace InlineState.Adds

variable {st : InlineState}

theorem onTop (h : st.Adds pick P us) (f : List (Tree Info) → List (Tree Info))
    (hf : ∀ vs ws, Document.Adds pick P vs ws → Document.Adds pick P vs (f ws)) :
    (st.onTop f).Adds pick P us := by
  obtain ⟨base, _ | ⟨top, rest⟩, search⟩ := st
  · exact ⟨hf _ _ h.base, h.frames, h.containers⟩
  · obtain ⟨htop, hrest⟩ := List.forall_mem_cons.1 h.frames
    exact ⟨h.base, List.forall_mem_cons.2 ⟨hf _ _ htop, hrest⟩,
      List.forall_mem_cons.2 (List.forall_mem_cons.1 h.containers)⟩

theorem search (h : st.Adds pick P us) (c : Search) :
    InlineState.Adds pick P us { st with search := c } :=
  ⟨h.base, h.frames, h.containers⟩

theorem opens (h : st.Adds pick P us) (hi : Passes pick i) (markup : Text) :
    InlineState.Adds pick P us { st with frames := ⟨i, markup, []⟩ :: st.frames } :=
  ⟨h.base, List.forall_mem_cons.2 ⟨.refl (List.forall_mem_nil _), h.frames⟩,
    List.forall_mem_cons.2 ⟨hi, h.containers⟩⟩

theorem closes (h : st.Adds pick P us) {f : InlineFrame} {rest : List InlineFrame}
    (hf : st.frames = f :: rest) (span : Option Span) (c : Search) :
    (InlineState.onTop { st with frames := rest, search := c } (f.close span :: ·)).Adds
      pick P us := by
  have hframes := h.frames
  have hcontainers := h.containers
  rw [hf] at hframes hcontainers
  obtain ⟨hchildren, hframes⟩ := List.forall_mem_cons.1 hframes
  obtain ⟨hinfo, hcontainers⟩ := List.forall_mem_cons.1 hcontainers
  have hrest : InlineState.Adds pick P us ⟨st.base, rest, c⟩ := ⟨h.base, hframes, hcontainers⟩
  obtain ⟨hbare, hfound⟩ := hchildren.close hinfo span
  exact hrest.onTop _ fun _ _ hadds => hadds.cons hbare hfound

theorem addText (h : st.Adds pick P us) (hpick : IgnoresTasks pick) (value : Text)
    (span : Option Span) (c : Search) :
    (InlineState.onTop { st with search := c } (InlineState.addText value span)).Adds pick P us :=
  (h.search c).onTop _ fun _ _ hadds => hadds.addText hpick value span

theorem push (h : st.Adds pick P us) (hi : ∀ b ∈ pick i, P b) (c : Search) :
    (InlineState.push { st with search := c } i).Adds pick P us :=
  (h.search c).onTop _ fun _ _ hadds => hadds.push hi

theorem pass (h : st.Adds pick P us) (hi : pick i = none) (c : Search) :
    (InlineState.push { st with search := c } i).Adds pick P us := by
  refine h.push (fun b hb => ?_) c
  rw [hi] at hb
  cases hb

theorem finish (h : st.Adds pick P us) : Document.Adds pick P us st.finish := by
  refine h.base.append ?_
  refine List.foldlRecOn (motive := fun inner => ∀ v ∈ inner,
    Bare v ∧ ∀ b ∈ picks pick v, P b) st.frames _ (List.forall_mem_nil _) ?_
  intro inner hinner f hf
  have hchildren : Document.Adds pick P [] (inner ++ f.children) := (h.frames f hf).append hinner
  exact List.forall_mem_singleton.2 (hchildren.close (h.containers f hf) none)

end InlineState.Adds

end Inline

section Block

variable {tasks : Bool} {token : BlockToken} {st st' : BlockState} {x : Except Fault BlockState}

/-- What a token adds to what is picked: what is picked from the block that it makes, or from its
running text. -/
inductive Brings (pick : Info → Option γ) (P : γ → Prop) (st : BlockState) (token : BlockToken) :
    List γ → Prop
  | nothing (hn : token.nesting ≠ .stands)
    (hk : token.nesting = .opens → blockKind? token.type = none) : Brings pick P st token []
  | opened (hn : token.nesting = .opens) (kind : Kind) (hk : blockKind? token.type = some kind)
    (info : Info) (hinfo : openedInfo st token kind = .ok info) :
    Brings pick P st token (pick info).toList
  | leaf (hn : token.nesting = .stands) (ht : token.type ≠ "inline") (span : Option Span)
    (hspan : st.spanOf token.map = .ok span) :
    Brings pick P st token (pick (leafInfo span token)).toList
  | running (hn : token.nesting = .stands) (ht : token.type = "inline") (new : List γ)
    (hnew : ∀ b ∈ new, P b) : Brings pick P st token new

/-- Whatever way a token goes, what it adds to what is picked comes last, if this is known of its
running text. -/
theorem BlockWay.brings (hw : BlockWay tasks token st x) (hx : x = .ok st')
    (hpick : IgnoresTasks pick) (h : st.Bare)
    (hrunning : ∀ us ws, st.top = .ok us → (∀ u ∈ us, Bare u) →
      addInline st.source (token.map.map fun m => m.1 + (st.source.offset : Int)) us
        token.children = .ok ws → Adds pick P us ws) :
    st'.Bare ∧ ∃ new, Brings pick P st token new ∧ st'.picks pick = st.picks pick ++ new := by
  have hnone : ∀ {st' : BlockState}, token.nesting ≠ .stands →
      (token.nesting = .opens → blockKind? token.type = none) → st'.Bare →
      st'.picks pick = st.picks pick →
      st'.Bare ∧ ∃ new, Brings pick P st token new ∧ st'.picks pick = st.picks pick ++ new :=
    fun hn hk hbare hsame => ⟨hbare, [], .nothing hn hk, hsame.trans (List.append_nil _).symm⟩
  cases hw with
  | opensNone hn hk =>
    cases hx
    exact hnone (by simp [hn]) (fun _ => hk) h rfl
  | opens hn kind hk =>
    obtain ⟨info, hinfo, hx⟩ := bind_eq_ok.1 hx
    obtain ⟨us, -, rfl⟩ := map_eq_ok.1 hx
    have hkind : info.kind ≠ Kind.text := kind_openedInfo hinfo ▸ kind_of_blockKind? hk
    refine ⟨⟨h.root, List.forall_mem_cons.2 ⟨List.forall_mem_nil _, h.frames⟩,
      List.forall_mem_cons.2 ⟨hkind, h.kinds⟩⟩, _, .opened hn kind hk info hinfo, ?_⟩
    rw [picks_frame pick rfl, picks_close]
    exact congrArg (st.picks pick ++ ·) (List.append_nil _)
  | closesNone hn hk =>
    cases hx
    exact hnone (by simp [hn]) (by simp [hn]) h rfl
  | closesRoot hn hk hf =>
    split at hx
    · cases hx
      exact hnone (by simp [hn]) (by simp [hn]) ⟨h.root, h.frames, h.kinds⟩ rfl
    · cases hx
  | closes hn hk f rest hf =>
    rw [BlockState.add_eq] at hx
    obtain ⟨us, htop, rfl⟩ := map_eq_ok.1 hx
    have hframes := h.frames
    have hkinds := h.kinds
    rw [hf] at hframes hkinds
    obtain ⟨hchildren, hframes⟩ := List.forall_mem_cons.1 hframes
    obtain ⟨hkind, hkinds⟩ := List.forall_mem_cons.1 hkinds
    obtain ⟨hbare, hpicks⟩ := closedBlock_picks tasks hkind hchildren
    have hrest : ∀ depth, BlockState.Bare { st with frames := rest, quoteDepth := depth } :=
      fun _ => ⟨h.root, hframes, hkinds⟩
    obtain ⟨hus, hset⟩ := (hrest _).setTop htop
    obtain ⟨hbare', hgrows⟩ := hset _ (List.forall_mem_cons.2 ⟨hbare, hus⟩)
    refine hnone (by simp [hn]) (by simp [hn]) hbare' ?_
    refine (hgrows pick _ (picksIn_cons pick _ us)).trans ?_
    rw [hpicks hpick, picks_frame pick hf]
    rfl
  | inline hn ht =>
    obtain ⟨us, htop, hx⟩ := bind_eq_ok.1 hx
    obtain ⟨ws, hws, rfl⟩ := map_eq_ok.1 hx
    obtain ⟨hus, hset⟩ := h.setTop htop
    obtain ⟨hbare, new, hnew, hfound⟩ := hrunning us ws htop hus hws
    obtain ⟨hbare', hgrows⟩ := hset ws hbare
    exact ⟨hbare', new, .running hn ht new hfound, hgrows pick new hnew⟩
  | leaf hn ht =>
    obtain ⟨us, htop, hx⟩ := bind_eq_ok.1 hx
    obtain ⟨span, hspan, rfl⟩ := map_eq_ok.1 hx
    obtain ⟨hus, hset⟩ := h.setTop htop
    obtain ⟨hbare, hgrows⟩ := hset (.node (leafInfo span token) [] :: us)
      (List.forall_mem_cons.2 ⟨bare_leaf _, hus⟩)
    refine ⟨hbare, _, .leaf hn ht span hspan, hgrows pick _ ?_⟩
    rw [picksIn_cons, picks_node, List.flatMap_nil, List.append_nil]

end Block

theorem initial_bare {load : Loader} {settings : ReadingSettings} {t : Text}
    (h : initial load settings t = .ok st) : st.Bare := by
  obtain ⟨offset, first, rfl, -, ⟨-, rfl⟩ | ⟨-, b, data, span, rfl, -⟩⟩ := initial_cases h
  · exact ⟨List.forall_mem_nil _, List.forall_mem_nil _, List.forall_mem_nil _⟩
  · exact ⟨List.forall_mem_singleton.2 (bare_leaf _), List.forall_mem_nil _,
      List.forall_mem_nil _⟩

end Outline.Document
