import Mathlib.Data.List.Chain
import Outline.Proofs.Progress
import Outline.Proofs.Strand

/-! Running text is kept whole. A piece of text joins the text before it, whatever containers were
opened and closed in between, so no two texts stand side by side and none is empty (`Joined`), and
nothing of what the tokens say is lost, doubled or moved: the lists of nodes in the open containers,
outermost first, say it in the order of the tokens (`told`). Both are kept by every token of running
text (`InlineWay.tidy`), and from there by every block token (`BlockWay.tidy`). -/

namespace Outline

def Info.words (i : Info) : Text := if i.kind = Kind.text then i.value.getD [] else []

namespace Tree

variable {α : Type}

theorem map_snd_numberFrom (n : Nat) (u : Tree α) : (numberFrom n u).1.map Prod.snd = u := by
  induction u using induct generalizing n with
  | h a us ih =>
    have hall : ∀ (ws : List (Tree α)) (n : Nat), (∀ w ∈ ws, w ∈ us) →
        (numberAll n ws).1.map (map Prod.snd) = ws := by
      intro ws
      induction ws with
      | nil => exact fun _ _ => rfl
      | cons w ws ihws =>
        intro n hmem
        obtain ⟨hw, hws⟩ := List.forall_mem_cons.1 hmem
        rw [numberAll, List.map_cons, ih w hw, ihws _ hws]
    rw [numberFrom, map_node, hall us (n + 1) fun _ hw => hw]

theorem map_snd_number (u : Tree α) : u.number.map Prod.snd = u := map_snd_numberFrom 0 u

end Tree

def wordsOf (u : Tree Info) : Text := u.labels.flatMap Info.words

theorem Node.textContent_eq (n : Node) : n.textContent = n.labels.flatMap (·.toInfo.words) := by
  rw [Node.textContent, Tree.walk_eq_visits, Tree.labels, List.flatMap_map]
  induction n.visits with
  | nil => rfl
  | cons v vs ih =>
    rw [List.filter_cons, List.flatMap_cons, ← ih, Info.words]
    by_cases hv : v.node.label.kind = Kind.text
    · rw [if_pos hv, if_pos (beq_iff_eq.2 hv), List.flatMap_cons]
    · rw [if_neg hv, if_neg fun h => hv (beq_iff_eq.1 h)]
      rfl

theorem textContent_ofTree (u : Tree Info) : (Node.ofTree u).textContent = wordsOf u := by
  have hlabels : u.number.labels.map Prod.snd = u.labels := by
    rw [← Tree.labels_map, Tree.map_snd_number]
  rw [Node.textContent_eq, Node.ofTree, Tree.labels_map, List.flatMap_map, wordsOf, ← hlabels,
    List.flatMap_map]

namespace Document

/-- No two neighbours are both texts. -/
def Parted (us : List (Tree Info)) : Prop :=
  us.IsChain fun a b => ¬ (a.label.kind = Kind.text ∧ b.label.kind = Kind.text)

/-- No two texts stand side by side below a node, and a text says something and is a leaf. -/
def TidyNode (u : Tree Info) : Prop :=
  Parted u.children ∧ (u.label.kind = Kind.text → u.label.value.getD [] ≠ [] ∧ u.children = [])

def Tidy (u : Tree Info) : Prop := ∀ v ∈ u.visits, TidyNode v.node

/-- Children that may stand together, in either order. -/
structure Joined (us : List (Tree Info)) : Prop where
  parted : Parted us
  tidy : ∀ u ∈ us, Tidy u

def words (us : List (Tree Info)) : Text := us.reverse.flatMap wordsOf

/-- What the nodes in open containers say, innermost container and newest node first. -/
def told (levels : List (List (Tree Info))) : Text := (levels.map words).reverse.flatten

def spoken (token : InlineToken) : Text :=
  if token.type = "text" then token.content
  else if token.type = "softbreak" then ['\n']
  else []

def said (token : BlockToken) : Text :=
  if token.nesting = .stands ∧ token.type = "inline" then token.children.flatMap spoken else []

def BlockState.block (st : BlockState) : Tree Info := (st.frames.head?.getD st.root).close

variable {us ws : List (Tree Info)} {u : Tree Info} {i : Info} {value : Text} {span : Option Span}

theorem wordsOf_node (i : Info) (us : List (Tree Info)) :
    wordsOf (.node i us) = i.words ++ us.flatMap wordsOf := by
  rw [wordsOf, Tree.labels_node, List.flatMap_cons, List.flatMap_assoc]
  rfl

theorem wordsOf_container (hi : i.kind ≠ Kind.text) (us : List (Tree Info)) :
    wordsOf (.node i us.reverse) = words us := by
  rw [wordsOf_node, Info.words, if_neg hi]
  rfl

theorem words_cons (u : Tree Info) (us : List (Tree Info)) :
    words (u :: us) = words us ++ wordsOf u := by
  rw [words, List.reverse_cons, List.flatMap_append, List.flatMap_singleton]
  rfl

theorem words_append (us ws : List (Tree Info)) : words (us ++ ws) = words ws ++ words us := by
  rw [words, List.reverse_append, List.flatMap_append]
  rfl

theorem told_cons (us : List (Tree Info)) (ls : List (List (Tree Info))) :
    told (us :: ls) = told ls ++ words us := by
  rw [told, List.map_cons, List.reverse_cons, List.flatten_append, List.flatten_singleton]
  rfl

theorem told_concat (ls : List (List (Tree Info))) (us : List (Tree Info)) :
    told (ls ++ [us]) = words us ++ told ls := by
  rw [told, List.map_append, List.reverse_append, List.flatten_append, List.map_singleton,
    List.reverse_singleton, List.flatten_singleton]
  rfl

theorem parted_cons : Parted (u :: us) ↔
    (∀ w ∈ us.head?, ¬ (u.label.kind = Kind.text ∧ w.label.kind = Kind.text)) ∧ Parted us :=
  List.isChain_cons

theorem Parted.reverse (h : Parted us) : Parted us.reverse :=
  List.isChain_reverse.2 (h.imp fun _ _ hab hba => hab hba.symm)

theorem tidy_node : Tidy (.node i us) ↔ TidyNode (.node i us) ∧ ∀ u ∈ us, Tidy u :=
  Tree.forall_visits_node

namespace Joined

theorem nil : Joined [] := ⟨.nil, nofun⟩

theorem reverse (h : Joined us) : Joined us.reverse :=
  ⟨h.parted.reverse, fun u hu => h.tidy u (List.mem_reverse.1 hu)⟩

theorem cons (h : Joined us) (hk : u.label.kind ≠ Kind.text) (hu : Tidy u) : Joined (u :: us) :=
  ⟨parted_cons.2 ⟨fun _ _ hboth => hk hboth.1, h.parted⟩, List.forall_mem_cons.2 ⟨hu, h.tidy⟩⟩

theorem append (h : Joined us) (hws : ∀ w ∈ ws, w.label.kind ≠ Kind.text ∧ Tidy w) :
    Joined (ws ++ us) := by
  induction ws with
  | nil => exact h
  | cons w ws ih =>
    obtain ⟨⟨hk, hw⟩, hws⟩ := List.forall_mem_cons.1 hws
    exact (ih hws).cons hk hw

theorem node (h : Joined us) (hi : i.kind ≠ Kind.text) : Tidy (.node i us) :=
  tidy_node.2 ⟨⟨h.parted, fun hk => absurd hk hi⟩, h.tidy⟩

theorem push (h : Joined us) (hi : i.kind ≠ Kind.text) :
    Joined (.node i [] :: us) ∧ words (.node i [] :: us) = words us ++ [] := by
  refine ⟨h.cons hi (nil.node hi), ?_⟩
  rw [words_cons, wordsOf_node, Info.words, if_neg hi]
  rfl

theorem addText (h : Joined us) (hvalue : value ≠ []) :
    Joined (InlineState.addText value span us) ∧
      words (InlineState.addText value span us) = words us ++ value := by
  have htext : TidyNode (.node { kind := Kind.text, value := some value, span := span } []) :=
    ⟨.nil, fun _ => ⟨hvalue, rfl⟩⟩
  rcases us with _ | ⟨⟨i, below⟩, rest⟩
  · refine ⟨⟨.singleton _, List.forall_mem_singleton.2 (tidy_node.2 ⟨htext, nofun⟩)⟩, ?_⟩
    rw [InlineState.addText, words_cons, wordsOf_node]
    exact congrArg _ (List.append_nil value)
  by_cases hi : i.kind = Kind.text
  · obtain ⟨hfirst, hrest⟩ := List.forall_mem_cons.1 h.tidy
    obtain ⟨hother, hparted⟩ := parted_cons.1 h.parted
    obtain ⟨-, hleaf⟩ := (tidy_node.1 hfirst).1
    obtain ⟨-, rfl⟩ : _ ∧ below = [] := hleaf hi
    simp only [InlineState.addText, if_pos hi]
    refine ⟨⟨parted_cons.2 ⟨hother, hparted⟩, List.forall_mem_cons.2 ⟨tidy_node.2
      ⟨⟨.nil, fun _ => ⟨?_, rfl⟩⟩, nofun⟩, hrest⟩⟩, ?_⟩
    · exact fun hnil => hvalue (List.append_eq_nil_iff.1 hnil).2
    · rw [words_cons, words_cons, wordsOf_node, wordsOf_node, Info.words, Info.words, if_pos hi,
        if_pos hi, List.append_assoc, List.flatMap_nil, List.append_nil, List.append_nil]
      rfl
  · simp only [InlineState.addText, if_neg hi]
    refine ⟨⟨parted_cons.2 ⟨?_, h.parted⟩,
      List.forall_mem_cons.2 ⟨tidy_node.2 ⟨htext, nofun⟩, h.tidy⟩⟩, ?_⟩
    · rintro _ ⟨⟩ ⟨-, hk⟩
      exact hi hk
    · rw [words_cons, wordsOf_node]
      exact congrArg _ (List.append_nil value)

end Joined

/-- Open containers, innermost first, closed around what comes last. -/
theorem joined_closeAll {φ : Type} (info : φ → Info) (children : φ → List (Tree Info))
    (fs : List φ) (hk : ∀ f ∈ fs, (info f).kind ≠ Kind.text) (hj : ∀ f ∈ fs, Joined (children f))
    (inner : List (Tree Info)) (hinner : ∀ u ∈ inner, u.label.kind ≠ Kind.text ∧ Tidy u) :
    (∀ u ∈ fs.foldl (fun inner f => [.node (info f) (inner ++ children f).reverse]) inner,
      u.label.kind ≠ Kind.text ∧ Tidy u) ∧
    words (fs.foldl (fun inner f => [.node (info f) (inner ++ children f).reverse]) inner) =
      told (fs.map children) ++ words inner := by
  induction fs generalizing inner with
  | nil => exact ⟨hinner, rfl⟩
  | cons f fs ih =>
    obtain ⟨hkf, hk⟩ := List.forall_mem_cons.1 hk
    obtain ⟨hjf, hj⟩ := List.forall_mem_cons.1 hj
    obtain ⟨htidy, hwords⟩ := ih hk hj [.node (info f) (inner ++ children f).reverse]
      (List.forall_mem_singleton.2 ⟨hkf, (hjf.append hinner).reverse.node hkf⟩)
    refine ⟨htidy, ?_⟩
    rw [List.foldl_cons, hwords, List.map_cons, told_cons, words_cons, wordsOf_container hkf,
      words_append, List.append_assoc]
    rfl

section Inline

def InlineState.levels (st : InlineState) : List (List (Tree Info)) :=
  st.frames.map (·.children) ++ [st.base]

structure InlineState.Tidy (st : InlineState) : Prop where
  levels : ∀ us ∈ st.levels, Joined us
  kinds : ∀ f ∈ st.frames, f.info.kind ≠ Kind.text

variable {s : Source} {token : InlineToken} {st st' : InlineState} {x : Except Fault InlineState}

theorem InlineState.tidy_start (hus : Joined us) (c : Search) :
    InlineState.Tidy ⟨us, [], c⟩ ∧ told (InlineState.levels ⟨us, [], c⟩) = words us := by
  refine ⟨⟨List.forall_mem_singleton.2 hus, by simp⟩, ?_⟩
  exact told_cons us []

/-- What comes next goes to the innermost container. -/
theorem InlineState.Tidy.onTop (h : st.Tidy) (f : List (Tree Info) → List (Tree Info)) (w : Text)
    (hf : ∀ us, Joined us → Joined (f us) ∧ words (f us) = words us ++ w) :
    (st.onTop f).Tidy ∧ told (st.onTop f).levels = told st.levels ++ w := by
  obtain ⟨base, _ | ⟨top, rest⟩, search⟩ := st
  · obtain ⟨hj, hw⟩ := hf base (h.levels base List.mem_cons_self)
    refine ⟨⟨List.forall_mem_singleton.2 hj, h.kinds⟩, ?_⟩
    change told [f base] = told [base] ++ w
    rw [told_cons, told_cons, hw, List.append_assoc]
  · obtain ⟨hj, hw⟩ := hf top.children (h.levels _ List.mem_cons_self)
    obtain ⟨-, hrest⟩ := List.forall_mem_cons.1 h.levels
    refine ⟨⟨List.forall_mem_cons.2 ⟨hj, hrest⟩, List.forall_mem_cons.2
      (List.forall_mem_cons.1 h.kinds)⟩, ?_⟩
    change told (f top.children :: (rest.map (·.children) ++ [base])) =
      told (top.children :: (rest.map (·.children) ++ [base])) ++ w
    rw [told_cons, told_cons, hw, List.append_assoc]

theorem InlineState.Tidy.push (h : st.Tidy) (hi : i.kind ≠ Kind.text) :
    (st.push i).Tidy ∧ told (st.push i).levels = told st.levels ++ [] :=
  h.onTop (.node i [] :: ·) [] fun _ hus => hus.push hi

theorem spoken_of_ne (ht : token.type ≠ "text") (hs : token.type ≠ "softbreak") :
    spoken token = [] := by
  rw [spoken, if_neg ht, if_neg hs]

theorem spoken_of_closes (hn : token.nesting = .closes)
    (h : token.type = "text" ∨ token.type = "softbreak" → token.nesting = .stands) :
    spoken token = [] := by
  have hnone : ¬ (token.type = "text" ∨ token.type = "softbreak") := by
    intro htype
    cases hn.symm.trans (h htype)
  exact spoken_of_ne (fun ht => hnone (.inl ht)) fun hs => hnone (.inr hs)

/-- Whatever way a token of running text goes, all children stay joined, and it is told at the
end. -/
theorem InlineWay.tidy (hw : InlineWay s token st x) (hx : x = .ok st') (h : st.Tidy) :
    st'.Tidy ∧
      ((token.type = "text" ∨ token.type = "softbreak" → token.nesting = .stands) →
        told st'.levels = told st.levels ++ spoken token) := by
  have hsearch : ∀ c : Search, InlineState.Tidy { st with search := c } :=
    fun c => ⟨h.levels, h.kinds⟩
  cases hw with
  | opens kind hk =>
    cases hx
    refine ⟨⟨List.forall_mem_cons.2 ⟨.nil, h.levels⟩, List.forall_mem_cons.2 ⟨?_, h.kinds⟩⟩,
      fun _ => ?_⟩
    · rw [kind_openedInline]
      exact (kind_of_inlineKind? hk).1
    · have ht : token.type ≠ "text" := by
        intro ht
        rw [ht] at hk
        cases hk
      have hs : token.type ≠ "softbreak" := by
        intro hs
        rw [hs] at hk
        cases hk
      rw [spoken_of_ne ht hs]
      exact told_cons [] st.levels
  | closesNone hn hf =>
    cases hx
    refine ⟨h, fun htype => ?_⟩
    rw [spoken_of_closes hn htype, List.append_nil]
  | closes hn f rest hf =>
    obtain ⟨r, -, rfl⟩ := map_eq_ok.1 hx
    have hkinds := h.kinds
    have hlevels := h.levels
    rw [hf] at hkinds
    rw [InlineState.levels, hf] at hlevels
    obtain ⟨hkind, hkinds⟩ := List.forall_mem_cons.1 hkinds
    obtain ⟨hj, hlevels⟩ := List.forall_mem_cons.1 hlevels
    have hrest : InlineState.Tidy ⟨st.base, rest, r.2⟩ := ⟨hlevels, hkinds⟩
    have hclosed : ∀ us, Joined us →
        Joined (f.close r.1 :: us) ∧ words (f.close r.1 :: us) = words us ++ words f.children := by
      intro us hus
      refine ⟨hus.cons hkind (hj.reverse.node hkind), ?_⟩
      have hwords : wordsOf (f.close r.1) = words f.children :=
        wordsOf_container (i := { f.info with span := r.1 }) hkind f.children
      rw [words_cons, hwords]
    obtain ⟨htidy, htold⟩ := hrest.onTop _ _ hclosed
    refine ⟨htidy, fun htype => htold.trans ?_⟩
    rw [spoken_of_closes hn htype, List.append_nil, InlineState.levels, InlineState.levels, hf,
      List.map_cons, List.cons_append, told_cons]
  | emptyText ht hc =>
    cases hx
    refine ⟨h, fun _ => ?_⟩
    rw [spoken, if_pos ht, hc, List.append_nil]
  | text ht hc =>
    obtain ⟨r, -, rfl⟩ := map_eq_ok.1 hx
    rw [spoken, if_pos ht]
    exact ((hsearch r.2).onTop _ _ fun us hus => hus.addText hc).imp_right fun h _ => h
  | softBreak ht =>
    cases hx
    have hs : spoken token = ['\n'] := by simp [spoken, ht]
    rw [hs]
    exact ((hsearch _).onTop _ _ fun us hus => hus.addText (by simp)).imp_right fun h _ => h
  | hardBreak ht =>
    cases hx
    rw [spoken_of_ne (by simp [ht]) (by simp [ht])]
    exact ((hsearch _).push (by decide)).imp_right fun h _ => h
  | literal kind ht =>
    obtain ⟨r, -, rfl⟩ := map_eq_ok.1 hx
    have hkind : kind ≠ Kind.text ∧ token.type ≠ "text" ∧ token.type ≠ "softbreak" := by
      obtain ⟨ht, rfl⟩ | ⟨ht, rfl⟩ := ht
      · rw [ht]
        decide
      · rw [ht]
        decide
    rw [spoken_of_ne hkind.2.1 hkind.2.2]
    exact ((hsearch r.2).push hkind.1).imp_right fun h _ => h
  | image ht =>
    obtain ⟨r, -, rfl⟩ := map_eq_ok.1 hx
    rw [spoken_of_ne (by simp [ht]) (by simp [ht])]
    have himage : Kind.image ≠ Kind.text := by decide
    exact ((hsearch r.2).push himage).imp_right fun h _ => h
  | other ht =>
    cases hx
    obtain ⟨htext, hsoft⟩ : token.type ≠ "text" ∧ token.type ≠ "softbreak" := by
      simp only [List.mem_cons, not_or] at ht
      exact ⟨ht.1, ht.2.1⟩
    rw [spoken_of_ne htext hsoft]
    exact (h.push htext).imp_right fun h _ => h

theorem addInline_joined {line : Option Int} {tokens : List InlineToken} (hus : Joined us)
    (h : addInline s line us tokens = .ok ws) :
    Joined ws ∧
      ((∀ token ∈ tokens, token.type = "text" ∨ token.type = "softbreak" →
        token.nesting = .stands) → words ws = words us ++ tokens.flatMap spoken) := by
  obtain ⟨st, hst, hws⟩ := bind_eq_ok.1 h
  cases hws
  have hrun : st.Tidy ∧ ((∀ token ∈ tokens, token.type = "text" ∨ token.type = "softbreak" →
      token.nesting = .stands) → told st.levels = words us ++ tokens.flatMap spoken) := by
    refine foldlM_ok (P := fun pre st => InlineState.Tidy st ∧
      ((∀ token ∈ tokens, token.type = "text" ∨ token.type = "softbreak" →
        token.nesting = .stands) → told st.levels = words us ++ pre.flatMap spoken)) hst ?_ ?_
    · obtain ⟨htidy, htold⟩ := InlineState.tidy_start hus ⟨line, 0⟩
      exact ⟨htidy, fun _ => htold.trans (List.append_nil _).symm⟩
    · rintro pre token st st' hp ⟨htidy, htold⟩ hstep
      obtain ⟨htidy', htold'⟩ := (inlineStep_way s token st).tidy hstep htidy
      refine ⟨htidy', fun hn => ?_⟩
      rw [htold' (hn token (hp.subset (by simp))), htold hn, List.flatMap_append,
        List.flatMap_singleton, List.append_assoc]
  obtain ⟨htidy, htold⟩ := hrun
  obtain ⟨hclosed, hwords⟩ := joined_closeAll (fun f : InlineFrame => { f.info with span := none })
    (·.children) st.frames htidy.kinds (fun f hf => htidy.levels _ (List.mem_append_left _
      (List.mem_map_of_mem hf))) [] nofun
  have hbase : Joined st.base :=
    htidy.levels _ (List.mem_append_right _ (List.mem_singleton_self _))
  refine ⟨hbase.append hclosed, fun hn => ?_⟩
  rw [InlineState.finish, words_append]
  refine (congrArg (words st.base ++ ·) hwords).trans ?_
  rw [← htold hn, InlineState.levels, told_concat]
  exact congrArg (words st.base ++ ·) (List.append_nil _)

end Inline

section Block

def BlockState.levels (st : BlockState) : List (List (Tree Info)) :=
  st.frames.map (·.children) ++ [st.root.children]

structure BlockState.Tidy (st : BlockState) : Prop where
  levels : ∀ us ∈ st.levels, Joined us
  root : st.root.info.kind ≠ Kind.text
  kinds : ∀ f ∈ st.frames, f.info.kind ≠ Kind.text

variable {tasks : Bool} {token : BlockToken} {st st' : BlockState} {x : Except Fault BlockState}
  {f : BlockFrame}

theorem wordsOf_close (hk : f.info.kind ≠ Kind.text) : wordsOf f.close = words f.children :=
  wordsOf_container hk f.children

theorem BlockState.Tidy.setTop (h : st.Tidy) (htop : st.top = .ok us) :
    Joined us ∧ wordsOf st.block = words us ∧ ∀ ws, Joined ws → (st.setTop ws).Tidy ∧
      wordsOf (st.setTop ws).block = words ws ∧
      ∀ w, words ws = words us ++ w → told (st.setTop ws).levels = told st.levels ++ w := by
  obtain ⟨source, root, rootOpen, _ | ⟨f, rest⟩, depth⟩ := st
  · obtain rfl : root.children = us := by
      cases rootOpen
      · cases htop
      · exact Except.ok.inj htop
    refine ⟨h.levels _ List.mem_cons_self, wordsOf_close h.root, fun ws hws =>
      ⟨⟨List.forall_mem_singleton.2 hws, h.root, h.kinds⟩, ?_, fun w hw => ?_⟩⟩
    · exact wordsOf_close (f := { root with children := ws }) h.root
    · change told [ws] = told [root.children] ++ w
      rw [told_cons, told_cons, hw, List.append_assoc]
  · cases htop
    obtain ⟨hj, hlevels⟩ := List.forall_mem_cons.1 h.levels
    obtain ⟨hk, hkinds⟩ := List.forall_mem_cons.1 h.kinds
    refine ⟨hj, wordsOf_close hk, fun ws hws => ⟨⟨List.forall_mem_cons.2 ⟨hws, hlevels⟩, h.root,
      List.forall_mem_cons.2 ⟨hk, hkinds⟩⟩, ?_, fun w hw => ?_⟩⟩
    · exact wordsOf_close (f := { f with children := ws }) hk
    · change told (ws :: (rest.map (·.children) ++ [root.children])) =
        told (f.children :: (rest.map (·.children) ++ [root.children])) ++ w
      rw [told_cons, told_cons, hw, List.append_assoc]

/-- A task box leaves a text, or a gap before something that is no text. -/
theorem closedBlock_tidy (tasks : Bool) (hk : f.info.kind ≠ Kind.text) (hj : Joined f.children) :
    Tidy (closedBlock tasks f) ∧ (closedBlock tasks f).label.kind ≠ Kind.text := by
  have hchildren := hj.reverse
  have hw := closedBlock_way tasks f
  generalize closedBlock tasks f = u at hw ⊢
  cases hw with
  | plain => exact ⟨hchildren.node hk, hk⟩
  | task ht hitem paragraph text below others rest hf hp htext done n =>
    rw [hf] at hchildren
    obtain ⟨hfirst, hrest⟩ := List.forall_mem_cons.1 hchildren.tidy
    obtain ⟨⟨hparted, -⟩, hbelow⟩ := tidy_node.1 hfirst
    obtain ⟨hself, hothers⟩ := List.forall_mem_cons.1 hbelow
    obtain ⟨hnext, htail⟩ := parted_cons.1 hparted
    have hleft : Joined (dropText text n below ++ others) := by
      obtain ⟨hnil, -⟩ | ⟨w, hw, hwkind, hvalue⟩ := dropText_cases text n below
      · rw [hnil]
        exact ⟨htail, hothers⟩
      · obtain ⟨⟨hunder, hleaf⟩, hdeep⟩ := tidy_node.1 hself
        rw [hw]
        refine ⟨parted_cons.2 ⟨?_, htail⟩, List.forall_mem_cons.2 ⟨tidy_node.2
          ⟨⟨hunder, fun _ => ⟨hvalue, (hleaf htext).2⟩⟩, hdeep⟩, hothers⟩⟩
        exact fun b hb hboth => hnext b hb ⟨htext, hboth.2⟩
    have hparagraph : paragraph.kind ≠ Kind.text := by
      rw [hp]
      decide
    have hitems : Joined (.node paragraph (dropText text n below ++ others) :: rest) :=
      ⟨parted_cons.2 ⟨(parted_cons.1 hchildren.parted).1, (parted_cons.1 hchildren.parted).2⟩,
        List.forall_mem_cons.2 ⟨hleft.node hparagraph, hrest⟩⟩
    exact ⟨hitems.node hk, hk⟩

theorem leafInfo_ne_text (span : Option Span) (ht : token.type ≠ "text") :
    (leafInfo span token).kind ≠ Kind.text := by
  obtain hk | hk := kind_leafInfo span token
  · rw [hk]
    exact ht
  · intro htext
    rw [htext] at hk
    exact absurd hk (by decide)

/-- Whatever way a block token goes, all children stay joined, and running text is told at the end,
also by the block that it belongs to. -/
theorem BlockWay.tidy (hw : BlockWay tasks token st x) (hx : x = .ok st') (h : st.Tidy)
    (ht : token.nesting = .stands → token.type ≠ "text") :
    st'.Tidy ∧
      ((∀ c ∈ token.children, c.type = "text" ∨ c.type = "softbreak" → c.nesting = .stands) →
        (tasks = false → told st'.levels = told st.levels ++ said token) ∧
        (token.nesting = .stands → token.type = "inline" →
          wordsOf st'.block = wordsOf st.block ++ token.children.flatMap spoken)) := by
  have hmute : token.nesting ≠ .stands → said token = [] :=
    fun hn => if_neg fun hboth => hn hboth.1
  cases hw with
  | opensNone hn hk =>
    cases hx
    refine ⟨h, fun _ => ⟨fun _ => ?_, fun hn' => ?_⟩⟩
    · rw [hmute (by simp [hn]), List.append_nil]
    · cases hn.symm.trans hn'
  | opens hn kind hk =>
    obtain ⟨info, hinfo, htop⟩ := bind_eq_ok.1 hx
    obtain ⟨us, -, rfl⟩ := map_eq_ok.1 htop
    refine ⟨⟨List.forall_mem_cons.2 ⟨.nil, h.levels⟩, h.root, List.forall_mem_cons.2 ⟨?_, h.kinds⟩⟩,
      fun _ => ⟨fun _ => ?_, fun hn' => ?_⟩⟩
    · rw [kind_openedInfo hinfo]
      exact kind_of_blockKind? hk
    · rw [hmute (by simp [hn])]
      exact told_cons [] st.levels
    · cases hn.symm.trans hn'
  | closesNone hn hk =>
    cases hx
    refine ⟨h, fun _ => ⟨fun _ => ?_, fun hn' => ?_⟩⟩
    · rw [hmute (by simp [hn]), List.append_nil]
    · cases hn.symm.trans hn'
  | closesRoot hn hk hf =>
    split at hx
    · cases hx
      refine ⟨⟨h.levels, h.root, h.kinds⟩, fun _ => ⟨fun _ => ?_, fun hn' => ?_⟩⟩
      · rw [hmute (by simp [hn])]
        exact (List.append_nil _).symm
      · cases hn.symm.trans hn'
    · cases hx
  | closes hn hk f rest hf =>
    rw [BlockState.add_eq] at hx
    obtain ⟨us, htop, rfl⟩ := map_eq_ok.1 hx
    have hlevels := h.levels
    have hkinds := h.kinds
    rw [BlockState.levels, hf] at hlevels
    rw [hf] at hkinds
    obtain ⟨hj, hlevels⟩ := List.forall_mem_cons.1 hlevels
    obtain ⟨hkind, hkinds⟩ := List.forall_mem_cons.1 hkinds
    obtain ⟨htidy, hclosed⟩ := closedBlock_tidy tasks hkind hj
    have hrest : ∀ depth, BlockState.Tidy { st with frames := rest, quoteDepth := depth } :=
      fun _ => ⟨hlevels, h.root, hkinds⟩
    obtain ⟨hus, -, hset⟩ := (hrest _).setTop htop
    obtain ⟨htidy', -, htold⟩ := hset _ (hus.cons hclosed htidy)
    refine ⟨htidy', fun _ => ⟨fun htasks => ?_, fun hn' => ?_⟩⟩
    · have hwords : wordsOf (closedBlock tasks f) = words f.children := by
        rw [closedBlock, if_neg fun hboth => Bool.false_ne_true (htasks ▸ hboth.2)]
        exact wordsOf_close hkind
      rw [htold _ (words_cons _ us), hwords, hmute (by simp [hn]), List.append_nil,
        BlockState.levels, BlockState.levels, hf, List.map_cons, List.cons_append, told_cons]
    · cases hn.symm.trans hn'
  | inline hn hi =>
    obtain ⟨us, htop, hx⟩ := bind_eq_ok.1 hx
    obtain ⟨ws, hws, rfl⟩ := map_eq_ok.1 hx
    obtain ⟨hus, hblock, hset⟩ := h.setTop htop
    obtain ⟨hjoined, hwords⟩ := addInline_joined hus hws
    obtain ⟨htidy, hblock', htold⟩ := hset ws hjoined
    refine ⟨htidy, fun hc => ⟨fun _ => ?_, fun _ _ => ?_⟩⟩
    · rw [said, if_pos ⟨hn, hi⟩]
      exact htold _ (hwords hc)
    · rw [hblock', hblock, hwords hc]
  | leaf hn hi =>
    obtain ⟨us, htop, hx⟩ := bind_eq_ok.1 hx
    obtain ⟨span, -, rfl⟩ := map_eq_ok.1 hx
    obtain ⟨hus, -, hset⟩ := h.setTop htop
    obtain ⟨hjoined, hwords⟩ := hus.push (leafInfo_ne_text span (ht hn))
    obtain ⟨htidy, -, htold⟩ := hset _ hjoined
    refine ⟨htidy, fun _ => ⟨fun _ => ?_, fun _ hi' => absurd hi' hi⟩⟩
    rw [said, if_neg fun hboth => hi hboth.2]
    exact htold _ hwords

theorem BlockState.Tidy.finish (h : st.Tidy) :
    Outline.Document.Tidy st.finish ∧ wordsOf st.finish = told st.levels := by
  obtain ⟨hclosed, hwords⟩ := joined_closeAll (·.info) (·.children) st.frames h.kinds
    (fun f hf => h.levels _ (List.mem_append_left _ (List.mem_map_of_mem hf))) [] nofun
  have hroot : Joined st.root.children :=
    h.levels _ (List.mem_append_right _ (List.mem_singleton_self _))
  have hall := hroot.append hclosed
  refine ⟨hall.reverse.node h.root, ?_⟩
  rw [BlockState.levels, told_concat]
  refine (wordsOf_container h.root _).trans ((words_append _ _).trans ?_)
  exact congrArg (words st.root.children ++ ·) (hwords.trans (List.append_nil _))

end Block

section Run

variable {load : Loader} {settings : ReadingSettings} {t : Text} {tokens : List BlockToken}
  {st : BlockState}

theorem initial_tidy (h : initial load settings t = .ok st) : st.Tidy ∧ told st.levels = [] := by
  have hroot : Kind.root ≠ Kind.text := by decide
  have hyaml : Kind.yaml ≠ Kind.text := by decide
  obtain ⟨offset, first, rfl, -, ⟨-, rfl⟩ | ⟨-, b, data, span, rfl, -⟩⟩ := initial_cases h
  · exact ⟨⟨List.forall_mem_singleton.2 .nil, hroot, by simp [BlockState.start]⟩, rfl⟩
  · obtain ⟨hjoined, hwords⟩ := Joined.nil.push (i := (yamlNode b data span).label) hyaml
    exact ⟨⟨List.forall_mem_singleton.2 hjoined, hroot, by simp [BlockState.start]⟩,
      (told_cons _ []).trans hwords⟩

theorem stateAfter_tidy (htext : ∀ token ∈ tokens, token.nesting = .stands → token.type ≠ "text")
    (h : stateAfter load settings t tokens = .ok st) :
    st.Tidy ∧ ((∀ token ∈ tokens, ∀ c ∈ token.children,
        c.type = "text" ∨ c.type = "softbreak" → c.nesting = .stands) →
      settings.taskItems = false → told st.levels = tokens.flatMap said) := by
  refine stateAfter_ok (P := fun pre st => BlockState.Tidy st ∧ ((∀ token ∈ tokens,
    ∀ c ∈ token.children, c.type = "text" ∨ c.type = "softbreak" → c.nesting = .stands) →
      settings.taskItems = false → told st.levels = pre.flatMap said)) h ?_ ?_
  · intro s hs
    obtain ⟨htidy, htold⟩ := initial_tidy hs
    exact ⟨htidy, fun _ _ => htold⟩
  · rintro pre token s s' hp ⟨htidy, htold⟩ hstep
    have hmem : token ∈ tokens := hp.subset (by simp)
    obtain ⟨htidy', hrest⟩ := (blockStep_way _ token s).tidy hstep htidy (htext token hmem)
    refine ⟨htidy', fun hn htasks => ?_⟩
    rw [(hrest (hn token hmem)).1 htasks, htold hn htasks, List.flatMap_append,
      List.flatMap_singleton]

/-- Without texts among the block tokens, whatever else they are: no two texts stand side by side in
the tree, and none is empty. If what is text or a soft break among running text closes nothing, then
an inline token adds to its block what its texts and soft breaks say, in their order; and without
tasks the tree says what all inline tokens say. -/
theorem parseWith_merges {tree : Tree Info}
    (htext : ∀ token ∈ tokens, token.nesting = .stands → token.type ≠ "text")
    (h : parseWith load settings (fun _ => tokens) t = .ok tree) :
    (∀ v ∈ tree.visits, v.node.children.IsChain fun a b =>
      ¬ (a.label.kind = Kind.text ∧ b.label.kind = Kind.text)) ∧
    (∀ v ∈ tree.visits, v.node.label.kind = Kind.text →
      ∃ value, v.node.label.value = some value ∧ value ≠ []) ∧
    ((∀ token ∈ tokens, ∀ c ∈ token.children,
        c.type = "text" ∨ c.type = "softbreak" → c.nesting = .stands) →
      (∀ pre token, pre ++ [token] <+: tokens → token.nesting = .stands → token.type = "inline" →
        ∃ st st', stateAfter load settings t pre = .ok st ∧
          blockStep settings.taskItems st token = .ok st' ∧
          (Node.ofTree st'.block).textContent =
            (Node.ofTree st.block).textContent ++ token.children.flatMap spoken) ∧
      (settings.taskItems = false → (Node.ofTree tree).textContent = tokens.flatMap said)) := by
  rw [parseWith_eq] at h
  obtain ⟨final, hfinal, rfl⟩ := map_eq_ok.1 h
  obtain ⟨htidy, htold⟩ := stateAfter_tidy htext hfinal
  obtain ⟨hfinish, hwords⟩ := htidy.finish
  refine ⟨fun v hv => (hfinish v hv).1, fun v hv hk => ?_, fun hn => ⟨?_, fun htasks => ?_⟩⟩
  · have hvalue := ((hfinish v hv).2 hk).1
    rcases hsome : v.node.label.value with _ | value
    · rw [hsome] at hvalue
      exact absurd rfl hvalue
    · rw [hsome] at hvalue
      exact ⟨value, rfl, hvalue⟩
  · intro pre token hp hstands hinline
    have hmem : token ∈ tokens := hp.subset (by simp)
    obtain ⟨st', hst'⟩ := exists_stateAfter hfinal hp
    rw [stateAfter_concat] at hst'
    obtain ⟨st, hst, hstep⟩ := bind_eq_ok.1 hst'
    have hpre : pre <+: tokens := (List.prefix_append _ _).trans hp
    have hbefore := (stateAfter_tidy (fun token hmem => htext token (hpre.subset hmem)) hst).1
    obtain ⟨-, hrest⟩ := (blockStep_way _ token st).tidy hstep hbefore (htext token hmem)
    refine ⟨st, st', hst, hstep, ?_⟩
    rw [textContent_ofTree, textContent_ofTree]
    exact (hrest (hn token hmem)).2 hstands hinline
  · rw [textContent_ofTree, hwords, htold hn htasks]

/-- A paragraph with a closing token too many, a text that goes on over it and a break, and a link
that is never closed. -/
def looseTokens : List BlockToken :=
  [{ type := "paragraph_open", nesting := .opens },
   { type := "inline", children := [
      { type := "text", content := ['a'] },
      { type := "em_close", nesting := .closes },
      { type := "text", content := ['b'] },
      { type := "softbreak" },
      { type := "link_open", nesting := .opens },
      { type := "text", content := ['c'] }] },
   { type := "paragraph_close", nesting := .closes }]

theorem parseWith_merges_sample :
    (∀ token ∈ looseTokens, token.nesting = .stands → token.type ≠ "text") ∧
    ∃ tree, parseWith Yaml.load { taskItems := false } (fun _ => looseTokens) [] = .ok tree ∧
      tree.labels.countP (·.kind == Kind.text) = 2 ∧
      (Node.ofTree tree).textContent = "ab\nc".toList := by
  have htext : ∀ token ∈ looseTokens, token.nesting = .stands → token.type ≠ "text" := by
    decide +kernel
  have hn : ∀ token ∈ looseTokens, ∀ c ∈ token.children,
      c.type = "text" ∨ c.type = "softbreak" → c.nesting = .stands := by
    decide +kernel
  have hcount : (parseWith Yaml.load { taskItems := false } (fun _ => looseTokens) []).toOption.map
      (fun tree => tree.labels.countP (·.kind == Kind.text)) = some 2 := by
    decide +kernel
  rcases htree : parseWith Yaml.load { taskItems := false } (fun _ => looseTokens) []
    with e | tree
  · rw [htree] at hcount
    cases hcount
  · rw [htree] at hcount
    obtain ⟨-, -, hrest⟩ := parseWith_merges htext htree
    exact ⟨htext, tree, rfl, Option.some.inj hcount, ((hrest hn).2 rfl).trans (by decide +kernel)⟩

end Run

end Document
end Outline
