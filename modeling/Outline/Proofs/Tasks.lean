import Mathlib.Data.List.TakeWhile
import Outline.Proofs.BlockOrigins
import Outline.Proofs.Displacement
import Outline.Proofs.Strand

/-! Tasks as a pass over the finished tree. Items are looked at when they are closed, while the fold
over the tokens is still going on. All that later tokens see of a finished tree is the kind and the
span of its label, which `asTasks` keeps, and a text, which it leaves alone. So with tasks the fold
is at every moment where it is without them, with `asTasks` on all that is finished
(`blockStep_asTasks`), and in the end the trees differ by this pass alone (`parseWith_asTasks`). -/

namespace Outline.Document

/-- The text begins with a box; the box and the blanks after it are `n` characters, and if there are
no blanks, a line feed or the end comes next. -/
inductive TaskBox (t : Text) (done : Bool) (n : Nat) : Prop
  | intro (mark : Char) (blanks rest : Text) (ht : t = '[' :: mark :: ']' :: (blanks ++ rest))
    (hmark : (mark = ' ' ∧ done = false) ∨ ((mark = 'x' ∨ mark = 'X') ∧ done = true))
    (hblanks : ∀ c ∈ blanks, c = ' ' ∨ c = '\t')
    (hrest : ∀ c ∈ rest.head?, ¬ (c = ' ' ∨ c = '\t'))
    (hends : blanks = [] → ∀ c ∈ rest.head?, c = '\n') (hn : n = 3 + blanks.length)

theorem isSpaceOrTab_iff {c : Char} : Text.isSpaceOrTab c = true ↔ c = ' ' ∨ c = '\t' := by
  simp [Text.isSpaceOrTab]

theorem taskBox_of_eq_some {t : Text} {done : Bool} {n : Nat} (h : taskBox? t = some (done, n)) :
    TaskBox t done n := by
  unfold taskBox? at h
  split at h
  · next mark rest =>
    dsimp only at h
    split_ifs at h with hmark hafter
    obtain ⟨rfl, rfl⟩ := Prod.mk.inj (Option.some.inj h)
    have hsplit := List.takeWhile_append_dropWhile (p := Text.isSpaceOrTab) (l := rest)
    refine .intro mark (rest.takeWhile Text.isSpaceOrTab) (rest.dropWhile Text.isSpaceOrTab) ?_
      ?_ ?_ ?_ ?_ rfl
    · rw [hsplit]
    · rcases hmark with rfl | rfl | rfl <;> simp
    · exact fun c hc => isSpaceOrTab_iff.1 (List.mem_takeWhile_imp hc)
    · intro c hc
      have hnot := List.head?_dropWhile_not Text.isSpaceOrTab rest
      rw [Option.mem_def.1 hc] at hnot
      rw [← isSpaceOrTab_iff, hnot]
      exact Bool.false_ne_true
    · intro hnil c hc
      have hend := hafter.resolve_left (not_not.2 hnil)
      rw [hnil, List.nil_append] at hsplit
      rw [hsplit] at hc
      rw [Option.mem_def.1 hc] at hend
      simpa using hend
  · cases h

theorem TaskBox.eq_some {t : Text} {done : Bool} {n : Nat} (h : TaskBox t done n) :
    taskBox? t = some (done, n) := by
  obtain ⟨mark, blanks, rest, rfl, hmark, hblanks, hrest, hends, rfl⟩ := h
  have htake : (blanks ++ rest).takeWhile Text.isSpaceOrTab = blanks := by
    rw [List.takeWhile_append_of_pos fun c hc => isSpaceOrTab_iff.2 (hblanks c hc)]
    rcases rest with _ | ⟨c, rest⟩
    · exact List.append_nil blanks
    · have hc : ¬ Text.isSpaceOrTab c = true := mt isSpaceOrTab_iff.1 (hrest c rfl)
      rw [List.takeWhile_cons_of_neg hc, List.append_nil]
  have hafter : blanks ≠ [] ∨ (blanks ++ rest).head?.all (· == '\n') = true := by
    by_cases hnil : blanks = []
    · right
      rw [hnil, List.nil_append]
      simpa [Option.all_eq_true] using hends hnil
    · exact .inl hnil
  have hknown : mark = ' ' ∨ mark = 'x' ∨ mark = 'X' := by tauto
  rw [taskBox?, if_pos hknown, htake]
  dsimp only
  rw [if_pos hafter]
  rcases hmark with ⟨rfl, rfl⟩ | ⟨rfl | rfl, rfl⟩ <;> rfl

mutual

def asTasks : Tree Info → Tree Info
  | .node i us =>
    if i.kind = Kind.listItem then
      let item := detectTask i (asTasksAll us)
      .node item.1 item.2
    else .node i (asTasksAll us)

def asTasksAll : List (Tree Info) → List (Tree Info)
  | [] => []
  | u :: us => asTasks u :: asTasksAll us

end

/-- An item that begins with a paragraph that begins with a text that begins with a box. -/
inductive IsTask (done : Bool) (n : Nat) : Tree Info → Prop
  | intro (item paragraph text : Info) (below others rest : List (Tree Info))
    (hi : item.kind = Kind.listItem) (hp : paragraph.kind = Kind.paragraph)
    (ht : text.kind = Kind.text) (hb : TaskBox (text.value.getD []) done n) :
    IsTask done n (.node item (.node paragraph (.node text below :: others) :: rest))

/-- A text without its first characters, which begins where the rest of it does; nothing, if nothing
is left of it. -/
def textFrom (n : Nat) (text : Info) (below : List (Tree Info)) : List (Tree Info) :=
  if (text.value.getD []).drop n = [] then []
  else [.node { text with
    value := some ((text.value.getD []).drop n)
    span := text.span.map fun s => { s with
      start := ⟨s.start.line, s.start.column + n, s.start.offset.map (· + (n : Int))⟩ } } below]

/-- The pass looks at every item by itself: a task is marked as done or not done, and its text loses
the box and the blanks after it. Nothing else changes. -/
structure TaskPass (pass : Tree Info → Tree Info) : Prop where
  plain (i : Info) (us : List (Tree Info)) (h : ∀ done n, ¬ IsTask done n (.node i us)) :
    pass (.node i us) = .node i (us.map pass)
  task (item paragraph text : Info) (below others rest : List (Tree Info)) (done : Bool) (n : Nat)
    (h : IsTask done n (.node item (.node paragraph (.node text below :: others) :: rest))) :
    pass (.node item (.node paragraph (.node text below :: others) :: rest)) =
      .node { item with checked := some done }
        (.node paragraph (textFrom n text (below.map pass) ++ others.map pass) :: rest.map pass)

theorem asTasksAll_eq (us : List (Tree Info)) : asTasksAll us = us.map asTasks := by
  induction us with
  | nil => rfl
  | cons u us ih => rw [asTasksAll, ih, List.map_cons]

theorem asTasks_of_ne {i : Info} (h : i.kind ≠ Kind.listItem) (us : List (Tree Info)) :
    asTasks (.node i us) = .node i (us.map asTasks) := by
  rw [asTasks, if_neg h, asTasksAll_eq]

theorem asTasks_of_eq {i : Info} (h : i.kind = Kind.listItem) (us : List (Tree Info)) :
    asTasks (.node i us) = .node (detectTask i (us.map asTasks)).1
      (detectTask i (us.map asTasks)).2 := by
  rw [asTasks, if_pos h, asTasksAll_eq]

/-- What is finished with tasks is what is finished without them, after the pass. -/
theorem closedBlock_asTasks (f : BlockFrame) :
    closedBlock true { f with children := f.children.map asTasks } = asTasks f.close := by
  rw [closedBlock, BlockFrame.close, BlockFrame.close]
  dsimp only
  rw [← List.map_reverse]
  split_ifs with h
  · rw [asTasks_of_eq h.1]
  · rw [asTasks_of_ne fun hi => h ⟨hi, rfl⟩]

theorem dropText_eq (text : Info) (n : Nat) (below : List (Tree Info)) :
    dropText text n below = textFrom n text below := by
  unfold dropText textFrom
  simp only [List.isEmpty_iff]
  rfl

theorem label_asTasks (u : Tree Info) :
    (asTasks u).label.kind = u.label.kind ∧ (asTasks u).label.span = u.label.span := by
  obtain ⟨i, us⟩ := u
  have h := closedBlock_asTasks ⟨i, us.reverse⟩
  rw [BlockFrame.close, List.reverse_reverse] at h
  have hway := closedBlock_way true ⟨i, us.reverse.map asTasks⟩
  rw [h] at hway
  generalize asTasks (.node i us) = v at hway
  cases hway with
  | plain => exact ⟨rfl, rfl⟩
  | task => exact ⟨rfl, rfl⟩

theorem eq_node_of_asTasks {u : Tree Info} {i : Info} {us : List (Tree Info)}
    (h : asTasks u = .node i us) (hi : i.kind ≠ Kind.listItem) :
    ∃ ws, u = .node i ws ∧ ws.map asTasks = us := by
  obtain ⟨j, ws⟩ := u
  have hkind : i.kind = j.kind := by
    have hlabel := (label_asTasks (.node j ws)).1
    rw [h] at hlabel
    exact hlabel
  rw [asTasks_of_ne (hkind ▸ hi)] at h
  obtain ⟨rfl, hus⟩ := Tree.node.inj h
  exact ⟨ws, rfl, hus⟩

/-- An item is a task after the pass on what is in it only if it was one before. -/
theorem detectTask_of_not {i : Info} {us : List (Tree Info)} (hi : i.kind = Kind.listItem)
    (h : ∀ done n, ¬ IsTask done n (.node i us)) :
    detectTask i (us.map asTasks) = (i, us.map asTasks) := by
  unfold detectTask
  split
  · next paragraph text below others rest hus =>
    split_ifs with hkinds
    · split
      · next done n hbox =>
        obtain ⟨hp, ht⟩ := hkinds
        obtain ⟨u, us, rfl, hu, -⟩ := List.map_eq_cons_iff.1 hus
        obtain ⟨ws, rfl, hws⟩ := eq_node_of_asTasks hu (by rw [hp]; decide)
        obtain ⟨w, ws, rfl, hw, -⟩ := List.map_eq_cons_iff.1 hws
        obtain ⟨vs, rfl, -⟩ := eq_node_of_asTasks hw (by rw [ht]; decide)
        exact absurd (.intro i paragraph text vs ws us hi hp ht (taskBox_of_eq_some hbox))
          (h done n)
      · rfl
    · rfl
  · rfl

theorem taskPass_asTasks : TaskPass asTasks where
  plain i us h := by
    by_cases hi : i.kind = Kind.listItem
    · rw [asTasks_of_eq hi, detectTask_of_not hi h]
    · exact asTasks_of_ne hi us
  task item paragraph text below others rest done n h := by
    cases h with
    | intro _ _ _ _ _ _ hi hp ht hb =>
      have hp' : paragraph.kind ≠ Kind.listItem := by rw [hp]; decide
      have ht' : text.kind ≠ Kind.listItem := by rw [ht]; decide
      rw [asTasks_of_eq hi, List.map_cons, asTasks_of_ne hp', List.map_cons, asTasks_of_ne ht',
        detectTask, if_pos ⟨hp, ht⟩, hb.eq_some]
      dsimp only
      rw [dropText_eq]

theorem asTasks_leaf (i : Info) : asTasks (.node i []) = .node i [] := by
  by_cases hi : i.kind = Kind.listItem
  · rw [asTasks_of_eq hi]
    rfl
  · exact asTasks_of_ne hi []

section Inline

def InlineFrame.asTasks (f : InlineFrame) : InlineFrame :=
  { f with children := f.children.map Document.asTasks }

def InlineState.asTasks (st : InlineState) : InlineState :=
  { st with base := st.base.map Document.asTasks, frames := st.frames.map InlineFrame.asTasks }

def InlineState.NoItem (st : InlineState) : Prop := ∀ f ∈ st.frames, f.info.kind ≠ Kind.listItem

variable {st : InlineState} {f g : List (Tree Info) → List (Tree Info)}

theorem close_asTasks {f : InlineFrame} (h : f.info.kind ≠ Kind.listItem) (span : Option Span) :
    f.asTasks.close span = asTasks (f.close span) := by
  have h' : { f.info with span := span }.kind ≠ Kind.listItem := h
  rw [InlineFrame.close, InlineFrame.close, asTasks_of_ne h', InlineFrame.asTasks, List.map_reverse]

theorem addText_asTasks (value : Text) (span : Option Span) (us : List (Tree Info)) :
    InlineState.addText value span (us.map asTasks) =
      (InlineState.addText value span us).map asTasks := by
  rcases us with _ | ⟨⟨i, below⟩, us⟩
  · exact congrArg ([·]) (asTasks_leaf _).symm
  · by_cases hi : i.kind = Kind.text
    · have hkept : ∀ w : Info, w.kind = Kind.text →
          asTasks (.node w below) = .node w (below.map asTasks) :=
        fun w hw => asTasks_of_ne (by rw [hw]; decide) below
      rw [List.map_cons, hkept i hi]
      simp only [InlineState.addText, if_pos hi, List.map_cons]
      refine congrArg (· :: us.map asTasks) (hkept _ ?_).symm
      exact hi
    · obtain ⟨j, ws, hj⟩ : ∃ j ws, asTasks (.node i below) = .node j ws := by
        rcases asTasks (.node i below) with ⟨j, ws⟩
        exact ⟨j, ws, rfl⟩
      have hkind := (label_asTasks (.node i below)).1
      rw [hj] at hkind
      have hj' : ¬ j.kind = Kind.text := fun h => hi (hkind.symm.trans h)
      rw [List.map_cons, hj]
      simp only [InlineState.addText, if_neg hi, if_neg hj', List.map_cons, asTasks_leaf, hj]

theorem wrap_asTasks (s : Source) (kind : Kind) (markup : Text) (us : List (Tree Info))
    (c : Search) : s.wrap kind markup (us.map asTasks) c = s.wrap kind markup us c := by
  have hspans : (us.map asTasks).filterMap (·.label.span) = us.filterMap (·.label.span) := by
    rw [List.filterMap_map]
    exact List.filterMap_congr fun u _ => (label_asTasks u).2
  unfold Source.wrap
  rw [hspans]

theorem onTop_asTasks (h : ∀ us, g (us.map asTasks) = (f us).map asTasks) :
    st.asTasks.onTop g = (st.onTop f).asTasks := by
  obtain ⟨base, _ | ⟨top, frames⟩, search⟩ := st
  · simp [InlineState.onTop, InlineState.asTasks, h]
  · simp [InlineState.onTop, InlineState.asTasks, InlineFrame.asTasks, h]

theorem InlineState.NoItem.onTop (h : st.NoItem) (f : List (Tree Info) → List (Tree Info)) :
    (st.onTop f).NoItem := by
  obtain ⟨base, _ | ⟨top, frames⟩, search⟩ := st
  · exact h
  · obtain ⟨htop, hrest⟩ := List.forall_mem_cons.1 h
    exact List.forall_mem_cons.2 ⟨htop, hrest⟩

/-- Other children of the innermost container, by the same change. -/
theorem tracks_onTop (hst : st.NoItem) (h : ∀ us, g (us.map asTasks) = (f us).map asTasks) :
    Tracks InlineState.NoItem InlineState.asTasks (.ok (st.onTop f)) (.ok (st.asTasks.onTop g)) :=
  Tracks.pure (hst.onTop f) (onTop_asTasks h)

theorem tracks_push (hst : st.NoItem) (i : Info) :
    Tracks InlineState.NoItem InlineState.asTasks (.ok (st.push i)) (.ok (st.asTasks.push i)) :=
  tracks_onTop hst fun us => congrArg (· :: us.map asTasks) (asTasks_leaf i).symm

theorem inlineStep_asTasks (s : Source) (hst : st.NoItem) (t : InlineToken) :
    Tracks InlineState.NoItem InlineState.asTasks (inlineStep s st t)
      (inlineStep s st.asTasks t) := by
  have hstate : ∀ c : Search, { st with search := c }.NoItem := fun _ => hst
  unfold inlineStep
  rcases hk : inlineKind? t.type with _ | kind
  · dsimp only
    apply Tracks.ite
    · intro hcloses
      obtain ⟨base, _ | ⟨f, frames⟩, c⟩ := st
      · exact Tracks.pure hst rfl
      · obtain ⟨hf, hrest⟩ := List.forall_mem_cons.1 hst
        simp only [InlineState.asTasks, List.map_cons]
        have hwrap : s.wrap f.asTasks.info.kind f.asTasks.markup f.asTasks.children.reverse c =
            s.wrap f.info.kind f.markup f.children.reverse c := by
          rw [InlineFrame.asTasks, ← List.map_reverse, wrap_asTasks]
        rw [hwrap]
        apply (Tracks.same _).bind
        rintro ⟨span, c'⟩ -
        have hstate : InlineState.NoItem ⟨base, frames, c'⟩ := hrest
        refine tracks_onTop hstate fun us => ?_
        exact congrArg (· :: us.map asTasks) (close_asTasks hf span)
    intro _
    apply Tracks.ite
    · intro htext
      apply Tracks.ite
      · intro _
        exact Tracks.pure hst rfl
      intro _
      apply (Tracks.same (s.locate t.content st.search)).bind
      rintro ⟨span, c⟩ -
      exact tracks_onTop (hstate c) fun us => addText_asTasks t.content span us
    intro _
    apply Tracks.ite
    · intro hsoft
      exact tracks_onTop (hstate _) fun us => addText_asTasks ['\n'] none us
    intro _
    apply Tracks.ite
    · intro hhard
      exact tracks_push (hstate _) _
    intro _
    apply Tracks.ite
    · intro hcode
      apply (Tracks.same (s.locate t.content st.search)).bind
      rintro ⟨span, c⟩ -
      exact tracks_push (hstate c) _
    intro _
    apply Tracks.ite
    · intro himage
      apply (Tracks.same (s.locateImage st.search)).bind
      rintro ⟨span, c⟩ -
      exact tracks_push (hstate c) _
    intro _
    apply Tracks.ite
    · intro hhtml
      apply (Tracks.same (s.locate t.content st.search)).bind
      rintro ⟨span, c⟩ -
      exact tracks_push (hstate c) _
    intro _
    exact tracks_push hst _
  · refine Tracks.pure (List.forall_mem_cons.2 ⟨?_, hst⟩) rfl
    have hopened : (openedInline kind t).kind ≠ Kind.listItem := by
      rw [kind_openedInline]
      rintro rfl
      exact (kind_of_inlineKind? hk).2 (by decide)
    exact hopened

theorem finish_asTasks (h : st.NoItem) : st.asTasks.finish = st.finish.map asTasks := by
  obtain ⟨base, frames, search⟩ := st
  have hframes : ∀ (frames : List InlineFrame) (inner : List (Tree Info)),
      (∀ f ∈ frames, f.info.kind ≠ Kind.listItem) →
      (frames.map InlineFrame.asTasks).foldl (fun inner f =>
          [InlineFrame.close { f with children := inner ++ f.children } none])
          (inner.map asTasks) =
        (frames.foldl (fun inner f =>
          [InlineFrame.close { f with children := inner ++ f.children } none]) inner).map
          asTasks := by
    intro frames
    induction frames with
    | nil => exact fun _ _ => rfl
    | cons f frames ih =>
      intro inner hf
      obtain ⟨hself, hrest⟩ := List.forall_mem_cons.1 hf
      have hclose := close_asTasks (f := { f with children := inner ++ f.children }) hself none
      rw [List.map_cons, List.foldl_cons, List.foldl_cons, ← ih _ hrest, List.map_singleton,
        ← hclose, InlineFrame.asTasks, InlineFrame.asTasks, List.map_append]
  have hinner := hframes frames [] h
  rw [List.map_nil] at hinner
  simp only [InlineState.finish, InlineState.asTasks, List.map_append, hinner]

theorem addInline_asTasks (s : Source) (line : Option Int) (base : List (Tree Info))
    (ts : List InlineToken) :
    Tracks (fun _ => True) (List.map asTasks) (addInline s line base ts)
      (addInline s line (base.map asTasks) ts) := by
  have hst : InlineState.NoItem ⟨base, [], ⟨line, 0⟩⟩ := List.forall_mem_nil _
  refine (Tracks.foldlM (fun t _ st hst => inlineStep_asTasks s hst t) hst).bind fun st h => ?_
  exact Tracks.pure trivial (finish_asTasks h)

end Inline

section Block

def BlockFrame.asTasks (f : BlockFrame) : BlockFrame :=
  { f with children := f.children.map Document.asTasks }

def BlockState.asTasks (st : BlockState) : BlockState :=
  { st with root := st.root.asTasks, frames := st.frames.map BlockFrame.asTasks }

variable {st : BlockState}

theorem tracks_top_asTasks (st : BlockState) :
    Tracks (fun _ => True) (List.map asTasks) st.top st.asTasks.top := by
  obtain ⟨source, root, rootOpen, _ | ⟨f, frames⟩, depth⟩ := st
  · cases rootOpen with
    | true => exact Tracks.pure trivial rfl
    | false => exact Tracks.error _
  · exact Tracks.pure trivial rfl

theorem setTop_asTasks (st : BlockState) (us : List (Tree Info)) :
    st.asTasks.setTop (us.map asTasks) = (st.setTop us).asTasks := by
  obtain ⟨source, root, rootOpen, _ | ⟨f, frames⟩, depth⟩ := st
  · rfl
  · rfl

theorem tracks_add_asTasks (st : BlockState) (u : Tree Info) :
    Tracks (fun _ => True) BlockState.asTasks (st.add u) (st.asTasks.add (asTasks u)) := by
  unfold BlockState.add
  refine (tracks_top_asTasks st).bind fun us _ => ?_
  exact Tracks.pure trivial (setTop_asTasks st (u :: us))

theorem closeBlock_eq (tasks : Bool) {f : BlockFrame} {frames : List BlockFrame}
    (hf : st.frames = f :: frames) : closeBlock tasks st = BlockState.add { st with
      frames := frames
      quoteDepth := if f.info.kind = Kind.blockquote then st.quoteDepth - 1 else st.quoteDepth }
      (closedBlock tasks f) := by
  unfold closeBlock closedBlock
  rw [hf]
  dsimp only
  split_ifs <;> rfl

theorem tracks_closeBlock_asTasks (st : BlockState) :
    Tracks (fun _ => True) BlockState.asTasks (closeBlock false st)
      (closeBlock true st.asTasks) := by
  rcases hf : st.frames with _ | ⟨f, frames⟩
  · obtain ⟨source, root, rootOpen, _, depth⟩ := st
    cases hf
    cases rootOpen with
    | true => exact Tracks.pure trivial rfl
    | false => exact Tracks.error _
  · have hf' : st.asTasks.frames = f.asTasks :: frames.map BlockFrame.asTasks := by
      rw [BlockState.asTasks, hf]
      rfl
    have hplain : closedBlock false f = f.close := if_neg (by simp)
    rw [closeBlock_eq false hf, closeBlock_eq true hf', hplain, BlockFrame.asTasks,
      closedBlock_asTasks]
    exact tracks_add_asTasks _ f.close

/-- A block token does with tasks, after the pass, what it does without them before the pass. -/
theorem blockStep_asTasks (t : BlockToken) (st : BlockState) :
    Tracks (fun _ => True) BlockState.asTasks (blockStep false st t)
      (blockStep true st.asTasks t) := by
  unfold blockStep
  cases t.nesting with
  | opens =>
    rcases blockKind? t.type with _ | kind
    · exact Tracks.pure trivial rfl
    · have hopened : openedInfo st.asTasks t kind = openedInfo st t kind := rfl
      dsimp only
      rw [hopened]
      refine (Tracks.same (openedInfo st t kind)).bind fun info _ => ?_
      refine (tracks_top_asTasks st).bind fun us _ => ?_
      exact Tracks.pure trivial rfl
  | closes =>
    apply Tracks.ite
    · intro _
      exact tracks_closeBlock_asTasks st
    · intro _
      exact Tracks.pure trivial rfl
  | stands =>
    refine (tracks_top_asTasks st).bind fun us _ => ?_
    apply Tracks.ite
    · intro _
      refine (addInline_asTasks _ _ us t.children).bind fun ws _ => ?_
      exact Tracks.pure trivial (setTop_asTasks st ws)
    · intro _
      have hspan : st.asTasks.spanOf t.map = st.spanOf t.map := rfl
      rw [hspan]
      refine (Tracks.same (st.spanOf t.map)).bind fun span _ => ?_
      refine Tracks.pure trivial ?_
      rw [← setTop_asTasks, List.map_cons, asTasks_leaf]
      rfl

end Block

section Document

variable {load : Loader} {settings : ReadingSettings} {t : Text} {tokens : List BlockToken}
  {st : BlockState}

theorem initial_asTasks (h : initial load settings t = .ok st) : st.asTasks = st := by
  obtain ⟨offset, first, rfl, -, ⟨-, rfl⟩ | ⟨-, b, data, span, rfl, -⟩⟩ := initial_cases h
  · rfl
  · have hyaml : asTasks (yamlNode b data span) = yamlNode b data span := asTasks_leaf _
    rw [BlockState.asTasks, BlockFrame.asTasks, BlockState.start]
    simp only [List.map_cons, List.map_nil, hyaml]

theorem stateAfter_asTasks (settings : ReadingSettings) (t : Text) (tokens : List BlockToken) :
    stateAfter load { settings with taskItems := true } t tokens =
      (stateAfter load { settings with taskItems := false } t tokens).map BlockState.asTasks := by
  have hinitial : initial load { settings with taskItems := true } t =
      initial load { settings with taskItems := false } t := rfl
  unfold stateAfter
  rw [hinitial]
  rcases hst : initial load { settings with taskItems := false } t with e | st
  · rfl
  · have hrun : Tracks (fun _ => True) BlockState.asTasks (tokens.foldlM (blockStep false) st)
        (tokens.foldlM (blockStep true) st.asTasks) :=
      Tracks.foldlM (fun token _ st _ => blockStep_asTasks token st) trivial
    rw [bind_ok, bind_ok, ← hrun.eq, initial_asTasks hst]

/-- If all blocks were closed, the pass may wait until the tree is there. -/
theorem finish_of_closed (hf : st.frames = []) (hroot : st.root.info.kind = Kind.root) :
    st.asTasks.finish = asTasks st.finish := by
  have hitem : st.root.info.kind ≠ Kind.listItem := by rw [hroot]; decide
  have hf' : st.asTasks.frames = [] := by rw [BlockState.asTasks, hf]; rfl
  rw [BlockState.finish, BlockState.finish, hf, hf', BlockFrame.close, BlockFrame.close,
    asTasks_of_ne hitem]
  simp [BlockState.asTasks, BlockFrame.asTasks]

/-- Whatever balanced tokens a document is made of: with tasks its tree is the one without tasks
after a pass that looks at every item by itself, and what stops the one stops the other. -/
theorem parseWith_asTasks (load : Loader) (settings : ReadingSettings) (t : Text)
    (hb : Balanced tokens) (hclosed : tokens.countP opensBlock = tokens.countP closesBlock) :
    TaskPass asTasks ∧ parseWith load { settings with taskItems := true } (fun _ => tokens) t =
      (parseWith load { settings with taskItems := false } (fun _ => tokens) t).map asTasks := by
  refine ⟨taskPass_asTasks, ?_⟩
  rw [parseWith_eq, parseWith_eq, stateAfter_asTasks]
  rcases hst : stateAfter load { settings with taskItems := false } t tokens with e | st
  · rfl
  · have hin := stateAfter_inStep hb (List.prefix_refl tokens) hst
    have hframes : st.frames = [] := by
      have := hin.count
      rw [← List.length_eq_zero_iff]
      omega
    have hroot : st.root.info.kind = Kind.root := by rw [(stateAfter_keeps hst).2]
    exact congrArg Except.ok (finish_of_closed hframes hroot)

def nestedTasks : Text := "- [x] a\n  - [ ]\n".toList

theorem parseWith_asTasks_sample :
    let tokens := Markdown.read {} nestedTasks
    Balanced tokens ∧ tokens.countP opensBlock = tokens.countP closesBlock ∧
      ∃ plain,
        parseWith Yaml.load { taskItems := false } (fun _ => tokens) nestedTasks = .ok plain ∧
        parseWith Yaml.load { taskItems := true } (fun _ => tokens) nestedTasks =
          .ok (asTasks plain) ∧
        plain.labels.filterMap (·.value) = ["[x] a".toList, "[ ]".toList] ∧
        (asTasks plain).labels.filterMap (·.value) = ["a".toList] ∧
        (asTasks plain).labels.filterMap (·.checked) = [true, false] := by
  intro tokens
  have hb : Balanced tokens := by decide +kernel
  have hclosed : tokens.countP opensBlock = tokens.countP closesBlock := by decide +kernel
  have hlabels : (parseWith Yaml.load { taskItems := false } (fun _ => tokens)
      nestedTasks).toOption.map
      (fun tree => (tree.labels.filterMap (·.value), (asTasks tree).labels.filterMap (·.value),
        (asTasks tree).labels.filterMap (·.checked))) =
      some (["[x] a".toList, "[ ]".toList], ["a".toList], [true, false]) := by
    decide +kernel
  have hpass := (parseWith_asTasks Yaml.load {} nestedTasks hb hclosed).2
  obtain ⟨plain, hplain, heq⟩ := exists_of_toOption hlabels
  obtain ⟨h1, h2⟩ := Prod.mk.inj heq
  obtain ⟨h2, h3⟩ := Prod.mk.inj h2
  rw [hplain] at hpass
  exact ⟨hb, hclosed, plain, hplain, hpass, h1, h2, h3⟩

end Document

end Outline.Document
