import Mathlib.Tactic.SplitIfs
import Outline.Document.Block

/-! What one token does. `InlineWay` and `BlockWay` list the ways in which a token of running text
and a block token can go, each with its result, faults included. A property of a whole document is
then an induction over its tokens with one case for each way: `foldlM_ok` for what a fold that ends
well keeps, `foldlM_error` for the token at which another one stops. -/

namespace Outline.Document

section Except

variable {α β γ : Type} {x : Except Fault α} {f : α → Except Fault β} {b : β}

theorem bind_ok (a : α) : Except.ok a >>= f = f a := rfl

theorem bind_eq_ok : x >>= f = .ok b ↔ ∃ a, x = .ok a ∧ f a = .ok b := by
  cases x <;> simp [Bind.bind, Except.bind]

theorem map_eq_ok {g : α → β} : x.map g = .ok b ↔ ∃ a, x = .ok a ∧ g a = b := by
  cases x <;> simp [Except.map]

theorem exists_of_toOption {g : α → β} (h : x.toOption.map g = some b) :
    ∃ a, x = .ok a ∧ g a = b := by
  obtain ⟨a, ha, hb⟩ := Option.map_eq_some_iff.1 h
  rcases x with e | a'
  · cases ha
  · cases ha
    exact ⟨a, rfl, hb⟩

theorem bind_ok_eq_map (x : Except Fault α) (g : α → β) : (x >>= fun a => .ok (g a)) = x.map g := by
  cases x <;> rfl

variable {σ τ : Type} {step : σ → τ → Except Fault σ} {s r : σ} {ts : List τ} {e : Fault}

/-- What holds at the start and is kept by every step that succeeds, holds in the end. It may speak
of the tokens so far. -/
theorem foldlM_ok {P : List τ → σ → Prop} (h : ts.foldlM step s = .ok r) (hs : P [] s)
    (hstep : ∀ pre t s s', pre ++ [t] <+: ts → P pre s → step s t = .ok s' → P (pre ++ [t]) s') :
    P ts r := by
  induction ts generalizing s P with
  | nil => cases h; exact hs
  | cons t ts ih =>
    rw [List.foldlM_cons] at h
    obtain ⟨s', h1, h2⟩ := bind_eq_ok.1 h
    apply ih (P := fun pre => P (t :: pre)) h2
    · exact hstep [] t s s' ⟨ts, rfl⟩ hs h1
    · intro pre u a a' hp ha
      exact hstep (t :: pre) u a a' (List.cons_prefix_cons.2 ⟨rfl, hp⟩) ha

theorem foldlM_total {P : σ → Prop} (ts : List τ) (hs : P s)
    (hstep : ∀ t s, P s → ∃ s', step s t = .ok s' ∧ P s') :
    ∃ r, ts.foldlM step s = .ok r ∧ P r := by
  induction ts generalizing s with
  | nil => exact ⟨s, rfl, hs⟩
  | cons t ts ih =>
    obtain ⟨s', h, hs'⟩ := hstep t s hs
    rw [List.foldlM_cons, h]
    exact ih hs'

/-- A fold that fails stops at a token at which a step fails. -/
theorem foldlM_error (h : ts.foldlM step s = .error e) :
    ∃ pre t s', pre ++ [t] <+: ts ∧ pre.foldlM step s = .ok s' ∧ step s' t = .error e := by
  induction ts generalizing s with
  | nil => cases h
  | cons t ts ih =>
    rw [List.foldlM_cons] at h
    rcases hstep : step s t with e' | s'
    · rw [hstep] at h
      cases h
      exact ⟨[], t, s, ⟨ts, rfl⟩, rfl, hstep⟩
    · rw [hstep] at h
      obtain ⟨pre, u, a, hp, hpre, hu⟩ := ih h
      refine ⟨t :: pre, u, a, List.cons_prefix_cons.2 ⟨rfl, hp⟩, ?_, hu⟩
      rw [List.foldlM_cons, hstep]
      exact hpre

end Except

def openedInline (kind : Kind) (t : InlineToken) : Info :=
  if kind = Kind.link then
    { kind := kind, url := t.attributes.text? "href", title := t.attributes.text? "title" }
  else { kind := kind }

theorem kind_openedInline (kind : Kind) (t : InlineToken) : (openedInline kind t).kind = kind := by
  unfold openedInline
  split <;> rfl

/-- The ways of a token of running text, by type and nesting. -/
inductive InlineWay (s : Source) (t : InlineToken) (st : InlineState) :
    Except Fault InlineState → Prop
  | opens (kind : Kind) (hk : inlineKind? t.type = some kind) :
    InlineWay s t st (.ok { st with frames := ⟨openedInline kind t, t.markup, []⟩ :: st.frames })
  | closesNone (hn : t.nesting = .closes) (hf : st.frames = [])
      (hk : inlineKind? t.type = none) : InlineWay s t st (.ok st)
  | closes (hn : t.nesting = .closes) (f : InlineFrame) (rest : List InlineFrame)
      (hf : st.frames = f :: rest) (hk : inlineKind? t.type = none) :
    InlineWay s t st ((s.wrap f.info.kind f.markup f.children.reverse st.search).map fun r =>
      InlineState.onTop { st with frames := rest, search := r.2 } (f.close r.1 :: ·))
  | emptyText (ht : t.type = "text") (hc : t.content = []) (hn : t.nesting ≠ .closes) :
    InlineWay s t st (.ok st)
  | text (ht : t.type = "text") (hc : t.content ≠ []) (hn : t.nesting ≠ .closes) :
    InlineWay s t st ((s.locate t.content st.search).map fun r =>
      InlineState.onTop { st with search := r.2 } (InlineState.addText t.content r.1))
  | softBreak (ht : t.type = "softbreak") (hn : t.nesting ≠ .closes) :
    InlineWay s t st (.ok (InlineState.onTop { st with search := st.search.nextLine }
      (InlineState.addText ['\n'] none)))
  | hardBreak (ht : t.type = "hardbreak") (hn : t.nesting ≠ .closes) :
    InlineWay s t st (.ok (InlineState.push { st with search := st.search.nextLine }
      { kind := Kind.lineBreak }))
  | literal (kind : Kind) (ht : (t.type = "code_inline" ∧ kind = Kind.inlineCode) ∨
      (t.type = "html_inline" ∧ kind = Kind.html)) (hn : t.nesting ≠ .closes) :
    InlineWay s t st ((s.locate t.content st.search).map fun r =>
      InlineState.push { st with search := r.2 }
        { kind := kind, value := some t.content, span := r.1 })
  | image (ht : t.type = "image") (hn : t.nesting ≠ .closes) :
    InlineWay s t st ((s.locateImage st.search).map fun r =>
      InlineState.push { st with search := r.2 }
        { kind := Kind.image, url := t.attributes.text? "src", alt := some t.content
          title := t.attributes.text? "title", span := r.1 })
  | other (ht : t.type ∉ ["text", "softbreak", "hardbreak", "code_inline", "image", "html_inline"])
      (hn : t.nesting ≠ .closes) : InlineWay s t st (.ok (st.push
      { kind := t.type, value := if t.content.isEmpty then none else some t.content }))

theorem inlineStep_way (s : Source) (t : InlineToken) (st : InlineState) :
    InlineWay s t st (inlineStep s st t) := by
  unfold inlineStep
  rcases hk : inlineKind? t.type with _ | kind
  · dsimp only
    split_ifs with hcloses htext hempty hsoft hhard hcode himage hhtml hcontent
    · obtain ⟨base, _ | ⟨f, rest⟩, search⟩ := st
      · exact .closesNone hcloses rfl hk
      · have h : InlineWay s t ⟨base, f :: rest, search⟩ _ := .closes hcloses f rest rfl hk
        rw [← bind_ok_eq_map] at h
        exact h
    · exact .emptyText htext (List.isEmpty_iff.1 hempty) hcloses
    · have h : InlineWay s t st _ :=
        .text htext (fun hc => hempty (List.isEmpty_iff.2 hc)) hcloses
      rw [← bind_ok_eq_map] at h
      exact h
    · exact .softBreak hsoft hcloses
    · exact .hardBreak hhard hcloses
    · have h : InlineWay s t st _ := .literal _ (.inl ⟨hcode, rfl⟩) hcloses
      rw [← bind_ok_eq_map] at h
      exact h
    · have h : InlineWay s t st _ := .image himage hcloses
      rw [← bind_ok_eq_map] at h
      exact h
    · have h : InlineWay s t st _ := .literal _ (.inr ⟨hhtml, rfl⟩) hcloses
      rw [← bind_ok_eq_map] at h
      exact h
    all_goals
      have hother : t.type ∉
          ["text", "softbreak", "hardbreak", "code_inline", "image", "html_inline"] := by
        simp [htext, hsoft, hhard, hcode, himage, hhtml]
      have h : InlineWay s t st _ := .other hother hcloses
    · rw [if_pos hcontent] at h
      exact h
    · rw [if_neg hcontent] at h
      exact h
  · exact .opens kind hk

def closedBlock (tasks : Bool) (f : BlockFrame) : Tree Info :=
  if f.info.kind = Kind.listItem ∧ tasks then
    let item := detectTask f.info f.children.reverse
    .node item.1 item.2
  else f.close

/-- The ways of closing a block: as it is, or as a task, whose first text loses the box. -/
inductive ClosedWay (tasks : Bool) (f : BlockFrame) : Tree Info → Prop
  | plain : ClosedWay tasks f f.close
  | task (ht : tasks = true) (hi : f.info.kind = Kind.listItem) (paragraph text : Info)
      (below others rest : List (Tree Info))
      (hf : f.children.reverse = .node paragraph (.node text below :: others) :: rest)
      (hp : paragraph.kind = Kind.paragraph) (hk : text.kind = Kind.text) (done : Bool) (n : Nat)
      (hbox : taskBox? (text.value.getD []) = some (done, n)) :
    ClosedWay tasks f (.node { f.info with checked := some done }
      (.node paragraph (dropText text n below ++ others) :: rest))

theorem closedBlock_way (tasks : Bool) (f : BlockFrame) :
    ClosedWay tasks f (closedBlock tasks f) := by
  unfold closedBlock
  split
  · next hitem =>
    unfold detectTask
    split
    · next paragraph text below others rest hf =>
      split_ifs with hkinds
      · split
        · next done n hbox =>
          exact .task hitem.2 hitem.1 paragraph text below others rest hf hkinds.1 hkinds.2 done n
            hbox
        · exact .plain
      · exact .plain
    · exact .plain
  · exact .plain

theorem dropText_cases (i : Info) (n : Nat) (below : List (Tree Info)) :
    dropText i n below = [] ∧ (i.value.getD []).length ≤ n ∨
      ∃ w, dropText i n below = [.node w below] ∧ w.kind = i.kind ∧ w.value.getD [] ≠ [] := by
  unfold dropText
  dsimp only
  split_ifs with hrest
  · exact .inl ⟨rfl, List.drop_eq_nil_iff.1 (List.isEmpty_iff.1 hrest)⟩
  · exact .inr ⟨_, rfl, rfl, fun h => hrest (List.isEmpty_iff.2 h)⟩

/-- The ways of a block token, by nesting and type. -/
inductive BlockWay (tasks : Bool) (t : BlockToken) (st : BlockState) :
    Except Fault BlockState → Prop
  | opensNone (hn : t.nesting = .opens) (hk : blockKind? t.type = none) :
    BlockWay tasks t st (.ok st)
  | opens (hn : t.nesting = .opens) (kind : Kind) (hk : blockKind? t.type = some kind) :
    BlockWay tasks t st (openedInfo st t kind >>= fun info => st.top.map fun _ =>
      { st with
        frames := ⟨info, []⟩ :: st.frames
        quoteDepth := if kind = Kind.blockquote then st.quoteDepth + 1 else st.quoteDepth })
  | closesNone (hn : t.nesting = .closes) (hk : blockKind? (openingOf t.type) = none) :
    BlockWay tasks t st (.ok st)
  | closesRoot (hn : t.nesting = .closes) (hk : (blockKind? (openingOf t.type)).isSome)
      (hf : st.frames = []) :
    BlockWay tasks t st
      (if st.rootOpen then .ok { st with rootOpen := false } else .error .noOpenBlock)
  | closes (hn : t.nesting = .closes) (hk : (blockKind? (openingOf t.type)).isSome)
      (f : BlockFrame) (rest : List BlockFrame) (hf : st.frames = f :: rest) :
    BlockWay tasks t st (BlockState.add { st with
      frames := rest
      quoteDepth := if f.info.kind = Kind.blockquote then st.quoteDepth - 1 else st.quoteDepth }
      (closedBlock tasks f))
  | inline (hn : t.nesting = .stands) (ht : t.type = "inline") :
    BlockWay tasks t st (st.top >>= fun children =>
      (addInline st.source (t.map.map fun m => m.1 + (st.source.offset : Int)) children
        t.children).map st.setTop)
  | leaf (hn : t.nesting = .stands) (ht : t.type ≠ "inline") :
    BlockWay tasks t st (st.top >>= fun children =>
      (st.spanOf t.map).map fun span => st.setTop (.node (leafInfo span t) [] :: children))

theorem blockStep_way (tasks : Bool) (t : BlockToken) (st : BlockState) :
    BlockWay tasks t st (blockStep tasks st t) := by
  unfold blockStep
  rcases hn : t.nesting with _ | _ | _
  · rcases hk : blockKind? t.type with _ | kind
    · exact .opensNone hn hk
    · have h : BlockWay tasks t st _ := .opens hn kind hk
      simp only [← bind_ok_eq_map] at h
      exact h
  · dsimp only
    split_ifs with hk
    · obtain ⟨source, root, rootOpen, _ | ⟨f, rest⟩, quoteDepth⟩ := st
      · exact .closesRoot hn hk rfl
      · have h : BlockWay tasks t ⟨source, root, rootOpen, f :: rest, quoteDepth⟩ _ :=
          .closes hn hk f rest rfl
        unfold closedBlock at h
        by_cases htask : f.info.kind = Kind.listItem ∧ tasks
        · rw [if_pos htask] at h
          simp only [closeBlock, if_pos htask]
          exact h
        · rw [if_neg htask] at h
          simp only [closeBlock, if_neg htask]
          exact h
    · exact .closesNone hn (Option.not_isSome_iff_eq_none.1 hk)
  · dsimp only
    by_cases ht : t.type = "inline"
    · have h : BlockWay tasks t st _ := .inline hn ht
      simp only [← bind_ok_eq_map] at h
      simp only [if_pos ht]
      exact h
    · have h : BlockWay tasks t st _ := .leaf hn ht
      simp only [← bind_ok_eq_map] at h
      simp only [if_neg ht]
      exact h

end Outline.Document
