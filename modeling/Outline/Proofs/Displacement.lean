import Outline.Document.Inline
import Outline.Proofs.LineTable
import Outline.Proofs.Preorder

/-! A source that stands at the end of a longer one. Looked up a number of lines further down, the
longer source has the same lines, which start a number of characters later (`Displacement.Holds`).
Everything that is made from the shorter source is made from the longer one too, displaced. Each
function gets one statement, `Tracks`: its result for the longer source is the displaced result for
the shorter one, faults included, and the lines in it are proper line numbers, so that the next
function may look them up. This module goes up to the running text of a block. -/

namespace Outline

open Document

/-- How much of a longer text comes before a text: whole lines, and the characters in them. -/
structure Displacement where
  lines : Nat
  characters : Nat

namespace Displacement

variable (d : Displacement)

def point (p : Point) : Point :=
  { p with line := p.line + d.lines, offset := p.offset.map (· + (d.characters : Int)) }

def span (s : Span) : Span := ⟨d.point s.start, d.point s.stop⟩

def info (i : Info) : Info := { i with span := i.span.map d.span }

def tree (t : Tree Info) : Tree Info := t.map d.info

def search (c : Search) : Search := { c with line := c.line.map (· + (d.lines : Int)) }

def found (r : Option Span × Search) : Option Span × Search := (r.1.map d.span, d.search r.2)

def inlineFrame (f : InlineFrame) : InlineFrame :=
  { f with info := d.info f.info, children := f.children.map d.tree }

/-- The displaced state, in which the enclosing block has more children before the others. -/
def inlineState (before : List (Tree Info)) (st : InlineState) : InlineState :=
  { base := st.base.map d.tree ++ before
    frames := st.frames.map d.inlineFrame
    search := d.search st.search }

/-- The longer source has the lines of the shorter one, so many lines and characters later. -/
structure Holds (whole part : Source) : Prop where
  length : whole.lines.length = part.lines.length + d.lines
  line : ∀ i, 0 ≤ i → whole.line? (i + d.lines) = part.line? i
  start : ∀ i, 0 ≤ i → Text.entry? whole.starts (i + d.lines) =
    Option.map (· + d.characters) ( Text.entry? part.starts i)
  offset : whole.offset = part.offset + d.lines
  nonempty : part.lines ≠ []

@[simp] theorem tree_node (i : Info) (ts : List (Tree Info)) :
    d.tree (.node i ts) = .node (d.info i) (ts.map d.tree) :=
  Tree.map_node d.info i ts

@[simp] theorem label_tree (t : Tree Info) : (d.tree t).label = d.info t.label :=
  Tree.label_map d.info t

@[simp] theorem kind_info (i : Info) : (d.info i).kind = i.kind := rfl

@[simp] theorem span_info (i : Info) : (d.info i).span = i.span.map d.span := rfl

theorem info_of_none {i : Info} (h : i.span = none) : d.info i = i := by
  cases i
  cases h
  rfl

theorem filterMap_span (ts : List (Tree Info)) :
    (ts.map d.tree).filterMap (·.label.span) = (ts.filterMap (·.label.span)).map d.span := by
  rw [List.filterMap_map, List.map_filterMap]
  apply List.filterMap_congr
  intro t ht
  simp

theorem search_past (c : Search) (line : Int) (column : Nat) :
    (if (d.search c).line = some (line + d.lines) then { d.search c with column := column }
      else d.search c) =
    d.search (if c.line = some line then { c with column := column } else c) := by
  have hline : (d.search c).line = some (line + d.lines) ↔ c.line = some line := by
    cases hc : c.line with
    | none => simp [search, hc]
    | some i => simp [search, hc]
  simp only [hline]
  split <;> rfl

end Displacement

def Span.Proper (s : Span) : Prop := 1 ≤ s.start.line ∧ 1 ≤ s.stop.line

namespace Document

def Search.Proper (c : Search) : Prop := ∀ i ∈ c.line, 0 ≤ i

def Located (ts : List (Tree Info)) : Prop := ∀ t ∈ ts, ∀ s ∈ t.label.span, s.Proper

def Found (r : Option Span × Search) : Prop := (∀ s ∈ r.1, s.Proper) ∧ r.2.Proper

/-- No text stands at the head, to which more text would be added. -/
def NoText (ts : List (Tree Info)) : Prop := ∀ t ∈ ts.head?, t.label.kind ≠ Kind.text

/-- The search and everything in the open containers are at proper lines. -/
structure InlineState.Proper (st : InlineState) : Prop where
  search : st.search.Proper
  frames : ∀ f ∈ st.frames, Located f.children

theorem Search.Proper.nextLine {c : Search} (hc : c.Proper) : c.nextLine.Proper := by
  intro i hi
  obtain ⟨j, hj, rfl⟩ := Option.map_eq_some_iff.1 hi
  have := hc j hj
  omega

theorem Located.nil : Located [] := by
  intro t ht
  cases ht

theorem Located.cons {t : Tree Info} {ts : List (Tree Info)} (ht : ∀ s ∈ t.label.span, s.Proper)
    (hts : Located ts) : Located (t :: ts) := by
  intro u hu
  rcases List.mem_cons.1 hu with rfl | hu
  · exact ht
  · exact hts u hu

section Tracks

variable {α α' β β' γ : Type} {P : α → Prop} {Q : β → Prop} {m : α → α'} {n : β → β'}
  {x : Except Fault α} {y : Except Fault α'} {f : α → Except Fault β} {g : α' → Except Fault β'}

/-- The second result is the first one under a map, and if there is one it has a property. -/
structure Tracks (P : α → Prop) (m : α → α') (x : Except Fault α) (y : Except Fault α') : Prop where
  eq : y = x.map m
  ok : ∀ a, x = .ok a → P a

theorem Tracks.pure {a : α} {b : α'} (h : P a) (e : b = m a) : Tracks P m (.ok a) (.ok b) where
  eq := by rw [e]; rfl
  ok _ ha := by cases ha; exact h

theorem Tracks.error (e : Fault) : Tracks P m (.error e) (.error e) where
  eq := rfl
  ok _ ha := by cases ha

theorem Tracks.same (x : Except Fault α) : Tracks (fun _ => True) id x x where
  eq := by cases x <;> rfl
  ok _ _ := trivial

theorem Tracks.bind (h : Tracks P m x y) (hf : ∀ a, P a → Tracks Q n (f a) (g (m a))) :
    Tracks Q n (x >>= f) (y >>= g) := by
  rw [h.eq]
  rcases x with e | a
  · exact Tracks.error e
  · exact hf a (h.ok a rfl)

theorem Tracks.ite {p : Prop} [Decidable p] {x' : Except Fault α} {y' : Except Fault α'}
    (h : p → Tracks P m x y) (h' : ¬ p → Tracks P m x' y') :
    Tracks P m (if p then x else x') (if p then y else y') := by
  by_cases hp : p
  · rw [if_pos hp, if_pos hp]
    exact h hp
  · rw [if_neg hp, if_neg hp]
    exact h' hp

theorem Tracks.foldlM {f : α → γ → Except Fault α} {g : α' → γ → Except Fault α'} {ts : List γ}
    {a : α} (hf : ∀ t ∈ ts, ∀ a, P a → Tracks P m (f a t) (g (m a) t)) (ha : P a) :
    Tracks P m (ts.foldlM f a) (ts.foldlM g (m a)) := by
  induction ts generalizing a with
  | nil => exact Tracks.pure ha rfl
  | cons t ts ih =>
    rw [List.foldlM_cons, List.foldlM_cons]
    apply (hf t List.mem_cons_self a ha).bind
    intro b hb
    apply ih _ hb
    intro t' ht'
    exact hf t' (List.mem_cons_of_mem _ ht')

end Tracks
end Document

namespace Displacement.Holds

variable {d : Displacement} {whole part : Source} {c : Search}

theorem point? (h : d.Holds whole part) {line : Int} (hl : 1 ≤ line) (column : Int) :
    whole.point? (line + d.lines) column = (part.point? line column).map d.point := by
  have hs := h.start (line - 1) (by omega)
  have he : line + d.lines - 1 = line - 1 + d.lines := by omega
  unfold Source.point?
  rw [he, hs]
  cases Text.entry? part.starts (line - 1) with
  | none => rfl
  | some start =>
    apply congrArg some
    simp [point]
    omega

theorem span? (h : d.Holds whole part) {start stop : Int} (h1 : 1 ≤ start) (h2 : 1 ≤ stop)
    (startColumn stopColumn : Int) :
    whole.span? (start + d.lines) startColumn (stop + d.lines) stopColumn =
      (part.span? start startColumn stop stopColumn).map d.span := by
  unfold Source.span?
  rw [h.point? h1, h.point? h2]
  cases part.point? start startColumn with
  | none => rfl
  | some p =>
    cases part.point? stop stopColumn with
    | none => rfl
    | some q => rfl

/-- A span between places of the shorter source, made in the longer one. -/
theorem spanOf (h : d.Holds whole part) {start stop start' stop' : Int} (h1 : 1 ≤ start)
    (h2 : 1 ≤ stop) (e1 : start' = start + d.lines) (e2 : stop' = stop + d.lines)
    (startColumn stopColumn : Int) :
    Tracks Span.Proper d.span (part.spanOf start startColumn stop stopColumn)
      (whole.spanOf start' startColumn stop' stopColumn) := by
  subst e1 e2
  unfold Source.spanOf
  rw [h.span? h1 h2]
  unfold Source.span? Source.point?
  cases Text.entry? part.starts (start - 1) with
  | none => exact Tracks.error _
  | some a =>
    cases Text.entry? part.starts (stop - 1) with
    | none => exact Tracks.error _
    | some b => exact Tracks.pure ⟨h1, h2⟩ rfl

theorem searchLine? (h : d.Holds whole part) (hc : c.Proper) :
    Tracks (fun o => ∀ l ∈ o, 0 ≤ l.1) (Option.map fun l => (l.1 + (d.lines : Int), l.2))
      (part.searchLine? c) (whole.searchLine? (d.search c)) := by
  obtain ⟨_ | i, column⟩ := c
  · exact Tracks.pure (by simp) rfl
  · have hi : 0 ≤ i := hc i rfl
    have hlt : (whole.lines.length : Int) ≤ i + d.lines ↔ (part.lines.length : Int) ≤ i := by
      rw [h.length]
      omega
    simp only [Source.searchLine?, search, Option.map_some, h.line i hi, hlt]
    split
    · exact Tracks.pure (by simp) rfl
    · cases part.line? i with
      | none => exact Tracks.error _
      | some l => exact Tracks.pure (by simpa using hi) rfl

theorem locate (h : d.Holds whole part) (hc : c.Proper) (value : Text) :
    Tracks Found d.found (part.locate value c) (whole.locate value (d.search c)) := by
  have hnone : Tracks Found d.found (.ok (none, c)) (.ok (none, d.search c)) :=
    Tracks.pure ⟨by simp, hc⟩ rfl
  unfold Source.locate
  split
  · exact hnone
  · apply (h.searchLine? hc).bind
    rintro (_ | ⟨i, l⟩) hi
    · exact hnone
    · have hi : 0 ≤ i := hi (i, l) rfl
      simp only [Option.map_some, search]
      cases Text.findFrom? value l c.column with
      | none => exact hnone
      | some k =>
        apply (h.spanOf (by omega) (by omega) (by omega) (by omega) _ _).bind
        intro span hs
        exact Tracks.pure ⟨by simpa using hs, hc⟩ rfl

theorem locateImage (h : d.Holds whole part) (hc : c.Proper) :
    Tracks Found d.found (part.locateImage c) (whole.locateImage (d.search c)) := by
  have hnone : Tracks Found d.found (.ok (none, c)) (.ok (none, d.search c)) :=
    Tracks.pure ⟨by simp, hc⟩ rfl
  unfold Source.locateImage
  apply (h.searchLine? hc).bind
  rintro (_ | ⟨i, l⟩) hi
  · exact hnone
  · have hi : 0 ≤ i := hi (i, l) rfl
    simp only [Option.map_some, search]
    cases Text.findFrom? ['!', '['] l c.column with
    | none => exact hnone
    | some start =>
      dsimp only
      cases Text.findFrom? [')'] l start with
      | none => exact hnone
      | some close =>
        apply (h.spanOf (by omega) (by omega) (by omega) (by omega) _ _).bind
        intro span hs
        exact Tracks.pure ⟨by simpa using hs, hc⟩ rfl

theorem wrap (h : d.Holds whole part) (hc : c.Proper) {children : List (Tree Info)}
    (hch : Located children) (kind : Kind) (markup : Text) :
    Tracks Found d.found (part.wrap kind markup children c)
      (whole.wrap kind markup (children.map d.tree) (d.search c)) := by
  have hnone : Tracks Found d.found (.ok (none, c)) (.ok (none, d.search c)) :=
    Tracks.pure ⟨by simp, hc⟩ rfl
  have hlocated : ∀ s ∈ children.filterMap (·.label.span), s.Proper := by
    intro s hs
    obtain ⟨t, ht, hts⟩ := List.mem_filterMap.1 hs
    exact hch t ht s hts
  unfold Source.wrap
  simp only [d.filterMap_span, List.head?_map, List.getLast?_map]
  cases hf : (children.filterMap (·.label.span)).head? with
  | none => exact hnone
  | some first =>
    cases hl : (children.filterMap (·.label.span)).getLast? with
    | none => exact hnone
    | some last =>
      have hfirst := hlocated first (List.mem_of_head? hf)
      have hlast := hlocated last (List.mem_of_getLast? hl)
      have hstop : last.stop.line + d.lines - 1 = last.stop.line - 1 + d.lines := by omega
      have hline := h.line (last.stop.line - 1) (by have := hlast.2; omega)
      simp only [Option.map_some, span, point, hstop, hline]
      split
      · apply (h.spanOf hfirst.1 hlast.2 rfl rfl _ _).bind
        intro s hs
        exact Tracks.pure ⟨by simpa using hs, hc⟩ rfl
      · cases part.line? (last.stop.line - 1) with
        | none => exact Tracks.error _
        | some l =>
          apply (h.spanOf hfirst.1 hlast.2 rfl rfl _ _).bind
          intro s hs
          refine Tracks.pure ⟨by simpa using hs, ?_⟩ ?_
          · dsimp only
            split
            · exact hc
            · exact hc
          · rw [found, ← d.search_past]
            rfl

end Displacement.Holds

namespace Displacement

variable {d : Displacement} {whole part : Source} {before : List (Tree Info)} {st : InlineState}
  {f g : List (Tree Info) → List (Tree Info)}

/-- The second change of children is the first one displaced, whatever other children come before,
and it keeps spans proper. -/
structure Carries (d : Displacement) (f g : List (Tree Info) → List (Tree Info)) : Prop where
  eq : ∀ ts before, NoText before → g (ts.map d.tree ++ before) = (f ts).map d.tree ++ before
  located : ∀ ts, Located ts → Located (f ts)

theorem Carries.cons {t u : Tree Info} (ht : ∀ s ∈ t.label.span, s.Proper) (hu : u = d.tree t) :
    Carries d (t :: ·) (u :: ·) where
  eq ts before _ := by rw [hu]; rfl
  located ts hts := Located.cons ht hts

theorem Carries.addText {span : Option Span} (hs : ∀ s ∈ span, s.Proper) (value : Text) :
    Carries d (InlineState.addText value span) (InlineState.addText value (span.map d.span)) where
  eq ts before hb := by
    cases ts with
    | nil =>
      cases before with
      | nil => simp [InlineState.addText, info]
      | cons t before =>
        obtain ⟨i, below⟩ := t
        have hi : i.kind ≠ Kind.text := hb _ rfl
        simp [InlineState.addText, info, hi]
    | cons t ts =>
      obtain ⟨i, below⟩ := t
      by_cases hi : i.kind = Kind.text
      · cases hspan : i.span with
        | none => simp [InlineState.addText, info, hi, hspan]
        | some a =>
          cases span with
          | none => simp [InlineState.addText, info, hi, hspan]
          | some b => simp [InlineState.addText, info, hi, hspan, Displacement.span]
      · simp [InlineState.addText, info, hi]
  located ts hts := by
    cases ts with
    | nil => exact Located.cons hs hts
    | cons t ts =>
      obtain ⟨i, below⟩ := t
      have hi : ∀ s ∈ i.span, s.Proper := hts _ List.mem_cons_self
      have htail : Located ts := fun u hu => hts u (List.mem_cons_of_mem _ hu)
      simp only [InlineState.addText]
      split
      · apply Located.cons _ htail
        intro s hjoined
        cases hspan : i.span with
        | none => simp [Tree.label, hspan] at hjoined
        | some a =>
          cases span with
          | none =>
            have hsa : a = s := by simpa [Tree.label, hspan] using hjoined
            exact hi s (hspan.trans (congrArg some hsa))
          | some b =>
            have hsa : Span.mk a.start b.stop = s := by simpa [Tree.label, hspan] using hjoined
            rw [← hsa]
            exact ⟨(hi a hspan).1, (hs b rfl).2⟩
      · exact Located.cons hs hts

theorem Carries.onTop (h : Carries d f g) (hst : st.Proper) (hb : NoText before) :
    Tracks InlineState.Proper (d.inlineState before) (.ok (st.onTop f))
      (.ok ((d.inlineState before st).onTop g)) := by
  obtain ⟨base, _ | ⟨top, frames⟩, search⟩ := st
  · apply Tracks.pure ⟨hst.search, hst.frames⟩
    simp [InlineState.onTop, inlineState, h.eq base before hb]
  · have htop := h.eq top.children [] (by simp [NoText])
    simp only [List.append_nil] at htop
    refine Tracks.pure ⟨hst.search, ?_⟩ ?_
    · intro i hi
      rcases List.mem_cons.1 hi with rfl | hi
      · exact h.located _ (hst.frames top List.mem_cons_self)
      · exact hst.frames i (List.mem_cons_of_mem _ hi)
    · simp [InlineState.onTop, inlineState, inlineFrame, htop]

theorem search_nextLine (c : Search) : (d.search c).nextLine = d.search c.nextLine := by
  obtain ⟨_ | i, column⟩ := c
  · rfl
  · simp [search, Search.nextLine]
    omega

theorem close_inlineFrame (f : InlineFrame) (span : Option Span) :
    (d.inlineFrame f).close (span.map d.span) = d.tree (f.close span) := by
  rw [InlineFrame.close, InlineFrame.close, tree_node, inlineFrame, ← List.map_reverse]
  rfl

theorem Holds.inlineStep (h : d.Holds whole part) (hb : NoText before) (hst : st.Proper)
    (t : InlineToken) :
    Tracks InlineState.Proper (d.inlineState before) (inlineStep part st t)
      (inlineStep whole (d.inlineState before st) t) := by
  have hlocated : ∀ c : Search, c.Proper → { st with search := c }.Proper :=
    fun c hc => ⟨hc, hst.frames⟩
  -- a new node has no span yet, or one that was found
  have hnode : ∀ i : Info, (∀ s ∈ i.span, s.Proper) →
      Carries d (.node i [] :: ·) (.node (d.info i) [] :: ·) :=
    fun i hi => Carries.cons hi (by simp)
  unfold Document.inlineStep
  cases inlineKind? t.type with
  | some kind =>
    apply Tracks.pure
    · refine ⟨hst.search, ?_⟩
      intro f hf
      rcases List.mem_cons.1 hf with rfl | hf
      · exact Located.nil
      · exact hst.frames f hf
    · rw [inlineState, inlineState, List.map_cons, inlineFrame, d.info_of_none (by split <;> rfl)]
      rfl
  | none =>
    dsimp only
    apply Tracks.ite
    · intro hcloses
      obtain ⟨base, _ | ⟨f, frames⟩, c⟩ := st
      · exact Tracks.pure hst rfl
      · have hf : Located f.children.reverse :=
          fun u hu => hst.frames f List.mem_cons_self u (List.mem_reverse.1 hu)
        simp only [inlineState, List.map_cons, inlineFrame, ← List.map_reverse, kind_info]
        apply (h.wrap hst.search hf f.info.kind f.markup).bind
        rintro ⟨span, c'⟩ ⟨hs, hc⟩
        have hclose : Carries d (f.close span :: ·)
            ((d.inlineFrame f).close (span.map d.span) :: ·) :=
          Carries.cons hs (close_inlineFrame f span)
        have hrest : (InlineState.mk base frames c').Proper :=
          ⟨hc, fun g hg => hst.frames g (List.mem_cons_of_mem _ hg)⟩
        exact hclose.onTop hrest hb
    intro _
    apply Tracks.ite
    · intro htext
      split
      · exact Tracks.pure hst rfl
      · apply (h.locate hst.search t.content).bind
        rintro ⟨span, c⟩ ⟨hs, hc⟩
        exact (Carries.addText hs t.content).onTop (hlocated c hc) hb
    intro _
    apply Tracks.ite
    · intro hsoft
      have hc : (d.search st.search).nextLine = d.search st.search.nextLine := search_nextLine ..
      have hbreak : Carries d (InlineState.addText ['\n'] none) (InlineState.addText ['\n'] none) :=
        Carries.addText (by simp) ['\n']
      simp only [inlineState, hc]
      exact hbreak.onTop (hlocated _ hst.search.nextLine) hb
    intro _
    apply Tracks.ite
    · intro hhard
      have hc : (d.search st.search).nextLine = d.search st.search.nextLine := search_nextLine ..
      simp only [inlineState, hc]
      exact (hnode { kind := Kind.lineBreak } (by simp)).onTop (hlocated _ hst.search.nextLine) hb
    intro _
    apply Tracks.ite
    · intro hcode
      apply (h.locate hst.search t.content).bind
      rintro ⟨span, c⟩ ⟨hs, hc⟩
      exact (hnode _ hs).onTop (hlocated c hc) hb
    intro _
    apply Tracks.ite
    · intro himage
      apply (h.locateImage hst.search).bind
      rintro ⟨span, c⟩ ⟨hs, hc⟩
      exact (hnode _ hs).onTop (hlocated c hc) hb
    intro _
    apply Tracks.ite
    · intro hhtml
      apply (h.locate hst.search t.content).bind
      rintro ⟨span, c⟩ ⟨hs, hc⟩
      exact (hnode _ hs).onTop (hlocated c hc) hb
    intro _
    exact (hnode _ (by simp)).onTop hst hb

/-- What is still open is closed as it is, without a span. -/
theorem finish_inlineState (before : List (Tree Info)) (st : InlineState) :
    (d.inlineState before st).finish = st.finish.map d.tree ++ before := by
  rw [InlineState.finish, InlineState.finish, inlineState, List.map_append, List.append_assoc,
    List.foldl_map]
  congr 1
  refine @List.foldl_hom _ _ _ (List.map d.tree) _ _ st.frames [] ?_
  intro inner f
  rw [List.map_singleton, ← close_inlineFrame, inlineFrame, inlineFrame, List.map_append]
  rfl

theorem Holds.addInline (h : d.Holds whole part) (hb : NoText before) {line : Option Int}
    (hl : ∀ i ∈ line, 0 ≤ i) (base : List (Tree Info)) (ts : List InlineToken) :
    Tracks (fun _ => True) (fun cs => cs.map d.tree ++ before) (addInline part line base ts)
      (addInline whole (line.map (· + (d.lines : Int))) (base.map d.tree ++ before) ts) := by
  have hst : (InlineState.mk base [] ⟨line, 0⟩).Proper := ⟨hl, by simp⟩
  apply (Tracks.foldlM (fun t _ st hst => h.inlineStep hb hst t) hst).bind
  intro st _
  exact Tracks.pure trivial (finish_inlineState before st)

end Displacement
end Outline
