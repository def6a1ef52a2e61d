import Outline.Proofs.Progress
import Outline.Proofs.Spotting

/-! Where the pieces of running text were found. The leaves of an inline token are looked for one
after the other, and the search never goes back. So the pieces of a token stand in the order of
their tokens, each on a line of the source, and a piece that was looked for by its content has this
content in the source (`pieces_located`). -/

namespace Outline

namespace Document

def IsPiece (token : InlineToken) : Prop :=
  token.nesting ≠ .closes ∧ token.type ∈ ["text", "code_inline", "image", "html_inline"]

instance (token : InlineToken) : Decidable (IsPiece token) := inferInstanceAs (Decidable (_ ∧ _))

/-- The search for a token of running text. -/
def Source.find (s : Source) (token : InlineToken) (c : Search) :
    Except Fault (Option Span × Search) :=
  if IsPiece token then
    if token.type = "image" then s.locateImage c else s.locate token.content c
  else .ok (none, c)

/-- What a leaf becomes after the nodes given newest first, once it was looked for. -/
def addPiece (token : InlineToken) (span : Option Span) (us : List (Tree Info)) :
    List (Tree Info) :=
  if token.type = "text" then
    if token.content.isEmpty then us else InlineState.addText token.content span us
  else if token.type = "code_inline" then
    .node { kind := Kind.inlineCode, value := some token.content, span := span } [] :: us
  else if token.type = "image" then
    .node { kind := Kind.image, url := token.attributes.text? "src", alt := some token.content
            title := token.attributes.text? "title", span := span } [] :: us
  else .node { kind := Kind.html, value := some token.content, span := span } [] :: us

def pieces (s : Source) : InlineState → List InlineToken → List (InlineToken × Span)
  | _, [] => []
  | st, token :: tokens =>
    (((s.find token st.search).toOption.bind (·.1)).map fun p => (token, p)).toList ++
      match inlineStep s st token with
      | .ok st' => pieces s st' tokens
      | .error _ => []

def BlockState.pieces (st : BlockState) (token : BlockToken) : List (InlineToken × Span) :=
  match st.top with
  | .ok us => Document.pieces st.source
    ⟨us, [], ⟨token.map.map fun m => m.1 + (st.source.offset : Int), 0⟩⟩ token.children
  | .error _ => []

variable {s : Source} {t : Text} {token : InlineToken} {st st' : InlineState}

theorem onTop_id (st : InlineState) : st.onTop id = st := by
  obtain ⟨base, _ | ⟨f, rest⟩, search⟩ := st
  · rfl
  · rfl

/-- A leaf that is looked for goes below the innermost container with the span that was found, and
the search goes on where this one ended. -/
theorem inlineStep_of_piece (s : Source) (st : InlineState) (h : IsPiece token) :
    inlineStep s st token = (s.find token st.search).map fun r =>
      InlineState.onTop { st with search := r.2 } (addPiece token r.1) := by
  obtain ⟨hn, htype⟩ := id h
  have hw := inlineStep_way s token st
  generalize inlineStep s st token = x at hw ⊢
  have hfind : ∀ c, token.type ≠ "image" → s.find token c = s.locate token.content c := by
    intro c himage
    rw [Source.find, if_pos h, if_neg himage]
  cases hw with
  | opens kind hk =>
    simp only [List.mem_cons, List.not_mem_nil, or_false] at htype
    obtain ht | ht | ht | ht := htype <;> rw [ht] at hk <;> cases hk
  | closesNone hn' => exact absurd hn' hn
  | closes hn' => exact absurd hn' hn
  | emptyText ht hc =>
    have hadd : addPiece token none = id := by
      funext us
      simp [addPiece, ht, hc]
    have hlocate : s.locate token.content st.search = .ok (none, st.search) := by
      rw [hc]
      rfl
    rw [hfind _ (by rw [ht]; decide), hlocate, Except.map, hadd, onTop_id]
  | text ht hc =>
    have hadd : addPiece token = InlineState.addText token.content := by
      funext span us
      simp [addPiece, ht, hc]
    rw [hfind _ (by rw [ht]; decide), hadd]
  | softBreak ht => simp [ht] at htype
  | hardBreak ht => simp [ht] at htype
  | literal kind ht =>
    have himage : token.type ≠ "image" := by
      obtain ⟨ht, -⟩ | ⟨ht, -⟩ := ht <;> rw [ht] <;> decide
    have hadd : ∀ span, addPiece token span =
        (.node { kind := kind, value := some token.content, span := span } [] :: ·) := by
      intro span
      funext us
      obtain ⟨ht, rfl⟩ | ⟨ht, rfl⟩ := ht <;> simp [addPiece, ht]
    rw [hfind _ himage]
    simp only [hadd]
    rfl
  | image ht =>
    have hadd : ∀ span, addPiece token span = (.node {
        kind := Kind.image, url := token.attributes.text? "src", alt := some token.content
        title := token.attributes.text? "title", span := span } [] :: ·) := by
      intro span
      funext us
      simp [addPiece, ht]
    rw [Source.find, if_pos h, if_pos ht]
    simp only [hadd]
    rfl
  | other ht =>
    simp only [List.mem_cons, List.not_mem_nil, or_false, not_or] at ht htype
    tauto

theorem inlineStep_spotted (hs : s.Reads t) (h : st.Fits t) (hx : inlineStep s st token = .ok st') :
    ∃ r, s.find token st.search = .ok r ∧ st.search.Before r.2 ∧ r.2.Before st'.search ∧
      ∀ p ∈ r.1, Spotted t st.search p r.2 ∧
        (token.type ≠ "image" → Slices t p token.content) := by
  by_cases hpiece : IsPiece token
  · rw [inlineStep_of_piece s st hpiece] at hx
    obtain ⟨r, hr, rfl⟩ := map_eq_ok.1 hx
    rw [InlineState.search_onTop]
    refine ⟨r, hr, ?_⟩
    rw [Source.find, if_pos hpiece] at hr
    split at hr
    · next himage =>
      obtain rfl | ⟨p, hp, hspotted⟩ := locateImage_found hs h.search hr
      · exact ⟨.refl _, .refl _, nofun⟩
      · refine ⟨hspotted.before, .refl _, ?_⟩
        rw [hp]
        rintro _ ⟨⟩
        exact ⟨hspotted, fun hne => absurd himage hne⟩
    · obtain rfl | ⟨p, hp, hspotted, hslices⟩ := locate_found hs h.search hr
      · exact ⟨.refl _, .refl _, nofun⟩
      · refine ⟨hspotted.before, .refl _, ?_⟩
        rw [hp]
        rintro _ ⟨⟩
        exact ⟨hspotted, fun _ => hslices⟩
  · refine ⟨(none, st.search), if_neg hpiece, .refl _, ?_, nofun⟩
    have hw := inlineStep_way s token st
    rw [hx] at hw
    generalize hy : Except.ok st' = y at hw
    cases hw with
    | opens => cases hy; exact .refl _
    | closesNone => cases hy; exact .refl _
    | closes hn f rest hf =>
      obtain ⟨r, hr, rfl⟩ := map_eq_ok.1 hy.symm
      rw [InlineState.search_onTop]
      exact wrap_before hr
    | emptyText => cases hy; exact .refl _
    | text ht hc hn => exact absurd ⟨hn, by simp [ht]⟩ hpiece
    | softBreak =>
      cases hy
      rw [InlineState.search_onTop]
      exact .nextLine _
    | hardBreak =>
      cases hy
      rw [InlineState.push, InlineState.search_onTop]
      exact .nextLine _
    | literal kind ht hn =>
      obtain ⟨ht, -⟩ | ⟨ht, -⟩ := ht <;> exact absurd ⟨hn, by simp [ht]⟩ hpiece
    | image ht hn => exact absurd ⟨hn, by simp [ht]⟩ hpiece
    | other =>
      cases hy
      rw [InlineState.push, InlineState.search_onTop]
      exact .refl _

theorem pieces_ordered (hs : s.Reads t) (h : st.Fits t) (tokens : List InlineToken) :
    (pieces s st tokens).Pairwise (fun a b => a.2.stop ≤ b.2.start) ∧
      ∀ a ∈ pieces s st tokens, st.search.Reaches a.2.start ∧ OnOneLine t a.2 ∧
        (a.1.type ≠ "image" → Slices t a.2 a.1.content) := by
  induction tokens generalizing st with
  | nil => exact ⟨.nil, nofun⟩
  | cons token tokens ih =>
    obtain ⟨st', hx, hfits⟩ := (inlineStep_way s token st).fits hs h
    obtain ⟨⟨span, c⟩, hfind, hbefore, hafter, hspan⟩ := inlineStep_spotted hs h hx
    obtain ⟨horder, hall⟩ := ih hfits
    rw [pieces, hfind, hx]
    rcases span with _ | p
    · refine ⟨horder, fun a ha => ?_⟩
      obtain ⟨hreaches, hrest⟩ := hall a ha
      exact ⟨(hreaches.of_before hafter).of_before hbefore, hrest⟩
    · obtain ⟨hspotted, hslices⟩ := hspan p rfl
      refine ⟨List.pairwise_cons.2 ⟨fun b hb => ?_, horder⟩, List.forall_mem_cons.2
        ⟨⟨hspotted.reaches, hspotted.place, hslices⟩, fun a ha => ?_⟩⟩
      · exact hspotted.stop_le ((hall b hb).1.of_before hafter)
      · obtain ⟨hreaches, hrest⟩ := hall a ha
        exact ⟨(hreaches.of_before hafter).of_before hbefore, hrest⟩

/-- Whatever tokens with lines from zero on a document is made of: the spans found for the running
text of a token, in the order of its leaves, each start where the ones before stop, or later; each
is on one line of the source, and except for images the source has from offset to offset what the
leaf says. These are the spans that the leaves are given in the tree. -/
theorem pieces_located {load : Loader} {settings : ReadingSettings}
    {tokens pre : List BlockToken} {token : BlockToken} {st : BlockState}
    (hm : ∀ token ∈ tokens, ∀ m ∈ token.map, 0 ≤ m.1 ∧ 0 ≤ m.2) (hp : pre ++ [token] <+: tokens)
    (h : stateAfter load settings t pre = .ok st) :
    (st.pieces token).Pairwise (fun a b => a.2.stop ≤ b.2.start) ∧
      (∀ a ∈ st.pieces token, OnOneLine t a.2 ∧
        (a.1.type ≠ "image" → Slices t a.2 a.1.content)) ∧
      ∀ leaf ∈ token.children, IsPiece leaf → ∀ c : InlineState,
        inlineStep st.source c leaf = (st.source.find leaf c.search).map fun r =>
          InlineState.onTop { c with search := r.2 } (addPiece leaf r.1) := by
  have hpre : pre <+: tokens := (List.prefix_append _ _).trans hp
  have hfits : st.Fits t :=
    stateAfter_fits (fun token htoken m hmap => (hm token (hpre.subset htoken) m hmap).1) h
  have hgiven : ∀ leaf ∈ token.children, IsPiece leaf → ∀ c : InlineState,
      inlineStep st.source c leaf = (st.source.find leaf c.search).map fun r =>
        InlineState.onTop { c with search := r.2 } (addPiece leaf r.1) :=
    fun _ _ hpiece c => inlineStep_of_piece st.source c hpiece
  unfold BlockState.pieces
  rcases htop : st.top with e | us
  · exact ⟨.nil, nofun, hgiven⟩
  · have hline := line_nonneg (s := st.source) fun m hmap =>
      (hm token (hp.subset (by simp)) m hmap).1
    have hstart : InlineState.Fits t
        ⟨us, [], ⟨token.map.map fun m => m.1 + (st.source.offset : Int), 0⟩⟩ :=
      ⟨hline, hfits.top_of_ok htop, by simp⟩
    obtain ⟨horder, hall⟩ := pieces_ordered hfits.source hstart token.children
    exact ⟨horder, fun a ha => (hall a ha).2, hgiven⟩

def leaves : Text := "a `b` ![c](d)\n[e](f) e\n".toList

/-- The last text is found after the link, though its letter is in the link as well. -/
theorem pieces_located_sample :
    (∀ token ∈ Markdown.read {} leaves, ∀ m ∈ token.map, 0 ≤ m.1 ∧ 0 ≤ m.2) ∧
    ∃ pre token st, pre ++ [token] <+: Markdown.read {} leaves ∧
      stateAfter Yaml.load {} leaves pre = .ok st ∧
      (st.pieces token).map (fun a => (a.2.start.offset, a.2.stop.offset)) =
        [(some 0, some 2), (some 3, some 4), (some 5, some 6), (some 6, some 13),
          (some 15, some 16), (some 20, some 22)] ∧
      (st.pieces token).Pairwise (fun a b => a.2.stop ≤ b.2.start) ∧
      ∀ a ∈ st.pieces token, OnOneLine leaves a.2 ∧
        (a.1.type ≠ "image" → Slices leaves a.2 a.1.content) := by
  have hm : ∀ token ∈ Markdown.read {} leaves, ∀ m ∈ token.map, 0 ≤ m.1 ∧ 0 ≤ m.2 := by
    decide +kernel
  -- states have no decidable equality; the offsets in them have
  have hoffsets : ((stateAfter Yaml.load {} leaves
      ((Markdown.read {} leaves).take 1)).toOption.bind fun st =>
        (Markdown.read {} leaves)[1]?.map fun token =>
          (st.pieces token).map fun a => (a.2.start.offset, a.2.stop.offset)) =
      some [(some 0, some 2), (some 3, some 4), (some 5, some 6), (some 6, some 13),
        (some 15, some 16), (some 20, some 22)] := by
    decide +kernel
  rcases hst : stateAfter Yaml.load {} leaves ((Markdown.read {} leaves).take 1) with e | st
  · rw [hst] at hoffsets
    cases hoffsets
  rcases htoken : (Markdown.read {} leaves)[1]? with _ | token
  · rw [hst, htoken] at hoffsets
    cases hoffsets
  rw [hst, htoken] at hoffsets
  have hp : (Markdown.read {} leaves).take 1 ++ [token] <+: Markdown.read {} leaves := by
    have htake : (Markdown.read {} leaves).take 2 =
        (Markdown.read {} leaves).take 1 ++ [token] := by
      rw [List.take_add_one, htoken]
      rfl
    rw [← htake]
    exact List.take_prefix 2 _
  obtain ⟨horder, hall, -⟩ := pieces_located hm hp hst
  exact ⟨hm, _, token, st, hp, hst, Option.some.inj hoffsets, horder, hall⟩

end Document
end Outline
