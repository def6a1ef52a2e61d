import Outline.Proofs.BlockSpans

/-! The search for pieces of running text. It never goes back (`Search.Before`): links move it past
their targets, breaks to the next line, and a piece that is found to the end of what was found
(`Spotted`). What is found is on one line, with the text that was looked for. -/

namespace Outline

namespace Text

variable {t l : Text} {i : Nat}

theorem exists_around_line (h : (lines t)[i]? = some l) :
    ∃ before after, t = before ++ l ++ after ∧ before.length = lineStart t i := by
  obtain ⟨before, after, hlength, ht, -⟩ := unlines_modify h id
  rw [unlines_lines] at ht
  exact ⟨before, after, ht, hlength⟩

end Text

namespace Document

structure OnOneLine (t : Text) (p : Span) : Prop where
  line : 1 ≤ p.start.line ∧ p.stop.line = p.start.line
  columns : 1 ≤ p.start.column ∧ p.start.column ≤ p.stop.column
  inside : ∃ l, (Text.lines t)[(p.start.line - 1).toNat]? = some l ∧ p.stop.column ≤ l.length + 1

def Slices (t : Text) (p : Span) (content : Text) : Prop :=
  ∃ a b, p.start.offset = some a ∧ p.stop.offset = some b ∧ Text.slice t a b = content

/-- The search goes on at the same place or later. -/
def Search.Before (c c' : Search) : Prop :=
  ∀ j ∈ c'.line, ∃ i ∈ c.line, i < j ∨ i = j ∧ c.column ≤ c'.column

/-- The point is at the place of the search or later. -/
def Search.Reaches (c : Search) (p : Point) : Prop :=
  ∃ i ∈ c.line, i + 1 < p.line ∨ i + 1 = p.line ∧ c.column + 1 ≤ p.column

/-- The search is at the place of the point or later. -/
def Search.Passed (c : Search) (p : Point) : Prop :=
  ∀ i ∈ c.line, p.line < i + 1 ∨ p.line = i + 1 ∧ p.column ≤ c.column + 1

/-- Where a span was found: on the line of the search, not before its column. -/
structure Spotted (t : Text) (c : Search) (p : Span) (c' : Search) : Prop where
  place : OnOneLine t p
  start : c.line = some (p.start.line - 1) ∧ c.column + 1 ≤ p.start.column
  next : c'.line = c.line ∧ (c'.column : Int) + 1 = p.stop.column

variable {s : Source} {t value : Text} {c c' : Search} {p : Span} {q : Point}
  {r : Option Span × Search}

theorem Search.Before.refl (c : Search) : c.Before c :=
  fun j hj => ⟨j, hj, .inr ⟨rfl, Nat.le_refl _⟩⟩

theorem Search.Before.of_line (hline : c'.line = c.line) (hcolumn : c.column ≤ c'.column) :
    c.Before c' :=
  fun j hj => ⟨j, hline ▸ hj, .inr ⟨rfl, hcolumn⟩⟩

theorem Search.Before.nextLine (c : Search) : c.Before c.nextLine := by
  intro j hj
  obtain ⟨i, hi, rfl⟩ := Option.map_eq_some_iff.1 hj
  exact ⟨i, hi, .inl (by omega)⟩

theorem Search.Reaches.of_before (h : c'.Reaches q) (hc : c.Before c') : c.Reaches q := by
  obtain ⟨j, hj, hq⟩ := h
  obtain ⟨i, hi, hij⟩ := hc j hj
  exact ⟨i, hi, by omega⟩

theorem Search.Passed.of_before (h : c.Passed q) (hc : c.Before c') : c'.Passed q := by
  intro j hj
  obtain ⟨i, hi, hij⟩ := hc j hj
  have := h i hi
  omega

theorem Search.Passed.le (h : c.Passed q) (hp : Spotted t c p c') : q ≤ p.start := by
  have := h _ hp.start.1
  have := hp.start.2
  rw [Point.le_iff]
  omega

namespace Spotted

theorem before (h : Spotted t c p c') : c.Before c' := by
  refine .of_line h.next.1 ?_
  have := h.start.2
  have := h.next.2
  have := h.place.columns.2
  omega

theorem reaches (h : Spotted t c p c') : c.Reaches p.start :=
  ⟨_, h.start.1, .inr ⟨by omega, h.start.2⟩⟩

theorem ordered (h : Spotted t c p c') : p.start ≤ p.stop :=
  .inr ⟨h.place.line.2.symm, h.place.columns.2⟩

theorem passed (h : Spotted t c p c') : c'.Passed p.stop := by
  intro i hi
  have hline := h.next.1.symm.trans hi
  rw [h.start.1] at hline
  cases hline
  have := h.next.2
  have := h.place.line.2
  omega

theorem stop_le (h : Spotted t c p c') (hq : c'.Reaches q) : p.stop ≤ q := by
  obtain ⟨i, hi, hq⟩ := hq
  have hline := h.next.1.symm.trans hi
  rw [h.start.1] at hline
  cases hline
  have := h.next.2
  have := h.place.line.2
  rw [Point.le_iff]
  omega

end Spotted

theorem searchLine?_eq_some {i : Int} {l : Text} (h : s.searchLine? c = .ok (some (i, l))) :
    c.line = some i ∧ s.line? i = some l := by
  unfold Source.searchLine? at h
  split at h
  · cases h
  · next j hline =>
    split at h
    · cases h
    · split at h
      · next l' hl =>
        cases h
        exact ⟨hline, hl⟩
      · cases h

theorem Source.Reads.found (hs : s.Reads t) (hc : c.Proper) {i : Int} {l : Text} {j k : Nat}
    (hline : c.line = some i) (hl : s.line? i = some l) (hj : c.column ≤ j) (hjk : j ≤ k)
    (hk : k ≤ l.length) (h : s.spanOf (i + 1) (j + 1) (i + 1) (k + 1) = .ok p) :
    Spotted t c p { c with column := k } ∧ (Text.lines t)[i.toNat]? = some l ∧
      p.start.offset = some ((Text.lineStart t i.toNat : Int) + j) ∧
      p.stop.offset = some ((Text.lineStart t i.toNat : Int) + k) := by
  have h0 : 0 ≤ i := hc i hline
  have hget : (Text.lines t)[i.toNat]? = some l := by
    rw [Source.line?, Text.entry?, if_pos h0, hs.lines] at hl
    exact hl
  have hlt : i.toNat < (Text.lines t).length := (List.getElem?_eq_some_iff.1 hget).1
  obtain ⟨p', hp, hfits, hjoins⟩ : ∃ p, s.spanOf (i + 1) (j + 1) (i + 1) (k + 1) = .ok p ∧
      p.Fits t ∧ p.Joins (i + 1) (j + 1) (i + 1) (k + 1) :=
    hs.spanOf (by omega) (by omega) (by omega) (by omega) (by omega) (by omega)
  cases h.symm.trans hp
  obtain ⟨hstartLine, hstartColumn, hstopLine, hstopColumn⟩ := hjoins
  have hindex : (p.start.line - 1).toNat = i.toNat := by omega
  have hindex' : (p.stop.line - 1).toNat = i.toNat := by omega
  refine ⟨⟨⟨⟨by omega, by omega⟩, ⟨by omega, by omega⟩, l, ?_, by omega⟩, ⟨?_, by omega⟩, rfl, ?_⟩,
    hget, ?_, ?_⟩
  · rw [hindex]
    exact hget
  · rw [hline, hstartLine]
    congr 1
    omega
  · rw [hstopColumn]
  · rw [hfits.start.offset, hindex]
    congr 1
    omega
  · rw [hfits.stop.offset, hindex']
    congr 1
    omega

theorem slices_of_line {i : Nat} {before after : Text}
    (hline : (Text.lines t)[i]? = some (before ++ value ++ after))
    (hstart : p.start.offset = some ((Text.lineStart t i : Int) + before.length))
    (hstop : p.stop.offset =
      some ((Text.lineStart t i : Int) + (before.length + value.length : Nat))) :
    Slices t p value := by
  obtain ⟨front, back, ht, hlength⟩ := Text.exists_around_line hline
  have htext : t = (front ++ before) ++ value ++ (after ++ back) := by
    rw [ht]
    simp only [List.append_assoc]
  refine ⟨_, _, hstart, hstop, ?_⟩
  have hle : (Text.lineStart t i : Int) + (before.length + value.length : Nat) ≤ t.length := by
    rw [← hlength, congrArg List.length htext]
    simp only [List.length_append]
    omega
  rw [Text.slice_eq t (by omega) (by omega) hle]
  have ha : ((Text.lineStart t i : Int) + before.length).toNat = (front ++ before).length := by
    rw [List.length_append]
    omega
  have hb : ((Text.lineStart t i : Int) + (before.length + value.length : Nat)).toNat =
      (front ++ before ++ value).length := by
    rw [List.length_append, List.length_append]
    omega
  rw [ha, hb, htext, List.take_left', List.drop_left']
  · rfl
  · rfl

/-- A content that is looked for: nothing changes, or it is found. -/
theorem locate_found (hs : s.Reads t) (hc : c.Proper) (h : s.locate value c = .ok r) :
    r = (none, c) ∨ ∃ p, r.1 = some p ∧ Spotted t c p r.2 ∧ Slices t p value := by
  unfold Source.locate at h
  split_ifs at h
  · cases h
    exact .inl rfl
  · obtain ⟨_ | ⟨i, l⟩, hr, h⟩ := bind_eq_ok.1 h
    · cases h
      exact .inl rfl
    · obtain ⟨hline, hl⟩ := searchLine?_eq_some hr
      dsimp only at h
      rcases hf : Text.findFrom? value l c.column with _ | k
      · rw [hf] at h
        cases h
        exact .inl rfl
      · rw [hf] at h
        obtain ⟨p, hspan, h⟩ := bind_eq_ok.1 h
        cases h
        obtain ⟨hk, before, after, rfl, rfl⟩ := Text.exists_of_findFrom? hf
        obtain ⟨hfound, hget, hstart, hstop⟩ := hs.found hc hline hl hk (Nat.le_add_right _ _)
          (by simp only [List.length_append]; omega) hspan
        exact .inr ⟨p, rfl, hfound, slices_of_line hget hstart hstop⟩

theorem locateImage_found (hs : s.Reads t) (hc : c.Proper) (h : s.locateImage c = .ok r) :
    r = (none, c) ∨ ∃ p, r.1 = some p ∧ Spotted t c p r.2 := by
  unfold Source.locateImage at h
  obtain ⟨_ | ⟨i, l⟩, hr, h⟩ := bind_eq_ok.1 h
  · cases h
    exact .inl rfl
  · obtain ⟨hline, hl⟩ := searchLine?_eq_some hr
    dsimp only at h
    rcases hf : Text.findFrom? ['!', '['] l c.column with _ | k
    · rw [hf] at h
      cases h
      exact .inl rfl
    rw [hf] at h
    dsimp only at h
    rcases hf' : Text.findFrom? [')'] l k with _ | close
    · rw [hf'] at h
      cases h
      exact .inl rfl
    rw [hf'] at h
    obtain ⟨p, hspan, h⟩ := bind_eq_ok.1 h
    cases h
    obtain ⟨hk, -⟩ := Text.exists_of_findFrom? hf
    obtain ⟨hclose, before, after, rfl, rfl⟩ := Text.exists_of_findFrom? hf'
    exact .inr ⟨p, rfl, (hs.found hc hline hl hk (by omega)
      (by simp only [List.length_append, List.length_singleton]; omega) hspan).1⟩

/-- Closing a link may move the search on, on its line. -/
theorem wrap_before {kind : Kind} {markup : Text} {us : List (Tree Info)}
    (h : s.wrap kind markup us c = .ok r) : c.Before r.2 := by
  unfold Source.wrap at h
  dsimp only at h
  split at h
  · next first last _ _ =>
    split at h
    · obtain ⟨span, -, h⟩ := bind_eq_ok.1 h
      cases h
      exact .refl c
    · split at h
      · cases h
      · obtain ⟨span, -, h⟩ := bind_eq_ok.1 h
        cases h
        dsimp only
        split
        · exact .of_line rfl (Nat.le_max_left ..)
        · exact .refl c
  · cases h
    exact .refl c

end Document
end Outline
