import Outline.Proofs.Positions

/-! Spans of block tokens. A token's lines are clamped to those of the text, and its span covers
them up to the last one that holds more than blanks and quote markers, or up to the first one if
none does (`Source.Covers`). Every token whose lines count from zero has such a span, and it
fits. -/

namespace Outline.Document

variable {s : Source} {t : Text} {m : Int × Int} {a : Span} {depth : Nat}

namespace Source

def firstLine (s : Source) (m : Int × Int) : Int := min (m.1 + s.offset) (s.lines.length - 1)

def finalLine (s : Source) (m : Int × Int) : Int :=
  min (max (s.firstLine m) (m.2 - 1 + s.offset)) (s.lines.length - 1)

/-- The line has only blanks and quote markers on it. -/
def BlankAt (s : Source) (i : Int) : Prop := ∃ l, s.line? i = some l ∧ isBlankLine l = true

/-- The span that a token with these lines gets at some depth of quotes. -/
structure Covers (s : Source) (depth : Nat) (m : Int × Int) (a : Span) : Prop where
  startLine : a.start.line = s.firstLine m + 1
  startColumn : ∃ l, s.line? (s.firstLine m) = some l ∧ a.start.column = contentIndex depth l + 1
  ordered : a.start.line ≤ a.stop.line
  stopLine : a.stop.line ≤ s.finalLine m + 1
  stopColumn : ∃ l, s.line? (a.stop.line - 1) = some l ∧
    a.stop.column = (Text.trimEnd Text.isBlank l).length + 1
  blankAfter : ∀ i, a.stop.line ≤ i → i ≤ s.finalLine m → s.BlankAt i
  stopsAt : a.stop.line = a.start.line ∨ ¬ s.BlankAt (a.stop.line - 1)

def isMargin (c : Char) : Bool := Text.isSpaceOrTab c || c == '>'

/-- What the span leaves out of its first line is margin, and what it leaves out of its last line is
white space. -/
structure Trims (s : Source) (a : Span) : Prop where
  start : ∃ l, s.line? (a.start.line - 1) = some l ∧ a.start.column ≤ l.length + 1 ∧
    ∀ (k : Nat) (c : Char), k + 1 < a.start.column → l[k]? = some c → isMargin c = true
  stop : ∃ l, s.line? (a.stop.line - 1) = some l ∧
    ∀ (k : Nat) (c : Char), a.stop.column ≤ k + 1 → l[k]? = some c → Text.isBlank c = true

theorem margin_takeWhile (l : Text) :
    ∀ c ∈ l.takeWhile Text.isSpaceOrTab, isMargin c = true := by
  intro c hc
  rw [isMargin, List.all_eq_true.1 List.all_takeWhile c hc, Bool.true_or]

theorem contentIndex_prefix (depth : Nat) (l : Text) : ∃ before rest, l = before ++ rest ∧
    before.length = contentIndex depth l ∧ ∀ c ∈ before, isMargin c = true := by
  induction depth generalizing l with
  | zero => exact ⟨_, _, List.takeWhile_append_dropWhile.symm, rfl, margin_takeWhile l⟩
  | succ depth ih =>
    rw [contentIndex]
    split
    · next rest hrest =>
      obtain ⟨before, after, rfl, hlength, hmargin⟩ := ih rest
      refine ⟨l.takeWhile Text.isSpaceOrTab ++ '>' :: before, after, ?_, ?_, ?_⟩
      · rw [List.append_assoc, List.cons_append, ← hrest, List.takeWhile_append_dropWhile]
      · rw [List.length_append, List.length_cons, hlength]
        omega
      · exact List.forall_mem_append.2
          ⟨margin_takeWhile l, List.forall_mem_cons.2 ⟨rfl, hmargin⟩⟩
    · exact ⟨_, _, List.takeWhile_append_dropWhile.symm, rfl, margin_takeWhile l⟩

theorem Covers.trims (h : s.Covers depth m a) : s.Trims a where
  start := by
    obtain ⟨l, hl, hcolumn⟩ := h.startColumn
    obtain ⟨before, rest, rfl, hlength, hmargin⟩ := contentIndex_prefix depth l
    have hline : a.start.line - 1 = s.firstLine m := by
      have := h.startLine
      omega
    refine ⟨_, hline ▸ hl, ?_, fun k c hk hc => hmargin c ?_⟩
    · rw [List.length_append]
      omega
    · rw [List.getElem?_append_left (by omega)] at hc
      exact List.mem_of_getElem? hc
  stop := by
    obtain ⟨l, hl, hcolumn⟩ := h.stopColumn
    obtain ⟨cut, hcut, hblank⟩ := Text.trimEnd_append Text.isBlank l
    refine ⟨l, hl, fun k c hk hc => hblank c ?_⟩
    rw [hcut, List.getElem?_append_right (by omega)] at hc
    exact List.mem_of_getElem? hc

namespace Reads

theorem lastLine? (h : s.Reads t) (last : Int) (steps : Nat) (h0 : (steps : Int) ≤ last)
    (hl : last < (Text.lines t).length) :
    ∃ r, s.lastLine? last steps = some r ∧ last - steps ≤ r ∧ r ≤ last ∧
      (∀ i, r < i → i ≤ last → s.BlankAt i) ∧ (r = last - steps ∨ ¬ s.BlankAt r) := by
  induction steps generalizing last with
  | zero => exact ⟨last, rfl, by omega, Int.le_refl _, by omega, .inl (by omega)⟩
  | succ steps ih =>
    obtain ⟨l, hline⟩ : ∃ l, s.line? last = some l := h.line? (by omega) hl
    rw [Source.lastLine?, hline, Option.bind_eq_bind, Option.bind_some]
    by_cases hb : isBlankLine l = true
    · obtain ⟨r, hr, h1, h2, hafter, hat⟩ := ih (last - 1) (by omega) (by omega)
      rw [if_pos hb]
      refine ⟨r, hr, by omega, by omega, ?_, hat.imp_left (by omega)⟩
      intro i hi hle
      by_cases he : i = last
      · exact ⟨l, he ▸ hline, hb⟩
      · exact hafter i hi (by omega)
    · rw [if_neg hb]
      refine ⟨last, rfl, by omega, Int.le_refl _, by omega, .inr ?_⟩
      rintro ⟨l', hl', hb'⟩
      rw [hline] at hl'
      cases hl'
      exact hb hb'

theorem blockSpan? (h : s.Reads t) (hm : 0 ≤ m.1) (depth : Nat) :
    ∃ a, s.blockSpan? depth m = some a ∧ s.Covers depth m a ∧ a.Fits t := by
  have hpos : 0 < (Text.lines t).length := List.length_pos_iff.2 (Text.lines_ne_nil t)
  obtain ⟨h1, h2, h3⟩ : 0 ≤ s.firstLine m ∧ s.firstLine m ≤ s.finalLine m ∧
      s.finalLine m < (Text.lines t).length := by
    unfold finalLine firstLine
    rw [h.lines]
    omega
  obtain ⟨r, hr, h4, h5, hafter, hat⟩ : ∃ r, s.lastLine? (s.finalLine m)
      (s.finalLine m - s.firstLine m).toNat = some r ∧ s.firstLine m ≤ r ∧ r ≤ s.finalLine m ∧
      (∀ i, r < i → i ≤ s.finalLine m → s.BlankAt i) ∧ (r = s.firstLine m ∨ ¬ s.BlankAt r) := by
    have hsteps : s.finalLine m - (s.finalLine m - s.firstLine m).toNat = s.firstLine m := by omega
    have hback := h.lastLine? (s.finalLine m) (s.finalLine m - s.firstLine m).toNat (by omega) h3
    rwa [hsteps] at hback
  obtain ⟨top, htop⟩ := h.line? h1 (by omega)
  obtain ⟨final, hfinal⟩ : ∃ final, s.line? r = some final := h.line? (by omega) (by omega)
  have hcolumn : (1 : Int) ≤ contentIndex depth top + 1 := by omega
  have hcolumn' : (1 : Int) ≤ (Text.trimEnd Text.isBlank final).length + 1 := by omega
  have hline : 1 ≤ s.firstLine m + 1 := by omega
  have hline' : 1 ≤ r + 1 := by omega
  obtain ⟨start, hp, hpfits⟩ := h.point? hline (by omega) hcolumn
  obtain ⟨stop, hq, hqfits⟩ := h.point? hline' (by omega) hcolumn'
  refine ⟨⟨⟨_, _, start⟩, ⟨_, _, stop⟩⟩, ?_,
    ⟨rfl, ⟨top, htop, rfl⟩, ?_, ?_, ⟨final, ?_, rfl⟩, ?_, ?_⟩, hpfits, hqfits⟩
  · change ((s.lastLine? (s.finalLine m) (s.finalLine m - s.firstLine m).toNat).bind fun r =>
      (s.line? (s.firstLine m)).bind fun top => (s.line? r).bind fun final =>
        s.span? (s.firstLine m + 1) (contentIndex depth top + 1) (r + 1)
          ((Text.trimEnd Text.isBlank final).length + 1)) = _
    rw [hr, Option.bind_some, htop, Option.bind_some, hfinal, Option.bind_some, span?, hp, hq]
    rfl
  · dsimp only
    omega
  · dsimp only
    omega
  · rwa [Int.add_sub_cancel]
  · intro i hi hle
    exact hafter i (by dsimp only at hi; omega) hle
  · dsimp only
    rw [Int.add_sub_cancel]
    exact hat.imp_left (by omega)

end Reads
end Source
end Outline.Document
