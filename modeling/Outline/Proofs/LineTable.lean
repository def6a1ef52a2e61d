import Mathlib.Algebra.GroupWithZero.Nat
import Mathlib.Tactic.SplitIfs
import Outline.Frontmatter

/-! The lines of a text and where they start, when the text is put together from two parts at a line
feed: the table of the whole is the table of the first part, followed by that of the second with its
starts moved on. A metadata block that ends with a line feed is such a first part. -/

namespace Outline

namespace Text

theorem lines_append (a t : Text) : lines (a ++ '\n' :: t) = lines a ++ lines t := by
  induction a with
  | nil => rfl
  | cons c a ih =>
    rw [List.cons_append, lines, lines, ih]
    by_cases hc : c = '\n'
    · rw [if_pos hc, if_pos hc, List.cons_append]
    · rw [if_neg hc, if_neg hc]
      rcases hl : lines a with _ | ⟨l, ls⟩
      · exact absurd hl (lines_ne_nil a)
      · rfl

theorem lines_of_not_mem {t : Text} (h : '\n' ∉ t) : lines t = [t] := by
  induction t with
  | nil => rfl
  | cons c t ih =>
    obtain ⟨hc, ht⟩ := not_or.1 (mt List.mem_cons.2 h)
    rw [lines, if_neg (Ne.symm hc), ih ht]

/-- A text is its first line, or this line, a line feed and a text with the other lines. -/
theorem lines_eq_cons {t l : Text} {ls : List Text} (h : lines t = l :: ls) :
    '\n' ∉ l ∧ (t = l ∧ ls = [] ∨ ∃ u, t = l ++ '\n' :: u ∧ lines u = ls) := by
  by_cases ht : '\n' ∈ t
  · obtain ⟨a, u, rfl, ha⟩ := List.eq_append_cons_of_mem ht
    rw [lines_append, lines_of_not_mem ha] at h
    cases h
    exact ⟨ha, .inr ⟨u, rfl, rfl⟩⟩
  · rw [lines_of_not_mem ht] at h
    cases h
    exact ⟨ht, .inl ⟨rfl, rfl⟩⟩

theorem length_lines (t : Text) : (lines t).length = t.count '\n' + 1 := by
  induction t with
  | nil => rfl
  | cons c t ih =>
    rw [lines]
    by_cases hc : c = '\n'
    · rw [if_pos hc, hc, List.length_cons, ih, List.count_cons_self]
    · rw [if_neg hc, List.count_cons_of_ne hc]
      rcases hl : lines t with _ | ⟨l, ls⟩
      · exact absurd hl (lines_ne_nil t)
      · rw [← ih, hl]; rfl

theorem sum_length_lines (t : Text) : ((lines t).map (·.length + 1)).sum = t.length + 1 := by
  induction t with
  | nil => rfl
  | cons c t ih =>
    rw [lines]
    by_cases hc : c = '\n'
    · rw [if_pos hc, List.map_cons, List.sum_cons, ih, List.length_nil, List.length_cons]
      omega
    · rw [if_neg hc]
      rcases hl : lines t with _ | ⟨l, ls⟩
      · exact absurd hl (lines_ne_nil t)
      · rw [hl, List.map_cons, List.sum_cons] at ih
        simp only [List.map_cons, List.sum_cons, List.length_cons]
        omega

theorem unlines_cons (l : Text) {ls : List Text} (h : ls ≠ []) :
    unlines (l :: ls) = l ++ '\n' :: unlines ls := by
  cases ls with
  | nil => exact absurd rfl h
  | cons m ls => rfl

/-- A line stands in the joined text after the lines before it, and a change of this line leaves what
is around it. -/
theorem unlines_modify {ls : List Text} {l : Text} {i : Nat} (h : ls[i]? = some l)
    (f : Text → Text) :
    ∃ before after, before.length = ((ls.take i).map (·.length + 1)).sum ∧
      unlines ls = before ++ l ++ after ∧ unlines (ls.modify i f) = before ++ f l ++ after := by
  induction ls generalizing i with
  | nil => cases h
  | cons m ls ih =>
    cases i with
    | zero =>
      cases h
      rw [List.modify_zero_cons]
      by_cases hls : ls = []
      · rw [hls]
        exact ⟨[], [], rfl, (List.append_nil _).symm, (List.append_nil _).symm⟩
      · exact ⟨[], '\n' :: unlines ls, rfl, unlines_cons _ hls, unlines_cons _ hls⟩
    | succ i =>
      rw [List.getElem?_cons_succ] at h
      obtain ⟨before, after, hlength, hls, hmodify⟩ := ih h
      have hne : ls ≠ [] := by
        rintro rfl
        cases h
      have hne' : ls.modify i f ≠ [] := by simpa using hne
      rw [List.modify_succ_cons, unlines_cons m hne, unlines_cons m hne', hls, hmodify]
      refine ⟨m ++ '\n' :: before, after, ?_, by simp, by simp⟩
      rw [List.take_succ_cons, List.map_cons, List.sum_cons, ← hlength, List.length_append,
        List.length_cons]
      omega

theorem length_starts (ls : List Text) (n : Nat) : (starts ls n).length = ls.length := by
  induction ls generalizing n with
  | nil => rfl
  | cons l ls ih => rw [starts, List.length_cons, List.length_cons, ih]

theorem starts_append (ls ms : List Text) (n : Nat) :
    starts (ls ++ ms) n = starts ls n ++ starts ms (n + (ls.map (·.length + 1)).sum) := by
  induction ls generalizing n with
  | nil => rfl
  | cons l ls ih =>
    rw [List.cons_append, starts, starts, ih, List.cons_append, List.map_cons, List.sum_cons]
    congr 3
    omega

theorem starts_add (ls : List Text) (n k : Nat) :
    starts ls (n + k) = (starts ls n).map (· + k) := by
  induction ls generalizing n with
  | nil => rfl
  | cons l ls ih =>
    rw [starts, starts, List.map_cons, ← ih]
    congr 2
    omega

theorem entry?_append {α : Type} (before xs : List α) {i : Int} (hi : 0 ≤ i) :
    entry? (before ++ xs) (i + before.length) = entry? xs i := by
  obtain ⟨k, rfl⟩ := Int.eq_ofNat_of_zero_le hi
  have hk : ((k : Int) + before.length).toNat = before.length + k := by omega
  unfold entry?
  rw [if_pos (by omega), if_pos hi, hk, List.getElem?_append_right (Nat.le_add_right _ _),
    Nat.add_sub_cancel_left]
  rfl

theorem entry?_map {α β : Type} (f : α → β) (xs : List α) (i : Int) :
    entry? (xs.map f) i = Option.map f ( entry? xs i) := by
  unfold entry?
  rw [List.length_map]
  split_ifs <;> simp

theorem slice_eq {α : Type} (xs : List α) {i j : Int} (hi : 0 ≤ i) (hj : 0 ≤ j)
    (hlen : j ≤ xs.length) : slice xs i j = (xs.take j.toNat).drop i.toNat := by
  unfold slice bound
  rw [if_neg (by omega), if_neg (by omega), List.drop_take]
  dsimp only
  by_cases h : i ≤ xs.length
  · rw [Nat.min_eq_left (by omega), Nat.min_eq_left (by omega)]
  · rw [List.drop_eq_nil_of_le (by omega), List.drop_eq_nil_of_le (by omega)]
    simp

end Text

namespace Frontmatter

variable {t line inner : Text} {atStart : Bool} {b : Block}

theorem closing?_isPrefix (h : closing? t = some line) : line <+: t := by
  unfold closing? at h
  split at h
  · next hf =>
    obtain ⟨rest, rfl⟩ := List.isPrefixOf_iff_prefix.1 hf
    have hsplit := List.takeWhile_append_dropWhile (p := Text.isSpaceOrTab) (l := rest)
    have hdrop : (fence ++ rest).drop 3 = rest := rfl
    rw [hdrop] at h
    split at h
    · next hd =>
      cases h
      rw [hd, List.append_nil] at hsplit
      exact ⟨[], by rw [List.append_nil, hsplit]⟩
    · next after hd =>
      cases h
      rw [hd] at hsplit
      refine ⟨after, ?_⟩
      rw [List.append_assoc, List.append_assoc, List.singleton_append, hsplit]
    · cases h
  · cases h

theorem upToClosing?_isPrefix (h : upToClosing? atStart t = some (inner, line)) :
    inner ++ line <+: t := by
  induction t generalizing atStart inner with
  | nil =>
    unfold upToClosing? at h
    split at h
    · next hc =>
      cases h
      split at hc
      · exact closing?_isPrefix hc
      · cases hc
    · cases h
  | cons c t ih =>
    unfold upToClosing? at h
    split at h
    · next hc =>
      cases h
      split at hc
      · exact closing?_isPrefix hc
      · cases hc
    · obtain ⟨⟨inner', line'⟩, hr, he⟩ := Option.map_eq_some_iff.1 h
      cases he
      exact List.cons_prefix_cons.2 ⟨rfl, ih hr⟩

/-- A block is a beginning of the text; it counts its own line feeds, and its closing line is one of
its lines. -/
theorem block?_eq_some (h : block? t = some b) :
    b.length ≤ t.length ∧ b.lineCount = (t.take b.length).count '\n' ∧
      1 ≤ b.endLine ∧ b.endLine ≤ b.lineCount + 1 := by
  unfold block? at h
  split at h
  · next rest =>
    split at h
    · cases h
    · next inner line hu =>
      cases h
      obtain ⟨after, rfl⟩ := upToClosing?_isPrefix hu
      have htake : ('-' :: '-' :: '-' :: '\n' :: (inner ++ line ++ after)).take
          (4 + inner.length + line.length) = '-' :: '-' :: '-' :: '\n' :: (inner ++ line) := by
        rw [show 4 + inner.length + line.length = (inner ++ line).length + 4 by
          rw [List.length_append]; omega]
        simp only [List.take_succ_cons, List.take_left']
      refine ⟨?_, ?_, ?_, ?_⟩
      · simp only [List.length_cons, List.length_append]
        omega
      · dsimp only
        rw [htake]
        simp only [List.count_cons, List.count_append, beq_iff_eq, Char.reduceEq, if_true, if_false]
        omega
      · dsimp only
        omega
      · dsimp only
        omega
  · cases h

end Frontmatter
end Outline
