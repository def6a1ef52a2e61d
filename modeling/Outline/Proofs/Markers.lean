import Mathlib.Data.List.Infix
import Outline.Cursor.Marker
import Outline.Proofs.Positions

/-! A marker in a text: where it is put, and when it can be taken out again. An occurrence that starts
in the text before the marker and reaches into it would have an end of its own that is a beginning of
the marker. So a marker of which no beginning is an end, in a text that does not have it, is found
where it was put (`not_isPrefix_append`), and taking it out gives the text back. -/

namespace Outline

namespace Text

variable {pat t a b : Text}

/-- No beginning of the text is an end of it, other than nothing and the whole text. -/
def Unbordered (t : Text) : Prop := ∀ s, s <+: t → s <:+ t → s = [] ∨ s = t

instance (t : Text) : Decidable (Unbordered t) :=
  decidable_of_iff (∀ s ∈ t.inits, s <:+ t → s = [] ∨ s = t) (by simp [Unbordered])

theorem eraseAll_go_of_not_infix (h : ¬ pat <:+: t) (n : Nat) : eraseAll.go pat n t = t := by
  induction n generalizing t with
  | zero => rfl
  | succ n ih =>
    cases t with
    | nil => rfl
    | cons c t =>
      have hstart : ¬ pat <+: c :: t := fun hp => h hp.isInfix
      have hlater : ¬ pat <:+: t := fun hi => h (List.infix_cons hi)
      rw [eraseAll.go, if_neg (by simpa using hstart), ih hlater]

theorem not_isPrefix_append (hu : Unbordered pat) (hn : ¬ pat <:+: a ++ b) (ha : a ≠ []) :
    ¬ pat <+: a ++ (pat ++ b) := by
  intro h
  have hout : ¬ pat <+: a := fun hp => hn (hp.isInfix.trans (List.prefix_append a b).isInfix)
  rcases List.prefix_or_prefix_of_prefix h (List.prefix_append a (pat ++ b)) with hp | ⟨s, hs⟩
  · exact hout hp
  · -- the rest of the occurrence is an end of the marker, and the marker also begins with it
    rw [← hs, List.prefix_append_right_inj, hs] at h
    have hlength : s.length ≤ pat.length := by
      rw [← hs, List.length_append]
      omega
    have hbegin : s <+: pat :=
      List.prefix_of_prefix_length_le h (List.prefix_append pat b) hlength
    rcases hu s hbegin ⟨a, hs⟩ with rfl | rfl
    · rw [List.append_nil] at hs
      exact hout (hs ▸ List.prefix_refl a)
    · exact ha (List.append_left_eq_self.1 hs)

theorem eraseAll_go_append (hp : pat ≠ []) (hu : Unbordered pat) (hn : ¬ pat <:+: a ++ b) {n : Nat}
    (hlength : a.length < n) : eraseAll.go pat n (a ++ (pat ++ b)) = a ++ b := by
  induction a generalizing n with
  | nil =>
    obtain ⟨n, rfl⟩ : ∃ m, n = m + 1 := ⟨n - 1, by omega⟩
    rw [List.nil_append] at hn
    obtain ⟨c, p, rfl⟩ := List.exists_cons_of_ne_nil hp
    have hstart : (c :: p).isPrefixOf (c :: (p ++ b)) = true :=
      List.isPrefixOf_iff_prefix.2 (List.prefix_append (c :: p) b)
    rw [List.nil_append, List.cons_append, eraseAll.go, if_pos hstart, ← List.cons_append,
      List.drop_left, eraseAll_go_of_not_infix hn, List.nil_append]
  | cons c a ih =>
    obtain ⟨n, rfl⟩ : ∃ m, n = m + 1 := ⟨n - 1, by omega⟩
    have hstart := not_isPrefix_append hu hn (List.cons_ne_nil c a)
    rw [List.cons_append] at hstart
    have hlater : ¬ pat <:+: a ++ b := fun hi => hn (List.infix_cons hi)
    rw [List.cons_append, eraseAll.go, if_neg (by simpa using hstart),
      ih hlater (Nat.lt_of_succ_lt_succ hlength), List.cons_append]

theorem eraseAll_append (hp : pat ≠ []) (hu : Unbordered pat) (hn : ¬ pat <:+: a ++ b) :
    eraseAll pat (a ++ pat ++ b) = a ++ b := by
  unfold eraseAll
  rw [if_neg hp, List.append_assoc]
  refine eraseAll_go_append hp hu hn ?_
  have := List.length_pos_iff.2 hp
  simp only [List.length_append]
  omega

end Text

namespace Cursor

def nearestLine (source : Text) (p : Position) : Nat :=
  (max 0 (min p.line ((Text.lines source).length - 1))).toNat

def nearestCharacter (source : Text) (p : Position) : Nat :=
  (max 0 (min p.character ((Text.lines source).getD (nearestLine source p) []).length)).toNat

def offset (source : Text) (p : Position) : Nat :=
  Text.lineStart source (nearestLine source p) + nearestCharacter source p

theorem clamp_eq (i : Int) (most : Nat) : clamp i most = (max 0 (min i most)).toNat := by
  unfold clamp
  omega

theorem insertAt_append {a b c : Text} {k : Nat} (hk : k ≤ b.length) (marker : Text) :
    insertAt marker (a.length + k) (a ++ b ++ c) = a ++ insertAt marker k b ++ c := by
  unfold insertAt
  rw [List.append_assoc a b c, List.take_length_add_append, List.drop_length_add_append,
    List.take_append_of_le_length hk, List.drop_append_of_le_length hk]
  simp only [List.append_assoc]

/-- What comes into a line comes into the text at the start of the line and some characters more. -/
theorem insertAt_lineStart {source line marker : Text} {i k : Nat} {f : Text → Text}
    (hline : (Text.lines source)[i]? = some line) (hk : k ≤ line.length)
    (hf : f line = insertAt marker k line) :
    Text.unlines ((Text.lines source).modify i f) =
      insertAt marker (Text.lineStart source i + k) source := by
  obtain ⟨before, after, hlength, hsource, hmodify⟩ := Text.unlines_modify hline f
  rw [Text.unlines_lines] at hsource
  calc Text.unlines ((Text.lines source).modify i f)
      = before ++ insertAt marker k line ++ after := by rw [hmodify, hf]
    _ = insertAt marker (before.length + k) (before ++ line ++ after) := (insertAt_append hk _).symm
    _ = insertAt marker (Text.lineStart source i + k) source := by
        rw [hlength, ← hsource, Text.lineStart]

theorem addMarker_eq (marker : Text) (p : Position) (source : Text) :
    addMarker marker p source =
      source.take (offset source p) ++ marker ++ source.drop (offset source p) := by
  have hne : (Text.lines source).length ≠ 0 := by simp [Text.lines_ne_nil]
  have hrow : clamp p.line ((Text.lines source).length - 1) = nearestLine source p := by
    rw [clamp_eq, nearestLine]
    omega
  have hlt : nearestLine source p < (Text.lines source).length := by
    unfold nearestLine
    omega
  obtain ⟨line, hline⟩ : ∃ line, (Text.lines source)[nearestLine source p]? = some line :=
    ⟨_, List.getElem?_eq_getElem hlt⟩
  have hcolumn : clamp p.character line.length = nearestCharacter source p := by
    rw [nearestCharacter, List.getD_eq_getElem?_getD, hline, Option.getD_some, clamp_eq]
  have hle : nearestCharacter source p ≤ line.length := hcolumn ▸ Nat.min_le_right _ _
  unfold addMarker
  dsimp only
  rw [hrow, insertAt_lineStart hline hle (by rw [hcolumn])]
  rfl

/-- A marker comes into the text at the place nearest to the cursor. If it is not in the text and
none of its beginnings is also its end, then taking it out gives the text back. -/
theorem removeMarker_addMarker (marker : Text) (p : Position) (source : Text) :
    addMarker marker p source =
        source.take (offset source p) ++ marker ++ source.drop (offset source p) ∧
      (marker ≠ [] → ¬ marker <:+: source → Text.Unbordered marker →
        removeMarker marker (addMarker marker p source) = source) := by
  refine ⟨addMarker_eq marker p source, fun hp hn hu => ?_⟩
  rw [addMarker_eq]
  unfold removeMarker
  rw [Text.eraseAll_append hp hu (by rwa [List.take_append_drop]), List.take_append_drop]

theorem removeMarker_addMarker_sample :
    let marker := "<CURSOR>".toList
    let source := "a < b\n<CURSO".toList
    marker ≠ [] ∧ ¬ marker <:+: source ∧ Text.Unbordered marker ∧
      addMarker marker ⟨0, 99⟩ source = "a < b<CURSOR>\n<CURSO".toList ∧
      removeMarker marker (addMarker marker ⟨0, 99⟩ source) = source := by
  intro marker source
  have hp : marker ≠ [] := by decide
  have hn : ¬ marker <:+: source := by decide
  have hu : Text.Unbordered marker := by decide
  exact ⟨hp, hn, hu, by decide, (removeMarker_addMarker marker ⟨0, 99⟩ source).2 hp hn hu⟩

/-- A marker that ends in its own beginning is found too early. -/
example : removeMarker "aba".toList (addMarker "aba".toList ⟨0, 2⟩ "ab".toList) = "ba".toList := by
  decide

end Cursor
end Outline
