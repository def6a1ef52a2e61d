import Mathlib.Data.List.Basic
import Outline.Settings

/-! What the check of settings accepts. Settings have no complaint iff the transparent kinds have none
and every other setting is valid by itself (`complaints_eq_nil`). -/

namespace Outline

namespace Settings

variable {s : Settings} {kinds : List Kind} {k : Kind}

/-- What the settings other than the transparent kinds must be. -/
structure RestValid (s : Settings) : Prop where
  threshold : 0 ≤ s.drawing.threshold
  weight : 0 < s.cursor.weight
  marker : ∃ m, s.cursor.marker = some m ∧ m ≠ []
  edgeType : ∃ t, s.graph.edgeType = some t ∧ ∃ c ∈ t, Text.isBlank c = false
  preview : 0 < s.graph.preview

theorem transparencyComplaints_eq_nil :
    transparencyComplaints kinds = [] ↔ ∀ k ∈ Kind.thematicBreak :: shadowable, k ∉ kinds := by
  rw [transparencyComplaints, List.append_eq_nil_iff, List.forall_mem_cons, and_comm]
  apply and_congr
  · simp
  · simp only [ite_eq_left_iff, reduceCtorEq, imp_false, not_not, List.filter_eq_nil_iff,
      List.contains_iff_mem]

theorem complaints_eq_nil :
    s.complaints = [] ↔ s.RestValid ∧ transparencyComplaints s.transparent = [] := by
  have hmarker : (s.cursor.marker.getD []).isEmpty = false ↔
      ∃ m, s.cursor.marker = some m ∧ m ≠ [] := by
    cases s.cursor.marker <;> simp
  have hedge : (s.graph.edgeType.getD []).all Text.isBlank = false ↔
      ∃ t, s.graph.edgeType = some t ∧ ∃ c ∈ t, Text.isBlank c = false := by
    cases s.graph.edgeType <;> simp
  simp only [complaints, List.append_eq_nil_iff, ite_eq_right_iff, reduceCtorEq, imp_false,
    Bool.not_eq_true, Int.not_lt, Int.not_le, hmarker, hedge]
  constructor
  · rintro ⟨⟨⟨⟨⟨hkinds, ht⟩, hw⟩, hm⟩, he⟩, hp⟩
    exact ⟨⟨ht, hw, hm, he, hp⟩, hkinds⟩
  · rintro ⟨⟨ht, hw, hm, he, hp⟩, hkinds⟩
    exact ⟨⟨⟨⟨⟨hkinds, ht⟩, hw⟩, hm⟩, he⟩, hp⟩

theorem check_eq_ok : s.check = .ok () ↔ s.complaints = [] := by
  unfold check
  split <;> simp_all

theorem visible_of_check (h : s.check = .ok ()) (hk : k ∈ Kind.thematicBreak :: shadowable) :
    k ∉ s.transparent :=
  transparencyComplaints_eq_nil.1 (complaints_eq_nil.1 (check_eq_ok.1 h)).2 k hk

end Settings

end Outline
