import Outline.Proofs.Visit

/-! Reading a map after an entry was put in. Keys are compared by identity: the entry that is
found is the first whose key is the node, and putting in keeps keys apart. -/

namespace Outline.NodeMap

variable {β : Type} {m : NodeMap β} {n k : Node} {b : β} {e : Node × β}

theorem get?_cons : get? (e :: m) k = if Node.is e.1 k then some e.2 else get? m k := by
  unfold get?
  rw [List.find?_cons]
  cases Node.is e.1 k <;> rfl

theorem get?_congr (h : n.label.id = k.label.id) : get? m n = get? m k := by
  unfold get? Node.is
  rw [h]

theorem get?_put : get? (put m n b) k = if Node.is n k then some b else get? m k := by
  induction m with
  | nil => rw [put, get?_cons]
  | cons e m ih =>
    unfold put
    by_cases he : Node.is e.1 n
    · have hen := Node.is_iff.1 he
      rw [if_pos he, get?_cons, get?_cons]
      have : Node.is e.1 k = Node.is n k := by
        unfold Node.is
        rw [hen]
      rw [this]
      split_ifs <;> rfl
    · rw [if_neg he, get?_cons, get?_cons, ih]
      by_cases hek : Node.is e.1 k
      · have hnk : ¬ Node.is n k := fun h =>
          he (Node.is_iff.2 ((Node.is_iff.1 hek).trans (Node.is_iff.1 h).symm))
        rw [if_pos hek, if_pos hek, if_neg hnk]
      · rw [if_neg hek, if_neg hek]

theorem put_of_not_mem (h : n.label.id ∉ m.map (·.1.label.id)) : put m n b = m ++ [(n, b)] := by
  induction m with
  | nil => rfl
  | cons e m ih =>
    rw [List.map_cons, List.mem_cons, not_or] at h
    rw [put, if_neg fun he => h.1 (Node.is_iff.1 he).symm, ih h.2, List.cons_append]

/-- A key of the map afterwards was a key before or is the node itself. -/
theorem key_of_mem_put (he : e ∈ put m n b) : e.1 = n ∨ ∃ e' ∈ m, e'.1 = e.1 := by
  induction m with
  | nil =>
    rw [put, List.mem_singleton] at he
    subst he
    exact .inl rfl
  | cons e' m ih =>
    unfold put at he
    split_ifs at he with hn
    · rcases List.mem_cons.1 he with rfl | he
      · exact .inr ⟨e', List.mem_cons_self, rfl⟩
      · exact .inr ⟨e, List.mem_cons_of_mem _ he, rfl⟩
    · rcases List.mem_cons.1 he with rfl | he
      · exact .inr ⟨e, List.mem_cons_self, rfl⟩
      · rcases ih he with h | ⟨e'', h, hk⟩
        · exact .inl h
        · exact .inr ⟨e'', List.mem_cons_of_mem _ h, hk⟩

theorem keys_put_nodup (h : (m.map (·.1.label.id)).Nodup) :
    ((put m n b).map (·.1.label.id)).Nodup := by
  induction m with
  | nil => exact List.nodup_singleton _
  | cons e m ih =>
    rw [List.map_cons, List.nodup_cons] at h
    unfold put
    split_ifs with hn
    · rw [List.map_cons, List.nodup_cons]
      exact h
    · rw [List.map_cons, List.nodup_cons]
      refine ⟨?_, ih h.2⟩
      intro hmem
      obtain ⟨e', he', hid⟩ := List.mem_map.1 hmem
      rcases key_of_mem_put he' with hk | ⟨e'', he'', hk⟩
      · exact hn (Node.is_iff.2 (by rw [← hid, hk]))
      · exact h.1 (List.mem_map.2 ⟨e'', he'', by rw [hk, hid]⟩)

theorem get?_of_mem (h : (m.map (·.1.label.id)).Nodup) (he : e ∈ m) :
    get? m e.1 = some e.2 := by
  induction m with
  | nil => cases he
  | cons e' m ih =>
    rw [List.map_cons, List.nodup_cons] at h
    rw [get?_cons]
    rcases List.mem_cons.1 he with rfl | he
    · rw [if_pos (Node.is_self _)]
    · have hne : ¬ Node.is e'.1 e.1 := fun hi =>
        h.1 (List.mem_map.2 ⟨e, he, (Node.is_iff.1 hi).symm⟩)
      rw [if_neg hne, ih h.2 he]

end Outline.NodeMap
