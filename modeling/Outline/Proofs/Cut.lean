import Outline.Proofs.Step

/-! A pass can be cut at any visit. What it does afterwards depends on what came before through the
open scopes alone: `scopesAfter` are the scopes at the cut, and `run_append` puts the two parts
together again. -/

namespace Outline.Containment

variable {transparent : List Kind} {root : Node} {scopes scopes' : List Scope}
  {vs ws : List (Visit Entry)} {p : Placement}

/-- The scopes that are open after some visits. -/
def scopesAfter (transparent : List Kind) (root : Node) (scopes : List Scope) :
    List (Visit Entry) → Except Violation (List Scope)
  | [] => .ok scopes
  | v :: vs =>
    match step transparent root scopes v with
    | .error e => .error e
    | .ok (scopes, _) => scopesAfter transparent root scopes vs

theorem run_append (transparent : List Kind) (root : Node) (scopes : List Scope)
    (vs ws : List (Visit Entry)) :
    run transparent root scopes (vs ++ ws) =
      match scopesAfter transparent root scopes vs with
      | .error e => ⟨(run transparent root scopes vs).placements, some e⟩
      | .ok scopes' =>
        ⟨(run transparent root scopes vs).placements ++
          (run transparent root scopes' ws).placements,
          (run transparent root scopes' ws).violation⟩ := by
  induction vs generalizing scopes with
  | nil => rfl
  | cons v vs ih =>
    rw [List.cons_append, run, scopesAfter, run]
    rcases step transparent root scopes v with e | ⟨scopes', p?⟩
    · rfl
    · dsimp only
      rw [ih]
      rcases scopesAfter transparent root scopes' vs with e | scopes''
      · rfl
      · simp

theorem placements_isPrefix (transparent : List Kind) (root : Node) (scopes : List Scope)
    (vs ws : List (Visit Entry)) :
    (run transparent root scopes vs).placements <+:
      (run transparent root scopes (vs ++ ws)).placements := by
  rw [run_append]
  rcases scopesAfter transparent root scopes vs with e | scopes'
  · exact List.prefix_refl _
  · exact List.prefix_append _ _

theorem scopesAfter_of_run (h : (run transparent root scopes (vs ++ ws)).violation = none) :
    ∃ scopes', scopesAfter transparent root scopes vs = .ok scopes' ∧
      (run transparent root scopes' ws).violation = none := by
  rw [run_append] at h
  rcases hs : scopesAfter transparent root scopes vs with e | scopes'
  · rw [hs] at h; cases h
  · rw [hs] at h
    exact ⟨scopes', rfl, h⟩

/-- Every placement was made at some visit, with the scopes that were open then. -/
theorem exists_step_of_mem (hp : p ∈ (run transparent root scopes vs).placements) :
    ∃ before v after scopes' scopes'', vs = before ++ v :: after ∧
      scopesAfter transparent root scopes before = .ok scopes' ∧
      step transparent root scopes' v = .ok (scopes'', some p) := by
  induction vs generalizing scopes with
  | nil => cases hp
  | cons v vs ih =>
    unfold run at hp
    rcases hs : step transparent root scopes v with e | ⟨scopes', p?⟩
    · rw [hs] at hp; cases hp
    · rw [hs] at hp
      rcases List.mem_append.1 hp with hp | hp
      · obtain rfl := Option.mem_toList.1 hp
        exact ⟨[], v, vs, scopes, scopes', rfl, rfl, hs⟩
      · obtain ⟨before, w, after, s, s', rfl, hb, hw⟩ := ih hp
        refine ⟨v :: before, w, after, s, s', rfl, ?_, hw⟩
        rw [scopesAfter, hs]
        exact hb

end Outline.Containment
