import Mathlib.Tactic.SplitIfs
import Outline.Containment.Trace

/-! What one visit of the pass does. `Step` lists the ways of a visit that ends without a
violation, and `Runs` chains them, so that a property of a whole pass is an induction on `Runs`
with one case for each way. The pass itself gives such a chain (`runs_of_placements`). -/

namespace Outline.Containment

variable {transparent : List Kind} {root : Node} {scopes scopes' : List Scope}
  {v : Visit Entry} {vs : List (Visit Entry)} {p? : Option Placement} {ps : List Placement}

theorem Role.ofKind?_eq_some_iff {k : Kind} {r : Role} : Role.ofKind? k = some r ↔ k = r.name := by
  constructor
  · intro h
    unfold Role.ofKind? at h
    split_ifs at h with h1 h2 h3 h4 <;> cases h <;> assumption
  · rintro rfl
    cases r <;> rfl

/-- The pass over the visits looks at this one: it is neither the root nor transparent. -/
def isVisible (transparent : List Kind) (root : Node) (v : Visit Entry) : Bool :=
  !(Node.is v.node root || isTransparent transparent v.node)

def isPlaced (transparent : List Kind) (root : Node) (v : Visit Entry) : Bool :=
  isVisible transparent root v && !isBreak v.node

def breaksOff (transparent : List Kind) (root : Node) (v : Visit Entry) : Bool :=
  isVisible transparent root v && isBreak v.node

def placed (transparent : List Kind) (root : Node) (vs : List (Visit Entry)) : List Node :=
  (vs.filter (isPlaced transparent root)).map (·.node)

theorem isPlaced_of_breaksOff (h : breaksOff transparent root v) :
    isPlaced transparent root v = false := by
  simp only [breaksOff, isPlaced, Bool.and_eq_true] at h ⊢
  simp [h.2]

theorem breaksOff_of_isPlaced (h : isPlaced transparent root v) :
    breaksOff transparent root v = false := by
  simp only [breaksOff, isPlaced, Bool.and_eq_true, Bool.not_eq_true'] at h ⊢
  simp [h.2]

/-- The scope that a container opens: a heading's depth is its own, other depths do not count. -/
structure Scope.Opens (s : Scope) (n : Node) : Prop where
  node : s.node = n
  role : Role.ofKind? n.label.kind = some s.role
  depth : s.role = .heading → validDepth? n.label.depth = some s.depth

/-- The scopes that stay open under a new one. -/
def keptUnder (s : Scope) (v : Visit Entry) (scopes : List Scope) : List Scope :=
  match s.role with
  | .heading => closeForHeading s.depth scopes
  | .listItem => closeForItem v.parent scopes
  | _ => scopes

theorem keptUnder_suffix (s : Scope) (v : Visit Entry) (scopes : List Scope) :
    keptUnder s v scopes <:+ scopes := by
  unfold keptUnder
  split
  · exact List.dropWhile_suffix _
  · unfold closeForItem
    split
    · exact List.suffix_refl _
    · split_ifs
      · exact List.nil_suffix
      · exact List.suffix_refl _
  · exact List.suffix_refl _

def Scope.map (f : Node → Node) (s : Scope) : Scope := { s with node := f s.node }

theorem closeForHeading_map (f : Node → Node) (d : Int) (scopes : List Scope) :
    closeForHeading d (scopes.map (Scope.map f)) =
      (closeForHeading d scopes).map (Scope.map f) := by
  unfold closeForHeading
  rw [List.dropWhile_map]
  rfl

theorem innermost_map (f : Node → Node) (root : Node) (scopes : List Scope) :
    innermost (f root) (scopes.map (Scope.map f)) = f (innermost root scopes) := by
  cases scopes <;> rfl

/-- The ways of one visit without a violation. -/
inductive Step (transparent : List Kind) (root : Node) (v : Visit Entry) (scopes : List Scope) :
    List Scope → Option Placement → Prop
  | hidden (hv : isVisible transparent root v = false) : Step transparent root v scopes scopes none
  | reset (hb : breaksOff transparent root v) : Step transparent root v scopes [] none
  | leaf (hp : isPlaced transparent root v) (hk : Role.ofKind? v.node.label.kind = none) :
    Step transparent root v scopes scopes (some ⟨innermost root scopes, v.node⟩)
  | container (hp : isPlaced transparent root v) (s : Scope) (ho : s.Opens v.node) :
    Step transparent root v scopes (s :: keptUnder s v scopes)
      (some ⟨innermost root (keptUnder s v scopes), v.node⟩)

theorem openScope_ok {s : Scope} {kept : List Scope} (h : openScope v scopes = .ok (s, kept)) :
    s.Opens v.node ∧ kept = keptUnder s v scopes := by
  unfold openScope roleOf at h
  rcases hr : Role.ofKind? v.node.label.kind with _ | r
  · rw [hr] at h; cases h
  · rw [hr] at h
    cases r with
    | heading =>
      unfold depthOf at h
      rcases hd : validDepth? v.node.label.depth with _ | d
      · rw [hd] at h; cases h
      · rw [hd] at h
        cases h
        exact ⟨⟨rfl, hr, fun _ => hd⟩, rfl⟩
    | listItem => cases h; exact ⟨⟨rfl, hr, nofun⟩, rfl⟩
    | root => cases h; exact ⟨⟨rfl, hr, nofun⟩, rfl⟩
    | blockquote => cases h; exact ⟨⟨rfl, hr, nofun⟩, rfl⟩

theorem step_ok (h : step transparent root scopes v = .ok (scopes', p?)) :
    Step transparent root v scopes scopes' p? := by
  unfold step at h
  rcases hh : Node.is v.node root || isTransparent transparent v.node with _ | _
  · have hv : isVisible transparent root v = true := by unfold isVisible; rw [hh]; rfl
    rw [hh, if_neg Bool.false_ne_true] at h
    by_cases hb : isBreak v.node
    · rw [if_pos hb] at h
      cases h
      exact .reset (by simp [breaksOff, hv, hb])
    · rw [if_neg hb] at h
      have hp : isPlaced transparent root v = true := by simp [isPlaced, hv, hb]
      by_cases hk : isContainer v.node.label.kind
      · rw [if_pos hk] at h
        rcases ho : openScope v scopes with e | ⟨s, kept⟩
        · rw [ho] at h; cases h
        · rw [ho] at h
          cases h
          obtain ⟨hs, rfl⟩ := openScope_ok ho
          exact .container hp s hs
      · rw [if_neg hk] at h
        cases h
        exact .leaf hp (by simpa [isContainer] using hk)
  · rw [hh, if_pos rfl] at h
    cases h
    exact .hidden (by unfold isVisible; rw [hh]; rfl)

/-- A chain of visits without a violation: the scopes before, the visits, the placements. -/
inductive Runs (transparent : List Kind) (root : Node) :
    List Scope → List (Visit Entry) → List Placement → Prop
  | nil {scopes : List Scope} : Runs transparent root scopes [] []
  | cons {scopes scopes' : List Scope} {v : Visit Entry} {vs : List (Visit Entry)}
      {p? : Option Placement} {ps : List Placement} (hs : Step transparent root v scopes scopes' p?)
      (hr : Runs transparent root scopes' vs ps) :
      Runs transparent root scopes (v :: vs) (p?.toList ++ ps)

theorem runs_of_run (h : (run transparent root scopes vs).violation = none) :
    Runs transparent root scopes vs (run transparent root scopes vs).placements := by
  induction vs generalizing scopes with
  | nil => exact .nil
  | cons v vs ih =>
    unfold run at h ⊢
    rcases hs : step transparent root scopes v with e | ⟨scopes', p?⟩
    · rw [hs] at h; cases h
    · rw [hs] at h
      exact .cons (step_ok hs) (ih h)

theorem resolve_eq (h : placements transparent root = .ok ps) :
    resolve transparent root = ⟨ps, none⟩ := by
  unfold placements at h
  split at h
  · cases h
  · next hv =>
    cases h
    rw [← hv]

theorem runs_of_placements (h : placements transparent root = .ok ps) :
    Runs transparent root [] root.visits ps := by
  have hr := resolve_eq h
  unfold resolve at hr
  rw [Tree.walk_eq_visits] at hr
  have hrun := runs_of_run (congrArg Trace.violation hr)
  rwa [hr] at hrun

end Outline.Containment
