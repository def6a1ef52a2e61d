import Mathlib.Data.List.TakeWhile
import Outline.Proofs.Step
import Outline.Proofs.Visit

/-! Where a node goes, said without scopes. The rule looks at the visits before it, the latest
first: at the container placed last (`previous`), and for a heading at the headings and nested
roots since all scopes were closed last (`sinceReset`). The pass follows the rule because its
scopes answer every question of the rule as the history does (`Agrees`). -/

namespace Outline.Containment

variable (transparent : List Kind) (root : Node)

def placesContainer (v : Visit Entry) : Bool :=
  isPlaced transparent root v && isContainer v.node.label.kind

/-- The container placed last, unless a break came after it. -/
def previous (earlier : List (Visit Entry)) : Option Node :=
  ((earlier.takeWhile (!breaksOff transparent root ·)).find? (placesContainer transparent root)).map
    (·.node)

/-- An item after an item that does not hold the list around it among its own children. -/
def startsAnew (earlier : List (Visit Entry)) (v : Visit Entry) : Bool :=
  isPlaced transparent root v && v.node.label.kind == Kind.listItem &&
    (previous transparent root earlier).any fun p =>
      p.label.kind == Kind.listItem && !encloses p v.parent

/-- The visits since a break or an item that starts anew; that item is the earliest of them. -/
def sinceReset : List (Visit Entry) → List (Visit Entry)
  | [] => []
  | v :: earlier =>
    if breaksOff transparent root v then []
    else if startsAnew transparent root earlier v then [v]
    else v :: sinceReset earlier

/-- A heading of lesser depth, or a nested root. -/
def hostsHeading (depth : Int) (v : Visit Entry) : Bool :=
  isPlaced transparent root v && (v.node.label.kind == Kind.root ||
    (v.node.label.kind == Kind.heading && (validDepth? v.node.label.depth).any (· < depth)))

def headingHost (depth : Int) (earlier : List (Visit Entry)) : Option Node :=
  ((sinceReset transparent root earlier).find? (hostsHeading transparent root depth)).map (·.node)

/-- The container of a placed node by the visits before it. -/
def ruledContainer (earlier : List (Visit Entry)) (v : Visit Entry) : Node :=
  if v.node.label.kind = Kind.heading then
    ((validDepth? v.node.label.depth).bind
      (headingHost transparent root · earlier)).getD root
  else if startsAnew transparent root earlier v then root
  else (previous transparent root earlier).getD root

def ruled (earlier : List (Visit Entry)) : List (Visit Entry) → List Placement
  | [] => []
  | v :: vs =>
    if isPlaced transparent root v then
      ⟨ruledContainer transparent root earlier v, v.node⟩ :: ruled (v :: earlier) vs
    else ruled (v :: earlier) vs

variable {transparent root} {v : Visit Entry} {vs earlier : List (Visit Entry)}
  {scopes scopes' : List Scope} {p? : Option Placement} {ps : List Placement}

theorem previous_of_breaksOff (hb : breaksOff transparent root v) :
    previous transparent root (v :: earlier) = none := by
  simp [previous, hb]

theorem previous_of_placesContainer (hc : placesContainer transparent root v) :
    previous transparent root (v :: earlier) = some v.node := by
  have hp : isPlaced transparent root v := by
    simp only [placesContainer, Bool.and_eq_true] at hc; exact hc.1
  simp [previous, breaksOff_of_isPlaced hp, hc]

theorem previous_of_not (hb : breaksOff transparent root v = false)
    (hc : placesContainer transparent root v = false) :
    previous transparent root (v :: earlier) = previous transparent root earlier := by
  simp [previous, hb, hc]

theorem headingHost_of_not {d : Int} (hb : breaksOff transparent root v = false)
    (hs : startsAnew transparent root earlier v = false)
    (hh : hostsHeading transparent root d v = false) :
    headingHost transparent root d (v :: earlier) = headingHost transparent root d earlier := by
  simp [headingHost, sinceReset, hb, hs, hh]

theorem headingHost_of_hosts {d : Int} (hh : hostsHeading transparent root d v) :
    headingHost transparent root d (v :: earlier) = some v.node := by
  have hb : breaksOff transparent root v = false := by
    simp only [hostsHeading, Bool.and_eq_true] at hh
    exact breaksOff_of_isPlaced hh.1
  unfold headingHost sinceReset
  rw [hb, if_neg Bool.false_ne_true]
  split_ifs <;> simp [hh]

theorem startsAnew_of_kind (hk : v.node.label.kind ≠ Kind.listItem) :
    startsAnew transparent root earlier v = false := by
  simp [startsAnew, hk]

theorem isContainer_name (r : Role) : isContainer r.name := by cases r <;> rfl

theorem kind_ne_name (hp : isPlaced transparent root v)
    (hc : placesContainer transparent root v = false) (r : Role) : v.node.label.kind ≠ r.name := by
  intro hk
  rw [placesContainer, hp, hk, isContainer_name] at hc
  cases hc

theorem startsAnew_of_not (hc : placesContainer transparent root v = false) :
    startsAnew transparent root earlier v = false := by
  cases hp : isPlaced transparent root v with
  | false => simp [startsAnew, hp]
  | true => exact startsAnew_of_kind (kind_ne_name hp hc .listItem)

theorem hostsHeading_of_not {d : Int} (hc : placesContainer transparent root v = false) :
    hostsHeading transparent root d v = false := by
  cases hp : isPlaced transparent root v with
  | false => simp [hostsHeading, hp]
  | true =>
    have h1 : v.node.label.kind ≠ Kind.root := kind_ne_name hp hc .root
    have h2 : v.node.label.kind ≠ Kind.heading := kind_ne_name hp hc .heading
    simp [hostsHeading, h1, h2]

theorem outlasts_eq_hostsHeading {d : Int} {s : Scope} (hp : isPlaced transparent root v)
    (ho : s.Opens v.node) : s.outlasts d = hostsHeading transparent root d v := by
  have hk := Role.ofKind?_eq_some_iff.1 ho.role
  unfold Scope.outlasts hostsHeading
  rw [hp, hk]
  cases hr : s.role with
  | heading => rw [ho.depth hr]; rfl
  | root => rfl
  | listItem => rfl
  | blockquote => rfl

/-- A heading that hosts a depth hosts every greater one, so closing scopes for a heading takes
away no host of a heading that is not deeper. -/
theorem find?_closeForHeading {d e : Int} (h : d ≤ e) (scopes : List Scope) :
    (closeForHeading e scopes).find? (·.outlasts d) = scopes.find? (·.outlasts d) := by
  induction scopes with
  | nil => rfl
  | cons s scopes ih =>
    unfold closeForHeading at ih ⊢
    by_cases he : s.outlasts e
    · simp [he]
    · have hd : s.outlasts d = false := by
        simp only [Scope.outlasts, Bool.or_eq_true, Bool.and_eq_true, decide_eq_true_eq,
          not_or, not_and, Bool.or_eq_false_iff, Bool.and_eq_false_imp, decide_eq_false_iff_not]
          at he ⊢
        exact ⟨by simpa using he.1, fun hr => by have := he.2 hr; omega⟩
      simp [he, hd, ih]

/-- The scopes answer as the history does: the innermost scope is the container placed last, and
the first scope that outlasts a heading is the host of that heading, for any depth. -/
structure Agrees (transparent : List Kind) (root : Node) (scopes : List Scope)
    (earlier : List (Visit Entry)) : Prop where
  opens : ∀ s ∈ scopes, s.Opens s.node
  latest : scopes.head?.map (·.node) = previous transparent root earlier
  host : ∀ d, (scopes.find? (·.outlasts d)).map (·.node) = headingHost transparent root d earlier

theorem Agrees.nil : Agrees transparent root [] [] := ⟨nofun, rfl, fun _ => rfl⟩

theorem Agrees.skip (ha : Agrees transparent root scopes earlier)
    (hb : breaksOff transparent root v = false) (hc : placesContainer transparent root v = false) :
    Agrees transparent root scopes (v :: earlier) := by
  refine ⟨ha.opens, ?_, ?_⟩
  · rw [previous_of_not hb hc]
    exact ha.latest
  · intro d
    rw [headingHost_of_not hb (startsAnew_of_not hc) (hostsHeading_of_not hc)]
    exact ha.host d

theorem Agrees.reset (hb : breaksOff transparent root v) :
    Agrees transparent root [] (v :: earlier) := by
  refine ⟨nofun, ?_, ?_⟩
  · rw [previous_of_breaksOff hb]
    rfl
  · intro d
    simp [headingHost, sinceReset, hb]

theorem Agrees.closeForItem_eq (ha : Agrees transparent root scopes earlier)
    (hp : isPlaced transparent root v) (hk : v.node.label.kind = Kind.listItem) :
    closeForItem v.parent scopes =
      if startsAnew transparent root earlier v then [] else scopes := by
  have hl := ha.latest
  cases scopes with
  | nil => simp [closeForItem]
  | cons s rest =>
    have hr : (s.node.label.kind == Kind.listItem) = (s.role == .listItem) := by
      have := Role.ofKind?_eq_some_iff.1 (ha.opens s (by simp)).role
      rw [this]
      cases s.role <;> rfl
    simp only [List.head?_cons, Option.map_some] at hl
    simp [closeForItem, startsAnew, hp, hk, ← hl, hr]

theorem Agrees.push {s : Scope} (ha : Agrees transparent root scopes earlier)
    (hp : isPlaced transparent root v) (ho : s.Opens v.node) :
    Agrees transparent root (s :: keptUnder s v scopes) (v :: earlier) := by
  have hk := Role.ofKind?_eq_some_iff.1 ho.role
  have hb := breaksOff_of_isPlaced hp
  have hc : placesContainer transparent root v := by
    simp [placesContainer, hp, isContainer, ho.role]
  refine ⟨?_, ?_, ?_⟩
  · intro t ht
    rcases List.mem_cons.1 ht with rfl | ht
    · rw [ho.node]; exact ho
    · exact ha.opens t ((keptUnder_suffix s v scopes).subset ht)
  · rw [previous_of_placesContainer hc]; simp [ho.node]
  · intro d
    rw [List.find?_cons, outlasts_eq_hostsHeading hp ho]
    cases hh : hostsHeading transparent root d v with
    | true => rw [headingHost_of_hosts hh]; simp [ho.node]
    | false =>
      have hd : s.outlasts d = false := (outlasts_eq_hostsHeading hp ho).trans hh
      cases hr : s.role with
      | root => simp [Scope.outlasts, hr] at hd
      | blockquote =>
        rw [headingHost_of_not hb (startsAnew_of_kind (by rw [hk, hr]; decide)) hh]
        simpa [keptUnder, hr] using ha.host d
      | listItem =>
        simp only [keptUnder, hr]
        rw [ha.closeForItem_eq hp (by rw [hk, hr]; rfl)]
        cases hs : startsAnew transparent root earlier v with
        | true => simp [headingHost, sinceReset, hb, hs, hh]
        | false => rw [headingHost_of_not hb hs hh]; exact ha.host d
      | heading =>
        have hle : d ≤ s.depth := by simpa [Scope.outlasts, hr] using hd
        rw [headingHost_of_not hb (startsAnew_of_kind (by rw [hk, hr]; decide)) hh]
        simp only [keptUnder, hr]
        rw [find?_closeForHeading hle]
        exact ha.host d

theorem innermost_eq (ha : Agrees transparent root scopes earlier) :
    innermost root scopes = (previous transparent root earlier).getD root := by
  rw [innermost, ha.latest]

theorem innermost_closeForHeading (d : Int) (scopes : List Scope) :
    innermost root (closeForHeading d scopes) =
      ((scopes.find? (·.outlasts d)).map (·.node)).getD root := by
  rw [innermost, closeForHeading, List.find?_eq_head?_dropWhile_not]

theorem Agrees.innermost_container (ha : Agrees transparent root scopes earlier)
    (hh : v.node.label.kind ≠ Kind.heading) (hs : startsAnew transparent root earlier v = false) :
    innermost root scopes = ruledContainer transparent root earlier v := by
  rw [ruledContainer, if_neg hh, hs, innermost_eq ha]
  rfl

theorem Agrees.leaf_container (ha : Agrees transparent root scopes earlier)
    (hk : Role.ofKind? v.node.label.kind = none) :
    innermost root scopes = ruledContainer transparent root earlier v := by
  have hne (r : Role) : v.node.label.kind ≠ r.name := fun h => by
    rw [Role.ofKind?_eq_some_iff.2 h] at hk; cases hk
  exact ha.innermost_container (hne .heading) (startsAnew_of_kind (hne .listItem))

theorem Agrees.push_container {s : Scope} (ha : Agrees transparent root scopes earlier)
    (hp : isPlaced transparent root v) (ho : s.Opens v.node) :
    innermost root (keptUnder s v scopes) = ruledContainer transparent root earlier v := by
  have hk := Role.ofKind?_eq_some_iff.1 ho.role
  cases hr : s.role with
  | heading =>
    rw [ruledContainer, if_pos (by rw [hk, hr]; rfl), ho.depth hr, keptUnder, hr,
      innermost_closeForHeading, ha.host]
    rfl
  | listItem =>
    have hi : v.node.label.kind = Kind.listItem := by rw [hk, hr]; rfl
    have hh : v.node.label.kind ≠ Kind.heading := by rw [hi]; decide
    rw [keptUnder, hr]
    dsimp only
    rw [ha.closeForItem_eq hp hi]
    cases hs : startsAnew transparent root earlier v with
    | true => rw [ruledContainer, if_neg hh, hs]; rfl
    | false => exact ha.innermost_container hh hs
  | root =>
    have hh : v.node.label.kind ≠ Kind.heading := by rw [hk, hr]; decide
    have hi : v.node.label.kind ≠ Kind.listItem := by rw [hk, hr]; decide
    rw [keptUnder, hr]
    exact ha.innermost_container hh (startsAnew_of_kind hi)
  | blockquote =>
    have hh : v.node.label.kind ≠ Kind.heading := by rw [hk, hr]; decide
    have hi : v.node.label.kind ≠ Kind.listItem := by rw [hk, hr]; decide
    rw [keptUnder, hr]
    exact ha.innermost_container hh (startsAnew_of_kind hi)

/-- From scopes that agree with the history, the rest of a run follows the rule. -/
theorem Runs.eq_ruled (hr : Runs transparent root scopes vs ps)
    (ha : Agrees transparent root scopes earlier) : ps = ruled transparent root earlier vs := by
  induction hr generalizing earlier with
  | nil => rfl
  | @cons scopes scopes' v vs p? ps hs _ ih =>
    unfold ruled
    cases hs with
    | hidden hv =>
      have hp : isPlaced transparent root v = false := by simp [isPlaced, hv]
      rw [hp, if_neg Bool.false_ne_true]
      exact ih (ha.skip (by simp [breaksOff, hv]) (by simp [placesContainer, hp]))
    | reset hb =>
      rw [isPlaced_of_breaksOff hb, if_neg Bool.false_ne_true]
      exact ih (Agrees.reset hb)
    | leaf hp hk =>
      rw [if_pos hp, ← ha.leaf_container hk,
        ← ih (ha.skip (breaksOff_of_isPlaced hp) (by simp [placesContainer, isContainer, hk]))]
      rfl
    | container hp s ho =>
      rw [if_pos hp, ← ha.push_container hp ho, ← ih (ha.push hp ho)]
      rfl

/-- A pass without a violation places exactly the nodes to place, each into the container that the
rule names. -/
theorem placements_eq_ruled (h : placements transparent root = .ok ps) :
    ps = ruled transparent root [] root.visits :=
  (runs_of_placements h).eq_ruled Agrees.nil

theorem placements_eq_ruled_sample :
    ∃ ps, placements [Kind.root, Kind.list, Kind.text] Node.sample = .ok ps ∧
      ps = ruled [Kind.root, Kind.list, Kind.text] Node.sample [] Node.sample.visits ∧
      ps.map (fun p => (p.container.label.id, p.member.label.id)) =
        [(0, 1), (1, 4), (4, 5), (4, 7), (7, 8), (8, 9), (0, 10), (0, 11), (11, 12), (0, 13),
          (0, 15)] :=
  ⟨_, rfl, placements_eq_ruled rfl, rfl⟩

end Outline.Containment
