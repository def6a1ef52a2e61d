import Mathlib.Data.List.Nodup
import Mathlib.Data.List.Perm.Subperm
import Mathlib.Tactic.SplitIfs
import Outline.Containment.Drawing
import Outline.Proofs.NodeMap

/-! What is drawn, without a bound on the depth. `Draws` follows the drawing of siblings under a path
of nodes and has one rule for each way of a sibling: it is marked as circular, it is passed over, or
it gets a line with its own drawing below. The bound is never met: nodes with members on one path are
different keys of the map (`drawSiblings_draws`). So a drawing ends, and what holds of it is an
induction on `Draws`. -/

namespace Outline.Containment

open Hierarchy (membersOf)

section Shown

variable {members : NodeMap (List Node)} {threshold : Int} {n : Node}

/-- The members of a node that are drawn: all of them, or the containers alone where there are more
others than the threshold. -/
def shown (members : NodeMap (List Node)) (threshold : Int) (n : Node) : List Node :=
  if ((membersOf members n).countP (!isContainerNode ·) : Int) ≤ threshold then membersOf members n
  else (membersOf members n).filter isContainerNode

theorem drawn_membersOf : drawn threshold (membersOf members n) = shown members threshold n := by
  unfold drawn isCrowded shown
  rcases membersOf members n with _ | ⟨m, ms⟩
  · simp only [List.filter_nil, ite_self]
  · simp only [List.isEmpty_cons, Bool.not_false, Bool.true_and, decide_eq_true_eq,
      List.countP_eq_length_filter, gt_iff_lt, ← Int.not_le, ite_not]

theorem shown_sublist : (shown members threshold n).Sublist (membersOf members n) := by
  unfold shown
  split_ifs
  · exact List.Sublist.refl _
  · exact List.filter_sublist

end Shown

/-- Siblings under a path of nodes, the innermost first: the nodes seen before, the siblings, their
lines, and the nodes seen afterwards. -/
inductive Draws (members : NodeMap (List Node)) (threshold : Int) :
    List Node → List Bool → List Nat → List Node → List Line → List Nat → Prop
  | done {above : List Node} {closed : List Bool} {seen : List Nat} :
    Draws members threshold above closed seen [] [] seen
  | circular {above : List Node} {closed : List Bool} {seen seen' : List Nat} {n : Node}
      {ns : List Node} {lines : List Line} (ha : n.label.id ∈ above.map (·.label.id))
      (hr : Draws members threshold above closed seen ns lines seen') :
    Draws members threshold above closed seen (n :: ns)
      (⟨.circular n, above.head?, closed, ns.isEmpty⟩ :: lines) seen'
  | skip {above : List Node} {closed : List Bool} {seen seen' : List Nat} {n : Node}
      {ns : List Node} {lines : List Line} (ha : n.label.id ∉ above.map (·.label.id))
      (hs : n.label.id ∈ seen) (hr : Draws members threshold above closed seen ns lines seen') :
    Draws members threshold above closed seen (n :: ns) lines seen'
  | node {above : List Node} {closed below : List Bool} {seen seen₁ seen' : List Nat} {n : Node}
      {ns : List Node} {own lines : List Line} (ha : n.label.id ∉ above.map (·.label.id))
      (hs : n.label.id ∉ seen)
      (hb : below = if above.head?.isNone then closed else closed ++ [ns.isEmpty])
      (ho : Draws members threshold (n :: above) below (n.label.id :: seen)
        (shown members threshold n) own seen₁)
      (hr : Draws members threshold above closed seen₁ ns lines seen') :
    Draws members threshold above closed seen (n :: ns)
      (⟨.node n, above.head?, closed, ns.isEmpty⟩ ::
        (summaryLine threshold n below (membersOf members n) ++ own ++ lines)) seen'

variable {members : NodeMap (List Node)} {threshold : Int} {above ns : List Node}
  {closed : List Bool} {seen seen' : List Nat} {lines : List Line} {n : Node}

theorem key_of_mem_membersOf {m : Node} (hm : m ∈ membersOf members n) :
    n.label.id ∈ members.map (·.1.label.id) := by
  unfold membersOf NodeMap.get? at hm
  rcases hf : members.find? (·.1.is n) with _ | e
  · simp [hf] at hm
  · have hid := List.find?_some hf
    exact List.mem_map.2 ⟨e, List.mem_of_find?_eq_some hf, Node.is_iff.1 hid⟩

theorem drawSiblings_draws (threshold : Int) {fuel : Nat} (hn : (above.map (·.label.id)).Nodup)
    (hk : above.map (·.label.id) ⊆ members.map (·.1.label.id))
    (hf : members.length < fuel + above.length) (closed : List Bool) (seen : List Nat)
    (ns : List Node) :
    ∃ lines seen', drawSiblings (drawNode members threshold fuel (above.map (·.label.id))
        above.head? closed) seen ns = (lines, seen') ∧
      Draws members threshold above closed seen ns lines seen' := by
  induction fuel generalizing above closed seen ns with
  | zero =>
    have := (List.subperm_of_subset hn hk).length_le
    simp only [List.length_map] at this
    omega
  | succ fuel ih =>
    have hbelow (n : Node) (ha : n.label.id ∉ above.map (·.label.id)) (seen : List Nat)
        (below : List Bool) :
        ∃ own seen₁, drawSiblings (drawNode members threshold fuel
            (n.label.id :: above.map (·.label.id)) (some n) below) (n.label.id :: seen)
            (shown members threshold n) = (own, seen₁) ∧
          Draws members threshold (n :: above) below (n.label.id :: seen)
            (shown members threshold n) own seen₁ := by
      rcases hm : shown members threshold n with _ | ⟨m, ms⟩
      · exact ⟨[], _, rfl, .done⟩
      · have hkey : n.label.id ∈ members.map (·.1.label.id) :=
          key_of_mem_membersOf (shown_sublist.subset (hm ▸ List.mem_cons_self))
        have hn' : ((n :: above).map (·.label.id)).Nodup := List.nodup_cons.2 ⟨ha, hn⟩
        exact ih hn' (List.cons_subset.2 ⟨hkey, hk⟩) (by rw [List.length_cons]; omega) below _ _
    induction ns generalizing seen with
    | nil => exact ⟨[], seen, rfl, .done⟩
    | cons n ns ihns =>
      rw [drawSiblings, drawNode]
      by_cases ha : n.label.id ∈ above.map (·.label.id)
      · obtain ⟨lines, seen', he, hd⟩ := ihns seen
        rw [if_pos (List.contains_iff_mem.2 ha)]
        dsimp only
        rw [he]
        exact ⟨_, _, rfl, .circular ha hd⟩
      · rw [if_neg (by simpa using ha)]
        by_cases hs : n.label.id ∈ seen
        · obtain ⟨lines, seen', he, hd⟩ := ihns seen
          rw [if_pos (List.contains_iff_mem.2 hs)]
          dsimp only
          rw [he]
          exact ⟨_, _, rfl, .skip ha hs hd⟩
        · rw [if_neg (by simpa using hs)]
          obtain ⟨own, seen₁, ho, hown⟩ := hbelow n ha seen (if above.head?.isNone then closed
            else closed ++ [ns.isEmpty])
          obtain ⟨lines, seen', he, hd⟩ := ihns seen₁
          dsimp only
          rw [drawn_membersOf, ho]
          dsimp only
          rw [he]
          exact ⟨_, _, by simp, .node ha hs rfl hown hd⟩

theorem drawNode_draws (threshold : Int) {fuel : Nat} (hf : members.length < fuel) (root : Node) :
    ∃ seen, Draws members threshold [] [] [] [root]
      (drawNode members threshold fuel [] none [] [] true root).1 seen := by
  have hnil : (([] : List Node).map (·.label.id)).Nodup := List.nodup_nil
  obtain ⟨lines, seen, he, hd⟩ :=
    drawSiblings_draws threshold hnil (List.nil_subset _) (by simpa using hf) [] [] [root]
  have hlines : (drawNode members threshold fuel [] none [] [] true root).1 = lines := by
    simpa [drawSiblings] using congrArg Prod.fst he
  exact ⟨seen, hlines ▸ hd⟩

theorem Draws.functional {lines' : List Line} {seen'' : List Nat}
    (h : Draws members threshold above closed seen ns lines seen')
    (h' : Draws members threshold above closed seen ns lines' seen'') :
    lines = lines' ∧ seen' = seen'' := by
  induction h generalizing lines' seen'' with
  | done => cases h'; exact ⟨rfl, rfl⟩
  | circular ha _ ih =>
    cases h' with
    | circular _ hr => obtain ⟨rfl, rfl⟩ := ih hr; exact ⟨rfl, rfl⟩
    | skip hn _ _ => exact absurd ha hn
    | node hn _ _ _ _ => exact absurd ha hn
  | skip ha hs _ ih =>
    cases h' with
    | circular hn _ => exact absurd hn ha
    | skip _ _ hr => exact ih hr
    | node _ hn _ _ _ => exact absurd hs hn
  | node ha hs hb _ _ iho ihr =>
    cases h' with
    | circular hn _ => exact absurd hn ha
    | skip _ hn _ => exact absurd hn hs
    | node _ _ hb' ho hr =>
      obtain rfl := hb.trans hb'.symm
      obtain ⟨rfl, rfl⟩ := iho ho
      obtain ⟨rfl, rfl⟩ := ihr hr
      exact ⟨rfl, rfl⟩

theorem draw_draws (members : NodeMap (List Node)) (threshold : Int) (root : Node) :
    ∃ seen, Draws members threshold [] [] [] [root] (draw members threshold root) seen :=
  drawNode_draws threshold (Nat.lt_succ_self _) root

/-- The bound on the depth has no part in what is drawn. -/
theorem drawNode_eq_draw {fuel : Nat} (hf : members.length < fuel) (root : Node) :
    (drawNode members threshold fuel [] none [] [] true root).1 = draw members threshold root := by
  obtain ⟨_, h⟩ := drawNode_draws threshold hf root
  obtain ⟨_, h'⟩ := draw_draws members threshold root
  exact (h.functional h').1

/-- The visit that a line draws, if it draws one: a node and the one it stands under. -/
def Line.visit? (l : Line) : Option (Visit Entry) :=
  match l.content with
  | .node n => some ⟨n, l.owner⟩
  | _ => none

def visitsOf (lines : List Line) : List (Visit Entry) := lines.filterMap Line.visit?

def nodesOf (lines : List Line) : List Node := (visitsOf lines).map (·.node)

def under (lines : List Line) (n : Node) : List Line :=
  lines.filter fun l => l.owner.any (Node.is · n)

/-- A path in a drawing, the innermost node first: each node has its line under the one that comes
after it, and the last has the top line. -/
inductive Branch (lines : List Line) : List Node → Prop
  | nil : Branch lines []
  | cons {n : Node} {above : List Node} (hv : ⟨n, above.head?⟩ ∈ visitsOf lines)
      (h : Branch lines above) : Branch lines (n :: above)

def onPath (path : List Node) (n : Node) : Bool := path.any (Node.is n)

theorem onPath_iff : onPath above n = true ↔ n.label.id ∈ above.map (·.label.id) := by
  simp only [onPath, List.any_eq_true, List.mem_map, Node.is_iff, @eq_comm _ n.label.id]

/-- The lines of siblings alone, without what is below them. -/
inductive Row (above : List Node) (closed : List Bool) :
    List Nat → List Node → List Line → Prop
  | done {seen : List Nat} : Row above closed seen [] []
  | circular {seen : List Nat} {n : Node} {ns : List Node} {row : List Line}
      (ha : n.label.id ∈ above.map (·.label.id)) (hr : Row above closed seen ns row) :
    Row above closed seen (n :: ns) (⟨.circular n, above.head?, closed, ns.isEmpty⟩ :: row)
  | skip {seen : List Nat} {n : Node} {ns : List Node} {row : List Line}
      (ha : n.label.id ∉ above.map (·.label.id)) (hs : n.label.id ∈ seen)
      (hr : Row above closed seen ns row) : Row above closed seen (n :: ns) row
  | node {seen seen₁ : List Nat} {n : Node} {ns : List Node} {row : List Line}
      (ha : n.label.id ∉ above.map (·.label.id)) (hs : n.label.id ∉ seen)
      (hg : n.label.id :: seen ⊆ seen₁) (hr : Row above closed seen₁ ns row) :
    Row above closed seen (n :: ns) (⟨.node n, above.head?, closed, ns.isEmpty⟩ :: row)

section Lines

variable {l : Line} {owner : Option Node} {last : Bool} {ms : List Node} {more : List Line}

@[simp] theorem visitsOf_append : visitsOf (lines ++ more) = visitsOf lines ++ visitsOf more :=
  List.filterMap_append

@[simp] theorem visitsOf_node :
    visitsOf (⟨.node n, owner, closed, last⟩ :: lines) = ⟨n, owner⟩ :: visitsOf lines := rfl

@[simp] theorem visitsOf_circular :
    visitsOf (⟨.circular n, owner, closed, last⟩ :: lines) = visitsOf lines := rfl

@[simp] theorem visitsOf_summaryLine : visitsOf (summaryLine threshold n closed ms) = [] := by
  unfold summaryLine
  split_ifs <;> rfl

@[simp] theorem nodesOf_append : nodesOf (lines ++ more) = nodesOf lines ++ nodesOf more := by
  simp [nodesOf]

@[simp] theorem nodesOf_node :
    nodesOf (⟨.node n, owner, closed, last⟩ :: lines) = n :: nodesOf lines := rfl

@[simp] theorem nodesOf_circular :
    nodesOf (⟨.circular n, owner, closed, last⟩ :: lines) = nodesOf lines := rfl

@[simp] theorem nodesOf_summaryLine : nodesOf (summaryLine threshold n closed ms) = [] := by
  simp [nodesOf]

@[simp] theorem under_append (lines more : List Line) (n : Node) :
    under (lines ++ more) n = under lines n ++ under more n :=
  List.filter_append ..

theorem under_cons_of_eq (h : l.owner = some n) : under (l :: lines) n = l :: under lines n := by
  simp [under, h]

theorem under_cons_of_ne (h : ∀ a ∈ l.owner, a.label.id ≠ n.label.id) :
    under (l :: lines) n = under lines n := by
  unfold under
  rw [List.filter_cons_of_neg]
  rcases ho : l.owner with _ | a
  · exact Bool.false_ne_true
  · exact fun he => h a ho (Node.is_iff.1 he)

theorem eq_of_mem_summaryLine (hl : l ∈ summaryLine threshold n closed ms) :
    l = ⟨.summary (countKinds (ms.filter (!isContainerNode ·))), some n, closed,
      (ms.filter isContainerNode).isEmpty⟩ := by
  unfold summaryLine at hl
  split_ifs at hl
  · exact List.mem_singleton.1 hl
  · cases hl

theorem owner_of_mem_summaryLine (hl : l ∈ summaryLine threshold n closed ms) :
    l.owner = some n := by
  rw [eq_of_mem_summaryLine hl]

theorem under_summaryLine_self :
    under (summaryLine threshold n closed ms) n = summaryLine threshold n closed ms := by
  refine List.filter_eq_self.2 fun l hl => ?_
  rw [owner_of_mem_summaryLine hl]
  exact Node.is_self n

theorem under_summaryLine_of_ne {m : Node} (h : n.label.id ≠ m.label.id) :
    under (summaryLine threshold n closed ms) m = [] := by
  refine List.filter_eq_nil_iff.2 fun l hl => ?_
  rw [owner_of_mem_summaryLine hl]
  exact fun he => h (Node.is_iff.1 he)

end Lines

namespace Draws

variable {m o : Node} {l : Line}

theorem mem_seen (h : Draws members threshold above closed seen ns lines seen') {i : Nat} :
    i ∈ seen' ↔ i ∈ seen ∨ i ∈ (nodesOf lines).map (·.label.id) := by
  induction h with
  | done => simp [nodesOf, visitsOf]
  | circular _ _ ih => simpa using ih
  | skip _ _ _ ih => exact ih
  | node _ _ _ _ _ iho ihr =>
    rw [ihr, iho]
    simp only [nodesOf_node, nodesOf_append, nodesOf_summaryLine, List.mem_cons, List.map_cons,
      List.map_append, List.mem_append, List.nil_append, or_assoc]
    exact or_left_comm

theorem seen_subset (h : Draws members threshold above closed seen ns lines seen') :
    seen ⊆ seen' :=
  fun _ hi => h.mem_seen.2 (.inl hi)

theorem not_mem_seen (h : Draws members threshold above closed seen ns lines seen')
    (hm : m ∈ nodesOf lines) : m.label.id ∉ seen := by
  induction h with
  | done => cases hm
  | circular _ _ ih => exact ih hm
  | skip _ _ _ ih => exact ih hm
  | node _ hs _ ho _ iho ihr =>
    simp only [nodesOf_node, nodesOf_append, nodesOf_summaryLine, List.mem_cons, List.mem_append,
      List.nil_append] at hm
    rcases hm with rfl | hm | hm
    · exact hs
    · exact fun hmem => iho hm (List.mem_cons_of_mem _ hmem)
    · exact fun hmem => ihr hm (ho.seen_subset (List.mem_cons_of_mem _ hmem))

theorem owner_cases (h : Draws members threshold above closed seen ns lines seen')
    (hl : l ∈ lines) : l.owner = above.head? ∨ ∃ m ∈ nodesOf lines, l.owner = some m := by
  induction h with
  | done => cases hl
  | circular _ _ ih =>
    rcases List.mem_cons.1 hl with rfl | hl
    · exact .inl rfl
    · exact ih hl
  | skip _ _ _ ih => exact ih hl
  | @node above closed below seen seen₁ seen' n ns own lines ha hs hb ho hr iho ihr =>
    simp only [List.mem_cons, List.mem_append] at hl
    simp only [nodesOf_node, nodesOf_append, nodesOf_summaryLine, List.nil_append, List.mem_cons,
      List.mem_append]
    rcases hl with rfl | (hl | hl) | hl
    · exact .inl rfl
    · exact .inr ⟨n, .inl rfl, owner_of_mem_summaryLine hl⟩
    · rcases iho hl with h | ⟨m, hm, h⟩
      · exact .inr ⟨n, .inl rfl, h⟩
      · exact .inr ⟨m, .inr (.inl hm), h⟩
    · rcases ihr hl with h | ⟨m, hm, h⟩
      · exact .inl h
      · exact .inr ⟨m, .inr (.inr hm), h⟩

theorem under_eq_nil (h : Draws members threshold above closed seen ns lines seen')
    (ha : ∀ a ∈ above.head?, a.label.id ≠ o.label.id)
    (hn : o.label.id ∉ (nodesOf lines).map (·.label.id)) : under lines o = [] := by
  refine List.filter_eq_nil_iff.2 fun l hl => ?_
  rcases h.owner_cases hl with ho | ⟨m, hm, ho⟩
  · rw [ho]
    rcases hh : above.head? with _ | a
    · exact Bool.false_ne_true
    · exact fun he => ha a hh (Node.is_iff.1 he)
  · rw [ho]
    exact fun he => hn (List.mem_map.2 ⟨m, hm, Node.is_iff.1 he⟩)

/-- Under the innermost node above stand the lines of the siblings. -/
theorem row (h : Draws members threshold above closed seen ns lines seen')
    (ho : above.head? = some o) (hs : o.label.id ∈ seen) :
    Row above closed seen ns (under lines o) := by
  induction h with
  | done => exact .done
  | circular ha _ ih =>
    rw [under_cons_of_eq ho]
    exact .circular ha (ih ho hs)
  | skip ha hn _ ih => exact .skip ha hn (ih ho hs)
  | @node above closed below seen seen₁ seen' n ns own lines ha hn hb hown hr _ ihr =>
    have hne : n.label.id ≠ o.label.id := fun he => hn (he ▸ hs)
    have hnil : under own o = [] := by
      refine hown.under_eq_nil (by simpa using hne) fun hmem => ?_
      obtain ⟨m, hm, he⟩ := List.mem_map.1 hmem
      exact hown.not_mem_seen hm (he ▸ List.mem_cons_of_mem _ hs)
    have hsub := hown.seen_subset
    rw [under_cons_of_eq ho, under_append, under_append, under_summaryLine_of_ne hne, hnil]
    exact .node ha hn hsub (ihr ho (hsub (List.mem_cons_of_mem _ hs)))

/-- Under a node that was drawn stand its summary and the lines of what is shown of it, and it is at
the end of a path. -/
theorem exists_row (h : Draws members threshold above closed seen ns lines seen')
    (ha : above.map (·.label.id) ⊆ seen) {all : List Line} (hall : visitsOf lines ⊆ visitsOf all)
    (hbranch : Branch all above) (hm : m ∈ nodesOf lines) :
    ∃ path closed' seen₁ row, Branch all (m :: path) ∧
      (m :: path).map (·.label.id) ⊆ seen₁ ∧
      Row (m :: path) closed' seen₁ (shown members threshold m) row ∧
      under lines m = summaryLine threshold m closed' (membersOf members m) ++ row := by
  induction h with
  | done => cases hm
  | @circular above closed seen seen' n ns lines _ hr ih =>
    rw [under_cons_of_ne fun a hh he => hr.not_mem_seen hm
      (he ▸ ha (List.mem_map_of_mem (List.mem_of_head? hh)))]
    exact ih ha hall hbranch hm
  | skip _ _ _ ih => exact ih ha hall hbranch hm
  | @node above closed below seen seen₁ seen' n ns own lines hna hn hb hown hr iho ihr =>
    have hsub := hown.seen_subset
    have hfresh : m.label.id ∉ seen := (Draws.node hna hn hb hown hr).not_mem_seen hm
    have hhead : ∀ a ∈ above.head?, a.label.id ≠ m.label.id := fun a hh he =>
      hfresh (he ▸ ha (List.mem_map_of_mem (List.mem_of_head? hh)))
    rw [under_cons_of_ne hhead, under_append, under_append]
    simp only [visitsOf_node, visitsOf_append, visitsOf_summaryLine, List.nil_append,
      List.cons_subset, List.append_subset] at hall
    have hown' : Branch all (n :: above) := .cons hall.1 hbranch
    have hpath : (n :: above).map (·.label.id) ⊆ n.label.id :: seen :=
      List.cons_subset_cons _ ha
    -- nodes drawn among later siblings were not seen, and the others were
    have hlater (hmem : m.label.id ∈ seen₁) : under lines m = [] := by
      refine hr.under_eq_nil hhead fun hd => ?_
      obtain ⟨k, hk, he⟩ := List.mem_map.1 hd
      exact hr.not_mem_seen hk (he ▸ hmem)
    simp only [nodesOf_node, nodesOf_append, nodesOf_summaryLine, List.mem_cons, List.mem_append,
      List.nil_append] at hm
    rcases hm with rfl | hm | hm
    · rw [under_summaryLine_self, hlater (hsub List.mem_cons_self), List.append_nil]
      exact ⟨above, below, _, _, hown', hpath, hown.row rfl List.mem_cons_self, rfl⟩
    · have hne : n.label.id ≠ m.label.id := fun he =>
        hown.not_mem_seen hm (he ▸ List.mem_cons_self)
      have hmem : m.label.id ∈ seen₁ := hown.mem_seen.2 (.inr (List.mem_map_of_mem hm))
      rw [under_summaryLine_of_ne hne, hlater hmem, List.nil_append, List.append_nil]
      exact iho hpath hall.2.1 hown' hm
    · have hmem : m.label.id ∉ seen₁ := hr.not_mem_seen hm
      have hne : n.label.id ≠ m.label.id := fun he => hmem (he ▸ hsub List.mem_cons_self)
      have hnil : under own m = [] := by
        refine hown.under_eq_nil (by simpa using hne) fun hd => ?_
        exact hmem (hown.mem_seen.2 (.inr hd))
      rw [under_summaryLine_of_ne hne, hnil, List.nil_append, List.nil_append]
      exact ihr (fun i hi => hsub (List.mem_cons_of_mem _ (ha hi))) hall.2.2 hbranch hm

end Draws

theorem draw_eq_cons (members : NodeMap (List Node)) (threshold : Int) (root : Node) :
    ∃ rest, draw members threshold root = ⟨.node root, none, [], true⟩ :: rest ∧
      ∀ l ∈ rest, ∃ n ∈ nodesOf (draw members threshold root), l.owner = some n := by
  obtain ⟨seen, h⟩ := draw_draws members threshold root
  generalize draw members threshold root = lines at h
  cases h with
  | circular ha => cases ha
  | skip _ hs => cases hs
  | @node _ _ below _ _ _ _ _ own rest ha hs hb ho hr =>
    cases hr
    refine ⟨_, rfl, fun l hl => ?_⟩
    simp only [List.append_nil, List.mem_append] at hl
    simp only [nodesOf_node, nodesOf_append, nodesOf_summaryLine, List.nil_append, List.append_nil]
    rcases hl with hl | hl
    · exact ⟨root, List.mem_cons_self, owner_of_mem_summaryLine hl⟩
    · rcases ho.owner_cases hl with h | ⟨m, hm, h⟩
      · exact ⟨root, List.mem_cons_self, h⟩
      · exact ⟨m, List.mem_cons_of_mem _ hm, h⟩

end Outline.Containment
