import Outline.Proofs.Rendering

/-! Which branches of a drawing are closed. The end of a branch is given to the last member that is
shown of a node, before it is known whether that member gets a line. So at most the last line under a
node ends its branch (`Row.last_imp`), and it does iff the last member was not passed over
(`closes_iff`). Where that member was drawn elsewhere the branch stays open (`branch_left_open`). -/

namespace Outline.Containment

open Hierarchy (membersOf)

variable {members : NodeMap (List Node)} {threshold : Int} {above ns : List Node}
  {closed : List Bool} {seen : List Nat} {lines row before after : List Line} {n root : Node}
  {l : Line}

/-- Of the lines under a node the last one ends the branch, and no other. -/
def Closes (lines : List Line) (n : Node) : Prop :=
  ∀ before l after, under lines n = before ++ l :: after → (l.last = true ↔ after = [])

/-- The last of the members at the end of a path is not passed over: it is on the path, or it has its
line under their owner, and not from an earlier occurrence. -/
def LastDrawn (lines : List Line) (path ms : List Node) : Prop :=
  ∀ x ∈ ms.getLast?, onPath path x = true ∨
    (x.label.id ∉ ms.dropLast.map (·.label.id) ∧ x.label.id ∈ (nodesOf lines).map (·.label.id))

theorem Row.nil_of_nil (h : Row above closed seen [] row) : row = [] := by
  cases h; rfl

theorem Row.last_imp (h : Row above closed seen ns row) (hl : row = before ++ l :: after)
    (ht : l.last = true) : after = [] := by
  induction h generalizing before with
  | done => simp at hl
  | skip _ _ _ ih => exact ih hl
  | @circular _ n ns row _ hr ih =>
    cases before with
    | nil =>
      obtain ⟨rfl, rfl⟩ := List.cons.inj hl
      obtain rfl := List.isEmpty_iff.1 ht
      exact hr.nil_of_nil
    | cons k before => exact ih (List.cons.inj hl).2
  | @node _ _ n ns row _ _ _ hr ih =>
    cases before with
    | nil =>
      obtain ⟨rfl, rfl⟩ := List.cons.inj hl
      obtain rfl := List.isEmpty_iff.1 ht
      exact hr.nil_of_nil
    | cons k before => exact ih (List.cons.inj hl).2

theorem Row.not_mem_seen (h : Row above closed seen ns row) {i : Nat}
    (hi : i ∈ (nodesOf row).map (·.label.id)) : i ∉ seen := by
  induction h with
  | done => cases hi
  | circular _ _ ih => exact ih hi
  | skip _ _ _ ih => exact ih hi
  | node _ hs hg _ ih =>
    rcases List.mem_cons.1 hi with rfl | hi
    · exact hs
    · exact fun hmem => ih hi (hg (List.mem_cons_of_mem _ hmem))

theorem lastDrawn_cons (row row' : List Line) {m : Node}
    (hold : n.label.id ∉ (nodesOf row).map (·.label.id))
    (hnew : ∀ i ≠ n.label.id,
      i ∈ (nodesOf row').map (·.label.id) ↔ i ∈ (nodesOf row).map (·.label.id)) :
    LastDrawn row' above (n :: m :: ns) ↔ LastDrawn row above (m :: ns) := by
  unfold LastDrawn
  rw [List.getLast?_cons_cons, List.dropLast_cons_cons]
  refine forall₂_congr fun x _ => or_congr_right ?_
  rw [List.map_cons, List.mem_cons, not_or]
  constructor
  · rintro ⟨⟨hne, hinit⟩, hx⟩
    exact ⟨hinit, (hnew _ hne).1 hx⟩
  · rintro ⟨hinit, hx⟩
    have hne : x.label.id ≠ n.label.id := fun he => hold (he ▸ hx)
    exact ⟨⟨hne, hinit⟩, (hnew _ hne).2 hx⟩

theorem Row.exists_last_iff (h : Row above closed seen ns row)
    (ha : above.map (·.label.id) ⊆ seen) :
    (∃ l ∈ row, l.last = true) ↔ ns ≠ [] ∧ LastDrawn row above ns := by
  induction h with
  | done => simp
  | @circular seen n ns row hn hr ih =>
    cases ns with
    | nil => simp [LastDrawn, onPath_iff.2 hn]
    | cons m ns =>
      rw [lastDrawn_cons row _ (fun hi => hr.not_mem_seen hi (ha hn)) fun _ _ => by simp]
      simpa using ih ha
  | @skip seen n ns row hn hs hr ih =>
    cases ns with
    | nil =>
      obtain rfl := hr.nil_of_nil
      simp [LastDrawn, mt onPath_iff.1 hn, nodesOf, visitsOf]
    | cons m ns =>
      rw [lastDrawn_cons row row (fun hi => hr.not_mem_seen hi hs) fun _ _ => Iff.rfl]
      simpa using ih ha
  | @node seen seen₁ n ns row hn hs hg hr ih =>
    cases ns with
    | nil => simp [LastDrawn]
    | cons m ns =>
      have hdrawn := fun hi => hr.not_mem_seen hi (hg List.mem_cons_self)
      rw [lastDrawn_cons row _ hdrawn fun i hi => by simp [hi]]
      simpa using ih fun i hi => hg (List.mem_cons_of_mem _ (ha hi))

/-- Where only a last line can end a branch, a branch is closed iff it is empty or some line ends
it. -/
theorem closes_iff_exists (h : ∀ before l after, under lines n = before ++ l :: after →
    l.last = true → after = []) :
    Closes lines n ↔ under lines n = [] ∨ ∃ l ∈ under lines n, l.last = true := by
  constructor
  · intro hc
    rcases List.eq_nil_or_concat' (under lines n) with hnil | ⟨init, l, hu⟩
    · exact .inl hnil
    · exact .inr ⟨l, by simp [hu], (hc init l [] hu).2 rfl⟩
  · rintro (hnil | ⟨k, hk, hlast⟩) before l after hu
    · simp [hnil] at hu
    · refine ⟨h before l after hu, ?_⟩
      rintro rfl
      obtain ⟨b, a, hk⟩ := List.append_of_mem hk
      obtain rfl := h b k a hk hlast
      obtain ⟨-, he⟩ := List.append_inj' (hu.symm.trans hk) rfl
      obtain rfl := (List.cons.inj he).1
      exact hlast

theorem summaryLine_cases (members : NodeMap (List Node)) (threshold : Int) (n : Node)
    (closed : List Bool) :
    summaryLine threshold n closed (membersOf members n) = [] ∨
      ∃ s, summaryLine threshold n closed (membersOf members n) = [s] ∧
        s.last = (shown members threshold n).isEmpty := by
  unfold summaryLine
  split_ifs with hc
  · exact .inr ⟨_, rfl, by rw [← drawn_membersOf, drawn, if_pos hc]⟩
  · exact .inl rfl

theorem Row.last_imp_of_summary (h : Row above closed seen (shown members threshold n) row)
    {below : List Bool}
    (hl : summaryLine threshold n below (membersOf members n) ++ row = before ++ l :: after)
    (ht : l.last = true) : after = [] := by
  rcases summaryLine_cases members threshold n below with he | ⟨s, he, hs⟩
  · rw [he] at hl
    exact h.last_imp hl ht
  · rw [he] at hl
    cases before with
    | nil =>
      obtain ⟨rfl, rfl⟩ := List.cons.inj hl
      rw [hs, List.isEmpty_iff] at ht
      rw [ht] at h
      exact h.nil_of_nil
    | cons k before => exact h.last_imp (List.cons.inj hl).2 ht

theorem Row.exists_last_of_summary (h : Row above closed seen (shown members threshold n) row)
    (ha : above.map (·.label.id) ⊆ seen) {below : List Bool}
    (hne : summaryLine threshold n below (membersOf members n) ++ row ≠ []) :
    (∃ l ∈ summaryLine threshold n below (membersOf members n) ++ row, l.last = true) ↔
      LastDrawn row above (shown members threshold n) := by
  rcases hm : shown members threshold n with _ | ⟨m, ms⟩
  · -- nothing but the summary is there
    rw [hm] at h
    obtain rfl := h.nil_of_nil
    rcases summaryLine_cases members threshold n below with he | ⟨s, he, hs⟩
    · exact absurd he (by simpa using hne)
    · simp [he, hs, hm, LastDrawn]
  · have hrow := h.exists_last_iff ha
    rw [and_iff_right (by simp [hm]), hm] at hrow
    rw [← hrow]
    rcases summaryLine_cases members threshold n below with he | ⟨s, he, hs⟩
    · rw [he, List.nil_append]
    · simp [he, hs, hm]

/-- Under a node no line but the last one ends the branch. The last one does iff the last member that
is shown of the node was not passed over: it is on the path, or it has its line there and does not
come twice. The connectors that are printed say which lines these are. -/
theorem closes_iff (members : NodeMap (List Node)) (threshold : Int) (root : Node) {n : Node}
    {path : List Node} (hb : Branch (draw members threshold root) (n :: path)) :
    let lines := draw members threshold root
    (∀ before l after, under lines n = before ++ l :: after → l.last = true → after = []) ∧
    (Closes lines n ↔ under lines n = [] ∨
      LastDrawn (under lines n) (n :: path) (shown members threshold n)) ∧
    ∀ settings, Prints settings lines (drawingText settings lines) := by
  obtain ⟨closed, seen, row, ha, hr, hu⟩ := draw_row hb
  have hlast : ∀ before l after, under (draw members threshold root) n = before ++ l :: after →
      l.last = true → after = [] :=
    fun before l after hsplit ht => hr.last_imp_of_summary (hu.symm.trans hsplit) ht
  -- the summary is no member's line
  have hdrawn : LastDrawn (under (draw members threshold root) n) (n :: path)
      (shown members threshold n) ↔ LastDrawn row (n :: path) (shown members threshold n) := by
    unfold LastDrawn
    rw [hu, nodesOf_append, nodesOf_summaryLine, List.nil_append]
  refine ⟨hlast, ?_, draw_prints members threshold root⟩
  rw [closes_iff_exists hlast]
  refine or_congr_right' fun hne => ?_
  rw [hdrawn, hu]
  rw [hu] at hne
  exact hr.exists_last_of_summary ha hne

def sharedTail : Node :=
  let tail : Node := .node { id := 3, kind := Kind.paragraph } []
  let heading : Node := .node { id := 1, kind := Kind.heading, depth := .int 1 } [tail]
  .node { id := 0, kind := Kind.root } [heading, .node { id := 2, kind := Kind.blockquote } [], tail]

def sharedMembers : NodeMap (List Node) :=
  (sharedTail :: sharedTail.children.take 1).map fun n => (n, n.children)

theorem closes_iff_sample :
    let lines := draw sharedMembers 5 sharedTail
    Branch lines [sharedTail] ∧
    (Closes lines sharedTail ↔ under lines sharedTail = [] ∨
      LastDrawn (under lines sharedTail) [sharedTail] (shown sharedMembers 5 sharedTail)) ∧
    ¬ LastDrawn (under lines sharedTail) [sharedTail] (shown sharedMembers 5 sharedTail) := by
  have hb : Branch (draw sharedMembers 5 sharedTail) [sharedTail] := .cons List.mem_cons_self .nil
  refine ⟨hb, (closes_iff sharedMembers 5 sharedTail hb).2.1, fun h => ?_⟩
  exact absurd (h _ rfl) (by decide)

/-- The paragraph is drawn below the heading, and so the quote is the last under the root: it should
end the branch there. -/
theorem branch_left_open :
    String.ofList (drawingText { showSpans := false } (draw sharedMembers 5 sharedTail)) =
      "root\n├─ heading[1]\n│  └─ paragraph\n├─ blockquote\n" ∧
    sharedTail ∈ nodesOf (draw sharedMembers 5 sharedTail) ∧
    ¬ Closes (draw sharedMembers 5 sharedTail) sharedTail := by
  refine ⟨rfl, List.mem_cons_self, fun h => ?_⟩
  have hlast := (h [_] _ [] rfl).2 rfl
  cases hlast

end Outline.Containment
