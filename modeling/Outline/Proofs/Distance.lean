import Mathlib.Data.List.Nodup
import Mathlib.Data.List.Perm.Subperm
import Mathlib.Data.Nat.Find
import Mathlib.Logic.Relation
import Outline.Graph.Query

/-! Rings of nodes around a start. A ring holds the nodes at one distance; what its nodes lead to and
what was not seen is the next ring (`Ring.succ`). Every ring up to the last takes a node of its own,
so that the number of nodes bounds the number of rings (`AtDistance.lt_length`). -/

namespace Outline.Graph

def Walk (next : Text → List Text) (a : Text) : Nat → Text → Prop
  | 0, b => a = b
  | k + 1, b => ∃ c, Walk next a k c ∧ b ∈ next c

/-- The shortest walk has this many steps. -/
def AtDistance (next : Text → List Text) (a : Text) (d : Nat) (b : Text) : Prop :=
  Walk next a d b ∧ ∀ k < d, ¬ Walk next a k b

variable {next : Text → List Text} {a b x : Text} {d e k : Nat}

theorem reflTransGen_iff_walk :
    Relation.ReflTransGen (fun b c => c ∈ next b) a b ↔ ∃ k, Walk next a k b := by
  constructor
  · intro h
    induction h with
    | refl => exact ⟨0, rfl⟩
    | tail _ hc ih =>
      obtain ⟨k, hk⟩ := ih
      exact ⟨k + 1, _, hk, hc⟩
  · rintro ⟨k, hk⟩
    induction k generalizing b with
    | zero => cases hk; exact .refl
    | succ k ih =>
      obtain ⟨c, hc, hb⟩ := hk
      exact (ih hc).tail hb

theorem Walk.atDistance (h : Walk next a k b) : ∃ d ≤ k, AtDistance next a d b := by
  classical
  have hex : ∃ d, Walk next a d b := ⟨k, h⟩
  exact ⟨Nat.find hex, Nat.find_min' hex h, Nat.find_spec hex, fun _ => Nat.find_min hex⟩

theorem AtDistance.unique (h : AtDistance next a d b) (h' : AtDistance next a e b) : d = e := by
  rcases Nat.lt_trichotomy d e with hlt | heq | hlt
  · exact absurd h.1 (h'.2 d hlt)
  · exact heq
  · exact absurd h'.1 (h.2 e hlt)

theorem AtDistance.pred (h : AtDistance next a (d + 1) b) :
    ∃ c, AtDistance next a d c ∧ b ∈ next c := by
  obtain ⟨c, hc, hb⟩ := h.1
  refine ⟨c, ⟨hc, ?_⟩, hb⟩
  intro k hk hw
  exact h.2 (k + 1) (by omega) ⟨c, hw, hb⟩

theorem AtDistance.exists_of_le (h : AtDistance next a e b) (hd : d ≤ e) :
    ∃ c, AtDistance next a d c := by
  induction e generalizing b with
  | zero =>
    obtain rfl : d = 0 := by omega
    exact ⟨b, h⟩
  | succ e ih =>
    rcases Nat.lt_or_ge d (e + 1) with hlt | hge
    · obtain ⟨c, hc, -⟩ := h.pred
      exact ih hc (by omega)
    · obtain rfl : d = e + 1 := by omega
      exact ⟨b, h⟩

theorem AtDistance.path (h : AtDistance next a d b) :
    ∃ path : List Text, path.length = d + 1 ∧ path.Nodup ∧
      ∀ c ∈ path, ∃ k ≤ d, AtDistance next a k c := by
  induction d generalizing b with
  | zero =>
    refine ⟨[b], rfl, List.nodup_singleton b, fun c hc => ⟨0, le_refl 0, ?_⟩⟩
    rwa [List.mem_singleton.1 hc]
  | succ d ih =>
    obtain ⟨c, hc, -⟩ := h.pred
    obtain ⟨path, hlen, hnd, hall⟩ := ih hc
    refine ⟨b :: path, by simp [hlen], List.nodup_cons.2 ⟨fun hb => ?_, hnd⟩, ?_⟩
    · obtain ⟨k, hk, hkb⟩ := hall b hb
      have := h.unique hkb
      omega
    · intro x hx
      rcases List.mem_cons.1 hx with rfl | hx
      · exact ⟨d + 1, le_refl _, h⟩
      · obtain ⟨k, hk, hkx⟩ := hall x hx
        exact ⟨k, by omega, hkx⟩

/-- No distance reaches the number of nodes that there are. -/
theorem AtDistance.lt_length {nodes : List Text} (h : AtDistance next a d b)
    (hn : ∀ k c, Walk next a k c → c ∈ nodes) : d < nodes.length := by
  obtain ⟨path, hlen, hnd, hall⟩ := h.path
  have hsub : path ⊆ nodes := fun c hc => by
    obtain ⟨k, -, hk⟩ := hall c hc
    exact hn k c hk.1
  have := (List.subperm_of_subset hnd hsub).length_le
  omega

namespace Multigraph

variable {seen frontier xs : List Text}

theorem mem_unseen_fst : x ∈ (unseen seen xs).1 ↔ x ∈ xs ∧ x ∉ seen := by
  induction xs generalizing seen with
  | nil => simp [unseen]
  | cons y xs ih =>
    unfold unseen
    by_cases hy : seen.contains y
    · rw [if_pos hy, ih]
      have hy' : y ∈ seen := by simpa using hy
      constructor
      · rintro ⟨hx, hs⟩
        exact ⟨List.mem_cons_of_mem _ hx, hs⟩
      · rintro ⟨hx, hs⟩
        rcases List.mem_cons.1 hx with rfl | hx
        · exact absurd hy' hs
        · exact ⟨hx, hs⟩
    · rw [if_neg hy]
      have hy' : y ∉ seen := by simpa using hy
      simp only [List.mem_cons, ih]
      constructor
      · rintro (rfl | ⟨hx, hs⟩)
        · exact ⟨.inl rfl, hy'⟩
        · exact ⟨.inr hx, fun h => hs (.inr h)⟩
      · rintro ⟨rfl | hx, hs⟩
        · exact .inl rfl
        · by_cases hxy : x = y
          · exact .inl hxy
          · exact .inr ⟨hx, by simp [hxy, hs]⟩

theorem nodup_unseen_fst (seen xs : List Text) : (unseen seen xs).1.Nodup := by
  induction xs generalizing seen with
  | nil => exact List.nodup_nil
  | cons y xs ih =>
    unfold unseen
    split_ifs
    · exact ih seen
    · exact List.nodup_cons.2 ⟨fun h => (mem_unseen_fst.1 h).2 List.mem_cons_self, ih _⟩

theorem mem_unseen_snd : x ∈ (unseen seen xs).2 ↔ x ∈ seen ∨ x ∈ xs := by
  induction xs generalizing seen with
  | nil => simp [unseen]
  | cons y xs ih =>
    unfold unseen
    by_cases hy : seen.contains y
    · rw [if_pos hy, ih, List.mem_cons]
      have hy' : y ∈ seen := by simpa using hy
      constructor
      · rintro (h | h)
        · exact .inl h
        · exact .inr (.inr h)
      · rintro (h | rfl | h)
        · exact .inl h
        · exact .inl hy'
        · exact .inr h
    · rw [if_neg hy]
      dsimp only
      rw [ih, List.mem_cons, List.mem_cons, or_assoc, or_left_comm]

/-- The search has come to a distance: its frontier is the ring, and it has seen what is nearer. -/
structure Ring (next : Text → List Text) (a : Text) (d : Nat) (seen frontier : List Text) :
    Prop where
  frontier : ∀ x, x ∈ frontier ↔ AtDistance next a d x
  seen : ∀ x, x ∈ seen ↔ ∃ k ≤ d, Walk next a k x

theorem Ring.start (next : Text → List Text) (a : Text) : Ring next a 0 [a] [a] := by
  constructor
  · intro x
    rw [List.mem_singleton]
    constructor
    · intro h
      exact ⟨h.symm, fun k hk => absurd hk (Nat.not_lt_zero k)⟩
    · intro h
      exact h.1.symm
  · intro x
    rw [List.mem_singleton]
    constructor
    · intro h
      exact ⟨0, le_refl 0, h.symm⟩
    · rintro ⟨k, hk, hw⟩
      obtain rfl : k = 0 := by omega
      exact hw.symm

/-- What the frontier leads to may come in any order and with repetitions. -/
theorem Ring.succ (hr : Ring next a d seen frontier)
    (hxs : ∀ x, x ∈ xs ↔ ∃ c ∈ frontier, x ∈ next c) :
    Ring next a (d + 1) (unseen seen xs).2 (unseen seen xs).1 := by
  constructor
  · intro x
    rw [mem_unseen_fst, hxs, hr.seen]
    constructor
    · rintro ⟨⟨c, hc, hx⟩, hs⟩
      refine ⟨⟨c, ((hr.frontier c).1 hc).1, hx⟩, fun k hk hw => hs ⟨k, by omega, hw⟩⟩
    · intro h
      obtain ⟨c, hc, hx⟩ := h.pred
      refine ⟨⟨c, (hr.frontier c).2 hc, hx⟩, ?_⟩
      rintro ⟨k, hk, hw⟩
      exact h.2 k (by omega) hw
  · intro x
    rw [mem_unseen_snd, hxs, hr.seen]
    constructor
    · rintro (⟨k, hk, hw⟩ | ⟨c, hc, hx⟩)
      · exact ⟨k, by omega, hw⟩
      · exact ⟨d + 1, le_refl _, c, ((hr.frontier c).1 hc).1, hx⟩
    · rintro ⟨k, hk, hw⟩
      obtain ⟨e, he, hex⟩ := hw.atDistance
      cases e with
      | zero => exact .inl ⟨0, by omega, hex.1⟩
      | succ e =>
        obtain ⟨c, hc, hx⟩ := hex.pred
        rcases Nat.lt_or_ge e d with hlt | hge
        · exact .inl ⟨e + 1, by omega, hex.1⟩
        · obtain rfl : e = d := by omega
          exact .inr ⟨c, (hr.frontier c).2 hc, hx⟩

theorem Ring.not_atDistance (hr : Ring next a d seen []) (h : d ≤ e) : ¬ AtDistance next a e x := by
  intro hx
  obtain ⟨c, hc⟩ := hx.exists_of_le h
  cases (hr.frontier c).2 hc

end Multigraph
end Outline.Graph
