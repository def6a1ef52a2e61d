/-!
Text as the list of its code points. Columns, offsets, lengths and slices all count list
positions, so the functions here need no second notion of index. `lines` cuts at line feeds only
and `unlines` undoes it (`unlines_lines`); the bounds of a `slice` may count from the end.
-/

namespace Outline

abbrev Text := List Char

namespace Text

/-- The pieces between line feeds: one more than there are line feeds. -/
def lines : Text → List Text
  | [] => [[]]
  | c :: t =>
    if c = '\n' then [] :: lines t
    else match lines t with
      | [] => [[c]]
      | l :: ls => (c :: l) :: ls

def unlines : List Text → Text
  | [] => []
  | [l] => l
  | l :: ls => l ++ '\n' :: unlines ls

theorem lines_ne_nil (t : Text) : lines t ≠ [] := by
  cases t with
  | nil => simp [lines]
  | cons c t =>
    rw [lines]
    split
    · simp
    · split <;> simp

theorem unlines_lines (t : Text) : unlines (lines t) = t := by
  induction t with
  | nil => rfl
  | cons c t ih =>
    rw [lines]
    split
    · next h =>
      subst h
      match ht : lines t, lines_ne_nil t with
      | l :: ls, _ => rw [ht] at ih; simp [unlines, ih]
    · match ht : lines t, lines_ne_nil t with
      | [l], _ => rw [ht] at ih; simp_all [unlines]
      | l :: m :: ls, _ => rw [ht] at ih; simp_all [unlines]

def starts : List Text → Nat → List Nat
  | [], _ => []
  | l :: ls, at_ => at_ :: starts ls (at_ + l.length + 1)

def trimStart (p : Char → Bool) (t : Text) : Text := t.dropWhile p

def trimEnd (p : Char → Bool) (t : Text) : Text := (t.reverse.dropWhile p).reverse

def trim (p : Char → Bool) (t : Text) : Text := trimEnd p (trimStart p t)

section TrimEnd

variable {p : Char → Bool} {before rest : Text} {c : Char}

theorem trimEnd_append (p : Char → Bool) (l : Text) :
    ∃ rest, l = trimEnd p l ++ rest ∧ ∀ c ∈ rest, p c = true := by
  refine ⟨(l.reverse.takeWhile p).reverse, ?_, fun c hc => ?_⟩
  · rw [trimEnd, ← List.reverse_append, List.takeWhile_append_dropWhile, List.reverse_reverse]
  · exact List.all_eq_true.1 List.all_takeWhile c (List.mem_reverse.1 hc)

theorem trimEnd_append_of_all (hrest : ∀ c ∈ rest, p c = true) :
    trimEnd p (before ++ rest) = trimEnd p before := by
  have hrest' : ∀ c ∈ rest.reverse, p c = true := fun c hc => hrest c (List.mem_reverse.1 hc)
  rw [trimEnd, List.reverse_append, List.dropWhile_append_of_pos hrest', trimEnd]

theorem trimEnd_concat (hc : p c = false) : trimEnd p (before ++ [c]) = before ++ [c] := by
  have hc' : ¬ p c = true := by rw [hc]; exact Bool.false_ne_true
  rw [trimEnd, List.reverse_concat, List.dropWhile_cons_of_neg hc', List.reverse_cons,
    List.reverse_reverse]

end TrimEnd

/-- Position of the first occurrence of `pat`. -/
def find? (pat : Text) : Text → Option Nat
  | [] => if pat = [] then some 0 else none
  | c :: t => if pat.isPrefixOf (c :: t) then some 0 else (find? pat t).map (· + 1)

/-- Position of the first occurrence that starts at `start` or later. -/
def findFrom? (pat : Text) (t : Text) (start : Nat) : Option Nat :=
  if t.length < start then none else (find? pat (t.drop start)).map (· + start)

section Find

variable {pat t : Text} {start k : Nat}

theorem exists_of_find? (h : find? pat t = some k) :
    ∃ before after, t = before ++ pat ++ after ∧ before.length = k := by
  induction t generalizing k with
  | nil =>
    rw [find?] at h
    split at h
    · next hpat =>
      cases h
      exact ⟨[], [], by rw [hpat]; rfl, rfl⟩
    · cases h
  | cons c t ih =>
    rw [find?] at h
    split at h
    · next hpat =>
      cases h
      obtain ⟨after, hafter⟩ := List.isPrefixOf_iff_prefix.1 hpat
      exact ⟨[], after, hafter.symm, rfl⟩
    · obtain ⟨k', hk', rfl⟩ := Option.map_eq_some_iff.1 h
      obtain ⟨before, after, rfl, rfl⟩ := ih hk'
      exact ⟨c :: before, after, rfl, rfl⟩

theorem exists_of_findFrom? (h : findFrom? pat t start = some k) :
    start ≤ k ∧ ∃ before after, t = before ++ pat ++ after ∧ before.length = k := by
  unfold findFrom? at h
  split at h
  · cases h
  · obtain ⟨k', hk', rfl⟩ := Option.map_eq_some_iff.1 h
    obtain ⟨before, after, hdrop, rfl⟩ := exists_of_find? hk'
    refine ⟨Nat.le_add_left .., t.take start ++ before, after, ?_, ?_⟩
    · rw [List.append_assoc, List.append_assoc, ← List.append_assoc before, ← hdrop,
        List.take_append_drop]
    · rw [List.length_append, List.length_take]
      omega

end Find

/-- A bound of a slice: negative ones count from the end, and both ends are clamped. -/
def bound (length : Nat) (i : Int) : Nat :=
  if i < 0 then (i + length).toNat else min i.toNat length

def slice {α : Type} (xs : List α) (i j : Int) : List α :=
  let a := bound xs.length i
  (xs.drop a).take (bound xs.length j - a)

/-- The entry at a position that may count from the end. -/
def entry? {α : Type} (xs : List α) (i : Int) : Option α :=
  if 0 ≤ i then xs[i.toNat]?
  else if (xs.length : Int) + i < 0 then none
  else xs[((xs.length : Int) + i).toNat]?

/-- Takes out every occurrence of `pat`, from the left and without overlap. -/
def eraseAll (pat : Text) (t : Text) : Text :=
  if pat = [] then t else go t.length t
where
  go : Nat → Text → Text
    | 0, t => t
    | _ + 1, [] => []
    | n + 1, c :: t =>
      if pat.isPrefixOf (c :: t) then go n ((c :: t).drop pat.length) else c :: go n t

def splitOn (sep : Char) : Text → List Text
  | [] => [[]]
  | c :: t =>
    if c = sep then [] :: splitOn sep t
    else match splitOn sep t with
      | [] => [[c]]
      | l :: ls => (c :: l) :: ls

def ofNat (n : Nat) : Text := Nat.toDigits 10 n

def ofInt : Int → Text
  | .ofNat n => ofNat n
  | .negSucc n => '-' :: ofNat (n + 1)

end Text
end Outline
