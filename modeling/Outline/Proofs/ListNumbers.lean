import Mathlib.Data.List.Forall2
import Mathlib.Tactic.SplitIfs
import Outline.Document.Parse
import Outline.Proofs.Picks
import Outline.Proofs.Strand

/-! The numbers of ordered lists, in the order of their tokens. An opening token of an ordered list
makes a list that starts at what the token's attribute says (`listStart_numbered`). No other token
makes an ordered list, and running text makes none either (`BlockWay.numbers`). So the ordered lists
of a tree, in pre-order, are those of the tokens one by one, however they are nested
(`parseWith_numbers`). A number of zero does not survive: it is taken for none, and the list starts
at one (`zero_lost`). -/

namespace Outline

namespace Text

theorem trim_of_forall {p : Char → Bool} {t : Text} (h : ∀ c ∈ t, p c = false) : trim p t = t := by
  have hkeep : ∀ l : Text, (∀ c ∈ l, p c = false) → l.dropWhile p = l := by
    rintro (_ | ⟨c, l⟩) hl
    · rfl
    · have hc : ¬ p c = true := by
        rw [hl c List.mem_cons_self]
        exact Bool.false_ne_true
      exact List.dropWhile_cons_of_neg hc
  rw [trim, trimStart, hkeep t h, trimEnd, hkeep t.reverse fun c hc => h c (List.mem_reverse.1 hc),
    List.reverse_reverse]

theorem splitOn_of_not_mem {sep : Char} {t : Text} (h : sep ∉ t) : splitOn sep t = [t] := by
  induction t with
  | nil => rfl
  | cons c t ih =>
    rw [List.mem_cons, not_or] at h
    rw [splitOn, if_neg (Ne.symm h.1), ih h.2]

theorem isDigit_of_mem_ofNat {n : Nat} {c : Char} (h : c ∈ ofNat n) : c.isDigit = true :=
  Nat.isDigit_of_mem_toDigits (by decide) (by decide) h

theorem decimalDigit?_of_isDigit {c : Char} (h : c.isDigit = true) :
    decimalDigit? c = some (c.toNat - 48) := by
  have hc : isAsciiDigit c = true := by simpa [Char.isDigit, isAsciiDigit, Char.le_def] using h
  rw [decimalDigit?, if_pos hc]

theorem isBlank_of_isDigit {c : Char} (h : c.isDigit = true) : isBlank c = false := by
  obtain ⟨hlow, hhigh⟩ : 48 ≤ c.toNat ∧ c.toNat ≤ 57 := by
    simpa [Char.isDigit, UInt32.le_iff_toNat_le] using h
  simp only [isBlank, Bool.or_eq_false_iff, Bool.and_eq_false_iff, beq_eq_false_iff_ne,
    decide_eq_false_iff_not]
  omega

end Text

namespace Number

theorem Double.isNaN_of_isZero {d : Double} (h : d.isZero = true) : d.isNaN = false := by
  have hbits : d.bits.toNat % 2 ^ 63 = 0 := by simpa [isZero, signPlace] using h
  have hexponent : d.exponentField ≠ 2047 := by
    rw [exponentField, fractionWidth]
    omega
  rw [isNaN, beq_eq_false_iff_ne.2 hexponent, Bool.false_and]

theorem readRun_digits {t : Text} (hne : t ≠ []) (h : ∀ c ∈ t, c.isDigit = true) :
    readRun 0 t = some (Nat.ofDigitChars 10 t 0) := by
  have hfold : ∀ (l : Text) (acc : Nat), (∀ c ∈ l, c.isDigit = true) →
      l.foldl (fun n c => do some ((← n) * 10 + (← Text.decimalDigit? c))) (some acc) =
        some (Nat.ofDigitChars 10 l acc) := by
    intro l
    induction l with
    | nil => exact fun _ _ => rfl
    | cons c l ih =>
      intro acc hl
      obtain ⟨hc, hl⟩ := List.forall_mem_cons.1 hl
      rw [List.foldl_cons, Text.decimalDigit?_of_isDigit hc, Nat.ofDigitChars_cons, Nat.mul_comm]
      exact ih _ hl
  rw [readRun, if_neg hne]
  exact hfold t 0 h

/-- A number can be read back from its digits, unless there are too many. -/
theorem readInt?_ofNat (n : Nat) :
    readInt? (Text.ofNat n) =
      if (Text.ofNat n).length ≤ mostDigits then some (n : Int) else none := by
  have hdigits : ∀ c ∈ Text.ofNat n, c.isDigit = true := fun c => Text.isDigit_of_mem_ofNat
  have hne : Text.ofNat n ≠ [] := Nat.toDigits_ne_nil
  have hother : ∀ c : Char, c.isDigit = false → c ∉ Text.ofNat n := by
    intro c hc hmem
    rw [hdigits c hmem] at hc
    cases hc
  have hread : readNat? (Text.ofNat n) =
      if (Text.ofNat n).length ≤ mostDigits then some n else none := by
    have hall : (Text.ofNat n).filter (· ≠ '_') = Text.ofNat n := by
      refine List.filter_eq_self.2 fun c hc => decide_eq_true ?_
      rintro rfl
      exact hother '_' rfl hc
    rw [readNat?, hall, Text.splitOn_of_not_mem (hother '_' rfl)]
    refine if_congr Iff.rfl ?_ rfl
    refine (readRun_digits hne hdigits).trans (congrArg some ?_)
    exact Nat.ofDigitChars_ten_toDigits
  rw [readInt?, Text.trim_of_forall fun c hc => Text.isBlank_of_isDigit (hdigits c hc)]
  split
  · next t ht => exact absurd (ht ▸ List.mem_cons_self) (hother '-' rfl)
  · next t ht => exact absurd (ht ▸ List.mem_cons_self) (hother '+' rfl)
  · rw [hread]
    split_ifs <;> rfl

end Number

namespace Document

/-- The list starts at what the attribute says: at one if there is none, at an integer that is not
zero, at the integral part of a fraction, or at the integer that a text is read as. Zero becomes
one, unless it is a text. -/
structure Numbered (v : Value) (start : Option Int) : Prop where
  absent : v = .null → start = some 1
  number : ∀ n, v.asInt? = some n → start = some (if n = 0 then 1 else n)
  fraction : ∀ d, v = .float d → start = if d.isZero then some 1 else d.truncate?
  text : ∀ s : Text, v = .str s → s ≠ [] → start.isSome = true ∧ start = Number.readInt? s
  numeral : ∀ n : Nat, v = .str (Text.ofNat n) → start = some (n : Int)

def IsOrderedList (i : Info) : Prop := i.kind = Kind.list ∧ i.ordered = some true

instance : DecidablePred IsOrderedList := fun _ => inferInstanceAs (Decidable (_ ∧ _))

def OpensOrderedList (token : BlockToken) : Prop :=
  token.nesting = .opens ∧ token.type = "ordered_list_open"

instance : DecidablePred OpensOrderedList := fun _ => inferInstanceAs (Decidable (_ ∧ _))

def firstNumber? (i : Info) : Option (Option Int) :=
  if IsOrderedList i then some i.start else none

section Start

variable {v : Value} {n : Int} {i : Info} {kind : Kind} {token : BlockToken} {st : BlockState}

theorem listStart_of_falsy (hv : v.isTruthy = false) : listStart v = .ok 1 := by
  unfold listStart
  rw [hv]
  rfl

theorem isTruthy_of_asInt? (hv : v.asInt? = some n) : v.isTruthy = (n != 0) := by
  cases v with
  | bool b =>
    obtain rfl : (if b then 1 else 0 : Int) = n := Option.some.inj hv
    cases b <;> rfl
  | int k =>
    obtain rfl : k = n := Option.some.inj hv
    rfl
  | _ => cases hv

theorem listStart_of_asInt? (hv : v.asInt? = some n) (hn : n ≠ 0) : listStart v = .ok n := by
  have htrue : v.isTruthy = true := (isTruthy_of_asInt? hv).trans (bne_iff_ne.2 hn)
  unfold listStart
  rw [htrue]
  cases v with
  | bool | int =>
    cases hv
    rfl
  | _ => cases hv

theorem readInt?_of_listStart {s : Text} (hs : s ≠ []) (h : listStart (.str s) = .ok n) :
    Number.readInt? s = some n := by
  have htrue : Value.isTruthy (.str s) = true := by
    rw [Value.isTruthy, List.isEmpty_eq_false_iff.2 hs]
    rfl
  unfold listStart at h
  rw [htrue, Bool.not_true, if_neg Bool.false_ne_true] at h
  dsimp only at h
  split at h
  · next m hm =>
    cases h
    exact hm
  · cases h

theorem truncate?_of_listStart {d : Number.Double} (hd : d.isZero = false)
    (h : listStart (.float d) = .ok n) : d.truncate? = some n := by
  have htrue : Value.isTruthy (.float d) = true := by
    rw [Value.isTruthy, hd]
    exact Bool.or_true _
  unfold listStart at h
  rw [htrue, Bool.not_true, if_neg Bool.false_ne_true] at h
  dsimp only at h
  split at h
  · next m hm =>
    cases h
    exact hm
  · cases h

theorem listStart_numbered (h : listStart v = .ok n) : Numbered v (some n) where
  absent := by
    rintro rfl
    exact congrArg some (Except.ok.inj (h.symm.trans (listStart_of_falsy rfl)))
  number m hm := by
    split_ifs with hzero
    · have hfalse : v.isTruthy = false := by
        rw [isTruthy_of_asInt? hm, hzero]
        rfl
      exact congrArg some (Except.ok.inj (h.symm.trans (listStart_of_falsy hfalse)))
    · exact congrArg some (Except.ok.inj (h.symm.trans (listStart_of_asInt? hm hzero)))
  fraction := by
    rintro d rfl
    split_ifs with hzero
    · have hfalse : Value.isTruthy (.float d) = false := by
        rw [Value.isTruthy, hzero, Number.Double.isNaN_of_isZero hzero]
        rfl
      exact congrArg some (Except.ok.inj (h.symm.trans (listStart_of_falsy hfalse)))
    · exact (truncate?_of_listStart (Bool.eq_false_iff.2 hzero) h).symm
  text := by
    rintro s rfl hs
    exact ⟨rfl, (readInt?_of_listStart hs h).symm⟩
  numeral := by
    rintro m rfl
    have hne : Text.ofNat m ≠ [] := Nat.toDigits_ne_nil
    have hread := readInt?_of_listStart hne h
    rw [Number.readInt?_ofNat] at hread
    split_ifs at hread
    exact hread.symm

example : (listStart (.int 0)).toOption = some 1 ∧ (listStart (.str ['0'])).toOption = some 0 := by
  decide

theorem firstNumber?_of_ordered (h : i.ordered ≠ some true) : firstNumber? i = none :=
  if_neg fun hi => h hi.2

theorem ignoresTasks_firstNumber? : IgnoresTasks firstNumber? := by
  refine ⟨fun i hi => if_neg fun h => ?_, fun _ _ => rfl⟩
  have hne : Kind.text ≠ Kind.list := by decide
  exact hne (hi.symm.trans h.1)

theorem firstNumber?_openedInfo (hk : blockKind? token.type = some kind)
    (h : openedInfo st token kind = .ok i) :
    (token.type = "ordered_list_open" ∧
      ∃ n, firstNumber? i = some (some n) ∧ Numbered (token.attributes.get "start") (some n)) ∨
    (token.type ≠ "ordered_list_open" ∧ firstNumber? i = none) := by
  obtain ⟨span, -, h⟩ := bind_eq_ok.1 h
  by_cases ht : token.type = "ordered_list_open"
  · left
    obtain rfl : Kind.list = kind := by
      rw [ht] at hk
      exact Option.some.inj hk
    have hheading : Kind.list ≠ Kind.heading := by decide
    rw [if_neg hheading, if_pos rfl, if_pos ht] at h
    obtain ⟨n, hn, hi⟩ := bind_eq_ok.1 h
    cases hi
    exact ⟨ht, n, if_pos ⟨rfl, rfl⟩, listStart_numbered hn⟩
  · refine .inr ⟨ht, firstNumber?_of_ordered ?_⟩
    rw [if_neg ht] at h
    split_ifs at h
    · split at h
      · cases h
        simp
      · cases h
    · cases h
      simp
    · cases h
      simp

end Start

section Inline

variable {s : Source} {token : InlineToken} {st st' : InlineState} {x : Except Fault InlineState}
  {us ws : List (Tree Info)}

theorem InlineWay.adds_noList (hw : InlineWay s token st x) (hx : x = .ok st')
    (h : st.Adds firstNumber? (fun _ => False) us) :
    st'.Adds firstNumber? (fun _ => False) us := by
  cases hw with
  | opens kind hk =>
    cases hx
    refine h.opens ⟨?_, fun span => firstNumber?_of_ordered ?_⟩ _
    · rw [kind_openedInline]
      exact (kind_of_inlineKind? hk).1
    · unfold openedInline
      split_ifs <;> simp
  | closesNone hn hf =>
    cases hx
    exact h
  | closes hn f rest hf =>
    obtain ⟨r, -, rfl⟩ := map_eq_ok.1 hx
    exact h.closes hf r.1 r.2
  | emptyText ht hcontent =>
    cases hx
    exact h
  | text ht hcontent =>
    obtain ⟨r, -, rfl⟩ := map_eq_ok.1 hx
    exact h.addText ignoresTasks_firstNumber? _ r.1 r.2
  | softBreak ht =>
    cases hx
    exact h.addText ignoresTasks_firstNumber? _ none _
  | hardBreak ht =>
    cases hx
    exact h.pass (firstNumber?_of_ordered (by simp)) _
  | literal kind ht =>
    obtain ⟨r, -, rfl⟩ := map_eq_ok.1 hx
    exact h.pass (firstNumber?_of_ordered (by simp)) r.2
  | image ht =>
    obtain ⟨r, -, rfl⟩ := map_eq_ok.1 hx
    exact h.pass (firstNumber?_of_ordered (by simp)) r.2
  | other ht =>
    cases hx
    exact h.pass (firstNumber?_of_ordered (by simp)) st.search

theorem addInline_noList {line : Option Int} {tokens : List InlineToken} (hus : ∀ u ∈ us, Bare u)
    (h : addInline s line us tokens = .ok ws) : Adds firstNumber? (fun _ => False) us ws := by
  obtain ⟨st, hst, hws⟩ := bind_eq_ok.1 h
  cases hws
  have hrun : st.Adds firstNumber? (fun _ => False) us :=
    foldlM_ok (P := fun _ st => InlineState.Adds firstNumber? (fun _ => False) us st) hst
      ⟨.refl hus, List.forall_mem_nil _, List.forall_mem_nil _⟩
      fun _ token st _ _ h hstep => (inlineStep_way s token st).adds_noList hstep h
  exact hrun.finish

end Inline

section Block

variable {tasks : Bool} {token : BlockToken} {st st' : BlockState} {x : Except Fault BlockState}

/-- Each token that opens an ordered list comes with the first number of that list. -/
abbrev NumberedLists (tokens : List BlockToken) (numbers : List (Option Int)) : Prop :=
  List.Forall₂ (fun token start => Numbered (token.attributes.get "start") start)
    (tokens.filter OpensOrderedList) numbers

/-- Whatever way a token goes, a list that it opens comes last, and there is no other new one. -/
theorem BlockWay.numbers (hw : BlockWay tasks token st x) (hx : x = .ok st') (h : st.Bare) :
    st'.Bare ∧ ∃ new, st'.picks firstNumber? = st.picks firstNumber? ++ new ∧
      NumberedLists [token] new := by
  obtain ⟨hbare, new, hbrings, hpicks⟩ :=
    hw.brings (P := fun _ => False) hx ignoresTasks_firstNumber? h fun _ _ _ hus hws =>
      addInline_noList hus hws
  refine ⟨hbare, new, hpicks, ?_⟩
  have hnone : ¬ OpensOrderedList token → NumberedLists [token] [] := by
    intro hopens
    rw [NumberedLists, List.filter_cons_of_neg (by simpa using hopens)]
    exact .nil
  have hstands : token.nesting = .stands → ¬ OpensOrderedList token := by
    rintro hn ⟨ho, -⟩
    cases hn.symm.trans ho
  cases hbrings with
  | nothing hn hk =>
    refine hnone ?_
    rintro ⟨ho, ht⟩
    have hlist := hk ho
    rw [ht] at hlist
    cases hlist
  | opened hn kind hk info hinfo =>
    obtain ⟨ht, n, hfirst, hnumber⟩ | ⟨ht, hfirst⟩ := firstNumber?_openedInfo hk hinfo
    · have hopens : OpensOrderedList token := ⟨hn, ht⟩
      rw [hfirst, NumberedLists, List.filter_cons_of_pos (by simpa using hopens)]
      exact .cons hnumber .nil
    · rw [hfirst]
      exact hnone fun ho => ht ho.2
  | leaf hn ht span hspan =>
    rw [firstNumber?_of_ordered]
    · exact hnone (hstands hn)
    · unfold leafInfo fenceInfo
      split_ifs <;> simp
  | running hn ht new hnew =>
    obtain rfl : new = [] := List.eq_nil_iff_forall_not_mem.2 hnew
    exact hnone (hstands hn)

end Block

section Run

variable {load : Loader} {settings : ReadingSettings} {t : Text} {tokens : List BlockToken}
  {st : BlockState}

theorem initial_noList (h : initial load settings t = .ok st) : st.picks firstNumber? = [] := by
  obtain ⟨offset, first, rfl, -, ⟨-, rfl⟩ | ⟨-, b, data, span, rfl, -⟩⟩ := initial_cases h
  · rfl
  · rfl

theorem stateAfter_numbers (h : stateAfter load settings t tokens = .ok st) :
    st.Bare ∧ NumberedLists tokens (st.picks firstNumber?) := by
  refine stateAfter_ok (P := fun pre st => BlockState.Bare st ∧
    NumberedLists pre (st.picks firstNumber?)) h ?_ ?_
  · intro s hs
    refine ⟨initial_bare hs, ?_⟩
    rw [initial_noList hs]
    exact .nil
  · rintro pre token s s' - ⟨hbare, hlists⟩ hstep
    obtain ⟨hbare', new, hpicks, hnew⟩ :=
      (blockStep_way settings.taskItems token s).numbers hstep hbare
    refine ⟨hbare', ?_⟩
    rw [hpicks, NumberedLists, List.filter_append]
    exact List.rel_append hlists hnew

theorem picks_firstNumber? (u : Tree Info) :
    picks firstNumber? u = (u.labels.filter IsOrderedList).map (·.start) := by
  rw [picks, ← List.filterMap_eq_map, List.filterMap_filter]
  refine List.filterMap_congr fun i _ => ?_
  simp [firstNumber?]

/-- The ordered lists of a tree, in pre-order, belong one by one to the tokens that open one, and
each starts at what its token says. -/
theorem parseWith_numbers {tree : Tree Info}
    (h : parseWith load settings (fun _ => tokens) t = .ok tree) :
    List.Forall₂ (fun token i => Numbered (token.attributes.get "start") i.start)
      (tokens.filter OpensOrderedList) (tree.labels.filter IsOrderedList) := by
  rw [parseWith_eq] at h
  obtain ⟨st, hst, rfl⟩ := map_eq_ok.1 h
  obtain ⟨-, hlists⟩ := stateAfter_numbers hst
  rw [← picks_finish, picks_firstNumber?] at hlists
  exact List.forall₂_map_right_iff.1 hlists

def nestedLists : Text := "3. a\n\n   0. b\n\n> 12) c\n>     - 5. d\n".toList

theorem parseWith_numbers_sample :
    ∃ tree, parseWith Yaml.load {} (fun _ => Markdown.read {} nestedLists) nestedLists = .ok tree ∧
      (tree.labels.filter IsOrderedList).map (·.start) = [some 3, some 1, some 12, some 5] := by
  have hattributes : ((Markdown.read {} nestedLists).filter OpensOrderedList).map
      (fun token => (token.attributes.get "start").asInt?) =
      [some 3, some 0, some 12, some 5] := by decide +kernel
  have hok : (parseWith Yaml.load {} (fun _ => Markdown.read {} nestedLists)
      nestedLists).toOption.map (fun _ => ()) = some () := by decide +kernel
  obtain ⟨tree, htree, -⟩ := exists_of_toOption hok
  have hnumbers : List.Forall₂
      (fun a start => ∀ n : Int, a = some n → start = some (if n = 0 then 1 else n))
      (((Markdown.read {} nestedLists).filter OpensOrderedList).map
        fun token => (token.attributes.get "start").asInt?)
      ((tree.labels.filter IsOrderedList).map (·.start)) :=
    List.forall₂_map_left_iff.2 (List.forall₂_map_right_iff.2
      ((parseWith_numbers htree).imp fun _ _ hnumbered => hnumbered.number))
  refine ⟨tree, htree, ?_⟩
  rw [hattributes] at hnumbers
  generalize (tree.labels.filter IsOrderedList).map (·.start) = starts at hnumbers
  obtain _ | ⟨h₁, _ | ⟨h₂, _ | ⟨h₃, _ | ⟨h₄, _ | _⟩⟩⟩⟩ := hnumbers
  rw [h₁ 3 rfl, h₂ 0 rfl, h₃ 12 rfl, h₄ 5 rfl]
  rfl

/-- A list whose number is zero starts at one. -/
theorem zero_lost :
    ((Markdown.read {} "0. a".toList).filter OpensOrderedList).map
      (fun token => (token.attributes.get "start").asInt?) = [some 0] ∧
    ∃ tree, parse {} "0. a".toList = .ok tree ∧
      (tree.labels.filter IsOrderedList).map (·.start) = [some 1] ∧
      ¬ List.Forall₂ (fun token i => ∀ n : Nat,
          (token.attributes.get "start").asInt? = some (n : Int) → i.start = some (n : Int))
        ((Markdown.read {} "0. a".toList).filter OpensOrderedList)
        (tree.labels.filter IsOrderedList) := by
  have hattributes : ((Markdown.read {} "0. a".toList).filter OpensOrderedList).map
      (fun token => (token.attributes.get "start").asInt?) = [some 0] := by decide +kernel
  have htest : (parse {} "0. a".toList).toOption.map
      (fun tree => (tree.labels.filter IsOrderedList).map (·.start)) = some [some 1] := by
    decide +kernel
  obtain ⟨tree, htree, hstarts⟩ := exists_of_toOption htest
  refine ⟨hattributes, tree, htree, hstarts, fun hkept => ?_⟩
  have hkept' : List.Forall₂ (fun a start => ∀ n : Nat, a = some (n : Int) → start = some (n : Int))
      [some 0] [some 1] := by
    rw [← hattributes, ← hstarts]
    exact List.forall₂_map_left_iff.2 (List.forall₂_map_right_iff.2 hkept)
  obtain _ | ⟨hzero, -⟩ := hkept'
  cases hzero 0 rfl

end Run

end Document
end Outline
