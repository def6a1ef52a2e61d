import Outline.Text.Class
/-!
Patterns of characters. A pattern takes a beginning off a text in some order of preference, longer
before shorter for most repetitions and left before right for choices, and the first way in which
everything after it succeeds too is taken.
-/

namespace Outline.Text

inductive Pattern where
  | empty
  | one (p : Char → Bool)
  | many (p : Char → Bool)
  | few (p : Char → Bool)
  | seq (a b : Pattern)
  | alt (a b : Pattern)
  /-- Any number of repetitions, as many as possible; the pattern must not match emptily. -/
  | star (a : Pattern)
  /-- Matches emptily where the condition on the rest holds. -/
  | before (p : Text → Bool)

namespace Pattern

instance : Append Pattern := ⟨seq⟩
instance : OrElse Pattern := ⟨fun a b => alt a (b ())⟩

def char (c : Char) : Pattern := one (· == c)

def literal (t : Text) : Pattern := t.foldr (fun c p => seq (char c) p) empty

def optional (a : Pattern) : Pattern := alt a empty

/-- Nothing is left, or one line feed is. -/
def atEnd : Pattern := before fun r => r == [] || r == ['\n']

def manyFrom (p : Char → Bool) (k : Text → Option Text) : Text → Option Text
  | [] => k []
  | c :: t => if p c then (manyFrom p k t).or (k (c :: t)) else k (c :: t)

/-- Going back over characters after which the pattern cannot go on is no use. -/
theorem manyFrom_eq {p : Char → Bool} {k : Text → Option Text}
    (hk : ∀ c r, p c = true → k (c :: r) = none) (r : Text) :
    manyFrom p k r = k (r.dropWhile p) := by
  induction r with
  | nil => rfl
  | cons c r ih =>
    by_cases hc : p c = true
    · rw [manyFrom, if_pos hc, ih, hk c r hc, Option.or_none, List.dropWhile_cons_of_pos hc]
    · rw [manyFrom, if_neg hc, List.dropWhile_cons_of_neg hc]

def fewFrom (p : Char → Bool) (k : Text → Option Text) : Text → Option Text
  | [] => k []
  | c :: t => (k (c :: t)).or (if p c then fewFrom p k t else none)

def starFrom (step : Text → (Text → Option Text) → Option Text) (k : Text → Option Text) :
    Nat → Text → Option Text
  | 0, t => k t
  | fuel + 1, t => (step t (starFrom step k fuel)).or (k t)

def run : Pattern → Text → (Text → Option Text) → Option Text
  | empty, t, k => k t
  | one p, t, k => match t with
    | c :: t => if p c then k t else none
    | [] => none
  | many p, t, k => manyFrom p k t
  | few p, t, k => fewFrom p k t
  | seq a b, t, k => run a t fun t => run b t k
  | alt a b, t, k => (run a t k).or (run b t k)
  | star a, t, k => starFrom (run a) k t.length t
  | before p, t, k => if p t then k t else none

def rest? (p : Pattern) (t : Text) : Option Text := p.run t some

/-- The beginning of a text that the pattern takes. -/
def match? (p : Pattern) (t : Text) : Option Text :=
  (p.rest? t).map fun r => t.take (t.length - r.length)

def isPrefixOf (p : Pattern) (t : Text) : Bool := (p.rest? t).isSome

def search? (p : Pattern) : Text → Option Text
  | [] => p.match? []
  | c :: t => (p.match? (c :: t)).or (search? p t)

def findFrom (p : Pattern) : Nat → Text → List Text
  | 0, _ => []
  | _ + 1, [] => []
  | fuel + 1, c :: t =>
    match p.match? (c :: t) with
    | some m => m :: findFrom p fuel ((c :: t).drop m.length)
    | none => findFrom p fuel t

/-- All that the pattern takes, from the left and without overlap; it must not match emptily. -/
def findAll (p : Pattern) (t : Text) : List Text := findFrom p t.length t

end Pattern
end Outline.Text
