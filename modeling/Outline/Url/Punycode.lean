import Outline.Text.Class
/-!
Punycode: a label of arbitrary characters as ASCII. The basic characters come first; the others
follow, in the order of their codes, as a sequence of distances in a base of thirty-six digits whose
thresholds adapt to the distances seen.
-/

namespace Outline.Url.Punycode

def threshold (position bias : Nat) : Nat :=
  if position ≤ bias then 1 else if position ≥ bias + 26 then 26 else position - bias

def adaptFrom : Nat → Nat → Nat → Nat
  | 0, _, k => k
  | fuel + 1, delta, k =>
    if 455 < delta then adaptFrom fuel (delta / 35) (k + 36) else k + 36 * delta / (delta + 38)

/-- The bias after a distance; `count` characters are placed by then. -/
def adapt (delta count : Nat) (first : Bool) : Nat :=
  let d := if first then delta / 700 else delta / 2
  adaptFrom (d + 1) (d + d / count) 0

def digit (d : Nat) : Char := Char.ofNat (if d < 26 then 97 + d else 22 + d)

/-- A distance in digits of growing position; each digit says by its size whether it is the last. -/
def distance (bias : Nat) : Nat → Nat → Nat → Text
  | 0, _, _ => []
  | fuel + 1, position, q =>
    let t := threshold position bias
    if q < t then [digit q]
    else digit (t + (q - t) % (36 - t)) :: distance bias fuel (position + 36) ((q - t) / (36 - t))

structure Encoding where
  out : Text
  delta : Nat
  bias : Nat
  placed : Nat

def isBasic (c : Char) : Bool := c.toNat < 128

/-- One character of the label in the round that places all characters with the code `code`. -/
def encodeChar (basic code : Nat) (e : Encoding) (c : Char) : Encoding :=
  if c.toNat < code then { e with delta := e.delta + 1 }
  else if c.toNat = code then
    { out := e.out ++ distance e.bias (e.delta + 1) 36 e.delta
      delta := 0
      bias := adapt e.delta (e.placed + 1) (e.placed == basic)
      placed := e.placed + 1 }
  else e

def encodeRounds (label : Text) (basic : Nat) : Nat → List Nat → Encoding → Encoding
  | _, [], e => e
  | last, code :: codes, e =>
    let e := { e with delta := e.delta + (code - last) * (e.placed + 1) }
    let e := label.foldl (encodeChar basic code) e
    encodeRounds label basic (code + 1) codes { e with delta := e.delta + 1 }

def insertCode (x : Nat) : List Nat → List Nat
  | [] => [x]
  | y :: ys => if x < y then x :: y :: ys else if x = y then y :: ys else y :: insertCode x ys

def encode (label : Text) : Text :=
  let basic := label.filter isBasic
  let codes := (label.filter (!isBasic ·)).foldr (fun c cs => insertCode c.toNat cs) []
  let e := encodeRounds label basic.length 128 codes ⟨[], 0, 72, basic.length⟩
  if basic.isEmpty then e.out else basic ++ '-' :: e.out

def digitOf? (c : Char) : Option Nat :=
  if 'a' ≤ c ∧ c ≤ 'z' then some (c.toNat - 97)
  else if 'A' ≤ c ∧ c ≤ 'Z' then some (c.toNat - 65)
  else if '0' ≤ c ∧ c ≤ '9' then some (c.toNat - 22)
  else none

def readDistance (bias : Nat) : Nat → Nat → Nat → Text → Option (Nat × Text)
  | _, _, _, [] => none
  | position, weight, sum, c :: t => do
    let d ← digitOf? c
    let th := threshold position bias
    if d < th then return (sum + d * weight, t)
    readDistance bias (position + 36) (weight * (36 - th)) (sum + d * weight) t

def decodeFrom (fuel : Nat) (out : Text) (code place bias : Nat) (first : Bool) (t : Text) :
    Option Text :=
  match fuel, t with
  | _, [] => some out
  | 0, _ => none
  | fuel + 1, t => do
    let (delta, t) ← readDistance bias 36 1 0 t
    let place := place + delta
    let code := code + place / (out.length + 1)
    let place := place % (out.length + 1)
    if code > 0x10ffff ∨ (0xd800 ≤ code ∧ code ≤ 0xdfff) then none
    else
      let out := out.take place ++ Char.ofNat code :: out.drop place
      decodeFrom fuel out code (place + 1) (adapt delta out.length first) false t

def decode? (t : Text) : Option Text :=
  if !t.all isBasic then none
  else
    let tail := (t.reverse.takeWhile (· != '-')).reverse
    let head := (t.take (t.length - tail.length)).dropLast
    decodeFrom (t.length + 1) head 128 0 72 true tail

end Outline.Url.Punycode
