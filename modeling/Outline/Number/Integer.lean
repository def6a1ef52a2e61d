import Outline.Text.Class
/-!
Integers written as text: blanks around them, a sign, and decimal digits of any script among which
single low lines may stand. Texts of more than 4300 digits are refused.
-/

namespace Outline.Number

def readRun (acc : Nat) (t : Text) : Option Nat :=
  if t = [] then none
  else t.foldl (fun n c => do some ((← n) * 10 + (← Text.decimalDigit? c))) (some acc)

def mostDigits : Nat := 4300

def readNat? (t : Text) : Option Nat :=
  if (t.filter (· ≠ '_')).length ≤ mostDigits then
    (Text.splitOn '_' t).foldl (fun n run => do readRun (← n) run) (some 0)
  else none

def readInt? (t : Text) : Option Int :=
  match Text.trim Text.isBlank t with
  | '-' :: t => (readNat? t).map fun n => -(n : Int)
  | '+' :: t => (readNat? t).map Int.ofNat
  | t => (readNat? t).map Int.ofNat

/-- Digits of a base, after a zero and the letter of the base if they are there. -/
def readBaseNat? (base : Nat) (letter : Char) (t : Text) : Option Nat :=
  let digits := match t with
    | '0' :: c :: rest => if Text.asciiLower c = letter then rest else t
    | _ => t
  if digits.isEmpty then none
  else digits.foldl (fun acc c => do
    let n ← acc
    let d ← (Text.decimalDigit? c).or (Text.digitValue? c)
    if d < base then some (n * base + d) else none) (some 0)

def readBaseInt? (base : Nat) (letter : Char) (t : Text) : Option Int :=
  match Text.trim Text.isBlank t with
  | '-' :: t => (readBaseNat? base letter t).map fun n => -(n : Int)
  | '+' :: t => (readBaseNat? base letter t).map Int.ofNat
  | t => (readBaseNat? base letter t).map Int.ofNat

end Outline.Number
