import Outline.Text.Basic
/-!
Sets of code points as sorted lists of ranges, written in hexadecimal: `30-39 5f` holds the ten
ASCII digits and the low line. The tables of character properties are kept in this form.
-/

namespace Outline.Text

def digitValue? (c : Char) : Option Nat :=
  if '0' ≤ c ∧ c ≤ '9' then some (c.toNat - 48)
  else if 'a' ≤ c ∧ c ≤ 'z' then some (c.toNat - 87)
  else if 'A' ≤ c ∧ c ≤ 'Z' then some (c.toNat - 55)
  else none

/-- Reads digits of a base; `none` at any other character. The empty text reads as zero. -/
def readBase (base : Nat) (t : Text) : Option Nat :=
  t.foldl (fun acc c => do
    let n ← acc
    let d ← digitValue? c
    if d < base then some (n * base + d) else none) (some 0)

def hex (t : Text) : Nat := (readBase 16 t).getD 0

structure Range where
  first : Nat
  last : Nat

def Range.ofText (t : Text) : Range :=
  match splitOn '-' t with
  | [a, b] => ⟨hex a, hex b⟩
  | _ => ⟨hex t, hex t⟩

def words (ls : List String) : List Text :=
  ls.flatMap fun l => (splitOn ' ' l.toList).filter (· ≠ [])

def ranges (ls : List String) : List Range := (words ls).map Range.ofText

def Range.has (r : Range) (c : Char) : Bool := r.first ≤ c.toNat && c.toNat ≤ r.last

end Outline.Text
