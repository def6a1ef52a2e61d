import Outline.Text.Basic
/-!
Bytes written as text, six bits a character. Characters of no meaning are passed over, and so is
what comes after enough padding; without padding the characters must be a multiple of four.
-/

namespace Outline.Text

def sixBits? (c : Char) : Option Nat :=
  if 'A' ≤ c ∧ c ≤ 'Z' then some (c.toNat - 65)
  else if 'a' ≤ c ∧ c ≤ 'z' then some (c.toNat - 71)
  else if '0' ≤ c ∧ c ≤ '9' then some (c.toNat + 4)
  else if c = '+' then some 62
  else if c = '/' then some 63
  else none

/-- The bytes of the rest of a text, after `done` characters of a group of four whose bits that are
not yet in a byte are `bits`, and `pads` signs of padding. -/
def base64From (done bits pads : Nat) : Text → Option (List UInt8)
  | [] => if done = 0 then some [] else none
  | c :: t =>
    if c = '=' then
      if done < 2 then base64From done bits pads t
      else if 4 ≤ done + pads + 1 then some []
      else base64From done bits (pads + 1) t
    else match sixBits? c with
      | none => base64From done bits pads t
      | some v =>
        if done = 0 then base64From 1 v 0 t
        else
          -- two, four or six of the new bits stay over
          let stay := 2 ^ (6 - 2 * done)
          let byte := bits * (64 / stay) + v / stay
          (base64From ((done + 1) % 4) (v % stay) 0 t).map (UInt8.ofNat byte :: ·)

def ofBase64? (t : Text) : Option (List UInt8) := base64From 0 0 0 t

end Outline.Text
