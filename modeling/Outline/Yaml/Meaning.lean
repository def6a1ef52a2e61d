import Outline.Text.Base64
import Outline.Yaml.Moment
import Outline.Yaml.Tag
/-!
What scalars mean: the value of a text that has a tag. Integers may be written in base two, eight,
ten, sixteen or sixty, doubles in base ten or sixty, and low lines in them do not count.
-/

namespace Outline.Yaml.Scalar

-- The core library's power, also where another is in scope.
attribute [local instance (high)] instPowNat

/-- A sum of parts in base sixty, the last of which counts once. -/
def ofSixties {α : Type} (zero : α) (step : α → α → Nat → α) (parts : List α) : α :=
  (parts.reverse.zipIdx).foldl (fun sum p => step sum p.1 p.2) zero

def int (t : Text) : Except Fault Int :=
  let t := t.filter (· ≠ '_')
  let digits := if t.head? = some '-' ∨ t.head? = some '+' then t.tail else t
  let magnitude : Option Int :=
    match digits with
    | ['0'] => some 0
    | '0' :: 'b' :: d => Number.readBaseInt? 2 'b' d
    | '0' :: 'x' :: d => Number.readBaseInt? 16 'x' d
    | '0' :: _ => Number.readBaseInt? 8 'o' digits
    | _ =>
      if digits.contains ':' then do
        let parts ← (Text.splitOn ':' digits).mapM Number.readInt?
        return ofSixties 0 (fun sum part place => sum + part * 60 ^ place) parts
      else Number.readInt? digits
  if digits.isEmpty then .error .emptyNumber
  else match magnitude with
    | some n => .ok (if t.head? = some '-' then -n else n)
    | none => .error .badNumber

def float (t : Text) : Except Fault Number.Double := do
  let t := (t.filter (· ≠ '_')).map Text.asciiLower
  let digits := if t.head? = some '-' ∨ t.head? = some '+' then t.tail else t
  if t.isEmpty then .error .emptyNumber
  let magnitude ←
    if digits = ".inf".toList then .ok (Number.Double.infinity false)
    else if digits = ".nan".toList then .ok Number.Double.nan
    else if digits.contains ':' then
      match (Text.splitOn ':' digits).mapM Number.Double.read? with
      | none => .error .badNumber
      | some parts =>
        let base (place : Nat) := Number.Double.ofRatio false (60 ^ place) 1
        if (base (parts.length - 1)).isInfinite then .error .tooLarge
        else
          let step (sum part : Number.Double) (place : Nat) := sum.add (part.mul (base place))
          .ok (ofSixties ⟨0⟩ step parts)
    else match Number.Double.read? digits with
      | some d => .ok d
      | none => .error .badNumber
  return if t.head? = some '-' then magnitude.neg else magnitude

def truth (t : Text) : Except Fault Bool :=
  let low := String.ofList (t.map Text.asciiLower)
  if ["yes", "true", "on"].contains low then .ok true
  else if ["no", "false", "off"].contains low then .ok false
  else .error .badTruthValue

def bytes (t : Text) : Except Fault (List UInt8) :=
  match if t.all (·.toNat < 128) then Text.ofBase64? t else none with
  | some b => .ok b
  | none => .error .malformed

def value (g : Tag) (t : Text) : Except Fault Value :=
  match g with
  | .null => .ok .null
  | .truth => (truth t).map .bool
  | .int => (int t).map .int
  | .float => (float t).map .float
  | .bytes => (bytes t).map .bytes
  | .moment => Moment.ofText t
  | .str => .ok (.str t)
  | _ => .error .malformed

end Outline.Yaml.Scalar
