import Outline.Value
/-!
The order of values. Truth values, integers and doubles are ordered by what they are worth, texts and
bytes by their first difference, dates and moments by time, and lists by the first items that are
not the same; a set is before every set that holds more than all of it. Other values have no order,
nor do moments of which one has a zone and one has not.
-/

namespace Outline

namespace Number.Double

/-- Below the integer; a number that is none is below nothing. -/
def ltInt (d : Double) (n : Int) : Bool :=
  if d.isFinite then decide (d.ratio.1 < n * d.ratio.2) else d.isInfinite && d.sign

def gtInt (d : Double) (n : Int) : Bool :=
  if d.isFinite then decide (n * d.ratio.2 < d.ratio.1) else d.isInfinite && !d.sign

def lt (a b : Double) : Bool :=
  if a.isNaN || b.isNaN then false
  else if a.isFinite && b.isFinite then decide (a.ratio.1 * b.ratio.2 < b.ratio.1 * a.ratio.2)
  -- of two infinite ones at most the first sign is a minus
  else if a.isFinite then !b.sign
  else if b.isFinite then a.sign
  else a.sign && !b.sign

end Number.Double

namespace Moment

def before? (m n : Moment) : Option Bool :=
  match m.offset, n.offset with
  | none, none => some (decide (m.localMicros < n.localMicros))
  | some p, some q =>
    some (decide (m.localMicros - p * 60000000 < n.localMicros - q * 60000000))
  | _, _ => none

end Moment

namespace Value

def scalarBefore? (a b : Value) : Option Bool :=
  match a, b with
  | str s, str t => some (decide (s < t))
  | bytes s, bytes t => some (decide (s < t))
  | date d, date e => some (decide (d.dayNumber < e.dayNumber))
  | moment m, moment n => m.before? n
  | float d, float e => some (d.lt e)
  | float d, b => b.asInt?.map d.ltInt
  | a, float e => a.asInt?.map e.gtInt
  | a, b => a.asInt?.bind fun m => b.asInt?.map fun n => decide (m < n)

mutual

def before? : Value → Value → Option Bool
  | list xs, list ys => listBefore? xs ys
  | set xs, set ys => some (decide (xs.length < ys.length) && sameMembers xs ys)
  | a, b => scalarBefore? a b
termination_by structural x => x

def listBefore? : List Value → List Value → Option Bool
  | [], ys => some (!ys.isEmpty)
  | _ :: _, [] => some false
  | x :: xs, y :: ys => if same x y then listBefore? xs ys else before? x y
termination_by structural x => x

end

end Value
end Outline
