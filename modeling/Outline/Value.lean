import Outline.Number.Double
import Outline.Text.Quoted
/-!
Values of metadata and node attributes: what a YAML block can hold. A mapping keeps its entries in
the order of insertion. Equality is by meaning: a truth value equals the integer it stands for, an
integer equals the double with its value, mappings and sets disregard order, and moments with a
zone are compared in universal time.
-/

namespace Outline

structure Date where
  year : Nat
  month : Nat
  day : Nat
  deriving DecidableEq, Repr

/-- A time of day on a date; `offset` is the zone's distance from universal time in minutes. -/
structure Moment where
  date : Date
  hour : Nat
  minute : Nat
  second : Nat
  micro : Nat
  offset : Option Int
  deriving DecidableEq, Repr

inductive Value where
  | null
  | bool (b : Bool)
  | int (n : Int)
  | float (d : Number.Double)
  | str (s : Text)
  | bytes (b : List UInt8)
  | date (d : Date)
  | moment (m : Moment)
  | list (items : List Value)
  | map (entries : List (Value × Value))
  | set (items : List Value)

namespace Date

-- The core library's zero under a sum, also where another is in scope.
attribute [local instance (high)] Zero.ofOfNat0

def isLeap (year : Nat) : Bool := year % 4 == 0 && (year % 100 != 0 || year % 400 == 0)

def monthLength (year month : Nat) : Nat :=
  if month = 2 then (if isLeap year then 29 else 28)
  else if month = 4 ∨ month = 6 ∨ month = 9 ∨ month = 11 then 30 else 31

def isValid (d : Date) : Bool :=
  1 ≤ d.year && d.year ≤ 9999 && 1 ≤ d.month && d.month ≤ 12 && 1 ≤ d.day &&
    d.day ≤ monthLength d.year d.month

/-- Days since the first of January of year one, of the calendar extended backwards. -/
def dayNumber (d : Date) : Int :=
  let y : Int := d.year - 1
  let before := ((List.range (d.month - 1)).map fun m => monthLength d.year (m + 1)).sum
  y * 365 + y / 4 - y / 100 + y / 400 + before + d.day - 1

def padded (width n : Nat) : Text :=
  let t := Text.ofNat n
  List.replicate (width - t.length) '0' ++ t

def text (d : Date) : Text :=
  padded 4 d.year ++ '-' :: padded 2 d.month ++ '-' :: padded 2 d.day

end Date

namespace Moment

def localMicros (m : Moment) : Int :=
  (((m.date.dayNumber * 24 + m.hour) * 60 + m.minute) * 60 + m.second) * 1000000 + m.micro

def same (a b : Moment) : Bool :=
  match a.offset, b.offset with
  | none, none => a.localMicros == b.localMicros
  | some p, some q => a.localMicros - p * 60000000 == b.localMicros - q * 60000000
  | _, _ => false

def zoneText (offset : Int) : Text :=
  (if offset < 0 then '-' else '+') :: Date.padded 2 (offset.natAbs / 60) ++ ':' ::
    Date.padded 2 (offset.natAbs % 60)

def text (m : Moment) : Text :=
  m.date.text ++ 'T' :: Date.padded 2 m.hour ++ ':' :: Date.padded 2 m.minute ++ ':' ::
    Date.padded 2 m.second ++
    (if m.micro = 0 then [] else '.' :: Date.padded 6 m.micro) ++
    (match m.offset with
      | none => []
      | some o => zoneText o)

end Moment

namespace Value

instance : Inhabited Value := ⟨null⟩

def asInt? : Value → Option Int
  | bool b => some (if b then 1 else 0)
  | int n => some n
  | _ => none

def sameScalar (a b : Value) : Bool :=
  match a, b with
  | null, null => true
  | str s, str t => s == t
  | bytes s, bytes t => s == t
  | date d, date e => d == e
  | moment m, moment n => m.same n
  | float d, float e => d.eq e
  | float d, b => (b.asInt?.map d.eqInt).getD false
  | a, float e => (a.asInt?.map e.eqInt).getD false
  | a, b => a.asInt?.isSome && a.asInt? == b.asInt?

mutual

def same : Value → Value → Bool
  | list xs, list ys => sameList xs ys
  | map xs, map ys => xs.length == ys.length && sameEntries xs ys
  | set xs, set ys => xs.length == ys.length && sameMembers xs ys
  | a, b => sameScalar a b
termination_by structural x => x

def sameList : List Value → List Value → Bool
  | [], [] => true
  | x :: xs, y :: ys => same x y && sameList xs ys
  | _, _ => false
termination_by structural x => x

def sameEntries : List (Value × Value) → List (Value × Value) → Bool
  | [], _ => true
  | (k, v) :: rest, ys => ys.any (fun e => sameScalar k e.1 && same v e.2) && sameEntries rest ys
termination_by structural x => x

def sameMembers : List Value → List Value → Bool
  | [], _ => true
  | x :: xs, ys => ys.any (fun y => same x y) && sameMembers xs ys
termination_by structural x => x

end

def isTruthy : Value → Bool
  | null => false
  | bool b => b
  | int n => n != 0
  | float d => d.isNaN || !d.isZero
  | str s => !s.isEmpty
  | bytes b => !b.isEmpty
  | list xs => !xs.isEmpty
  | map es => !es.isEmpty
  | set xs => !xs.isEmpty
  | date _ | moment _ => true

def written : Value → Text
  | null => "None".toList
  | bool b => (if b then "True" else "False").toList
  | int n => Text.ofInt n
  | float d => d.text
  | str s => Text.quoted s
  | date d => d.text
  | moment m => m.text
  | bytes _ => "bytes".toList
  | list _ => "list".toList
  | map _ => "map".toList
  | set _ => "set".toList

/-- The form in running text, where texts stand without quotes. -/
def plain : Value → Text
  | str s => s
  | v => v.written

end Value
end Outline
