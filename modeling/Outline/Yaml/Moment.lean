import Outline.Value
import Outline.Yaml.Fault
/-!
Dates and times as YAML writes them: a date alone, or a date, a time of day to the second or a
fraction of it, and a zone. Months, days and hours may have one digit where a time follows.
-/

namespace Outline.Yaml.Moment

-- The core library's power, also where another is in scope.
attribute [local instance (high)] instPowNat

def number (least most : Nat) (t : Text) : Option (Nat × Text) :=
  let d := (t.takeWhile Text.isAsciiDigit).take most
  if d.length < least then none else some ((Text.readBase 10 d).getD 0, t.drop d.length)

def after (c : Char) : Text → Option Text
  | d :: t => if d = c then some t else none
  | [] => none

/-- At the end of a text or of its only line. -/
def ends (t : Text) : Bool := t.isEmpty || t == ['\n']

def date (t : Text) : Option (Date × Text) := do
  let (year, t) ← number 4 4 t
  let (month, t) ← number 1 2 (← after '-' t)
  let (day, t) ← number 1 2 (← after '-' t)
  return (⟨year, month, day⟩, t)

def afterGap : Text → Option Text
  | [] => none
  | c :: t =>
    if c = 'T' ∨ c = 't' then some t
    else if Text.isSpaceOrTab c then some (t.dropWhile Text.isSpaceOrTab)
    else none

/-- A fraction of a second in millionths, of which further digits are cut off. -/
def fraction : Text → Nat × Text
  | '.' :: t =>
    let d := t.takeWhile Text.isAsciiDigit
    let six := d.take 6
    ((Text.readBase 10 six).getD 0 * 10 ^ (6 - six.length), t.drop d.length)
  | t => (0, t)

def zone (t : Text) : Option (Option Int) :=
  if ends t then some none
  else match t.dropWhile Text.isSpaceOrTab with
    | 'Z' :: t => if ends t then some (some 0) else none
    | c :: t => do
      if c ≠ '+' ∧ c ≠ '-' then none
      let (hours, t) ← number 1 2 t
      let (minutes, t) ← match t with
        | ':' :: t => number 2 2 t
        | t => some (0, t)
      let away : Int := hours * 60 + minutes
      if ends t then some (some (if c = '-' then -away else away)) else none
    | [] => none

def moment (d : Date) (t : Text) : Option Moment := do
  let (hour, t) ← number 1 2 (← afterGap t)
  let (minute, t) ← number 2 2 (← after ':' t)
  let (second, t) ← number 2 2 (← after ':' t)
  let (micro, t) := fraction t
  return ⟨d, hour, minute, second, micro, ← zone t⟩

/-- Within the calendar and the day, and less than a day from universal time. -/
def isValid (m : Moment) : Bool :=
  m.date.isValid && m.hour < 24 && m.minute < 60 && m.second < 60 &&
    m.offset.all fun o => o.natAbs < 24 * 60

def ofText (t : Text) : Except Fault Value :=
  match date t with
  | none => .error .badMoment
  | some (d, rest) =>
    if ends rest then (if d.isValid then .ok (.date d) else .error .badNumber)
    else match moment d rest with
      | none => .error .badMoment
      | some m => if isValid m then .ok (.moment m) else .error .badNumber

end Outline.Yaml.Moment
