import Outline.Number.Integer
/-!
Double-precision numbers by their sixty-four bits: the nearest one to a decimal, exact comparison
with integers and with each other, and the shortest decimal that reads back. All of it is exact
arithmetic on naturals.
-/

namespace Outline.Number

structure Double where
  bits : UInt64
  deriving DecidableEq, Repr

namespace Double

-- The core library's power, also where another is in scope.
attribute [local instance (high)] instPowNat

/-- The sign is the bit above this many. -/
def signPlace : Nat := 63

/-- The exponent field begins above this many bits. -/
def fractionWidth : Nat := 52

def sign (d : Double) : Bool := d.bits.toNat / 2 ^ signPlace == 1

def exponentField (d : Double) : Nat := d.bits.toNat / 2 ^ fractionWidth % 2048

def fractionField (d : Double) : Nat := d.bits.toNat % 2 ^ fractionWidth

def isNaN (d : Double) : Bool := d.exponentField == 2047 && d.fractionField != 0

def isInfinite (d : Double) : Bool := d.exponentField == 2047 && d.fractionField == 0

/-- The magnitude of a finite number is `mantissa * 2 ^ exponent`. -/
def mantissa (d : Double) : Nat :=
  if d.exponentField = 0 then d.fractionField else 2 ^ fractionWidth + d.fractionField

def exponent (d : Double) : Int := (max d.exponentField 1 : Nat) - 1075

def signBit (negative : Bool) : Nat := if negative then 2 ^ signPlace else 0

def infinity (negative : Bool) : Double := ⟨(signBit negative + 2047 * 2 ^ fractionWidth).toUInt64⟩

def nan : Double := ⟨(4095 * 2 ^ (fractionWidth - 1)).toUInt64⟩

/-- `num / den` rounded to a natural, a half going to the even neighbour. -/
def roundHalfEven (num den : Nat) : Nat :=
  let q := num / den
  let r := num % den
  if 2 * r < den then q else if den < 2 * r then q + 1 else q + q % 2

def ofRatio (negative : Bool) (num den : Nat) : Double :=
  if num = 0 then ⟨(signBit negative).toUInt64⟩ else
  let guess : Int := (Nat.log2 num : Int) - Nat.log2 den - 52
  let scaled (e : Int) : Nat × Nat := (num * 2 ^ (-e).toNat, den * 2 ^ e.toNat)
  let low := scaled guess
  let e := max (if low.1 / low.2 < 2 ^ fractionWidth then guess - 1 else guess) (-1074)
  let m := roundHalfEven (scaled e).1 (scaled e).2
  -- a carry out of the mantissa lands in the exponent field
  let field : Int := if m < 2 ^ fractionWidth then m else (e + 1074) * 2 ^ fractionWidth + m
  if field ≥ 2047 * 2 ^ fractionWidth then infinity negative
  else ⟨(signBit negative + field.toNat).toUInt64⟩

def ofDecimal (negative : Bool) (digits : Nat) (exponent : Int) : Double :=
  let size : Int := (Nat.toDigits 10 digits).length
  if digits = 0 then ofRatio negative 0 1
  else if size + exponent > 310 then infinity negative
  else if size + exponent < -330 then ofRatio negative 0 1
  else ofRatio negative (digits * 10 ^ exponent.toNat) (10 ^ (-exponent).toNat)

def ratio (d : Double) : Int × Nat :=
  let n : Int := d.mantissa * 2 ^ d.exponent.toNat
  (if d.sign then -n else n, 2 ^ (-d.exponent).toNat)

def isFinite (d : Double) : Bool := d.exponentField != 2047

def eqInt (d : Double) (n : Int) : Bool := d.isFinite && d.ratio.1 == n * d.ratio.2

def isZero (d : Double) : Bool := d.bits.toNat % 2 ^ signPlace == 0

def eq (a b : Double) : Bool := !a.isNaN && !b.isNaN && (a == b || (a.isZero && b.isZero))

def neg (d : Double) : Double := ⟨((d.bits.toNat + 2 ^ signPlace) % 2 ^ (signPlace + 1)).toUInt64⟩

/-- The nearest to an exact quotient; zero has the given sign. -/
def ofExact (negativeZero : Bool) (num : Int) (den : Nat) : Double :=
  ofRatio (if num = 0 then negativeZero else num < 0) num.natAbs den

def add (a b : Double) : Double :=
  if a.isNaN || b.isNaN then nan
  else if a.isInfinite then (if b.isInfinite && a.sign != b.sign then nan else a)
  else if b.isInfinite then b
  else
    let (p, q) := a.ratio
    let (r, s) := b.ratio
    ofExact (a.sign && b.sign) (p * s + r * q) (q * s)

def mul (a b : Double) : Double :=
  if a.isNaN || b.isNaN then nan
  else if a.isInfinite || b.isInfinite then
    (if a.mantissa = 0 ∨ b.mantissa = 0 then nan else infinity (a.sign != b.sign))
  else
    let (p, q) := a.ratio
    let (r, s) := b.ratio
    ofExact (a.sign != b.sign) (p * r) (q * s)

/-- Toward zero. -/
def truncate? (d : Double) : Option Int :=
  if d.isFinite then some (Int.tdiv d.ratio.1 d.ratio.2) else none

def leadingPower (num den : Nat) : Int :=
  let places : Nat := 400
  ((Nat.toDigits 10 (num * 10 ^ places / den)).length : Int) - (places + 1)

/-- The one or two decimals on the grid of `n` digits next to a value, if they read back as it.
The value is `four / den`, and `low`, `high` are, over the same `den`, the ends of the interval that
rounds to it. -/
def onGrid (four low high den : Nat) (closed : Bool) (power : Int) : Option Nat :=
  let up := 10 ^ (-power).toNat
  let down := 10 ^ power.toNat
  let v := four * up
  let unit := den * down
  let below := v / unit
  let inside (c : Nat) : Bool :=
    if closed then low * up ≤ c * unit && c * unit ≤ high * up
    else low * up < c * unit && c * unit < high * up
  let nearer := roundHalfEven v unit
  let other := if nearer = below then below + 1 else below
  if inside nearer then some nearer else if inside other then some other else none

def shortestFrom (four low high den : Nat) (closed : Bool) (lead : Int) : Nat → Nat → Nat × Int
  | _, 0 => (0, 0)
  | n, more + 1 =>
    let power := lead - n
    match onGrid four low high den closed power with
    | some c => (c, power)
    | none => shortestFrom four low high den closed lead (n + 1) more

/-- The digits `c` and the power `p` for which `c * 10 ^ p` is the nearest of the shortest decimals
that read back as a positive finite number. -/
def shortest (d : Double) : Nat × Int :=
  let e := d.exponent - 2
  let up := 2 ^ e.toNat
  let den := 2 ^ (-e).toNat
  let m := d.mantissa
  let tight := m = 2 ^ fractionWidth ∧ d.exponentField > 1
  let low := if tight then 4 * m - 1 else 4 * m - 2
  let four := 4 * m * up
  shortestFrom four (low * up) ((4 * m + 2) * up) den (m % 2 == 0) (leadingPower four den) 0 17

/-- Positional between `10 ^ -4` and `10 ^ 16`, with at least one place after the point; otherwise
with an exponent of at least two digits. -/
def positiveText (digits : Text) (lead : Int) : Text :=
  if -4 ≤ lead ∧ lead < 16 then
    if lead < 0 then '0' :: '.' :: List.replicate (-lead - 1).toNat '0' ++ digits
    else
      let whole := lead.toNat + 1
      if digits.length ≤ whole then
        digits ++ List.replicate (whole - digits.length) '0' ++ ['.', '0']
      else digits.take whole ++ '.' :: digits.drop whole
  else
    let mark := if lead < 0 then '-' else '+'
    let power := Text.ofNat lead.natAbs
    let power := if power.length < 2 then '0' :: power else power
    match digits with
    | [] => []
    | [c] => c :: 'e' :: mark :: power
    | c :: rest => c :: '.' :: rest ++ 'e' :: mark :: power

def text (d : Double) : Text :=
  if d.isNaN then ['n', 'a', 'n'] else
  let magnitude : Text :=
    if d.isInfinite then ['i', 'n', 'f']
    else if d.mantissa = 0 then ['0', '.', '0']
    else
      let (c, power) := d.shortest
      let all := Text.ofNat c
      positiveText (Text.trimEnd (· == '0') all) (power + all.length - 1)
  if d.sign then '-' :: magnitude else magnitude

def readFixed (t : Text) : Option (Nat × Int × Text) :=
  let run (t : Text) := (t.takeWhile fun c => (Text.decimalDigit? c).isSome,
    t.dropWhile fun c => (Text.decimalDigit? c).isSome)
  let value (t : Text) : Nat := t.foldl (fun n c => n * 10 + (Text.decimalDigit? c).getD 0) 0
  let (whole, rest) := run t
  match rest with
  | '.' :: rest =>
    let (part, rest) := run rest
    if whole.isEmpty && part.isEmpty then none
    else some (value (whole ++ part), -(part.length : Int), rest)
  | _ => if whole.isEmpty then none else some (value whole, 0, rest)

def readMagnitude (negative : Bool) (t : Text) : Option Double :=
  let low := t.map Text.asciiLower
  if low = "inf".toList ∨ low = "infinity".toList then some (infinity negative)
  else if low = "nan".toList then some nan
  else do
    let (digits, power, rest) ← readFixed t
    match rest with
    | [] => some (ofDecimal negative digits power)
    | c :: rest =>
      if c ≠ 'e' ∧ c ≠ 'E' then none
      else
        let (down, rest) := match rest with
          | '-' :: r => (true, r)
          | '+' :: r => (false, r)
          | r => (false, r)
        if rest.isEmpty ∨ ¬ rest.all fun c => (Text.decimalDigit? c).isSome then none
        else
          let k : Int := rest.foldl
            (fun n c => min (n * 10 + (Text.decimalDigit? c).getD 0) 100000000) 0
          some (ofDecimal negative digits (if down then power - k else power + k))

def read? (t : Text) : Option Double :=
  match Text.trim Text.isBlank t with
  | '-' :: t => readMagnitude true t
  | '+' :: t => readMagnitude false t
  | t => readMagnitude false t

end Double
end Outline.Number
