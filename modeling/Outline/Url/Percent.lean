import Outline.Text.Quoted
/-!
Percent coding of addresses: characters beyond a safe set become the bytes of their UTF-8 form, two
hexadecimal digits each after a percent sign. Decoding leaves some codes as they are and marks
bytes that form no character.
-/

namespace Outline.Url

def utf8 (c : Char) : List Nat :=
  let n := c.toNat
  if n < 0x80 then [n]
  else if n < 0x800 then [0xc0 + n / 64, 0x80 + n % 64]
  else if n < 0x10000 then [0xe0 + n / 4096, 0x80 + n / 64 % 64, 0x80 + n % 64]
  else [0xf0 + n / 262144, 0x80 + n / 4096 % 64, 0x80 + n / 64 % 64, 0x80 + n % 64]

def upperHex (d : Nat) : Char := Char.ofNat (if d < 10 then 48 + d else 55 + d)

def percentByte (b : Nat) : Text := ['%', upperHex (b / 16), upperHex (b % 16)]

def safe : Text := ";/?:@&=+$,-_.!~*\x27()#".toList

/-- Codes that are there already stay. -/
def percentEncode : Text → Text
  | '%' :: a :: b :: t =>
    if Text.isHexDigit a && Text.isHexDigit b then '%' :: a :: b :: percentEncode t
    else percentByte 37 ++ percentEncode (a :: b :: t)
  | c :: t =>
    (if Text.isAsciiAlphanumeric c || safe.contains c then [c] else (utf8 c).flatMap percentByte) ++
      percentEncode t
  | [] => []

def isContinuation (b : Nat) : Bool := b / 64 == 2

/-- The character that bytes stand for, if they are its shortest form. -/
def charOf? (bytes : List Nat) : Option Char :=
  let code := match bytes with
    | [a, b] => (a % 32) * 64 + b % 64
    | [a, b, c] => ((a % 16) * 64 + b % 64) * 64 + c % 64
    | [a, b, c, d] => (((a % 8) * 64 + b % 64) * 64 + c % 64) * 64 + d % 64
    | _ => 0
  if code > 0x10ffff ∨ (0xd800 ≤ code ∧ code ≤ 0xdfff) then none
  else if utf8 (Char.ofNat code) = bytes then some (Char.ofNat code) else none

def codes : Text → List Nat
  | '%' :: a :: b :: t =>
    match Text.digitValue? a, Text.digitValue? b with
    | some x, some y => if x < 16 ∧ y < 16 then (x * 16 + y) :: codes t else []
    | _, _ => []
  | _ => []

def announced (b : Nat) : Nat :=
  if b / 32 = 6 then 1 else if b / 16 = 14 then 2 else if b / 8 = 30 then 3 else 0

def kept : Text := ";/?:@&=+$,#%".toList

/-- The text of a sequence of bytes; ASCII characters of a certain set keep their codes. -/
def decodeBytes : Nat → List Nat → Text
  | 0, _ => []
  | _ + 1, [] => []
  | fuel + 1, b :: bs =>
    if b < 128 then
      (if kept.contains (Char.ofNat b) then percentByte b else [Char.ofNat b]) ++
        decodeBytes fuel bs
    else
      let n := announced b
      let more := bs.take n
      if n ≠ 0 ∧ more.length = n ∧ more.all isContinuation then
        (match charOf? (b :: more) with
          | some c => [c]
          | none => List.replicate (n + 1) '\ufffd') ++ decodeBytes fuel (bs.drop n)
      else '\ufffd' :: decodeBytes fuel bs

def decodeFrom : Nat → Text → Text
  | 0, t => t
  | _ + 1, [] => []
  | fuel + 1, c :: t =>
    match codes (c :: t) with
    | [] => c :: decodeFrom fuel t
    | bs => decodeBytes bs.length bs ++ decodeFrom fuel ((c :: t).drop (3 * bs.length))

def percentDecode (t : Text) : Text := decodeFrom t.length t

end Outline.Url
