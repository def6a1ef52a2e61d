import Outline.Text.Pattern
/-!
Tags: what a YAML node is to be read as. A tag is written out, or for a plain scalar follows from
its text: texts of the form of a truth value, a number, a date or a time are that, and all others
are texts.
-/

namespace Outline.Yaml

open Text Pattern

inductive Tag where
  | null
  | truth
  | int
  | float
  | bytes
  | moment
  | str
  | seq
  | map
  | set
  | pairs
  /-- The key for what a mapping takes in from others. -/
  | merge
  /-- The key for what a mapping is as a scalar. -/
  | main
  | unknown
  deriving DecidableEq, Repr

namespace Tag

def standard : List (String × Tag) := [
    ("null", .null), ("bool", .truth), ("int", .int), ("float", .float), ("binary", .bytes),
    ("timestamp", .moment), ("str", .str), ("seq", .seq), ("map", .map), ("set", .set),
    ("omap", .pairs), ("pairs", .pairs), ("merge", .merge), ("value", .main)]

def root : Text := "tag:yaml.org,2002:".toList

def ofName (name : Text) : Tag :=
  match standard.find? fun e => root ++ e.1.toList = name with
  | some (_, g) => g
  | none => .unknown

def isCollection : Tag → Bool
  | .seq | .map | .set | .pairs => true
  | _ => false

def digit : Pattern := one isAsciiDigit

def spaced (p : Char → Bool) : Pattern := many fun c => p c || c == '_'

def someSpaced (p : Char → Bool) : Pattern := one (fun c => p c || c == '_') ++ spaced p

def plusOrMinus : Pattern := one fun c => c == '-' || c == '+'

def digits : Pattern := digit ++ spaced isAsciiDigit

def exponent : Pattern :=
  optional (one (fun c => c == 'e' || c == 'E') ++ plusOrMinus ++ digit ++ many isAsciiDigit)

def sixties : Pattern :=
  let place := char ':' ++ optional (one fun c => '0' ≤ c && c ≤ '5') ++ digit
  place ++ star place

def anyOf (ws : List String) : Pattern :=
  ws.foldr (fun w p => literal w.toList <|> p) (before fun _ => false)

def float? : Pattern :=
  let sign := optional plusOrMinus
  (sign ++ digits ++ char '.' ++ spaced isAsciiDigit ++ exponent) <|>
    (char '.' ++ digits ++ exponent) <|>
    (sign ++ digits ++ sixties ++ char '.' ++ spaced isAsciiDigit) <|>
    (sign ++ char '.' ++ anyOf ["inf", "Inf", "INF"]) <|>
    (char '.' ++ anyOf ["nan", "NaN", "NAN"])

def int? : Pattern :=
  let positive := one (fun c => '1' ≤ c && c ≤ '9') ++ spaced isAsciiDigit
  optional plusOrMinus ++
    ((literal ['0', 'b'] ++ someSpaced fun c => c == '0' || c == '1') <|>
      (char '0' ++ someSpaced fun c => '0' ≤ c && c ≤ '7') <|>
      char '0' <|> positive <|> (literal ['0', 'x'] ++ someSpaced isHexDigit) <|>
      (positive ++ sixties))

def date? : Pattern :=
  let two := digit ++ digit
  two ++ two ++ char '-' ++ two ++ char '-' ++ two

def time? : Pattern :=
  let two := digit ++ digit
  let short := digit ++ optional digit
  let gap := one isSpaceOrTab ++ many isSpaceOrTab
  let zone := many isSpaceOrTab ++
    (char 'Z' <|> (plusOrMinus ++ short ++ optional (char ':' ++ two)))
  two ++ two ++ char '-' ++ short ++ char '-' ++ short ++
    (one (fun c => c == 'T' || c == 't') <|> gap) ++
    short ++ char ':' ++ two ++ char ':' ++ two ++ optional (char '.' ++ many isAsciiDigit) ++
    optional zone

def truth? : Pattern := anyOf [
    "yes", "Yes", "YES", "no", "No", "NO", "true", "True", "TRUE", "false", "False", "FALSE",
    "on", "On", "ON", "off", "Off", "OFF"]

/-- The whole of a text, but for a line end after it, is of a form. -/
def has (p : Pattern) (t : Text) : Bool :=
  (p ++ before fun rest => rest.isEmpty || rest == ['\n']).isPrefixOf t

def ofPlain (t : Text) : Tag :=
  if t.isEmpty then .null
  else if has truth? t then .truth
  else if has float? t then .float
  else if has int? t then .int
  else if has (literal ['<', '<']) t then .merge
  else if has (anyOf ["~", "null", "Null", "NULL"]) t then .null
  else if has (date? <|> time?) t then .moment
  else if has (char '=') t then .main
  else if has (anyOf ["!", "&", "*"]) t then .unknown
  else .str

end Tag
end Outline.Yaml
