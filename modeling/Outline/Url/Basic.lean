import Outline.Url.Percent
import Outline.Url.Punycode
/-!
Addresses of links. An address is taken apart into scheme, user, host, the number of
a service at the host, and the rest. Its host is put into ASCII (or out of it, for display), and it
is put together and percent-coded again. What does not look like an address passes through as a
path.
-/

namespace Outline.Url

structure Parts where
  scheme : Text := []
  slashes : Bool := false
  user : Text := []
  host : Text := []
  service : Text := []
  path : Text := []

def isSchemeChar (c : Char) : Bool :=
  Text.isAsciiAlphanumeric c || c == '.' || c == '+' || c == '-' || c == '\u0130' ||
    c == '\u0131' || c == '\u017f' || c == '\u212a'

def splitScheme (t : Text) : Text × Text :=
  match t.takeWhile isSchemeChar, t.dropWhile isSchemeChar with
  | c :: s, ':' :: rest => (c :: s ++ [':'], rest)
  | _, _ => ([], t)

def slashed : List Text := ["http:", "https:", "ftp:", "gopher:", "file:"].map String.toList

def hostless : Text := "javascript:".toList

def endsHost (c : Char) : Bool := c == '/' || c == '?' || c == '#'

def foreignToHost : Text := "%/?;#\x27\x7b\x7d|\\^\x60<>\x22 \r\n\t".toList

/-- The part before the last `@` in front of the first character that ends the host, and the rest
after that sign. -/
def splitUser (t : Text) : Text × Text :=
  let reach := t.takeWhile (!endsHost ·)
  if reach.contains '@' then
    let name := ((reach.reverse.dropWhile (· != '@')).drop 1).reverse
    (name, t.drop (name.length + 1))
  else ([], t)

def splitHost (t : Text) : Text × Text :=
  let h := t.takeWhile (!foreignToHost.contains ·)
  let h := if h.getLast? = some ':' then h.dropLast else h
  (h, t.drop h.length)

def splitService (h : Text) : Text × Text :=
  let digits := (h.reverse.takeWhile Text.isAsciiDigit).reverse
  let front := h.take (h.length - digits.length)
  if front.getLast? = some ':' then (front.dropLast, digits) else (h, [])

def isLabelChar (c : Char) : Bool :=
  Text.isAsciiAlphanumeric c || c == '+' || c == '_' || c == '-'

def isLabel (l : Text) : Bool := l.length ≤ 63 && l.all fun c => isLabelChar c || 127 < c.toNat

def joinDots (ls : List Text) : Text := ['.'].intercalate ls

/-- Cuts a host in its first label that is none; what is cut off belongs to the path. -/
def cutHost (before : List Text) : List Text → Text × Text
  | [] => (joinDots before, [])
  | l :: ls =>
    if isLabel l then cutHost (before ++ [l]) ls
    else
      let good := (l.take 63).takeWhile isLabelChar
      (joinDots (before ++ [good]), joinDots (l.drop good.length :: ls))

def isBracketed (h : Text) : Bool := h.head? == some '[' && h.getLast? == some ']'

def longestHost : Nat := 255

/-- The host without brackets, and what the address goes on with. -/
def hostOf (h : Text) : Text × Text :=
  if isBracketed h then (if h.length ≤ longestHost then (h.drop 1).dropLast else [], [])
  else
    let (host, cut) := cutHost [] (Text.splitOn '.' h)
    (if host.length ≤ longestHost then host else [], cut)

def parseHost (u : Parts) (t : Text) : Parts :=
  let (user, t) := splitUser t
  let (h, rest) := splitHost t
  let (h, service) := splitService h
  let (host, cut) := hostOf h
  { u with user := user, service := service, host := host, path := cut ++ rest }

def parse (t : Text) : Parts :=
  let (scheme, rest) := splitScheme (Text.trim Text.isBlank t)
  let slashes := ['/', '/'].isPrefixOf rest && scheme ≠ hostless
  let u : Parts := { scheme := scheme, slashes := slashes }
  let rest := if slashes then rest.drop 2 else rest
  if scheme ≠ hostless ∧ (slashes ∨ (scheme ≠ [] ∧ ¬ slashed.contains scheme)) then
    parseHost u rest
  else { u with path := rest }

def text (u : Parts) : Text :=
  u.scheme ++ (if u.slashes then ['/', '/'] else []) ++
    (if u.user.isEmpty then [] else u.user ++ ['@']) ++
    (if u.host.contains ':' then '[' :: u.host ++ [']'] else u.host) ++
    (if u.service.isEmpty then [] else ':' :: u.service) ++ u.path

def isDot (c : Char) : Bool := c == '.' || c == '\u3002' || c == '\uff0e' || c == '\uff61'

def mapLabels (f : Text → Option Text) (host : Text) : Option Text :=
  ((Text.splitOn '.' (host.map fun c => if isDot c then '.' else c)).mapM f).map joinDots

def toAscii (label : Text) : Option Text :=
  if label.any fun c => 0x7e < c.toNat then some ("xn--".toList ++ Punycode.encode label)
  else some label

def ofAscii (label : Text) : Option Text :=
  if "xn--".toList.isPrefixOf label then Punycode.decode? ((label.drop 4).map Text.asciiLower)
  else some label

def recoded : List Text := [[], "http:".toList, "https:".toList, "mailto:".toList]

def recode (f : Text → Option Text) (u : Parts) : Parts :=
  if recoded.contains u.scheme ∧ u.host ≠ [] then
    { u with host := (mapLabels f u.host).getD u.host }
  else u

/-- The form in which an address is stored. -/
def normalize (t : Text) : Text := percentEncode (text (recode toAscii (parse t)))

/-- The form in which an address is shown. -/
def display (t : Text) : Text := percentDecode (text (recode ofAscii (parse t)))

def isBegunBy (t : Text) (starts : List String) : Bool := starts.any fun s => s.toList.isPrefixOf t

/-- Refuses addresses that run or embed something, images in common formats excepted. -/
def isAllowed (t : Text) : Bool :=
  let t := (Text.trim Text.isBlank t).map Text.asciiLower
  if isBegunBy t ["vbscript:", "javascript:", "file:", "data:"] then
    isBegunBy t ["data:image/gif;", "data:image/png;", "data:image/jpeg;", "data:image/webp;"]
  else true

end Outline.Url
