import Outline.Text.Entity
import Outline.Text.Fold
import Outline.Url.Basic
/-!
Targets of links: the address, in angle brackets or bare, the title in its marks, and the label by
which a definition is found. The readers work on the text from the target on; what they return
counts the characters read.
-/

namespace Outline.Markdown

/-- A named target; of two definitions of one label the first counts. -/
structure Definition where
  label : Text
  address : Text
  title : Text

def entityValue? (name : Text) : Option Text :=
  match Text.entity? name with
  | some t => some t
  | none =>
    let code := match name with
      | '#' :: c :: digits =>
        if (c = 'x' ∨ c = 'X') then
          if digits ≠ [] ∧ digits.length ≤ 8 then Text.readBase 16 digits else none
        else if digits.length ≤ 7 then Text.readBase 10 (c :: digits) else none
      | _ => none
    match code with
    | some n => if Text.isWritable n then some [Char.ofNat n] else none
    | none => none

def entityName? (t : Text) : Option Text :=
  match t with
  | [] => none
  | c :: rest =>
    let name := rest.takeWhile Text.isAsciiAlphanumeric
    if (Text.isAsciiLetter c ∨ c = '#') ∧ name ≠ [] ∧ name.length ≤ 31 ∧
        (rest.drop name.length).head? = some ';' then some (c :: name)
    else none

def unescapeFrom : Nat → Text → Text
  | 0, _ => []
  | _ + 1, [] => []
  | fuel + 1, '\\' :: c :: t =>
    if Text.isAsciiPunctuation c then c :: unescapeFrom fuel t
    else '\\' :: unescapeFrom fuel (c :: t)
  | fuel + 1, '&' :: t =>
    match entityName? t with
    | none => '&' :: unescapeFrom fuel t
    | some name =>
      (entityValue? name).getD ('&' :: name ++ [';']) ++
        unescapeFrom fuel (t.drop (name.length + 1))
  | fuel + 1, c :: t => c :: unescapeFrom fuel t

def unescape (t : Text) : Text := unescapeFrom t.length t

def bracketed? : Text → Option Nat
  | [] => none
  | '\\' :: _ :: t => (bracketed? t).map (· + 2)
  | c :: t =>
    if c = '\n' ∨ c = '<' then none
    else if c = '>' then some 0
    else (bracketed? t).map (· + 1)

def isControl (c : Char) : Bool := c.toNat < 32 || c.toNat == 127

/-- The length of a bare address and the number of parentheses left open; `none` if there are too
many. -/
def bareLength (depth : Nat) : Text → Option (Nat × Nat)
  | [] => some (0, depth)
  | '\\' :: c :: t =>
    if c = ' ' then some (0, depth) else (bareLength depth t).map fun r => (r.1 + 2, r.2)
  | c :: t =>
    if c = ' ' ∨ isControl c then some (0, depth)
    else if c = '(' then
      if depth ≥ 32 then none else (bareLength (depth + 1) t).map fun r => (r.1 + 1, r.2)
    else if c = ')' then
      if depth = 0 then some (0, 0) else (bareLength (depth - 1) t).map fun r => (r.1 + 1, r.2)
    else (bareLength depth t).map fun r => (r.1 + 1, r.2)

def destination? (t : Text) : Option (Text × Nat) :=
  match t with
  | '<' :: rest => (bracketed? rest).map fun n => (unescape (rest.take n), n + 2)
  | t =>
    match bareLength 0 t with
    | some (n, 0) => if n = 0 then none else some (unescape (t.take n), n)
    | _ => none

inductive Title where
  /-- The title, and the characters read of the text last given. -/
  | closed (title : Text) (length : Nat)
  | unfinished (title : Text) (mark : Char)
  | none

/-- The characters before the closing mark; `inl` at a mark that cannot stand there. -/
def titleBody (mark : Char) : Text → Sum Unit (Text × Bool)
  | [] => .inr ([], false)
  | '\\' :: c :: t => (titleBody mark t).map id fun r => ('\\' :: c :: r.1, r.2)
  | c :: t =>
    if c = mark then .inr ([], true)
    else if c = '(' ∧ mark = ')' then .inl ()
    else (titleBody mark t).map id fun r => (c :: r.1, r.2)

def continueTitle (start : Text) (mark : Char) (t : Text) : Title :=
  match titleBody mark t with
  | .inl _ => .none
  | .inr (body, true) => .closed (start ++ unescape body) (body.length + 1)
  | .inr (body, false) => .unfinished (start ++ unescape body) mark

def title (t : Text) : Title :=
  match t with
  | c :: rest =>
    if c = '\x22' ∨ c = '\x27' ∨ c = '(' then
      match continueTitle [] (if c = '(' then ')' else c) rest with
      | .closed s n => .closed s (n + 1)
      | r => r
    else .none
  | [] => .none

def collapseBlanks : Text → Text
  | c :: d :: t =>
    if Text.isBlank c ∧ Text.isBlank d then collapseBlanks (d :: t)
    else (if Text.isBlank c then ' ' else c) :: collapseBlanks (d :: t)
  | [c] => [if Text.isBlank c then ' ' else c]
  | [] => []

def normalizeLabel (t : Text) : Text :=
  Text.foldCase (collapseBlanks (Text.trim Text.isBlank t))

def define? (ds : List Definition) (label : Text) : Option Definition :=
  let l := normalizeLabel label
  ds.find? (·.label == l)

end Outline.Markdown
