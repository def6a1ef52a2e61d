import Outline.Markdown.Leaf
import Outline.Markdown.Target
/-!
Definitions of link targets: a label in brackets, a colon, an address and perhaps a title. Each of
the parts may stand on a line of its own. A definition is read from the rest of the line that was
read last and the lines that may follow it.
-/

namespace Outline.Markdown

/-- What is left of the lines loaded, and the lines that can still be loaded. -/
structure Remaining where
  text : Text
  more : List Text

namespace Remaining

-- The core library's zero under a sum, also where another is in scope.
attribute [local instance (high)] Zero.ofOfNat0

def label? : Nat → Remaining → Option (Text × Remaining)
  | 0, _ => none
  | fuel + 1, ⟨t, more⟩ =>
    let load (t : Text) : Remaining := match more with
      | l :: ls => ⟨t ++ l, ls⟩
      | [] => ⟨t, []⟩
    match t with
    | [] | '[' :: _ => none
    | ']' :: t => some ([], ⟨t, more⟩)
    | '\n' :: t => (label? fuel (load t)).map fun r => ('\n' :: r.1, r.2)
    | '\\' :: c :: t =>
      (label? fuel (if c = '\n' then load t else ⟨t, more⟩)).map fun r => ('\\' :: c :: r.1, r.2)
    | c :: t => (label? fuel ⟨t, more⟩).map fun r => (c :: r.1, r.2)

/-- Skips blanks, over the ends of lines if there are more. -/
def skip : Nat → Remaining → Remaining
  | 0, r => r
  | fuel + 1, ⟨t, more⟩ =>
    match t, more with
    | '\n' :: t, l :: ls => skip fuel ⟨t ++ l, ls⟩
    | c :: t, more =>
      if c = '\n' ∨ Text.isSpaceOrTab c then skip fuel ⟨t, more⟩ else ⟨c :: t, more⟩
    | [], more => ⟨[], more⟩

def finishTitle (start : Text) (mark : Char) : List Text → Option (Text × Remaining)
  | [] => none
  | l :: ls =>
    match continueTitle start mark l with
    | .closed s n => some (s, ⟨l.drop n, ls⟩)
    | .unfinished s m => finishTitle s m ls
    | .none => none

def title? (r : Remaining) : Option (Text × Remaining) :=
  match title r.text with
  | .closed s n => some (s, ⟨r.text.drop n, r.more⟩)
  | .unfinished s m => finishTitle s m r.more
  | .none => none

def skipBlanks (r : Remaining) : Remaining := { r with text := r.text.dropWhile Text.isSpaceOrTab }

def atLineEnd (r : Remaining) : Bool := r.text.head?.all (· == '\n')

def size (r : Remaining) : Nat := r.text.length + (r.more.map List.length).sum

def definition? (r : Remaining) : Option (Definition × Remaining) := do
  let fuel := r.size + 1
  match r.text with
  | '[' :: t =>
    let (label, r) ← label? fuel ⟨t, r.more⟩
    match r.text with
    | ':' :: t =>
      let r := skip fuel ⟨t, r.more⟩
      let (raw, n) ← destination? r.text
      let address := Url.normalize raw
      if !Url.isAllowed address then none
      let bare : Remaining := ⟨r.text.drop n, r.more⟩
      let spaced := skip fuel bare
      let (title, after) :=
        if spaced.size < bare.size then (title? spaced).getD ([], bare) else ([], bare)
      let after := after.skipBlanks
      -- what follows a title on its line makes it no title
      let (title, after) :=
        if !after.atLineEnd ∧ title ≠ [] then ([], bare.skipBlanks) else (title, after)
      if !after.atLineEnd then none
      let label := normalizeLabel label
      if label.isEmpty then none
      return (⟨label, address, title⟩, after)
    | _ => none
  | _ => none

end Remaining

namespace Area

/-- The lines, with their line feeds, that a definition may go on with. -/
def continuation (a : Area) : Nat → Nat → List Text
  | 0, _ => []
  | fuel + 1, i =>
    if a.bound ≤ i ∨ a.isEmpty i then []
    else if a.isCode i || (a.line i).indent < 0 || !a.interrupts .definition i a.bound then
      ((a.line i).content ++ if (a.line i).final then [] else ['\n']) ::
        continuation a fuel (i + 1)
    else []

def definition? (a : Area) (i : Nat) : Option (Definition × Nat) :=
  let first := (a.line i).content
  if first.head? ≠ some '[' ∨ a.isCode i then none
  else
    let more := a.continuation (a.bound - i) (i + 1)
    let r : Remaining := ⟨first ++ if (a.line i).final then [] else ['\n'], more⟩
    r.definition?.map fun (d, rest) => (d, i + 1 + (more.length - rest.more.length))

end Area
end Outline.Markdown
