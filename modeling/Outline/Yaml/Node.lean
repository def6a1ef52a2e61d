import Outline.Yaml.Tag
import Outline.Yaml.Token
/-!
The nodes of a YAML text, composed from its tokens. A text holds one document at most. An alias is
the node of its anchor over again; an anchor is given once, and has a node only when that is
complete. So an alias inside of what it names is refused: nodes are finite, and a value that holds
itself has no place here.
-/

namespace Outline.Yaml

inductive Node where
  | scalar (tag : Tag) (text : Text)
  | seq (tag : Tag) (items : List Node)
  | map (tag : Tag) (pairs : List (Node × Node))
  deriving Repr

namespace Node

def tag : Node → Tag
  | scalar g _ | seq g _ | map g _ => g

def withTag (g : Tag) : Node → Node
  | scalar _ t => scalar g t
  | seq _ items => seq g items
  | map _ ps => map g ps

def empty : Node := scalar .null []

structure Pending where
  tokens : List Token
  anchors : List (Text × Option Node) := []

abbrev Composing := StateT Pending (Except Fault)

def peek : Composing (Option Token) := do
  match (← get).tokens with
  | [] => return none
  | .fault f :: _ => throw f
  | t :: _ => return some t

def skip : Composing Unit := modify fun s => { s with tokens := s.tokens.drop 1 }

def isNext (ts : List Token) : Composing Bool := return (← peek).any ts.contains

def accept (t : Token) : Composing Bool := do
  if (← peek) = some t then
    skip
    return true
  else return false

def expect (t : Token) : Composing Unit := do
  if !(← accept t) then throw .malformed

/-- A node, or the empty one before any of certain tokens. -/
def orEmpty (stops : List Token) (n : Composing Node) : Composing Node := do
  if ← isNext stops then return empty else n

def afterColon (stops : List Token) (n : Composing Node) : Composing Node := do
  if ← accept .value then orEmpty stops n else return empty

abbrev Handles := List (Text × Text)

def tagOf (hs : Handles) (t : TagName) : Except Fault (Option Tag) :=
  match t.handle with
  | none => .ok (if t.name = ['!'] then none else some (.ofName t.name))
  | some h =>
    match hs.lookup h with
    | some meaning => .ok (some (.ofName (meaning ++ t.name)))
    | none => .error .malformed

def properties : Composing (Option Text × Option TagName) := do
  let anchor : Composing (Option Text) := do
    if let some (.anchor a) ← peek then
      skip
      return some a
    else return none
  let before ← anchor
  if let some (.tag t) ← peek then
    skip
    let after ← if before.isNone then anchor else pure none
    return (before.or after, some t)
  else return (before, none)

def enter : Option Text → Composing Unit
  | none => return
  | some a => do
    if (← get).anchors.any (·.1 == a) then throw .malformed
    modify fun s => { s with anchors := (a, none) :: s.anchors }

def leave (n : Node) : Option Text → Composing Unit
  | none => return
  | some a => modify fun s => { s with anchors := (a, some n) :: s.anchors }

def aliased (name : Text) : Composing Node := do
  match (← get).anchors.lookup name with
  | some (some n) => return n
  | _ => throw .malformed

mutual

/-- A node. Outside of brackets columns may open collections; the items of a sequence that is a
value may stand at the column of the key. -/
def node (hs : Handles) (block value : Bool) : Nat → Composing Node
  | 0 => throw .malformed
  | fuel + 1 => do
    if let some (.alias a) ← peek then
      skip
      return (← aliased a)
    let (anchor, name) ← properties
    let tag ← name.elim (pure none) fun t => tagOf hs t
    enter anchor
    let next ← peek
    let n ← match next with
      | some (.scalar plain t) => do
        skip
        let implied := if plain || name.isSome then Tag.ofPlain t else .str
        pure (scalar (tag.getD implied) t)
      | some .openSequence => do
        skip
        pure (seq (tag.getD .seq) (← items hs true fuel))
      | some .openMapping => do
        skip
        pure (map (tag.getD .map) (← pairs hs true fuel))
      | some .blockSequence => do
        if !block then throw .malformed
        skip
        pure (seq (tag.getD .seq) (← blockItems hs fuel))
      | some .blockMapping => do
        if !block then throw .malformed
        skip
        pure (map (tag.getD .map) (← blockPairs hs fuel))
      | _ => do
        if value && next = some .entry then pure (seq (tag.getD .seq) (← valueItems hs fuel))
        else if anchor.isSome || name.isSome then pure (scalar (tag.getD .null) [])
        else throw .malformed
    leave n anchor
    return n

def blockItems (hs : Handles) : Nat → Composing (List Node)
  | 0 => throw .malformed
  | fuel + 1 => do
    if ← accept .entry then
      let n ← orEmpty [.entry, .blockEnd] (node hs true false fuel)
      return n :: (← blockItems hs fuel)
    else
      expect .blockEnd
      return []

def valueItems (hs : Handles) : Nat → Composing (List Node)
  | 0 => throw .malformed
  | fuel + 1 => do
    if ← accept .entry then
      let n ← orEmpty [.entry, .key, .value, .blockEnd] (node hs true false fuel)
      return n :: (← valueItems hs fuel)
    else return []

def blockPairs (hs : Handles) : Nat → Composing (List (Node × Node))
  | 0 => throw .malformed
  | fuel + 1 => do
    if ← accept .key then
      let stops := [.key, .value, .blockEnd]
      let k ← orEmpty stops (node hs true true fuel)
      let v ← afterColon stops (node hs true true fuel)
      return (k, v) :: (← blockPairs hs fuel)
    else
      expect .blockEnd
      return []

/-- Items in brackets. A pair among them is a mapping of its own. -/
def items (hs : Handles) (first : Bool) : Nat → Composing (List Node)
  | 0 => throw .malformed
  | fuel + 1 => do
    if ← accept .closeSequence then return []
    if !first then expect .comma
    if ← accept .key then
      let k ← orEmpty [.value, .comma, .closeSequence] (node hs false false fuel)
      let v ← afterColon [.comma, .closeSequence] (node hs false false fuel)
      return map .map [(k, v)] :: (← items hs false fuel)
    else if ← accept .closeSequence then return []
    else
      let n ← node hs false false fuel
      return n :: (← items hs false fuel)

/-- Pairs in brackets. A node alone is a key. -/
def pairs (hs : Handles) (first : Bool) : Nat → Composing (List (Node × Node))
  | 0 => throw .malformed
  | fuel + 1 => do
    if ← accept .closeMapping then return []
    if !first then expect .comma
    if ← accept .key then
      let k ← orEmpty [.value, .comma, .closeMapping] (node hs false false fuel)
      let v ← afterColon [.comma, .closeMapping] (node hs false false fuel)
      return (k, v) :: (← pairs hs false fuel)
    else if ← accept .closeMapping then return []
    else
      let k ← node hs false false fuel
      return (k, empty) :: (← pairs hs false fuel)

end

def defaultHandles : Handles := [(['!'], ['!']), (['!', '!'], Tag.root)]

/-- The directives before a document: at most one version, which is the first, and one for each
handle. -/
def directives (versioned : Bool) (hs : Handles) : Nat → Composing Handles
  | 0 => throw .malformed
  | fuel + 1 => do
    match ← peek with
    | some (.directive d) =>
      skip
      match d with
      | .version major =>
        if versioned || major != 1 then throw .malformed
        directives true hs fuel
      | .handle h meaning =>
        if hs.any (·.1 == h) then throw .malformed
        directives versioned ((h, meaning) :: hs) fuel
      | .unknown => directives versioned hs fuel
    | _ => return hs ++ defaultHandles

def skipStops : Nat → Composing Unit
  | 0 => return
  | fuel + 1 => do
    if ← accept .stop then skipStops fuel

def document (size : Nat) : Composing (Option Node) := do
  let fuel := 2 * size + 2
  let n ← match ← peek with
    | none => pure none
    | some .start | some (.directive _) => do
      let hs ← directives false [] fuel
      expect .start
      match ← peek with
      | none | some .start | some .stop | some (.directive _) => pure (some empty)
      | _ => some <$> node hs true false fuel
    | _ => some <$> node defaultHandles true false fuel
  skipStops fuel
  if (← peek).isSome then throw .malformed
  return n

def ofText (t : Text) : Except Fault (Option Node) :=
  let tokens := Token.ofText t
  ((document tokens.length).run { tokens }).map (·.1)

end Node
end Outline.Yaml
