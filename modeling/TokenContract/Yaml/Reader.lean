import TokenContract.Yaml.Basic
import TokenContract.Yaml.Lexer

namespace TokenContract.Yaml

structure Properties where
  anchor : Option Nat := none
  tag : Option String := none

def readProperties : List Token → Properties × List Token
  | .anchor n :: .tag t :: ts | .tag t :: .anchor n :: ts => (⟨some n, some t⟩, ts)
  | .anchor n :: ts => ({ anchor := n }, ts)
  | .tag t :: ts => ({ tag := t }, ts)
  | ts => ({}, ts)

def Properties.isEmpty (p : Properties) : Bool :=
  p.anchor.isNone && p.tag.isNone

def Properties.apply (p : Properties) (y : Yaml) : Yaml :=
  match p.anchor with
  | some n => .anchored n y
  | none => y

/-- A lone mark as the tag of a scalar says nothing. -/
def Properties.scalarTag (p : Properties) : Option String :=
  p.tag.filter (· != "!")

def startsWithAny (words : List Token) (ts : List Token) : Bool :=
  ts.head?.any words.contains

mutual

/-- A node. Whether it can be a block collection, and whether it can be a list whose dashes stand at
the column of the dictionary around it, depends on its place. -/
def readNode (block dashes : Bool) : Nat → List Token → Option (Yaml × List Token)
  | 0, _ => none
  | _ + 1, .reference k :: ts => some (.reference k, ts)
  | n + 1, ts => do
    let (p, ts) := readProperties ts
    let (y, ts) ←
      match ts with
      | .scalar text style :: ts => some (.scalar text style p.scalarTag, ts)
      | .flowSequence :: ts => (readFlowItems true n ts).map fun (ys, ts) ↦ (.sequence ys, ts)
      | .flowMapping :: ts => (readFlowEntries true n ts).map fun (es, ts) ↦ (.mapping es, ts)
      | ts =>
        if block && startsWithAny [.blockSequence] ts then
          (readItems n (ts.drop 1)).map fun (ys, ts) ↦ (.sequence ys, ts)
        else if block && startsWithAny [.blockMapping] ts then
          (readEntries n (ts.drop 1)).map fun (es, ts) ↦ (.mapping es, ts)
        else if dashes && startsWithAny [.entry] ts then
          (readDashed n ts).map fun (ys, ts) ↦ (.sequence ys, ts)
        else if p.isEmpty then none
        else some (.scalar "" .plain p.tag, ts)
    return (p.apply y, ts)

def readOptional (block dashes : Bool) (ends : List Token) :
    Nat → List Token → Option (Yaml × List Token)
  | 0, _ => none
  | n + 1, ts => if startsWithAny ends ts then some (absent, ts) else readNode block dashes n ts

def readItems : Nat → List Token → Option (List Yaml × List Token)
  | n + 1, .entry :: ts => do
    let (y, ts) ← readOptional true false [.entry, .blockEnd] n ts
    let (ys, ts) ← readItems n ts
    return (y :: ys, ts)
  | _, .blockEnd :: ts => some ([], ts)
  | _, _ => none

def readDashed : Nat → List Token → Option (List Yaml × List Token)
  | n + 1, .entry :: ts => do
    let (y, ts) ← readOptional true false [.entry, .key, .value, .blockEnd] n ts
    let (ys, ts) ← readDashed n ts
    return (y :: ys, ts)
  | _, ts => some ([], ts)

def readEntries : Nat → List Token → Option (List (Yaml × Yaml) × List Token)
  | n + 1, .key :: ts => do
    let (k, ts) ← readOptional true true [.key, .value, .blockEnd] n ts
    let (y, ts) ←
      match ts with
      | .value :: ts => readOptional true true [.key, .value, .blockEnd] n ts
      | ts => some (absent, ts)
    let (es, ts) ← readEntries n ts
    return ((k, y) :: es, ts)
  | _, .blockEnd :: ts => some ([], ts)
  | _, _ => none

/-- The items of a list in brackets, up to its bracket. An item that is marked as a key is a
dictionary with one entry. -/
def readFlowItems (first : Bool) : Nat → List Token → Option (List Yaml × List Token)
  | _, .flowSequenceEnd :: ts => some ([], ts)
  | 0, _ => none
  | n + 1, ts => do
    match ← pastSeparator first ts with
    | .flowSequenceEnd :: ts => return ([], ts)
    | .key :: ts =>
      let (k, ts) ←
        match ts with
        | .value :: ts | .separator :: ts | .flowSequenceEnd :: ts => some (absent, ts)
        | ts => readNode false false n ts
      let (y, ts) ← readFlowValue .flowSequenceEnd n ts
      let (ys, ts) ← readFlowItems false n ts
      return (.mapping [(k, y)] :: ys, ts)
    | ts =>
      let (y, ts) ← readNode false false n ts
      let (ys, ts) ← readFlowItems false n ts
      return (y :: ys, ts)

/-- The entries of a dictionary in brackets, up to its bracket. A node that is not marked as a key
has no value. -/
def readFlowEntries (first : Bool) : Nat → List Token → Option (List (Yaml × Yaml) × List Token)
  | _, .flowMappingEnd :: ts => some ([], ts)
  | 0, _ => none
  | n + 1, ts => do
    match ← pastSeparator first ts with
    | .flowMappingEnd :: ts => return ([], ts)
    | .key :: ts =>
      let (k, ts) ← readOptional false false [.value, .separator, .flowMappingEnd] n ts
      let (y, ts) ← readFlowValue .flowMappingEnd n ts
      let (es, ts) ← readFlowEntries false n ts
      return ((k, y) :: es, ts)
    | ts =>
      let (k, ts) ← readNode false false n ts
      let (es, ts) ← readFlowEntries false n ts
      return ((k, absent) :: es, ts)

def readFlowValue (bracket : Token) : Nat → List Token → Option (Yaml × List Token)
  | 0, _ => none
  | n + 1, .value :: ts => readOptional false false [.separator, bracket] n ts
  | _, ts => some (absent, ts)

def pastSeparator (first : Bool) : List Token → Option (List Token)
  | .separator :: ts => if first then some (.separator :: ts) else some ts
  | ts => if first then some ts else none

end

def readDocument (ts : List Token) : Option (Yaml × List Token) :=
  let fuel := 4 * ts.length + 4
  match ts.dropWhile (· == .directive) with
  | .documentStart :: rest =>
    if rest.isEmpty || startsWithAny [.directive, .documentStart, .documentEnd] rest then
      some (absent, rest)
    else readNode true false fuel rest
  | rest => if startsWithAny [.directive] ts then none else readNode true false fuel rest

def read? (s : String) : Option Yaml := do
  let (y, rest) ← readDocument (← tokens? s)
  if rest.all (· == .documentEnd) then return y else none

end TokenContract.Yaml
