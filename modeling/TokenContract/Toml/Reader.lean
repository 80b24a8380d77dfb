import TokenContract.Toml.Scalar

namespace TokenContract.Toml

def isBareChar (c : Char) : Bool :=
  c.isAlphanum || c == '_' || c == '-'

def readKey : List Char → Option (List Char × List Char)
  | '"' :: r => readBasic r
  | '\'' :: r => readLiteral r
  | cs =>
    match cs.takeWhile isBareChar with
    | [] => none
    | key => some (key, cs.dropWhile isBareChar)

/-- The parts of a key, the last of them apart. Points stand between them, and gaps around them. -/
def readPath : Nat → List Char → Option (List String × String × List Char)
  | 0, _ => none
  | n + 1, cs => do
    let (key, r) ← readKey (skipGaps cs)
    let key := String.ofList key
    match skipGaps r with
    | '.' :: r =>
      let (path, last, rest) ← readPath n r
      return (key :: path, last, rest)
    | rest => return ([], key, rest)

def maxNesting : Nat := 79

def readDotted (cs : List Char) : Option (List String × String × List Char) :=
  readPath maxNesting cs

def skipComment? : List Char → Option (List Char)
  | '#' :: r =>
    let rest := r.dropWhile (!isControl ·)
    if rest.isEmpty || (newline? rest).isSome then some rest else none
  | cs => some cs

def skipLines? : Nat → List Char → Option (List Char)
  | 0, cs => some cs
  | n + 1, cs => do
    let r ← skipComment? (skipGaps cs)
    match newline? r with
    | some r => skipLines? n r
    | none => return r

mutual

def readValue : Nat → List Char → Option (Toml × List Char)
  | 0, _ => none
  | n + 1, cs =>
    match cs with
    | '"' :: _ | '\'' :: _ => (readText cs).map fun (s, rest) ↦ (.text (String.ofList s), rest)
    | '[' :: r => (readItems n r).map fun (vs, rest) ↦ (.array vs, rest)
    | '{' :: r =>
      match skipGaps r with
      | '}' :: rest => some (.table .braces [], rest)
      | r => (readEntries n [] r).map fun (es, rest) ↦ (.table .braces es, rest)
    | cs => readWord cs

def readItems : Nat → List Char → Option (List Toml × List Char)
  | 0, _ => none
  | n + 1, cs => do
    match ← skipLines? cs.length cs with
    | ']' :: rest => return ([], rest)
    | r =>
      let (v, r) ← readValue n r
      match ← skipLines? r.length r with
      | ',' :: r =>
        let (vs, rest) ← readItems n r
        return (v :: vs, rest)
      | ']' :: rest => return ([v], rest)
      | _ => none

def readEntries : Nat → Entries → List Char → Option (Entries × List Char)
  | 0, _, _ => none
  | n + 1, es, cs => do
    let (path, key, r) ← readDotted cs
    let (v, r) ← readValue n (skipGaps (← past? '=' r))
    let es ← assign path key v es
    match skipGaps r with
    | ',' :: r => readEntries n es r
    | '}' :: rest => return (es, rest)
    | _ => none

end

/-- The entries of a text as far as it was read, and the header of the table that goes on. -/
structure Draft where
  header : List String := []
  entries : Entries := []

def endLine? (cs : List Char) : Option (List Char) := do
  let r ← skipComment? (skipGaps cs)
  if r.isEmpty then return r else newline? r

def readHeader (d : Draft) (cs : List Char) : Option (Draft × List Char) :=
  match cs with
  | '[' :: r => do
    let (path, key, r) ← readDotted r
    let r ← past? ']' (← past? ']' r)
    return ({ d with header := path ++ [key], entries := ← openRow path key d.entries }, r)
  | r => do
    let (path, key, r) ← readDotted r
    let r ← past? ']' r
    return ({ d with header := path ++ [key], entries := ← openTable path key d.entries }, r)

def readEntry (d : Draft) (cs : List Char) : Option (Draft × List Char) := do
  let (path, key, r) ← readDotted cs
  let (v, r) ← readValue (2 * r.length + 2) (skipGaps (← past? '=' r))
  if maxNesting < v.depth then none
  return ({ d with entries := ← assignUnder d.header path key v d.entries }, r)

def readLines : Nat → Draft → List Char → Option Entries
  | 0, _, _ => none
  | n + 1, d, cs =>
    match skipGaps cs with
    | [] => some d.entries
    | '[' :: r => do
      let (d, r) ← readHeader d r
      readLines n d (← endLine? r)
    | r => do
      if let some r := endLine? r then readLines n d r
      else
        let (d, r) ← readEntry d r
        readLines n d (← endLine? r)

def read? (s : String) : Option Entries :=
  let cs := s.toList
  readLines (cs.length + 1) {} (if cs.head? = some '\ufeff' then cs.drop 1 else cs)

end TokenContract.Toml
