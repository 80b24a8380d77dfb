import TokenContract.Yaml.Scalar
import TokenContract.Yaml.Token

namespace TokenContract.Yaml

/-- The place of a word that may turn out to begin a key. A word at the column of a block dictionary
has to. -/
structure Candidate where
  position : Nat
  line : Nat
  column : Nat
  required : Bool

/-- The words read so far and what the next ones depend on: the columns of the open block
collections, the innermost first; the candidate for a key here and those around each open bracket;
whether a key may begin here; and what names and handles stand for. -/
structure Lexer where
  tokens : Array Token := #[]
  columns : List Nat := []
  candidate : Option Candidate := none
  outer : List (Option Candidate) := []
  keyAllowed : Bool := true
  names : List (String × Nat) := []
  handles : List (String × String) := []
  versioned : Bool := false

def maxKeyLength : Nat := 1024

def Candidate.isStale (g : Glyph) (c : Candidate) : Bool :=
  c.line < g.line || c.column + maxKeyLength < g.column

namespace Lexer

def inFlow (l : Lexer) : Bool :=
  !l.outer.isEmpty

def indent (l : Lexer) : Nat :=
  match l.columns with
  | [] => 0
  | c :: _ => c + 1

def push (t : Token) (l : Lexer) : Lexer :=
  { l with tokens := l.tokens.push t }

def insert (position : Nat) (t : Token) (l : Lexer) : Lexer :=
  { l with tokens := l.tokens.insertIdxIfInBounds position t }

def openBlock (t : Token) (column position : Nat) (l : Lexer) : Lexer :=
  if l.inFlow || column < l.indent then l
  else { l with columns := column :: l.columns }.insert position t

def openHere? (t : Token) (g : Glyph) (l : Lexer) : Option Lexer :=
  if l.inFlow then some l
  else if l.keyAllowed then some (l.openBlock t g.column l.tokens.size)
  else none

def closeBlocks (p : Nat → Bool) (l : Lexer) : Lexer :=
  if l.inFlow then l
  else { l with
    columns := l.columns.dropWhile p
    tokens := l.tokens ++ (l.columns.takeWhile p).map fun _ ↦ Token.blockEnd }

def dropCandidate? (l : Lexer) : Option Lexer :=
  if l.candidate.any Candidate.required then none else some { l with candidate := none }

def offer? (g : Glyph) (l : Lexer) : Option Lexer :=
  if l.keyAllowed then
    let required := !l.inFlow && l.columns.head? == some g.column
    l.dropCandidate?.map fun l ↦
      { l with candidate := some ⟨l.tokens.size, g.line, g.column, required⟩ }
  else some l

def expire? (g : Glyph) (l : Lexer) : Option Lexer :=
  if (l.candidate :: l.outer).any fun c ↦ c.any fun c ↦ c.required && c.isStale g then none
  else
    let fresh (c : Option Candidate) := c.filter fun c ↦ !c.isStale g
    some { l with candidate := fresh l.candidate, outer := l.outer.map fresh }

/-- Skips gaps and comments up to the next word; tells also whether a key may begin there. A
tabulator is a gap only where no key may begin. -/
def skip (flow : Bool) (keyAllowed comment : Bool) : List Glyph → Bool × List Glyph
  | [] => (keyAllowed, [])
  | g :: gs =>
    if isBreak g.char then skip flow (keyAllowed || !flow) false gs
    else if comment || g.char == ' ' || (g.char == '\t' && (flow || !keyAllowed)) ||
        (g.char == '\ufeff' && g.column == 0) then
      skip flow keyAllowed comment gs
    else if g.char == '#' then skip flow keyAllowed true gs
    else (keyAllowed, g :: gs)

abbrev Step := Lexer → Glyph → List Glyph → Option (Lexer × List Glyph)

def documentMark (t : Token) : Step := fun l _ gs ↦ do
  let l ← (l.closeBlocks fun _ ↦ true).dropCandidate?
  return ({ l with keyAllowed := false }.push t, gs.drop 2)

def directive : Step := fun l _ gs ↦ do
  let l ← (l.closeBlocks fun _ ↦ true).dropCandidate?
  let (d, rest) ← readDirective gs
  let l ←
    match d with
    | .version major minor =>
      if l.versioned || major ≠ 1 || !(minor == 1 || minor == 2) then none
      else some { l with versioned := true }
    | .handle name expansion =>
      if (l.handles.lookup name).isSome then none
      else some { l with handles := (name, expansion) :: l.handles }
  return ({ l with keyAllowed := false }.push .directive, ← endLine? rest)

def openFlow (t : Token) : Step := fun l g gs ↦ do
  let l ← l.offer? g
  return ({ l with candidate := none, outer := l.candidate :: l.outer, keyAllowed := true }.push t,
    gs)

def closeFlow (t : Token) : Step := fun l _ gs ↦ do
  let l ← l.dropCandidate?
  let l := match l.outer with
    | [] => l
    | c :: outer => { l with candidate := c, outer }
  return ({ l with keyAllowed := false }.push t, gs)

def separator : Step := fun l _ gs ↦ do
  let l ← l.dropCandidate?
  return ({ l with keyAllowed := true }.push .separator, gs)

def entry : Step := fun l g gs ↦ do
  let l ← (← l.openHere? .blockSequence g).dropCandidate?
  return ({ l with keyAllowed := true }.push .entry, gs)

def key : Step := fun l g gs ↦ do
  let l ← (← l.openHere? .blockMapping g).dropCandidate?
  return ({ l with keyAllowed := !l.inFlow }.push .key, gs)

def value : Step := fun l g gs ↦
  match l.candidate with
  | some c =>
    let l := { l with candidate := none, keyAllowed := false }.insert c.position .key
    some ((l.openBlock .blockMapping c.column c.position).push .value, gs)
  | none => do
    let l ← l.openHere? .blockMapping g
    return ({ l with keyAllowed := !l.inFlow }.push .value, gs)

def reference : Step := fun l g gs ↦ do
  let l ← l.offer? g
  let (name, rest) ← readName gs
  return ({ l with keyAllowed := false }.push (.reference (← l.names.lookup name)), rest)

/-- The name of a node. Its number is the count of the different names before it, so a number can
come twice. -/
def anchor : Step := fun l g gs ↦ do
  let l ← l.offer? g
  let (name, rest) ← readName gs
  let n := l.names.length
  let names := (name, n) :: l.names.filter (·.1 != name)
  return ({ l with keyAllowed := false, names }.push (.anchor n), rest)

def tag : Step := fun l g gs ↦ do
  let l ← l.offer? g
  let (name, rest) ← readTag (l.handles ++ standardHandles) gs
  if !(atGap rest || (l.inFlow && rest.head?.any (·.char == ','))) then none
  return ({ l with keyAllowed := false }.push (.tag name), rest)

def block (folded : Bool) : Step := fun l _ gs ↦
  if l.inFlow then none
  else do
    let l ← l.dropCandidate?
    let (text, rest) ← readBlock folded l.columns.head? gs
    let style := if folded then .other else .literal
    return ({ l with keyAllowed := true }.push (.scalar (String.ofList text) style), rest)

def quoted (read : List Glyph → Option (List Piece × List Glyph)) : Step := fun l g gs ↦ do
  let l ← l.offer? g
  let (pieces, rest) ← read gs
  let text := String.ofList (joinPieces false [] pieces)
  return ({ l with keyAllowed := false }.push (.scalar text .other), rest)

def plain : Step := fun l g gs ↦ do
  let l ← l.offer? g
  let p ← readPlain l.inFlow l.indent [] (g :: gs)
  return ({ l with keyAllowed := p.endsLine }.push (.scalar (String.ofList p.text) .plain), p.rest)

def next : Step := fun l g gs ↦
  if g.char == '%' && g.column == 0 then l.directive g gs
  else if atTriple '-' (g :: gs) then l.documentMark .documentStart g gs
  else if atTriple '.' (g :: gs) then l.documentMark .documentEnd g gs
  else match g.char with
    | '[' => l.openFlow .flowSequence g gs
    | '{' => l.openFlow .flowMapping g gs
    | ']' => l.closeFlow .flowSequenceEnd g gs
    | '}' => l.closeFlow .flowMappingEnd g gs
    | ',' => l.separator g gs
    | '-' => if atGap gs then l.entry g gs else l.plain g gs
    | '?' => if l.inFlow || atGap gs then l.key g gs else l.plain g gs
    | ':' => if l.inFlow || atGap gs then l.value g gs else l.plain g gs
    | '*' => l.reference g gs
    | '&' => l.anchor g gs
    | '!' => l.tag g gs
    | '|' => l.block false g gs
    | '>' => l.block true g gs
    | '\'' => l.quoted readSingle g gs
    | '"' => l.quoted readDouble g gs
    | '\t' | '%' | '@' | '\x60' => none
    | _ => l.plain g gs

def run : Nat → Lexer → List Glyph → Option Lexer
  | 0, _, _ => none
  | n + 1, l, gs =>
    match skip l.inFlow l.keyAllowed false gs with
    | (_, []) => (l.closeBlocks fun _ ↦ true).dropCandidate?
    | (keyAllowed, g :: gs) => do
      let l ← { l with keyAllowed }.expire? g
      let (l, rest) ← (l.closeBlocks (g.column < ·)).next g gs
      run n l rest

end Lexer

def tokens? (s : String) : Option (List Token) := do
  let gs ← glyphs? s
  let l ← Lexer.run (gs.length + 1) {} gs
  return l.tokens.toList

end TokenContract.Yaml
