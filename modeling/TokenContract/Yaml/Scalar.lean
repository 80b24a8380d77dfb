import TokenContract.Yaml.Glyph

namespace TokenContract.Yaml

/-- What a gap within a scalar stands for. Blanks stay. A line feed counts as a space, unless other
ends of lines follow, which then stay alone; the other ends of lines always stay. -/
def fold (gap : List Char) : List Char :=
  match gap.filter isBreak with
  | [] => gap
  | ['\n'] => [' ']
  | '\n' :: more => more
  | breaks => breaks

/-- A scalar without quotes, whether the gap after it goes over the end of a line, and what follows
that gap. -/
structure PlainText where
  text : List Char
  endsLine : Bool
  rest : List Glyph

def endsPlain (flow : Bool) (indent : Nat) (afterGap : Bool) : List Glyph → Bool
  | [] => true
  | g :: gs =>
    (g.char == ':' && atGap gs) || (flow && isFlowMark g.char) ||
      (afterGap && (g.char == '#' || atDocumentMark (g :: gs) || (!flow && g.column < indent)))

def misplacesColon (flow : Bool) : List Glyph → Bool
  | g :: h :: _ => flow && g.char == ':' && (h.char == '?' || isFlowMark h.char)
  | _ => false

/-- Reads on in a scalar without quotes after a gap, which is given from its end. The lines of the
scalar stand at `indent` or to the right of it. -/
def readPlain (flow : Bool) (indent : Nat) (gap : List Glyph) : List Glyph → Option PlainText
  | [] => some ⟨[], gap.any fun g ↦ isBreak g.char, []⟩
  | g :: gs =>
    let endsLine := gap.any fun g ↦ isBreak g.char
    if isGap g.char then
      if g.char == '\t' && endsLine && g.column < indent then none
      else readPlain flow indent (g :: gap) gs
    else if endsPlain flow indent (!gap.isEmpty) (g :: gs) then some ⟨[], endsLine, g :: gs⟩
    else if misplacesColon flow (g :: gs) then none
    else (readPlain flow indent [] gs).map fun p ↦
      { p with text := fold (chars gap.reverse) ++ g.char :: p.text }

/-- A piece of a scalar in quotes: a character of its text, one of a gap, or an end of a line that
is escaped. -/
inductive Piece
  | char (c : Char)
  | gap (c : Char)
  | joint

def Piece.ofChar (c : Char) : Piece :=
  if isGap c then .gap c else .char c

/-- The text of pieces that follow a gap, which is given from its end. Of a gap after an escaped end
of a line only the further ends of lines count. -/
def joinPieces (joined : Bool) (gap : List Char) : List Piece → List Char
  | [] => before
  | .char c :: ps => before ++ c :: joinPieces false [] ps
  | .gap c :: ps => joinPieces joined (c :: gap) ps
  | .joint :: ps => before ++ joinPieces true [] ps
where
  before : List Char := if joined then gap.reverse.filter isBreak else fold gap.reverse

def cons? (p : Piece) (r : Option (List Piece × List Glyph)) : Option (List Piece × List Glyph) :=
  r.map fun (ps, rest) ↦ (p :: ps, rest)

def escaped? (c : Char) : Option Piece :=
  if isBreak c then some .joint
  else Piece.char <$> match c with
    | '0' => some '\x00'
    | 'a' => some '\x07'
    | 'b' => some '\x08'
    | 't' | '\t' => some '\t'
    | 'n' => some '\n'
    | 'v' => some '\x0b'
    | 'f' => some '\x0c'
    | 'r' => some '\r'
    | 'e' => some '\x1b'
    | ' ' => some ' '
    | '"' => some '"'
    | '/' => some '/'
    | '\\' => some '\\'
    | 'N' => some '\u0085'
    | '_' => some '\u00a0'
    | 'L' => some '\u2028'
    | 'P' => some '\u2029'
    | _ => none

def readDouble : List Glyph → Option (List Piece × List Glyph)
  | [] => none
  | ⟨'"', _, _⟩ :: r => some ([], r)
  | ⟨'\\', _, _⟩ :: ⟨'x', _, _⟩ :: a :: b :: r => do
    cons? (.char (← charOf? [a, b])) (readDouble r)
  | ⟨'\\', _, _⟩ :: ⟨'u', _, _⟩ :: a :: b :: c :: d :: r => do
    cons? (.char (← charOf? [a, b, c, d])) (readDouble r)
  | ⟨'\\', _, _⟩ :: ⟨'U', _, _⟩ :: a :: b :: c :: d :: e :: f :: g :: h :: r => do
    cons? (.char (← charOf? [a, b, c, d, e, f, g, h])) (readDouble r)
  | ⟨'\\', _, _⟩ :: e :: r => do cons? (← escaped? e.char) (readDouble r)
  | g :: r => if atDocumentMark (g :: r) then none else cons? (.ofChar g.char) (readDouble r)

def readSingle : List Glyph → Option (List Piece × List Glyph)
  | [] => none
  | ⟨'\'', _, _⟩ :: ⟨'\'', _, _⟩ :: r => cons? (.char '\'') (readSingle r)
  | ⟨'\'', _, _⟩ :: r => some ([], r)
  | g :: r => if atDocumentMark (g :: r) then none else cons? (.ofChar g.char) (readSingle r)

/-- What becomes of the ends of lines at the end of a block: the last line has none, or one, or
keeps all of them. -/
inductive Chomping
  | strip
  | clip
  | keep
deriving DecidableEq

structure BlockHeader where
  depth : Option Nat := none
  chomping : Chomping := .clip

def chompingOf? : List Glyph → Option (Chomping × List Glyph)
  | ⟨'+', _, _⟩ :: gs => some (.keep, gs)
  | ⟨'-', _, _⟩ :: gs => some (.strip, gs)
  | _ => none

def readDepth : List Glyph → Option (Option Nat × List Glyph)
  | [] => some (none, [])
  | g :: gs =>
    if g.char == '0' then none
    else if g.char.isDigit then some (digitValue g.char, gs)
    else some (none, g :: gs)

def readHeader (gs : List Glyph) : Option (BlockHeader × List Glyph) :=
  match chompingOf? gs with
  | some (chomping, gs) => (readDepth gs).map fun (depth, gs) ↦ (⟨depth, chomping⟩, gs)
  | none => (readDepth gs).map fun (depth, rest) ↦
    match depth, chompingOf? rest with
    | some depth, some (chomping, gs) => (⟨some depth, chomping⟩, gs)
    | depth, _ => (⟨depth, .clip⟩, rest)

def endLine? (gs : List Glyph) : Option (List Glyph) :=
  let rest := gs.dropWhile fun g ↦ isBlank g.char
  let rest :=
    if rest.head?.any (·.char == '#') then rest.dropWhile fun g ↦ !isBreak g.char else rest
  if atLineEnd rest then some (rest.drop 1) else none

/-- Passes over indentation and empty lines: the ends of the lines, the greatest column reached, and
the rest. -/
def skipEmptyLines (indent : Option Nat) : List Glyph → Option (List Char × Nat × List Glyph)
  | [] => some ([], 0, [])
  | g :: gs =>
    let outside := indent.all (g.column < ·)
    if outside && g.char == ' ' then skipEmptyLines indent gs
    else if outside && g.char == '\t' then none
    else if isBreak g.char then
      (skipEmptyLines indent gs).map fun (breaks, column, rest) ↦
        (g.char :: breaks, max g.column column, rest)
    else some ([], g.column, g :: gs)

structure BlockLine where
  text : List Char
  ending : List Char
  empty : List Char

def readBlockLines (column : Nat) : Nat → List Glyph → Option (List BlockLine × List Glyph)
  | 0, gs => some ([], gs)
  | n + 1, gs =>
    if gs.head?.any (·.column == column) then do
      let (text, rest) := spanChars (fun c ↦ !isBreak c) gs
      let (empty, _, after) ← skipEmptyLines (some column) (rest.drop 1)
      let (ls, rest') ← readBlockLines column n after
      return (⟨text, chars (rest.take 1), empty⟩ :: ls, rest')
    else some ([], gs)

def BlockLine.startsBlank (l : BlockLine) : Bool :=
  l.text.head?.any isBlank

/-- What stands between a line and the next. Where lines are folded a line feed counts as a space
or, before empty lines, as nothing, unless one of the two lines starts with a blank. -/
def BlockLine.between (folded : Bool) (l next : BlockLine) : List Char :=
  if folded && l.ending == ['\n'] && !l.startsBlank && !next.startsBlank then
    if l.empty.isEmpty then [' '] else l.empty
  else l.ending ++ l.empty

def BlockLine.tail (chomping : Chomping) (l : BlockLine) : List Char :=
  match chomping with
  | .strip => []
  | .clip => l.ending
  | .keep => l.ending ++ l.empty

def blockText (folded : Bool) (chomping : Chomping) : List BlockLine → List Char
  | [] => []
  | [l] => l.text ++ l.tail chomping
  | l :: m :: ls => l.text ++ l.between folded m ++ blockText folded chomping (m :: ls)

/-- A block of lines from after its mark on, within a collection at a column: its text, and the
rest. If the header does not say where it stands, its first lines do. -/
def readBlock (folded : Bool) (outer : Option Nat) (gs : List Glyph) :
    Option (List Char × List Glyph) := do
  let (header, gs) ← readHeader gs
  let gs ← endLine? gs
  let said := header.depth.map (outer.getD 0 + ·)
  let (breaks, reached, gs) ← skipEmptyLines said gs
  let column := said.getD (max reached (max 1 (outer.elim 0 (· + 1))))
  let (ls, rest) ← readBlockLines column (gs.length + 1) gs
  if ls.isEmpty then
    return (if header.chomping = .keep then breaks else [], rest)
  return (breaks ++ blockText folded header.chomping ls, rest)

end TokenContract.Yaml
