import TokenContract.Number.Radix

namespace TokenContract.Yaml

/-- A character, the number of its line, and how many characters stand before it on that line. -/
structure Glyph where
  char : Char
  line : Nat
  column : Nat
deriving Repr

def isAllowed (c : Char) : Bool :=
  let n := c.toNat
  n == 0x9 || n == 0xA || n == 0xD || (0x20 ≤ n && n ≤ 0x7E) || n == 0x85 ||
    (0xA0 ≤ n && n ≤ 0xFFFD) || 0x10000 ≤ n

def isBlank (c : Char) : Bool :=
  c == ' ' || c == '\t'

def isBreak (c : Char) : Bool :=
  c == '\n' || c == '\u2028' || c == '\u2029'

def isGap (c : Char) : Bool :=
  isBlank c || isBreak c

def isFlowMark (c : Char) : Bool :=
  c == ',' || c == '[' || c == ']' || c == '{' || c == '}'

def isNameChar (c : Char) : Bool :=
  c.isAlphanum || c == '_' || c == '-'

def unifyBreaks : List Char → List Char
  | [] => []
  | '\r' :: '\n' :: cs => '\n' :: unifyBreaks cs
  | '\r' :: cs | '\u0085' :: cs => '\n' :: unifyBreaks cs
  | c :: cs => c :: unifyBreaks cs

def placeFrom (line column : Nat) : List Char → List Glyph
  | [] => []
  | c :: cs =>
    ⟨c, line, column⟩ ::
      if isBreak c then placeFrom (line + 1) 0 cs else placeFrom line (column + 1) cs

def glyphs? (s : String) : Option (List Glyph) :=
  if s.toList.all isAllowed then some (placeFrom 0 0 (unifyBreaks s.toList)) else none

def chars (gs : List Glyph) : List Char :=
  gs.map Glyph.char

def spanChars (p : Char → Bool) (gs : List Glyph) : List Char × List Glyph :=
  (chars (gs.takeWhile fun g ↦ p g.char), gs.dropWhile fun g ↦ p g.char)

def atGap : List Glyph → Bool
  | [] => true
  | g :: _ => isGap g.char

def atLineEnd : List Glyph → Bool
  | [] => true
  | g :: _ => isBreak g.char

def atTriple (c : Char) : List Glyph → Bool
  | x :: y :: z :: gs =>
    x.column == 0 && x.char == c && y.char == c && z.char == c && atGap gs
  | _ => false

def atDocumentMark (gs : List Glyph) : Bool :=
  atTriple '-' gs || atTriple '.' gs

def charOf? (digits : List Glyph) : Option Char :=
  (natOfDigits? 16 (chars digits)).bind fun n ↦
    if n.isValidChar then some (Char.ofNat n) else none

end TokenContract.Yaml
