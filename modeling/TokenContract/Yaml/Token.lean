import TokenContract.Yaml.Glyph

namespace TokenContract.Yaml

/-- How a scalar is written: without quotes, as a block of lines that are kept, or in any other
way. -/
inductive Style
  | plain
  | literal
  | other
deriving DecidableEq, Repr

/-- A word of a text. Nodes that are referred to go by numbers, and tags have their full names. -/
inductive Token
  | directive
  | documentStart
  | documentEnd
  | blockSequence
  | blockMapping
  | blockEnd
  | flowSequence
  | flowSequenceEnd
  | flowMapping
  | flowMappingEnd
  | entry
  | separator
  | key
  | value
  | reference (n : Nat)
  | anchor (n : Nat)
  | tag (name : String)
  | scalar (text : String) (style : Style)
deriving DecidableEq, Repr

def readName (gs : List Glyph) : Option (String × List Glyph) :=
  let (name, rest) := spanChars isNameChar gs
  if name.isEmpty then none
  else if atGap rest || rest.head?.any (fun g ↦ "?:,]\x7d%@\x60".contains g.char) then
    some (String.ofList name, rest)
  else none

def isTagChar (bracketed : Bool) (c : Char) : Bool :=
  isNameChar c || ";/?:@&=+$.%!~*'()".contains c || (bracketed && ",[]".contains c)

def furtherBytes? (n : Nat) : Option Nat :=
  if n < 0x80 then some 0
  else if n / 0x20 = 0x6 then some 1
  else if n / 0x10 = 0xE then some 2
  else if n / 0x8 = 0x1E then some 3
  else none

/-- The bytes of a tag, in which bytes of UTF-8 can be escaped by number; `further` bytes of a
character are still to come. -/
def decodeTag? (further : Nat) : List Char → Option (List Char)
  | '%' :: a :: b :: cs => do
    let n ← natOfDigits? 16 [a, b]
    let further ←
      if further = 0 then furtherBytes? n
      else if n / 0x40 = 0x2 then some (further - 1)
      else none
    return Char.ofNat n :: (← decodeTag? further cs)
  | [] => if further = 0 then some [] else none
  | c :: cs => if further = 0 ∧ c ≠ '%' then (c :: ·) <$> decodeTag? 0 cs else none

def readTagText (bracketed : Bool) (gs : List Glyph) : Option (String × List Glyph) :=
  let (text, rest) := spanChars (isTagChar bracketed) gs
  (decodeTag? 0 text).map fun cs ↦ (String.ofList cs, rest)

def standardHandles : List (String × String) :=
  [("!", "!"), ("!!", "tag:yaml.org,2002:")]

/-- A tag from after its first mark on. It is given in full between angle brackets, or as a handle
and the rest of its name; a lone mark is a tag as well. -/
def readTag (handles : List (String × String)) : List Glyph → Option (String × List Glyph)
  | ⟨'<', _, _⟩ :: gs => do
    let (name, rest) ← readTagText true gs
    match rest with
    | ⟨'>', _, _⟩ :: rest => if name = "" then none else some (name, rest)
    | _ => none
  | gs => do
    let (word, rest) := spanChars isNameChar gs
    match rest with
    | ⟨'!', _, _⟩ :: rest =>
      let (name, rest) ← readTagText false rest
      if name = "" then none
      return ((← handles.lookup (String.ofList ('!' :: word ++ ['!']))) ++ name, rest)
    | _ =>
      let (name, rest) ← readTagText false gs
      if name = "" then return ("!", rest)
      return ((← handles.lookup "!") ++ name, rest)

def readShortNat (gs : List Glyph) : Option (Nat × List Glyph) :=
  let (digits, rest) := spanChars Char.isDigit gs
  if digits.length ≤ 9 then (natOfDigits? 10 digits).map (·, rest) else none

inductive Directive
  | version (major minor : Nat)
  | handle (name expansion : String)

def skipBlanks (gs : List Glyph) : List Glyph :=
  gs.dropWhile fun g ↦ isBlank g.char

def readVersion (gs : List Glyph) : Option (Directive × List Glyph) := do
  let (major, rest) ← readShortNat gs
  match rest with
  | ⟨'.', _, _⟩ :: rest =>
    let (minor, rest) ← readShortNat rest
    return (.version major minor, rest)
  | _ => none

def readHandle : List Glyph → Option (Directive × List Glyph)
  | ⟨'!', _, _⟩ :: gs => do
    let (word, rest) := spanChars isNameChar gs
    let (name, rest) ←
      match rest with
      | ⟨'!', _, _⟩ :: rest => some ('!' :: word ++ ['!'], rest)
      | rest => if word = [] then some (['!'], rest) else none
    if !rest.head?.any (fun g ↦ isBlank g.char) then none
    let (expansion, rest) ← readTagText true (skipBlanks rest)
    if expansion = "" || !atGap rest then none
    return (.handle (String.ofList name) expansion, rest)
  | _ => none

def readDirective (gs : List Glyph) : Option (Directive × List Glyph) :=
  let (name, rest) := spanChars isNameChar gs
  if !atGap rest then none
  else match String.ofList name with
    | "YAML" => readVersion (skipBlanks rest)
    | "TAG" => readHandle (skipBlanks rest)
    | _ => none

end TokenContract.Yaml
