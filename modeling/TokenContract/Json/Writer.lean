import TokenContract.Json.Basic
import TokenContract.Number.Shortest

namespace TokenContract.Json

/-- Doubles have all places from five after the point to sixteen before it, an exponent otherwise,
and `.0` if they are whole; ties go to the even digit. -/
def numberLayout : Binary64.Layout where
  tie := .even
  writtenPlain e := -5 ≤ e && e ≤ 15
  point := true

def writeReal : Binary64 → List Char
  | .finite s n _ => numberLayout.write s n
  | _ => "null".toList

def writeInteger : Int → List Char
  | .ofNat n => digitChars n
  | .negSucc n => '-' :: digitChars (n + 1)

def hexDigit (n : Nat) : Char :=
  Nat.digitChar (n % 16)

/-- Quotes, backslashes and the characters below the space are escaped, in their short form if they
have one. -/
def escape (c : Char) : List Char :=
  match c with
  | '"' => ['\\', '"']
  | '\\' => ['\\', '\\']
  | '\n' => ['\\', 'n']
  | '\r' => ['\\', 'r']
  | '\t' => ['\\', 't']
  | '\x08' => ['\\', 'b']
  | '\x0c' => ['\\', 'f']
  | c =>
    if c.toNat < 0x20 then ['\\', 'u', '0', '0', hexDigit (c.toNat / 16), hexDigit c.toNat]
    else [c]

def quote (s : String) : List Char :=
  '"' :: s.toList.flatMap escape ++ ['"']

mutual

/-- The compact text; a fault has none. -/
def compactChars : Json → List Char
  | .null => "null".toList
  | .bool b => (if b then "true" else "false").toList
  | .integer n => writeInteger n
  | .real x => writeReal x
  | .text s => quote s
  | .array items => '[' :: compactItems items ++ [']']
  | .object fields => '{' :: compactFields fields ++ ['}']
  | .fault _ => []

def compactItems : List Json → List Char
  | [] => []
  | [j] => compactChars j
  | j :: js => compactChars j ++ ',' :: compactItems js

def compactFields : List (String × Json) → List Char
  | [] => []
  | [(k, j)] => quote k ++ ':' :: compactChars j
  | (k, j) :: fs => quote k ++ ':' :: compactChars j ++ ',' :: compactFields fs

end

def compact (j : Json) : String :=
  String.ofList (compactChars j)

def newLine (level : Nat) : List Char :=
  '\n' :: List.replicate (2 * level) ' '

mutual

def prettyChars (level : Nat) : Json → List Char
  | .array [] => ['[', ']']
  | .array (j :: js) =>
    '[' :: prettyItems (level + 1) (j :: js) ++ newLine level ++ [']']
  | .object [] => ['{', '}']
  | .object (f :: fs) =>
    '{' :: prettyFields (level + 1) (f :: fs) ++ newLine level ++ ['}']
  | j => compactChars j

def prettyItems (level : Nat) : List Json → List Char
  | [] => []
  | [j] => newLine level ++ prettyChars level j
  | j :: js => newLine level ++ prettyChars level j ++ ',' :: prettyItems level js

def prettyFields (level : Nat) : List (String × Json) → List Char
  | [] => []
  | [(k, j)] => newLine level ++ quote k ++ ':' :: ' ' :: prettyChars level j
  | (k, j) :: fs =>
    newLine level ++ quote k ++ ':' :: ' ' :: prettyChars level j ++ ',' :: prettyFields level fs

end

def pretty (j : Json) : String :=
  String.ofList (prettyChars 0 j)

end TokenContract.Json
