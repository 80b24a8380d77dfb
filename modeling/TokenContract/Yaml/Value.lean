import TokenContract.Json.Basic
import TokenContract.Yaml.Basic

namespace TokenContract.Yaml

-- Powers are those of the core library, whatever else is in scope.
attribute [local instance (high)] instPowNat

def isPaddedNumber (cs : List Char) : Bool :=
  match (spanSign cs).2 with
  | '0' :: c :: r => (c :: r).all Char.isDigit
  | _ => false

def markedNat? : List Char → Option Nat
  | '0' :: 'x' :: ds => natOfDigits? 16 ds
  | '0' :: 'o' :: ds => natOfDigits? 8 ds
  | '0' :: 'b' :: ds => natOfDigits? 2 ds
  | _ => none

def wholeNumber? (cs : List Char) : Option Int :=
  let (negative, ds) := spanSign cs
  let n := markedNat? ds <|> if isPaddedNumber cs then none else natOfDigits? 10 ds
  n.map fun n ↦ if negative then -(n : Int) else n

/-- Whole numbers have up to 64 bits; there is no value for those that have up to 128. -/
def wholeValue? (cs : List Char) : Option Json :=
  (wholeNumber? cs).bind fun n ↦
    if -2 ^ (63 : Nat) ≤ n ∧ n < 2 ^ (64 : Nat) then some (.integer n)
    else if -2 ^ (127 : Nat) ≤ n ∧ n < 2 ^ (128 : Nat) then some (.fault .valueless)
    else none

def realNumber? (cs : List Char) : Option Binary64 :=
  if String.ofList (spanSign cs).2 ∈ [".inf", ".Inf", ".INF"] then
    some (.infinite (spanSign cs).1)
  else if String.ofList cs ∈ [".nan", ".NaN", ".NAN"] then some .nan
  else (Numeral.ofChars? cs).bind fun t ↦
    if t.nearest.isFinite then some t.nearest else none

def truth? (s : String) : Option Bool :=
  if s ∈ ["true", "True", "TRUE"] then some true
  else if s ∈ ["false", "False", "FALSE"] then some false
  else none

def isNull (s : String) : Bool :=
  s ∈ ["~", "null", "Null", "NULL"]

def valueOf (s : String) : Json :=
  if s = "" || isNull s then .null
  else match truth? s with
    | some b => .bool b
    | none =>
      match wholeValue? s.toList with
      | some j => j
      | none =>
        match if isPaddedNumber s.toList then none else realNumber? s.toList with
        | some x => .real x
        | none => .text s

def standardTag (name : String) : String :=
  (standardHandles.lookup "!!").getD "" ++ name

def taggedValue (tag s : String) : Json :=
  if tag.startsWith "!" then .fault .valueless
  else if tag = standardTag "bool" then found ((truth? s).map .bool)
  else if tag = standardTag "int" then found (wholeValue? s.toList)
  else if tag = standardTag "float" then found ((realNumber? s.toList).map .real)
  else if tag = standardTag "null" then found (if isNull s then some .null else none)
  else .text s
where
  found (j : Option Json) : Json := j.getD (.fault .valueless)

/-- Whether a scalar can be something else than a text. Among blocks of lines only those with a tag
can. -/
def canBe (name : String) (style : Style) (tag : Option String) : Bool :=
  style = .plain || (style = .literal && tag = some (standardTag name))

variable (document : Yaml)

def asValue (y : Yaml) : Json :=
  match document.follow y with
  | .scalar s _ (some t) => taggedValue t s
  | .scalar s .plain none => valueOf s
  | .scalar s _ none => .text s
  | _ => .fault .valueless

def text? (y : Yaml) : Option String :=
  match document.follow y with
  | .scalar s _ _ => some s
  | _ => none

/-- A node in a place for text: there a scalar is nothing but its text. -/
def asText (y : Yaml) : Json :=
  match document.text? y with
  | some s => .text s
  | none => .fault .valueless

def asBool (y : Yaml) : Json :=
  match document.follow y with
  | .scalar s style tag =>
    match if canBe "bool" style tag then truth? s else none with
    | some b => .bool b
    | none => .fault .valueless
  | _ => .fault .valueless

def asNat (y : Yaml) : Json :=
  match document.follow y with
  | .scalar s style tag =>
    match s.toList.head?, if canBe "int" style tag then wholeNumber? s.toList else none with
    | some c, some n => if c = '-' then .fault .valueless else .integer n
    | _, _ => .fault .valueless
  | _ => .fault .valueless

/-- A node in a place for a dictionary: there nothing is the empty one. What an entry holds depends
on its key. -/
def asDict (value : String → Yaml → Json) (y : Yaml) : Json :=
  match document.follow y with
  | .scalar "" .plain none => .object []
  | .mapping entries =>
    match entries.mapM fun (k, y) ↦ (document.text? k).map fun k ↦ (k, value k y) with
    | some fields => .object fields
    | none => .fault .valueless
  | _ => .fault .valueless

end TokenContract.Yaml
