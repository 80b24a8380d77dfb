import TokenContract.Json.Basic

namespace TokenContract

/-- How a table began: in braces, where it is complete; with its header; with the header of a table
within it; or with a key of several parts. -/
inductive Toml.Origin
  | braces
  | header
  | longerHeader
  | dottedKey
deriving DecidableEq, Repr

inductive Toml
  | text (s : String)
  | integer (n : Int)
  | real (x : Binary64)
  | bool (b : Bool)
  | moment
  | array (items : List Toml)
  | table (origin : Toml.Origin) (entries : List (String × Toml))
  | tables (rows : List (List (String × Toml)))

namespace Toml

abbrev Entries := List (String × Toml)

instance : Inhabited Toml := ⟨.moment⟩

def alter (k : String) (f : Option Toml → Option Toml) : Entries → Option Entries
  | [] => (f none).map fun v ↦ [(k, v)]
  | (k', v) :: es =>
    if k' = k then (f (some v)).map fun v ↦ (k, v) :: es
    else (alter k f es).map ((k', v) :: ·)

/-- Changes the table at the end of a path. A key of several parts does not lead through a table
with a header of its own, and nothing leads through one in braces. Of repeated tables the last is
meant. -/
def within (dotted : Bool) (change : Origin → Entries → Option Entries) :
    List String → Origin → Entries → Option Entries
  | [], origin, es => change origin es
  | k :: path, _, es =>
    alter k (fun
      | none =>
        let origin := if dotted then .dottedKey else .longerHeader
        (within dotted change path origin []).map (.table origin)
      | some (.table origin inner) =>
        if origin = .braces || (dotted && origin = .header) then none
        else (within dotted change path origin inner).map (.table origin)
      | some (.tables rows) =>
        match rows.reverse with
        | [] => none
        | row :: before =>
          (within dotted change path .header row).map fun row ↦ .tables (row :: before).reverse
      | some _ => none) es

/-- Adds a value under a key of several parts, the last of which is new. The table that the parts
before it lead to has been written in no other way. -/
def assign (path : List String) (k : String) (v : Toml) (es : Entries) : Option Entries :=
  within true
    (fun origin es ↦
      if !path.isEmpty && origin ≠ .dottedKey then none
      else alter k (fun | none => some v | some _ => none) es)
    path .header es

def openTable (path : List String) (k : String) (es : Entries) : Option Entries :=
  within false
    (fun _ ↦ alter k fun
      | none => some (.table .header [])
      | some (.table .longerHeader inner) => some (.table .header inner)
      | some _ => none)
    path .header es

def openRow (path : List String) (k : String) (es : Entries) : Option Entries :=
  within false
    (fun _ ↦ alter k fun
      | none => some (.tables [[]])
      | some (.tables rows) => some (.tables (rows ++ [[]]))
      | some _ => none)
    path .header es

def assignUnder (header path : List String) (k : String) (v : Toml) (es : Entries) :
    Option Entries :=
  within false (fun _ ↦ assign path k v) header .header es

mutual

def depth : Toml → Nat
  | .array items => depthOfItems items + 1
  | .table origin es => depthOfEntries es + if origin = .braces then 1 else 0
  | _ => 0

def depthOfItems : List Toml → Nat
  | [] => 0
  | v :: vs => max (depth v) (depthOfItems vs)

def depthOfEntries : List (String × Toml) → Nat
  | [] => 0
  | (_, v) :: es => max (depth v) (depthOfEntries es)

end

mutual

def toJson : Toml → Json
  | .text s => .text s
  | .integer n => .integer n
  | .real x => .real x
  | .bool b => .bool b
  | .moment => .null
  | .array items => .array (jsonItems items)
  | .table _ es => .object (jsonEntries es)
  | .tables rows => .array (jsonRows rows)

def jsonItems : List Toml → List Json
  | [] => []
  | v :: vs => toJson v :: jsonItems vs

def jsonEntries : List (String × Toml) → List (String × Json)
  | [] => []
  | (k, v) :: es => (k, toJson v) :: jsonEntries es

def jsonRows : List (List (String × Toml)) → List Json
  | [] => []
  | es :: rows => .object (jsonEntries es) :: jsonRows rows

end

end Toml

end TokenContract
