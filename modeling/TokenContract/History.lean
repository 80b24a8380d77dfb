import TokenContract.Generation
import TokenContract.Spec.Fingerprint

namespace TokenContract

structure Record where
  fingerprint : String
  contractName : String
  outcome : Except String Artifact

namespace Record

def artifact? (r : Record) : Option Artifact :=
  r.outcome.toOption

def errorMessage? (r : Record) : Option String :=
  match r.outcome with
  | .ok _ => none
  | .error e => some e

def ofResult (s : Spec) (result : Except Rejection Artifact) : Record :=
  match result with
  | .ok a => ⟨s.fingerprint, a.contractName, .ok a⟩
  | .error e => ⟨s.fingerprint, s.contractName, .error e.message⟩

end Record

/-- The records, the oldest first, and how many requests were answered from them and how many were
not. -/
structure History where
  records : List Record := []
  hits : Nat := 0
  misses : Nat := 0

structure Summary where
  tracked : Nat
  successful : Nat
  failed : Nat
  hits : Nat
  misses : Nat
deriving DecidableEq, Repr

namespace History

def latest? (h : History) (fingerprint : String) : Option Record :=
  h.records.reverse.find? (·.fingerprint == fingerprint)

def find? (h : History) (s : Spec) : Option Record :=
  h.latest? s.fingerprint

/-- Records an outcome; at most `capacity` records are kept. -/
def record (h : History) (capacity : Nat) (r : Record) : History :=
  if capacity = 0 then h
  else
    let kept := if capacity ≤ h.records.length then h.records.drop 1 else h.records
    { h with records := kept ++ [r] }

def generate (h : History) (c : Catalog) (settings : Settings) (s : Spec) :
    Except Rejection Artifact × History :=
  match (h.find? s).bind Record.artifact? with
  | some a => (.ok a, { h with hits := h.hits + 1 })
  | none =>
    let result := c.generate s settings
    (result, { h with misses := h.misses + 1 }.record settings.capacity (.ofResult s result))

def summary (h : History) : Summary :=
  let successful := h.records.countP (·.artifact?.isSome)
  ⟨h.records.length, successful, h.records.length - successful, h.hits, h.misses⟩

end History

end TokenContract
