import TokenContract.Proofs.Json.RoundTrip
import TokenContract.Proofs.Number.Finite

namespace TokenContract.Json

/-- A scalar that no text is too large for. -/
def Sized : Json → Prop
  | .integer n => n.natAbs ≤ Binary64.maxWord
  | .real x => x.isFinite = true
  | _ => True

theorem sized_wholeNumber (negative : Bool) (ds : List Char) :
    Each Sized (wholeNumber negative ds) := by
  rw [wholeNumber]
  split
  · rename_i hn
    simp only [Bool.and_eq_true, decide_eq_true_eq] at hn
    exact hn.2
  · split
    · rename_i hn
      simp only [Bool.and_eq_true, decide_eq_true_eq] at hn
      have hword : 2 ^ (63 : Nat) ≤ Binary64.maxWord := by decide
      change (-(decimalValue ds : Int)).natAbs ≤ Binary64.maxWord
      rw [Int.natAbs_neg, Int.natAbs_natCast]
      exact hn.2.trans hword
    · split
      · rename_i x hx
        exact Numeral.isFinite_of_toBinary64? hx
      · trivial

theorem sized_readTail (negative : Bool) (whole cs : List Char) :
    Each Sized (readTail negative whole cs).1 := by
  rw [readTail]
  split
  · trivial
  · split
    · trivial
    · split
      · exact sized_wholeNumber _ _
      · split
        · rename_i x hx
          exact Numeral.isFinite_of_toBinary64? hx
        · trivial

theorem sized_readUnsigned (negative : Bool) (cs : List Char) :
    Each Sized (readUnsigned negative cs).1 := by
  rw [readUnsigned]
  split
  · trivial
  · trivial
  · exact sized_readTail _ _ _

theorem sized_readNumber (cs : List Char) : Each Sized (readNumber cs).1 := by
  cases cs with
  | nil => trivial
  | cons c cs =>
    by_cases hc : c = '-'
    · rw [hc, readNumber_minus]
      exact sized_readUnsigned _ _
    · rw [readNumber_of_ne hc]
      exact sized_readUnsigned _ _

theorem sized_readScalar (cs : List Char) : Each Sized (readScalar cs).1 := by
  unfold readScalar
  split
  · trivial
  · trivial
  · trivial
  · exact sized_readNumber _

/-- What is read with fuel `n` has no number that is too large. -/
structure ReadsSized (n : Nat) : Prop where
  value : ∀ cs, Each Sized (readValue n cs).1
  items : ∀ cs, EachItem Sized (readItems n cs).1
  fields : ∀ cs, EachField Sized (readFields n cs).1

theorem ReadsSized.value_succ {n : Nat} (h : ReadsSized n) (cs : List Char) :
    Each Sized (readValue (n + 1) cs).1 := by
  rw [readValue]
  split
  · split
    · split
      · trivial
      · trivial
    · trivial
  · split
    · trivial
    · exact h.items _
  · split
    · trivial
    · exact h.fields _
  · exact sized_readScalar _

theorem ReadsSized.items_succ {n : Nat} (h : ReadsSized n) (cs : List Char) :
    EachItem Sized (readItems (n + 1) cs).1 := by
  have hvalue := h.value cs
  rw [readItems]
  dsimp only
  split
  · exact ⟨hvalue, h.items _⟩
  · exact ⟨hvalue, trivial⟩
  · exact ⟨hvalue, trivial, trivial⟩

def fieldOf (ps : List Piece) (j : Json) : String × Json :=
  match joinPieces ps with
  | some s => (String.ofList s, j)
  | none => ("", .fault (if j.isBroken then .broken else .nameless))

theorem sized_fieldOf {j : Json} (h : Each Sized j) (ps : List Piece) :
    Each Sized (fieldOf ps j).2 := by
  rw [fieldOf]
  split
  · exact h
  · trivial

theorem ReadsSized.fields_succ {n : Nat} (h : ReadsSized n) (cs : List Char) :
    EachField Sized (readFields (n + 1) cs).1 := by
  rw [readFields]
  split
  · split
    · exact ⟨trivial, trivial⟩
    · rename_i ps r hpieces
      split
      · rename_i r hcolon
        dsimp only
        have hfield := sized_fieldOf (h.value r) ps
        split
        · exact ⟨hfield, h.fields _⟩
        · exact ⟨hfield, trivial⟩
        · exact ⟨hfield, trivial, trivial⟩
      · exact ⟨trivial, trivial⟩
  · exact ⟨trivial, trivial⟩

theorem readsSized (n : Nat) : ReadsSized n := by
  induction n with
  | zero => exact ⟨fun _ ↦ trivial, fun _ ↦ ⟨trivial, trivial⟩, fun _ ↦ ⟨trivial, trivial⟩⟩
  | succ n ih => exact ⟨ih.value_succ, ih.items_succ, ih.fields_succ⟩

theorem sized_read (s : String) : Each Sized (read s).1 := by
  have hvalue := (readsSized (2 * s.toList.length + 2)).value s.toList
  rw [read]
  generalize readValue (2 * s.toList.length + 2) s.toList = found at hvalue ⊢
  exact hvalue

end TokenContract.Json
