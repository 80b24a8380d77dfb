import TokenContract.Scope
import Mathlib.Data.List.Infix

namespace TokenContract

theorem occursIn_eq_true_iff {w cs : List Char} : occursIn w cs = true ↔ w <:+: cs := by
  induction cs with
  | nil => rw [occursIn, List.isEmpty_iff, List.infix_nil]
  | cons c cs ih =>
    rw [occursIn, Bool.or_eq_true, List.isPrefixOf_iff_prefix, ih, List.infix_cons_iff]

namespace Scope

/-- The names that belong to a scope, in capital letters or not. -/
def Matches (name : String) : Scope → Prop
  | .all => True
  | .taxOnly => "tax".toList <:+: name.toList.map Char.toLower ∨
      "fee".toList <:+: name.toList.map Char.toLower
  | .ownershipOnly => "owner".toList <:+: name.toList.map Char.toLower

theorem covers_iff (s : Scope) (name : String) : s.covers name = true ↔ s.Matches name := by
  cases s with
  | all => exact iff_of_true rfl trivial
  | taxOnly => rw [covers, Bool.or_eq_true, occursIn_eq_true_iff, occursIn_eq_true_iff, Matches]
  | ownershipOnly => rw [covers, occursIn_eq_true_iff, Matches]

instance (s : Scope) (name : String) : Decidable (s.Matches name) :=
  decidable_of_iff _ (s.covers_iff name)

theorem any_covers_iff {scope : Option Scope} {name : String} :
    scope.any (·.covers name) = true ↔ ∃ s, scope = some s ∧ s.Matches name := by
  simp only [Option.any_eq_true, covers_iff]

end Scope

end TokenContract
