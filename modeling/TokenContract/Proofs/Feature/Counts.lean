import TokenContract.Proofs.Feature.Shares
import TokenContract.Proofs.Generation.Values
import TokenContract.Proofs.Number.Steps

namespace TokenContract

open Results
open Solidity (publicNumber)
open Text (Unbroken blank blank_append unbroken_append unbroken_of_digits)

/-- A variable that starts with a natural number: the parameter that gives it, and what stands
before and after its digits. -/
structure CountVariable where
  parameter : String
  opening : String
  closing : String
deriving DecidableEq

namespace CountVariable

def line (v : CountVariable) (n : Nat) : String :=
  v.opening ++ toString n ++ v.closing

def ofPublic (name parameter : String) : CountVariable :=
  ⟨parameter, "uint256 public " ++ name ++ " = ", ";"⟩

theorem line_ofPublic (name parameter : String) (n : Nat) :
    (ofPublic name parameter).line n = publicNumber name (toString n) :=
  rfl

theorem unbroken_line {v : CountVariable} (hopening : Unbroken v.opening.toList)
    (hclosing : Unbroken v.closing.toList) (n : Nat) : Unbroken (v.line n).toList := by
  rw [line, unbroken_append, unbroken_append]
  exact ⟨⟨hopening, unbroken_of_digits fun _ hc ↦ isDigit_of_mem_toString hc⟩, hclosing⟩

theorem blank_line {v : CountVariable} (h : blank v.opening = false) (n : Nat) :
    blank (v.line n) = false := by
  rw [line, blank_append, blank_append, h, Bool.false_and, Bool.false_and]

end CountVariable

namespace FeatureKind

def counts : FeatureKind → List CountVariable
  | .tax => ["buyTax", "sellTax", "liquidityShare", "marketingShare"].map fun id ↦ .ofPublic id id
  | .antibot => []
  | .reflection => [.ofPublic "reflectionPercent" "reflectionPercent"]
  | .autoLiquidity => [.ofPublic "autoLiquidityPercent" "liquidityPercent"]
  | .timelock => [⟨"delayHours", "uint256 public constant TIMELOCK_DELAY = ", " hours;"⟩]

theorem unbroken_counts (k : FeatureKind) : ∀ v ∈ k.counts,
    Unbroken v.opening.toList ∧ Unbroken v.closing.toList ∧ blank v.opening = false := by
  cases k <;> decide +kernel

variable {k : FeatureKind} {r : Resolved} {e : Environment} {o : Output}

theorem exists_count_of_output (h : k.output r e = .ok o) {v : CountVariable} (hv : v ∈ k.counts) :
    ∃ n ls, r.natural v.parameter = .ok n ∧ o.sections .state = some ls ∧ v.line n ∈ ls := by
  cases k with
  | tax =>
    obtain ⟨buyTax, hbuy, h⟩ := bind_eq_ok_iff.mp h
    obtain ⟨sellTax, hsell, h⟩ := bind_eq_ok_iff.mp h
    obtain ⟨liquidityShare, hliquidity, h⟩ := bind_eq_ok_iff.mp h
    obtain ⟨marketingShare, hmarketing, h⟩ := bind_eq_ok_iff.mp h
    obtain ⟨threshold, -, h⟩ := bind_eq_ok_iff.mp h
    obtain ⟨wallet, -, h⟩ := bind_eq_ok_iff.mp h
    cases h
    simp only [counts, List.map_cons, List.map_nil, List.mem_cons, List.not_mem_nil, or_false] at hv
    rcases hv with rfl | rfl | rfl | rfl
    · exact ⟨buyTax, _, hbuy, rfl, by simp [CountVariable.line_ofPublic]⟩
    · exact ⟨sellTax, _, hsell, rfl, by simp [CountVariable.line_ofPublic]⟩
    · exact ⟨liquidityShare, _, hliquidity, rfl, by simp [CountVariable.line_ofPublic]⟩
    · exact ⟨marketingShare, _, hmarketing, rfl, by simp [CountVariable.line_ofPublic]⟩
  | antibot => exact absurd hv List.not_mem_nil
  | reflection =>
    obtain ⟨percent, hpercent, h⟩ := bind_eq_ok_iff.mp h
    cases h
    obtain rfl := List.mem_singleton.mp hv
    exact ⟨percent, _, hpercent, rfl, List.mem_cons_self⟩
  | autoLiquidity =>
    obtain ⟨percent, hpercent, h⟩ := bind_eq_ok_iff.mp h
    obtain ⟨threshold, -, h⟩ := bind_eq_ok_iff.mp h
    cases h
    obtain rfl := List.mem_singleton.mp hv
    exact ⟨percent, _, hpercent, rfl, List.mem_cons_self⟩
  | timelock =>
    obtain ⟨delay, hdelay, h⟩ := bind_eq_ok_iff.mp h
    cases h
    obtain rfl := List.mem_singleton.mp hv
    exact ⟨delay, _, hdelay, rfl, List.mem_cons_self⟩

end FeatureKind

namespace Parameter

variable {p : Parameter}

/-- A parameter that is a number and has nothing against its own default. -/
def AcceptsDefault (p : Parameter) : Prop :=
  p.type = .number ∧ p.default.asNumber?.any fun x ↦ (p.numberObjection? x).isNone

instance (p : Parameter) : Decidable p.AcceptsDefault :=
  inferInstanceAs (Decidable (_ ∧ _))

theorem AcceptsDefault.exists_number (h : p.AcceptsDefault) {s : Selection}
    (hobjection : p.objection? (s.parameters.find? p.id) = none) :
    ∃ x, Resolved.valueOf p s = .number x ∧ p.numberObjection? x = none := by
  rw [Resolved.valueOf_eq]
  rw [objection?] at hobjection
  cases hgiven : (s.parameters.find? p.id).filter (!·.isBlank) with
  | some v =>
    rw [hgiven] at hobjection
    cases v with
    | number x => exact ⟨x, rfl, by simpa only [valueObjection?, h.1] using hobjection⟩
    | bool b | text t => simp [valueObjection?, h.1] at hobjection
  | none =>
    obtain ⟨x, hx, haccepted⟩ := (Option.any_eq_true _ _).mp h.2
    exact ⟨x, Value.asNumber?_eq_some_iff.mp hx, Option.isNone_iff_eq_none.mp haccepted⟩

end Parameter

namespace FeatureKind

theorem exists_whole (k : FeatureKind) : ∀ v ∈ k.counts, ∃ p least most,
    k.feature.parameter? v.parameter = some p ∧ p.AcceptsDefault ∧ p.Whole least most := by
  intro v hv
  cases k with
  | tax =>
    simp only [counts, List.map_cons, List.map_nil, List.mem_cons, List.not_mem_nil, or_false] at hv
    rcases hv with rfl | rfl | rfl | rfl
    · exact ⟨_, 0, Tax.maxPercent, rfl, by decide +kernel, rfl, rfl, rfl, by decide, by decide⟩
    · exact ⟨_, 0, Tax.maxPercent, rfl, by decide +kernel, rfl, rfl, rfl, by decide, by decide⟩
    · exact ⟨_, 0, 100, rfl, by decide +kernel, rfl, rfl, rfl, by decide, by decide⟩
    · exact ⟨_, 0, 100, rfl, by decide +kernel, rfl, rfl, rfl, by decide, by decide⟩
  | antibot => exact absurd hv List.not_mem_nil
  | reflection =>
    obtain rfl := List.mem_singleton.mp hv
    exact ⟨_, 0, 100, rfl, by decide +kernel, rfl, rfl, rfl, by decide, by decide⟩
  | autoLiquidity =>
    obtain rfl := List.mem_singleton.mp hv
    exact ⟨_, 0, 10, rfl, by decide +kernel, rfl, rfl, rfl, by decide, by decide⟩
  | timelock =>
    obtain rfl := List.mem_singleton.mp hv
    exact ⟨_, 1, 720, rfl, by decide +kernel, rfl, rfl, rfl, by decide, by decide⟩

/-- The step of the shares of a feature, in hundredths of a percent. -/
def shareUnit : FeatureKind → Nat
  | .antibot => 10
  | .tax | .reflection | .autoLiquidity | .timelock => 1

theorem exists_graded (k : FeatureKind) : ∀ v ∈ k.shares, ∃ p most,
    k.feature.parameter? v.parameter = some p ∧ p.AcceptsDefault ∧ p.Graded k.shareUnit most := by
  have hthreshold {p : Parameter} (hmin : p.min = some 0.01) (hstep : p.step = some 0.01)
      (hmax : p.max = some (.ofNat 5)) : p.Graded 1 5 :=
    ⟨⟨0.01, hmin, hstep, Binary64.hundredths_hundredth⟩, hmax, by decide, by decide, by decide,
      by decide⟩
  have hcap {p : Parameter} (hmin : p.min = some 0.1) (hstep : p.step = some 0.1)
      (hmax : p.max = some (.ofNat 100)) : p.Graded 10 100 :=
    ⟨⟨0.1, hmin, hstep, Binary64.hundredths_tenth⟩, hmax, by decide, by decide, by decide,
      by decide⟩
  intro v hv
  cases k with
  | tax =>
    obtain rfl := List.mem_singleton.mp hv
    exact ⟨_, 5, rfl, by decide +kernel, hthreshold rfl rfl rfl⟩
  | antibot =>
    simp only [shares, List.mem_cons, List.not_mem_nil, or_false] at hv
    rcases hv with rfl | rfl
    · exact ⟨_, 100, rfl, by decide +kernel, hcap rfl rfl rfl⟩
    · exact ⟨_, 100, rfl, by decide +kernel, hcap rfl rfl rfl⟩
  | reflection | timelock => exact absurd hv List.not_mem_nil
  | autoLiquidity =>
    obtain rfl := List.mem_singleton.mp hv
    exact ⟨_, 5, rfl, by decide +kernel, hthreshold rfl rfl rfl⟩

end FeatureKind

end TokenContract
