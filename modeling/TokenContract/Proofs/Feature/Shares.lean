import TokenContract.Proofs.Feature.Output
import TokenContract.Proofs.Number.Text
import TokenContract.Proofs.Text.Alike
import Mathlib.Data.Option.Basic

namespace TokenContract

open Results
open Solidity (publicNumber)
open Text (AlikeBut Unbroken blank blank_append blank_of_eq forall₂_alikeBut unbroken_append
  unbroken_of_digits unbroken_of_eq)

namespace Solidity

theorem unbroken_publicNumber {name value : String} (hname : Unbroken name.toList)
    (hvalue : Unbroken value.toList) : Unbroken (publicNumber name value).toList := by
  change Unbroken ("uint256 public " ++ name ++ " = " ++ value ++ ";").toList
  simp only [unbroken_append]
  exact ⟨⟨⟨⟨unbroken_of_eq rfl (by decide), hname⟩, unbroken_of_eq rfl (by decide)⟩, hvalue⟩,
    unbroken_of_eq rfl (by decide)⟩

theorem blank_publicNumber (name value : String) : blank (publicNumber name value) = false := by
  have hhead : blank "uint256 public " = false := blank_of_eq rfl
  change blank ("uint256 public " ++ name ++ " = " ++ value ++ ";") = false
  rw [blank_append, blank_append, blank_append, blank_append, hhead, Bool.false_and,
    Bool.false_and, Bool.false_and, Bool.false_and]

end Solidity

theorem Environment.unbroken_share {e : Environment} (h : Unbroken e.supply.toList)
    (basisPoints : Nat) : Unbroken (e.share basisPoints).toList := by
  change Unbroken ("(" ++ e.supply ++ ") * " ++ toString basisPoints ++ " / 10000").toList
  simp only [unbroken_append]
  exact ⟨⟨⟨⟨unbroken_of_eq rfl (by decide), h⟩, unbroken_of_eq rfl (by decide)⟩,
    unbroken_of_digits fun _ hc ↦ isDigit_of_mem_toString hc⟩, unbroken_of_eq rfl (by decide)⟩

theorem Hook.forall_ne_state {P : Hook → Prop} (imports : P .imports)
    (construction : P .construction) (transfer : P .transfer) (admin : P .admin)
    (helpers : P .helpers) : ∀ h ≠ .state, P h := by
  intro h hne
  cases h with
  | state => exact absurd rfl hne
  | imports => exact imports
  | construction => exact construction
  | transfer => exact transfer
  | admin => exact admin
  | helpers => exact helpers

/-- A variable that starts with a share of the supply, and the parameter that gives the share. -/
structure ShareVariable where
  name : String
  parameter : String
deriving DecidableEq

/-- A line of the variables: it starts one with a share of the supply, or is the same for each. -/
inductive Declared
  | plain (line : String)
  | share (v : ShareVariable) (basisPoints : Nat)

def Declared.line (e : Environment) : Declared → String
  | .plain l => l
  | .share v b => publicNumber v.name (e.share b)

theorem Declared.map_line_plain (e : Environment) (ls : List String) :
    (ls.map plain).map (·.line e) = ls := by
  rw [List.map_map]
  exact List.map_id ls

namespace FeatureKind

def shares : FeatureKind → List ShareVariable
  | .tax => [⟨"swapTokensAtAmount", "swapThreshold"⟩]
  | .antibot => [⟨"maxTxAmount", "maxTxAmount"⟩, ⟨"maxWalletAmount", "maxWalletAmount"⟩]
  | .autoLiquidity => [⟨"liquifyThreshold", "liquidityThreshold"⟩]
  | .reflection | .timelock => []

theorem unbroken_shares (k : FeatureKind) : ∀ v ∈ k.shares, Unbroken v.name.toList := by
  cases k <;> decide

/-- The share of the supply that a feature gives a variable. -/
structure Gives (k : FeatureKind) (r : Resolved) (v : ShareVariable) (basisPoints : Nat) :
    Prop where
  mem : v ∈ k.shares
  given : r.basisPoints v.parameter = .ok basisPoints

/-- Lines that start one variable with one share of two supplies. -/
def Restarts (k : FeatureKind) (r : Resolved) (e e' : Environment) (l l' : String) : Prop :=
  ∃ v b, k.Gives r v b ∧ l = publicNumber v.name (e.share b) ∧ l' = publicNumber v.name (e'.share b)

variable {k : FeatureKind} {r : Resolved} {e e' : Environment} {o : Output}

/-- Under another supply a feature starts variables with other shares, and all else stays. -/
structure Resupplied (k : FeatureKind) (r : Resolved) (e e' : Environment) (o o' : Output) :
    Prop where
  state : Option.Rel (List.Forall₂ (AlikeBut (k.Restarts r e e'))) (o.sections .state)
    (o'.sections .state)
  sections : ∀ h ≠ .state, o.sections h = o'.sections h
  setters : o.setters = o'.setters

/-- What a feature declares whatever the supply is: each share that it has, and lines that do not
depend on it. -/
structure Declares (k : FeatureKind) (r : Resolved) (ds : List Declared) : Prop where
  given : ∀ v b, .share v b ∈ ds → k.Gives r v b
  complete : ∀ v ∈ k.shares, ∃ b, .share v b ∈ ds

theorem exists_declares_of_output (h : k.output r e = .ok o) : ∃ ds, k.Declares r ds ∧
    o.sections .state = some (ds.map (·.line e)) ∧
    ∀ e', e.swapRouter = e'.swapRouter → ∃ o', k.output r e' = .ok o' ∧
      o'.sections .state = some (ds.map (·.line e')) ∧
      (∀ h ≠ .state, o.sections h = o'.sections h) ∧ o.setters = o'.setters := by
  obtain ⟨supply, swapRouter⟩ := e
  cases k with
  | tax =>
    obtain ⟨buyTax, hbuy, h⟩ := bind_eq_ok_iff.mp h
    obtain ⟨sellTax, hsell, h⟩ := bind_eq_ok_iff.mp h
    obtain ⟨liquidityShare, hliquidity, h⟩ := bind_eq_ok_iff.mp h
    obtain ⟨marketingShare, hmarketing, h⟩ := bind_eq_ok_iff.mp h
    obtain ⟨threshold, hthreshold, h⟩ := bind_eq_ok_iff.mp h
    obtain ⟨wallet, hwallet, h⟩ := bind_eq_ok_iff.mp h
    cases h
    have hgives : FeatureKind.tax.Gives r ⟨"swapTokensAtAmount", "swapThreshold"⟩ threshold :=
      ⟨List.mem_cons_self, hthreshold⟩
    refine ⟨[.plain _, .plain _, .plain _, .plain _, .plain _,
      .share ⟨"swapTokensAtAmount", "swapThreshold"⟩ threshold, .plain _], ?_, rfl, fun e' _ ↦ ?_⟩
    · exact ⟨by simp [hgives], by simp [shares]⟩
    · rw [output, Tax.output, hbuy, hsell, hliquidity, hmarketing, hthreshold, hwallet]
      exact ⟨_, rfl, rfl, Hook.forall_ne_state rfl rfl rfl rfl rfl, rfl⟩
  | antibot =>
    obtain ⟨maxTx, htx, h⟩ := bind_eq_ok_iff.mp h
    obtain ⟨maxWallet, hwallet, h⟩ := bind_eq_ok_iff.mp h
    obtain ⟨blacklist, hblacklist, h⟩ := bind_eq_ok_iff.mp h
    cases h
    refine ⟨.share ⟨"maxTxAmount", "maxTxAmount"⟩ maxTx ::
      .share ⟨"maxWalletAmount", "maxWalletAmount"⟩ maxWallet :: List.map .plain ?rest, ?_, ?state,
      fun e' he ↦ ?_⟩
    case state =>
      rw [List.map_cons, List.map_cons, Declared.map_line_plain]
      rfl
    · refine ⟨fun v b hd ↦ ?_, by simp [shares]⟩
      obtain ⟨rfl, rfl⟩ | ⟨rfl, rfl⟩ : v = ⟨"maxTxAmount", "maxTxAmount"⟩ ∧ b = maxTx ∨
          v = ⟨"maxWalletAmount", "maxWalletAmount"⟩ ∧ b = maxWallet := by simpa using hd
      · exact ⟨List.mem_cons_self, htx⟩
      · exact ⟨List.mem_cons_of_mem _ List.mem_cons_self, hwallet⟩
    -- The limits look for the pair of the router if there is one.
    · cases he
      rw [output, Antibot.output, htx, hwallet, hblacklist, List.map_cons, List.map_cons,
        Declared.map_line_plain]
      exact ⟨_, rfl, rfl, Hook.forall_ne_state rfl rfl rfl rfl rfl, rfl⟩
  | autoLiquidity =>
    obtain ⟨percent, hpercent, h⟩ := bind_eq_ok_iff.mp h
    obtain ⟨threshold, hthreshold, h⟩ := bind_eq_ok_iff.mp h
    cases h
    have hgives : FeatureKind.autoLiquidity.Gives r ⟨"liquifyThreshold", "liquidityThreshold"⟩
        threshold := ⟨List.mem_cons_self, hthreshold⟩
    refine ⟨[.plain _, .share ⟨"liquifyThreshold", "liquidityThreshold"⟩ threshold, .plain _], ?_,
      rfl, fun e' _ ↦ ?_⟩
    · exact ⟨by simp [hgives], by simp [shares]⟩
    · rw [output, AutoLiquidity.output, hpercent, hthreshold]
      exact ⟨_, rfl, rfl, Hook.forall_ne_state rfl rfl rfl rfl rfl, rfl⟩
  | reflection | timelock =>
    have hsome : (o.sections .state).isSome :=
      ((ofKind_of_output h).sections .state).mpr (by decide)
    obtain ⟨ls, hls⟩ := Option.isSome_iff_exists.mp hsome
    refine ⟨ls.map .plain, ⟨by simp, by simp [shares]⟩, ?_,
      fun e' _ ↦ ⟨o, h, ?_, fun _ _ ↦ rfl, rfl⟩⟩
    · rw [hls, Declared.map_line_plain]
    · rw [hls, Declared.map_line_plain]

theorem exists_output_resupplied (hrouter : e.swapRouter = e'.swapRouter)
    (h : k.output r e = .ok o) : ∃ o', k.output r e' = .ok o' ∧ k.Resupplied r e e' o o' := by
  obtain ⟨ds, hds, hstate, hall⟩ := exists_declares_of_output h
  obtain ⟨o', ho', hstate', hsections, hsetters⟩ := hall e' hrouter
  refine ⟨o', ho', ?_, hsections, hsetters⟩
  rw [hstate, hstate']
  refine .some ?_
  rw [List.forall₂_map_left_iff, List.forall₂_map_right_iff, List.forall₂_same]
  intro d hd
  cases d with
  | plain l => exact .inl rfl
  | share v b => exact .inr ⟨v, b, hds.given v b hd, rfl, rfl⟩

theorem exists_share_of_output (h : k.output r e = .ok o) {v : ShareVariable}
    (hv : v ∈ k.shares) : ∃ b ls, k.Gives r v b ∧ o.sections .state = some ls ∧
      publicNumber v.name (e.share b) ∈ ls := by
  obtain ⟨ds, hds, hstate, -⟩ := exists_declares_of_output h
  obtain ⟨b, hb⟩ := hds.complete v hv
  exact ⟨b, _, hds.given v b hb, hstate, List.mem_map_of_mem (f := Declared.line e) hb⟩

end FeatureKind

end TokenContract
