import TokenContract.Proofs.Feature.Output
import TokenContract.Proofs.Text.Mention

namespace TokenContract

open Results Text

namespace Router

def names : List String :=
  ["uniswapV2Pair", "lockTheSwap", "_swapTokensForEth", "_addLiquidity"]

def declarations : List (Hook × String) := [
  (.state, "address public uniswapV2Pair;"),
  (.state, "modifier lockTheSwap() \x7b"),
  (.helpers, "function _swapTokensForEth(uint256 tokenAmount) internal \x7b"),
  (.helpers, "function _addLiquidity(uint256 tokenAmount, uint256 ethAmount) internal \x7b")]

theorem mem_section : ∀ d ∈ declarations, ∃ ls, section? d.1 = some ls ∧ d.2 ∈ ls := by
  simp only [declarations, List.forall_mem_cons, List.not_mem_nil, false_imp_iff, implies_true,
    and_true]
  refine ⟨⟨_, rfl, ?_⟩, ⟨_, rfl, ?_⟩, ⟨_, rfl, ?_⟩, ⟨_, rfl, ?_⟩⟩
  · simp [state, pair, toString]
  · simp [state, Solidity.block]
  · simp [helpers, swapTokensForEth, Solidity.spaced, Solidity.block]
  · simp [helpers, addLiquidity, Solidity.spaced, Solidity.block]

theorem unbroken_declarations : ∀ d ∈ declarations, Unbroken d.2.toList ∧ d.2 ≠ "" := by
  simp only [declarations, List.forall_mem_cons, List.not_mem_nil, false_imp_iff, implies_true,
    and_true]
  exact ⟨⟨unbroken_of_eq rfl (by decide), by simp⟩, ⟨unbroken_of_eq rfl (by decide), by simp⟩,
    ⟨unbroken_of_eq rfl (by decide), by simp⟩, unbroken_of_eq rfl (by decide), by simp⟩

end Router

namespace FeatureKind

/-- The kinds whose text uses the router. -/
def usesRouter : FeatureKind → Bool
  | .tax | .autoLiquidity => true
  | .antibot | .reflection | .timelock => false

/-- The kinds whose stage of a transfer uses the fee. -/
def usesFee : FeatureKind → Bool
  | .tax | .reflection => true
  | .antibot | .autoLiquidity | .timelock => false

end FeatureKind

/-- Enough characters to tell the names of the router and of the fee from other text. -/
def isTelling (c : Char) : Bool :=
  c.isUpper || c == 'f' || c == 'h' || c == 'y'

theorem toNat_lt_of_isTelling {c : Char} (h : isTelling c) : c.toNat < 128 := by
  simp only [isTelling, Bool.or_eq_true, beq_iff_eq] at h
  rcases h with ((hupper | rfl) | rfl) | rfl
  · exact toNat_lt_of_le (of_decide_eq_true hupper).2 (by decide)
  · decide
  · decide
  · decide

instance : Blind isTelling where
  of_isLayout c h := by
    have hall : ∀ n < 128, isTelling (Char.ofNat n) → isLayout (Char.ofNat n) = false := by
      decide +kernel
    rw [Bool.eq_false_iff]
    intro htelling
    have hc := hall c.toNat (toNat_lt_of_isTelling htelling)
    rw [Char.ofNat_toNat] at hc
    rw [hc htelling] at h
    cases h

namespace Setter

theorem lacks_inherited (timelocked : Bool) : ∀ st ∈ inherited,
    Lacks isTelling (sift isTelling (st.render timelocked)) Router.names := by
  cases timelocked <;>
    simp (disch := rfl) [Lacks, Router.names, inherited, overriding, render, lines, signature,
      guard, sift_of_eq] <;> decide

end Setter

variable {r : Resolved} {e : Environment} {o : Output}

namespace Antibot

theorem lacks_transfer (blacklist : Bool) :
    Lacks isTelling (siftAll isTelling (transfer blacklist false)) Router.names := by
  cases blacklist <;>
    simp (disch := rfl) [Lacks, Router.names, transfer, onlyIf, sift_of_eq] <;> decide

theorem lacks_setters (blacklist timelocked : Bool) : ∀ st ∈ setters blacklist,
    Lacks isTelling (sift isTelling (st.render timelocked)) Router.names := by
  cases blacklist <;> cases timelocked <;>
    simp (disch := rfl) [Lacks, Router.names, setters, capSetter, Setter.render, Setter.lines,
      Setter.signature, Setter.guard, sift_of_eq] <;> decide

theorem lacks_of_output (h : output r e = .ok o) (he : sift isTelling e.supply = [])
    (hrouter : e.swapRouter = false) {hook : Hook} {ls : List String}
    (hls : o.sections hook = some ls) : Lacks isTelling (siftAll isTelling ls) Router.names := by
  obtain ⟨maxTx, -, h⟩ := bind_eq_ok_iff.mp h
  obtain ⟨maxWallet, -, h⟩ := bind_eq_ok_iff.mp h
  obtain ⟨blacklist, -, h⟩ := bind_eq_ok_iff.mp h
  cases h
  cases hook with
  | state =>
    cases hls
    cases blacklist <;>
      simp (disch := rfl) [Lacks, Router.names, onlyIf, he, sift_of_eq] <;> decide
  | construction =>
    cases hls
    simp (disch := rfl) [Lacks, Router.names, sift_of_eq]
    decide
  | transfer =>
    cases hls
    rw [hrouter]
    exact lacks_transfer blacklist
  | imports | admin | helpers => cases hls

theorem lacks_fee (blacklist swapRouter : Bool) :
    Lacks isTelling (siftAll isTelling (transfer blacklist swapRouter)) ["feeAmount"] := by
  cases blacklist <;> cases swapRouter <;>
    simp (disch := rfl) [Lacks, transfer, onlyIf, sift_of_eq] <;> decide

end Antibot

namespace Reflection

theorem lacks_of_output (h : output r e = .ok o) {hook : Hook} {ls : List String}
    (hls : o.sections hook = some ls) : Lacks isTelling (siftAll isTelling ls) Router.names := by
  obtain ⟨percent, -, h⟩ := bind_eq_ok_iff.mp h
  cases h
  cases hook with
  | imports | state =>
    cases hls
    simp (disch := rfl) [Lacks, Router.names, sift_of_eq]
    decide
  | transfer =>
    cases hls
    simp (disch := rfl) [Lacks, Router.names, transfer, sift_of_eq]
    decide
  | helpers =>
    cases hls
    simp (disch := rfl) [Lacks, Router.names, beforeTransfer, settle, claim, sift_of_eq]
    decide +kernel
  | construction | admin => cases hls

theorem mentions_transfer : Mentions (joinLines transfer) "feeAmount" := by
  have hl : "uint256 reflectionAmount = feeAmount * reflectionPercent / 100;" ∈ transfer := by
    simp [transfer, SharedValue.feeAmount, toString]
  exact mentions_joinLines hl (mentions_of_eq rfl rfl (by decide))

end Reflection

namespace Timelock

theorem lacks_of_output (h : output r e = .ok o) {hook : Hook} {ls : List String}
    (hls : o.sections hook = some ls) : Lacks isTelling (siftAll isTelling ls) Router.names := by
  obtain ⟨delay, -, h⟩ := bind_eq_ok_iff.mp h
  cases h
  cases hook with
  | state =>
    cases hls
    simp (disch := rfl) [Lacks, Router.names, sift_of_eq]
    decide
  | helpers =>
    cases hls
    simp (disch := rfl) [Lacks, Router.names, create, expired, sift_of_eq]
    decide
  | imports | construction | transfer | admin => cases hls

end Timelock

namespace Tax

theorem sections_of_output (h : output r e = .ok o) :
    o.sections .transfer = some transfer ∧ o.sections .helpers = some helpers := by
  obtain ⟨buyTax, -, h⟩ := bind_eq_ok_iff.mp h
  obtain ⟨sellTax, -, h⟩ := bind_eq_ok_iff.mp h
  obtain ⟨liquidityShare, -, h⟩ := bind_eq_ok_iff.mp h
  obtain ⟨marketingShare, -, h⟩ := bind_eq_ok_iff.mp h
  obtain ⟨threshold, -, h⟩ := bind_eq_ok_iff.mp h
  obtain ⟨wallet, -, h⟩ := bind_eq_ok_iff.mp h
  cases h
  exact ⟨rfl, rfl⟩

theorem mentions_transfer : Mentions (joinLines transfer) "feeAmount" := by
  have hl : "if (feeAmount > 0) \x7b" ∈ transfer := by
    simp [transfer, Solidity.block, Solidity.blockElse, SharedValue.feeAmount, toString]
  exact mentions_joinLines hl (mentions_of_eq rfl rfl (by decide))

theorem mentions_helpers : Mentions (joinLines helpers) "lockTheSwap" :=
  mentions_joinLines List.mem_cons_self (mentions_append (mentions_of_eq rfl rfl (by decide)) _)

end Tax

namespace AutoLiquidity

theorem sections_of_output (h : output r e = .ok o) :
    o.sections .transfer = some transfer ∧ o.sections .helpers = some helpers := by
  obtain ⟨percent, -, h⟩ := bind_eq_ok_iff.mp h
  obtain ⟨threshold, -, h⟩ := bind_eq_ok_iff.mp h
  cases h
  exact ⟨rfl, rfl⟩

theorem lacks_transfer : Lacks isTelling (siftAll isTelling transfer) ["feeAmount"] := by
  simp (disch := rfl) [Lacks, transfer, sift_of_eq]
  decide

theorem mentions_helpers : Mentions (joinLines helpers) "lockTheSwap" :=
  mentions_joinLines List.mem_cons_self (mentions_append (mentions_of_eq rfl rfl (by decide)) _)

end AutoLiquidity

namespace FeatureKind

variable {k : FeatureKind}

theorem mentions_router (h : k.output r e = .ok o) (hk : k.usesRouter) :
    ∃ text, o.text? .helpers = some text ∧ Mentions text "lockTheSwap" := by
  cases k with
  | tax =>
    refine ⟨_, ?_, Tax.mentions_helpers⟩
    rw [Output.text?, (Tax.sections_of_output h).2]
    rfl
  | autoLiquidity =>
    refine ⟨_, ?_, AutoLiquidity.mentions_helpers⟩
    rw [Output.text?, (AutoLiquidity.sections_of_output h).2]
    rfl
  | antibot | reflection | timelock => cases hk

theorem lacks_router (h : k.output r e = .ok o) (hk : k.usesRouter = false)
    (he : sift isTelling e.supply = []) (hrouter : e.swapRouter = false) {hook : Hook}
    {ls : List String} (hls : o.sections hook = some ls) :
    Lacks isTelling (siftAll isTelling ls) Router.names := by
  cases k with
  | antibot => exact Antibot.lacks_of_output h he hrouter hls
  | reflection => exact Reflection.lacks_of_output (e := e) h hls
  | timelock => exact Timelock.lacks_of_output (e := e) h hls
  | tax | autoLiquidity => cases hk

theorem lacks_setters (h : k.output r e = .ok o) (hk : k.usesRouter = false) {st : Setter}
    (hst : st ∈ o.setters) (timelocked : Bool) :
    Lacks isTelling (sift isTelling (st.render timelocked)) Router.names := by
  rw [(ofKind_of_output h).setters] at hst
  cases k with
  | antibot => exact Antibot.lacks_setters _ timelocked st hst
  | reflection | timelock => exact absurd hst List.not_mem_nil
  | tax | autoLiquidity => cases hk

theorem mentions_fee (h : k.output r e = .ok o) (hk : k.usesFee) :
    ∃ text, o.text? .transfer = some text ∧ Mentions text "feeAmount" := by
  cases k with
  | tax =>
    refine ⟨_, ?_, Tax.mentions_transfer⟩
    rw [Output.text?, (Tax.sections_of_output h).1]
    rfl
  | reflection =>
    obtain ⟨percent, -, h⟩ := bind_eq_ok_iff.mp h
    cases h
    exact ⟨_, rfl, Reflection.mentions_transfer⟩
  | antibot | autoLiquidity | timelock => cases hk

theorem lacks_fee (h : k.output r e = .ok o) (hk : k.usesFee = false) {ls : List String}
    (hls : o.sections .transfer = some ls) : Lacks isTelling (siftAll isTelling ls) ["feeAmount"] := by
  cases k with
  | antibot =>
    obtain ⟨maxTx, -, h⟩ := bind_eq_ok_iff.mp h
    obtain ⟨maxWallet, -, h⟩ := bind_eq_ok_iff.mp h
    obtain ⟨blacklist, -, h⟩ := bind_eq_ok_iff.mp h
    cases h
    cases hls
    exact Antibot.lacks_fee blacklist e.swapRouter
  | autoLiquidity =>
    rw [(AutoLiquidity.sections_of_output h).1] at hls
    cases hls
    exact AutoLiquidity.lacks_transfer
  | timelock =>
    obtain ⟨delay, -, h⟩ := bind_eq_ok_iff.mp h
    cases h
    cases hls
  | tax | reflection => cases hk

end FeatureKind

end TokenContract
