import TokenContract.Proofs.Feature.Output
import TokenContract.Proofs.Solidity.Braces

namespace TokenContract

open Results Solidity Text

namespace Setter

@[mk_iff]
structure Braced (st : Setter) : Prop where
  name : sift isBrace st.name = []
  params : sift isBrace st.params = []
  modifiers : sift isBrace st.modifiers = []
  body : siftAll isBrace st.body = []

theorem balanced_guard {name : String} (h : sift isBrace name = []) :
    Balanced (siftAll isBrace (guard name)) := by
  apply Balanced.of_closes
  simp (disch := rfl) [guard, h, sift_of_eq]
  decide

theorem Braced.render {st : Setter} (h : st.Braced) (timelocked : Bool) :
    Balanced (sift isBrace (st.render timelocked)) := by
  have hguard : Balanced (siftAll isBrace (if timelocked then guard st.name else [])) := by
    cases timelocked with
    | true => exact balanced_guard h.name
    | false => exact Balanced.nil
  have hsignature : sift isBrace st.signature = [] := by
    simp (disch := rfl) [signature, h.name, h.params, h.modifiers, sift_of_eq, isBrace]
  rw [Setter.render, sift_joinLines, Setter.lines, siftAll_block, hsignature, siftAll_append,
    h.body, List.append_nil]
  exact hguard.wrap

theorem braced_of_mem_inherited : ∀ st ∈ inherited, st.Braced := by
  simp (disch := rfl) [inherited, overriding, braced_iff, sift_of_eq, isBrace]

end Setter

/-- An output of balanced texts, whose imports have no braces at all. -/
structure Output.Braced (o : Output) : Prop where
  imports : ∀ ls, o.sections .imports = some ls → siftAll isBrace ls = []
  sections : ∀ h ls, o.sections h = some ls → Balanced (siftAll isBrace ls)
  setters : ∀ st ∈ o.setters, st.Braced

namespace Tax

theorem balanced_transfer : Balanced (siftAll isBrace transfer) := by
  apply Balanced.of_closes
  simp (disch := rfl) [transfer, sift_of_eq]
  decide

theorem balanced_helpers : Balanced (siftAll isBrace helpers) := by
  apply Balanced.of_closes
  simp (disch := rfl) [helpers, sift_of_eq]
  decide

theorem sift_wallet {r : Resolved} {w : String} (h : wallet r = .ok w) : sift isBrace w = [] := by
  obtain ⟨given, -, h⟩ := bind_eq_ok_iff.mp h
  dsimp only at h
  split at h
  · cases h
    exact sift_of_eq rfl
  · split at h
    · rename_i a ha
      cases h
      exact sift_isBrace_of_forall (Address.isHexDigit_of_checksum? ha) (by decide) (by decide)
    · cases h

theorem braced_of_mem_setters : ∀ st ∈ setters, st.Braced := by
  simp (disch := rfl) [setters, rateSetter, Setter.braced_iff, sift_of_eq, isBrace]

theorem braced_of_output {r : Resolved} {e : Environment} {o : Output} (he : sift isBrace e.supply = [])
    (h : output r e = .ok o) : o.Braced := by
  obtain ⟨buyTax, -, h⟩ := bind_eq_ok_iff.mp h
  obtain ⟨sellTax, -, h⟩ := bind_eq_ok_iff.mp h
  obtain ⟨liquidityShare, -, h⟩ := bind_eq_ok_iff.mp h
  obtain ⟨marketingShare, -, h⟩ := bind_eq_ok_iff.mp h
  obtain ⟨threshold, -, h⟩ := bind_eq_ok_iff.mp h
  obtain ⟨w, hw, h⟩ := bind_eq_ok_iff.mp h
  cases h
  have hw := sift_wallet hw
  refine ⟨?_, ?_, braced_of_mem_setters⟩
  · intro ls hls
    cases hls
  · intro hook ls hls
    cases hook with
    | state =>
      cases hls
      apply Balanced.of_closes
      simp (disch := rfl) [he, sift_of_eq]
      decide
    | construction =>
      cases hls
      apply Balanced.of_closes
      simp (disch := rfl) [hw, sift_of_eq]
      decide
    | transfer =>
      cases hls
      exact balanced_transfer
    | helpers =>
      cases hls
      exact balanced_helpers
    | imports | admin => cases hls

end Tax

namespace Antibot

theorem balanced_transfer (blacklist swapRouter : Bool) :
    Balanced (siftAll isBrace (transfer blacklist swapRouter)) := by
  apply Balanced.of_closes
  cases blacklist <;> cases swapRouter <;>
    simp (disch := rfl) [transfer, onlyIf, sift_of_eq] <;> decide

theorem braced_of_mem_setters (blacklist : Bool) : ∀ st ∈ setters blacklist, st.Braced := by
  cases blacklist <;>
    simp (disch := rfl) [setters, capSetter, Setter.braced_iff, sift_of_eq, isBrace]

theorem braced_of_output {r : Resolved} {e : Environment} {o : Output} (he : sift isBrace e.supply = [])
    (h : output r e = .ok o) : o.Braced := by
  obtain ⟨maxTx, -, h⟩ := bind_eq_ok_iff.mp h
  obtain ⟨maxWallet, -, h⟩ := bind_eq_ok_iff.mp h
  obtain ⟨blacklist, -, h⟩ := bind_eq_ok_iff.mp h
  cases h
  refine ⟨?_, ?_, braced_of_mem_setters blacklist⟩
  · intro ls hls
    cases hls
  · intro hook ls hls
    cases hook with
    | state =>
      cases hls
      apply Balanced.of_closes
      cases blacklist <;> simp (disch := rfl) [onlyIf, he, sift_of_eq] <;> decide
    | construction =>
      cases hls
      apply Balanced.of_closes
      simp (disch := rfl) [sift_of_eq]
      decide
    | transfer =>
      cases hls
      exact balanced_transfer blacklist e.swapRouter
    | imports | admin | helpers => cases hls

end Antibot

namespace Reflection

theorem balanced_transfer : Balanced (siftAll isBrace transfer) := by
  apply Balanced.of_closes
  simp (disch := rfl) [transfer, sift_of_eq]
  decide

theorem balanced_helpers : Balanced (siftAll isBrace (spaced [beforeTransfer, settle, claim])) := by
  apply Balanced.of_closes
  simp (disch := rfl) [beforeTransfer, settle, claim, sift_of_eq]
  decide

theorem braced_of_output {r : Resolved} {e : Environment} {o : Output}
    (h : output r e = .ok o) : o.Braced := by
  obtain ⟨percent, -, h⟩ := bind_eq_ok_iff.mp h
  cases h
  have himports : siftAll isBrace [importOf "@openzeppelin/contracts/utils/math/Math.sol"] = [] := by
    simp (disch := rfl) [sift_of_eq, isBrace]
  refine ⟨?_, ?_, fun st hst ↦ absurd hst List.not_mem_nil⟩
  · intro ls hls
    cases hls
    exact himports
  · intro hook ls hls
    cases hook with
    | imports =>
      cases hls
      rw [himports]
      exact Balanced.nil
    | state =>
      cases hls
      apply Balanced.of_closes
      simp (disch := rfl) [sift_of_eq]
      decide
    | transfer =>
      cases hls
      exact balanced_transfer
    | helpers =>
      cases hls
      exact balanced_helpers
    | construction | admin => cases hls

end Reflection

namespace AutoLiquidity

theorem balanced_transfer : Balanced (siftAll isBrace transfer) := by
  apply Balanced.of_closes
  simp (disch := rfl) [transfer, sift_of_eq]
  decide

theorem balanced_helpers : Balanced (siftAll isBrace helpers) := by
  apply Balanced.of_closes
  simp (disch := rfl) [helpers, sift_of_eq]
  decide

theorem braced_of_output {r : Resolved} {e : Environment} {o : Output} (he : sift isBrace e.supply = [])
    (h : output r e = .ok o) : o.Braced := by
  obtain ⟨percent, -, h⟩ := bind_eq_ok_iff.mp h
  obtain ⟨threshold, -, h⟩ := bind_eq_ok_iff.mp h
  cases h
  refine ⟨?_, ?_, fun st hst ↦ absurd hst List.not_mem_nil⟩
  · intro ls hls
    cases hls
  · intro hook ls hls
    cases hook with
    | state =>
      cases hls
      apply Balanced.of_closes
      simp (disch := rfl) [he, sift_of_eq]
      decide
    | transfer =>
      cases hls
      exact balanced_transfer
    | helpers =>
      cases hls
      exact balanced_helpers
    | imports | construction | admin => cases hls

end AutoLiquidity

namespace Timelock

theorem balanced_helpers : Balanced (siftAll isBrace (spaced [create, expired])) := by
  apply Balanced.of_closes
  simp (disch := rfl) [create, expired, sift_of_eq]
  decide

theorem braced_of_output {r : Resolved} {e : Environment} {o : Output}
    (h : output r e = .ok o) : o.Braced := by
  obtain ⟨delay, -, h⟩ := bind_eq_ok_iff.mp h
  cases h
  refine ⟨?_, ?_, fun st hst ↦ absurd hst List.not_mem_nil⟩
  · intro ls hls
    cases hls
  · intro hook ls hls
    cases hook with
    | state =>
      cases hls
      apply Balanced.of_closes
      simp (disch := rfl) [sift_of_eq]
      decide
    | helpers =>
      cases hls
      exact balanced_helpers
    | imports | construction | transfer | admin => cases hls

end Timelock

theorem FeatureKind.braced_of_output {k : FeatureKind} {r : Resolved} {e : Environment} {o : Output}
    (he : sift isBrace e.supply = []) (h : k.output r e = .ok o) : o.Braced := by
  cases k with
  | tax => exact Tax.braced_of_output he h
  | antibot => exact Antibot.braced_of_output he h
  | reflection => exact Reflection.braced_of_output (e := e) h
  | autoLiquidity => exact AutoLiquidity.braced_of_output he h
  | timelock => exact Timelock.braced_of_output (e := e) h

namespace Router

theorem siftAll_imports : siftAll isBrace imports = [] := by
  simp (disch := rfl) [imports, sift_of_eq, isBrace]

theorem balanced_section {h : Hook} {ls : List String} (hls : section? h = some ls) :
    Balanced (siftAll isBrace ls) := by
  cases h with
  | imports =>
    cases hls
    rw [siftAll_imports]
    exact Balanced.nil
  | state =>
    cases hls
    apply Balanced.of_closes
    simp (disch := rfl) [state, sift_of_eq]
    decide
  | construction =>
    cases hls
    apply Balanced.of_closes
    simp (disch := rfl) [construction, sift_of_eq]
    decide
  | helpers =>
    cases hls
    apply Balanced.of_closes
    simp (disch := rfl) [helpers, swapTokensForEth, addLiquidity, sift_of_eq]
    decide
  | transfer | admin => cases hls

end Router

end TokenContract
