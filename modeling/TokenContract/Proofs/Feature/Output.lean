import TokenContract.Feature.Kind
import TokenContract.Proofs.Address
import TokenContract.Proofs.Catalog.Conformance
import TokenContract.Proofs.Results
import TokenContract.Proofs.Solidity.Setter

namespace TokenContract

open Results

namespace FeatureKind

def feature : FeatureKind → Feature
  | .tax => Tax.feature
  | .antibot => Antibot.feature
  | .reflection => Reflection.feature
  | .autoLiquidity => AutoLiquidity.feature
  | .timelock => Timelock.feature

def setters (r : Resolved) : FeatureKind → List Setter
  | .tax => Tax.setters
  | .antibot => Antibot.setters ((r.boolean "enableBlacklist").toOption.getD false)
  | .reflection | .autoLiquidity | .timelock => []

def allSetters : List Setter :=
  Tax.setters ++ Antibot.setters true

end FeatureKind

/-- An output with the sections and the setters of its kind. -/
structure Output.OfKind (o : Output) (k : FeatureKind) (r : Resolved) : Prop where
  sections : ∀ h, (o.sections h).isSome ↔ h ∈ k.feature.hooks ∧ h ≠ .admin
  setters : o.setters = k.setters r

namespace FeatureKind

variable {k : FeatureKind} {r : Resolved} {e : Environment} {o : Output}

theorem ofKind_of_output (h : k.output r e = .ok o) : o.OfKind k r := by
  cases k with
  | tax =>
    obtain ⟨_, -, h⟩ := bind_eq_ok_iff.mp h
    obtain ⟨_, -, h⟩ := bind_eq_ok_iff.mp h
    obtain ⟨_, -, h⟩ := bind_eq_ok_iff.mp h
    obtain ⟨_, -, h⟩ := bind_eq_ok_iff.mp h
    obtain ⟨_, -, h⟩ := bind_eq_ok_iff.mp h
    obtain ⟨_, -, h⟩ := bind_eq_ok_iff.mp h
    cases h
    exact ⟨fun h ↦ by cases h <;> simp [feature, Tax.feature], rfl⟩
  | antibot =>
    obtain ⟨_, -, h⟩ := bind_eq_ok_iff.mp h
    obtain ⟨_, -, h⟩ := bind_eq_ok_iff.mp h
    obtain ⟨blacklist, hb, h⟩ := bind_eq_ok_iff.mp h
    cases h
    refine ⟨fun h ↦ by cases h <;> simp [feature, Antibot.feature], ?_⟩
    rw [setters, hb]
    rfl
  | reflection =>
    obtain ⟨_, -, h⟩ := bind_eq_ok_iff.mp h
    cases h
    exact ⟨fun h ↦ by cases h <;> simp [feature, Reflection.feature], rfl⟩
  | autoLiquidity =>
    obtain ⟨_, -, h⟩ := bind_eq_ok_iff.mp h
    obtain ⟨_, -, h⟩ := bind_eq_ok_iff.mp h
    cases h
    exact ⟨fun h ↦ by cases h <;> simp [feature, AutoLiquidity.feature], rfl⟩
  | timelock =>
    obtain ⟨_, -, h⟩ := bind_eq_ok_iff.mp h
    cases h
    exact ⟨fun h ↦ by cases h <;> simp [feature, Timelock.feature], rfl⟩

theorem sections_admin (h : k.output r e = .ok o) : o.sections .admin = none := by
  have hnot : ¬(o.sections .admin).isSome := fun hs ↦ (((ofKind_of_output h).sections _).mp hs).2 rfl
  simpa using hnot

theorem mem_allSetters {s : Setter} (h : s ∈ k.setters r) : s ∈ allSetters := by
  cases k with
  | tax => exact List.mem_append_left _ h
  | antibot =>
    have hall : ∀ blacklist, Antibot.setters blacklist ⊆ Antibot.setters true := by decide +kernel
    exact List.mem_append_right _ (hall _ h)
  | reflection | autoLiquidity | timelock => cases h

theorem plain_of_mem_setters {s : Setter} (h : s ∈ k.setters r) : s.Plain := by
  have hall : ∀ s ∈ allSetters, s.Plain := by decide +kernel
  exact hall s (mem_allSetters h)

theorem nodup_names_allSetters : (allSetters.map (·.name)).Nodup := by
  decide +kernel

/-- The name of a setter tells its text, whatever the feature. -/
theorem setter_eq_of_name_eq {k' : FeatureKind} {r' : Resolved} {s s' : Setter}
    (h : s ∈ k.setters r) (h' : s' ∈ k'.setters r') (hname : s.name = s'.name) : s = s' :=
  List.inj_on_of_nodup_map nodup_names_allSetters (mem_allSetters h) (mem_allSetters h') hname

theorem exists_wallet (h : r.Conforms Tax.feature) : ∃ w, Tax.wallet r = .ok w := by
  obtain ⟨s, hs, hor⟩ :
      ∃ s, r.text "marketingWallet" = .ok s ∧ (Text.blank s ∨ Address.isAddress s) :=
    h.exists_address (by decide +kernel)
  rw [Tax.wallet, hs]
  rcases hor with hblank | haddress
  · exact ⟨_, if_pos (Text.trim_of_blank hblank)⟩
  · obtain ⟨a, ha⟩ := Address.exists_checksum haddress
    by_cases hempty : Text.trim s = ""
    · exact ⟨_, if_pos hempty⟩
    · refine ⟨a, (if_neg hempty).trans ?_⟩
      rw [ha]
      rfl

theorem exists_output (h : r.Conforms k.feature) (e : Environment) :
    ∃ o, k.output r e = .ok o := by
  cases k with
  | tax =>
    obtain ⟨buyTax, hbuy⟩ : ∃ n, r.natural "buyTax" = .ok n :=
      h.exists_natural (by decide +kernel)
    obtain ⟨sellTax, hsell⟩ : ∃ n, r.natural "sellTax" = .ok n :=
      h.exists_natural (by decide +kernel)
    obtain ⟨liquidityShare, hliquidity⟩ : ∃ n, r.natural "liquidityShare" = .ok n :=
      h.exists_natural (by decide +kernel)
    obtain ⟨marketingShare, hmarketing⟩ : ∃ n, r.natural "marketingShare" = .ok n :=
      h.exists_natural (by decide +kernel)
    obtain ⟨threshold, hthreshold⟩ : ∃ n, r.basisPoints "swapThreshold" = .ok n :=
      h.exists_basisPoints (by decide +kernel)
    obtain ⟨wallet, hwallet⟩ := exists_wallet h
    rw [output, Tax.output, hbuy, hsell, hliquidity, hmarketing, hthreshold, hwallet]
    exact ⟨_, rfl⟩
  | antibot =>
    obtain ⟨maxTx, htx⟩ : ∃ n, r.basisPoints "maxTxAmount" = .ok n :=
      h.exists_basisPoints (by decide +kernel)
    obtain ⟨maxWallet, hwallet⟩ : ∃ n, r.basisPoints "maxWalletAmount" = .ok n :=
      h.exists_basisPoints (by decide +kernel)
    obtain ⟨blacklist, hblacklist⟩ : ∃ b, r.boolean "enableBlacklist" = .ok b :=
      h.exists_boolean (by decide +kernel)
    rw [output, Antibot.output, htx, hwallet, hblacklist]
    exact ⟨_, rfl⟩
  | reflection =>
    obtain ⟨percent, hpercent⟩ : ∃ n, r.natural "reflectionPercent" = .ok n :=
      h.exists_natural (by decide +kernel)
    rw [output, Reflection.output, hpercent]
    exact ⟨_, rfl⟩
  | autoLiquidity =>
    obtain ⟨percent, hpercent⟩ : ∃ n, r.natural "liquidityPercent" = .ok n :=
      h.exists_natural (by decide +kernel)
    obtain ⟨threshold, hthreshold⟩ : ∃ n, r.basisPoints "liquidityThreshold" = .ok n :=
      h.exists_basisPoints (by decide +kernel)
    rw [output, AutoLiquidity.output, hpercent, hthreshold]
    exact ⟨_, rfl⟩
  | timelock =>
    obtain ⟨delay, hdelay⟩ : ∃ n, r.natural "delayHours" = .ok n :=
      h.exists_natural (by decide +kernel)
    rw [output, Timelock.output, hdelay]
    exact ⟨_, rfl⟩

end FeatureKind

namespace Resolved

variable {α β : Type} {r : Resolved}

/-- A computation that fails only for a parameter without a value of the type that is asked for. -/
def Asks (r : Resolved) (x : Except Defect α) : Prop :=
  ∀ d, x = .error d → ∃ name, d = .missingParameter r.feature name

theorem asks_ok (r : Resolved) (a : α) : r.Asks (.ok a) :=
  fun _ h ↦ by cases h

theorem Asks.bind {x : Except Defect α} {f : α → Except Defect β} (hx : r.Asks x)
    (hf : ∀ a, r.Asks (f a)) : r.Asks (x >>= f) := by
  intro d h
  rcases bind_eq_error_iff.mp h with hd | ⟨a, -, hd⟩
  · exact hx d hd
  · exact hf a d hd

theorem asks_get (r : Resolved) (read : Value → Option α) (id : String) :
    r.Asks (r.get read id) := by
  intro d h
  rw [get] at h
  split at h
  · cases h
  · cases h
    exact ⟨id, rfl⟩

theorem asks_natural (r : Resolved) (id : String) : r.Asks (r.natural id) :=
  (r.asks_get _ id).bind fun _ ↦ r.asks_ok _

theorem asks_basisPoints (r : Resolved) (id : String) : r.Asks (r.basisPoints id) :=
  (r.asks_get _ id).bind fun _ ↦ r.asks_ok _

theorem asks_wallet (r : Resolved) : r.Asks (Tax.wallet r) := by
  refine (r.asks_get _ "marketingWallet").bind fun s d h ↦ ?_
  dsimp only at h
  split at h
  · cases h
  · split at h
    · cases h
    · cases h
      exact ⟨"marketingWallet", rfl⟩

end Resolved

theorem FeatureKind.asks_output (k : FeatureKind) (r : Resolved) (e : Environment) :
    r.Asks (k.output r e) := by
  cases k with
  | tax =>
    refine (r.asks_natural "buyTax").bind fun _ ↦ (r.asks_natural "sellTax").bind fun _ ↦ ?_
    refine (r.asks_natural "liquidityShare").bind fun _ ↦ ?_
    refine (r.asks_natural "marketingShare").bind fun _ ↦ ?_
    refine (r.asks_basisPoints "swapThreshold").bind fun _ ↦ ?_
    exact r.asks_wallet.bind fun _ ↦ r.asks_ok _
  | antibot =>
    refine (r.asks_basisPoints "maxTxAmount").bind fun _ ↦ ?_
    refine (r.asks_basisPoints "maxWalletAmount").bind fun _ ↦ ?_
    exact (r.asks_get _ "enableBlacklist").bind fun _ ↦ r.asks_ok _
  | reflection => exact (r.asks_natural "reflectionPercent").bind fun _ ↦ r.asks_ok _
  | autoLiquidity =>
    refine (r.asks_natural "liquidityPercent").bind fun _ ↦ ?_
    exact (r.asks_basisPoints "liquidityThreshold").bind fun _ ↦ r.asks_ok _
  | timelock => exact (r.asks_natural "delayHours").bind fun _ ↦ r.asks_ok _

end TokenContract
