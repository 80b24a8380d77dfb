import TokenContract.Proofs.Feature.Counts
import TokenContract.Proofs.Generation.Supply

namespace TokenContract

open Solidity (publicNumber)

/-- The line by which the setters of the rates refuse what is above the highest. -/
def Tax.capLine : String :=
  s!"require(newTax <= {maxPercent}, \"Tax: exceeds maximum\");"

theorem Tax.capLine_mem_body (name rate : String) : capLine ∈ (rateSetter name rate).body :=
  List.mem_cons_self

def Tax.rates : List String :=
  ["buyTax", "sellTax"]

theorem Tax.max_of_mem_rates : ∀ id ∈ rates,
    (feature.parameter? id).bind (·.max) = some (.ofNat maxPercent) := by
  decide +kernel

/-- A whole number as it was chosen, and as a feature writes it. -/
structure Feature.WritesCount (f : Feature) (selection : Selection) (v : CountVariable)
    (x : Binary64) (n : Nat) : Prop where
  given : (Resolved.ofSelection f selection).number v.parameter = .ok x
  finite : x.isFinite = true
  written : ∀ e, ∃ o ls, f.kind.output (.ofSelection f selection) e = .ok o ∧
    o.sections .state = some ls ∧ v.line n ∈ ls
  near : |x.toRat - n| ≤ 1 / 10 ^ 6
  bounded : ∃ p least most, f.parameter? v.parameter = some p ∧ p.min = some least ∧
    p.max = some most ∧ least.toRat ≤ n ∧ n ≤ most.toRat
  capped : f.kind = .tax → v.parameter ∈ Tax.rates → n ≤ Tax.maxPercent

/-- A percentage of the supply as it was chosen, and the hundredths that a feature writes. The least
of its parameter is a hundredth or a tenth, as near as a double can be. -/
structure Feature.WritesShare (f : Feature) (selection : Selection) (v : ShareVariable)
    (x : Binary64) (b : Nat) : Prop where
  given : (Resolved.ofSelection f selection).number v.parameter = .ok x
  finite : x.isFinite = true
  written : ∀ e, ∃ o ls, f.kind.output (.ofSelection f selection) e = .ok o ∧
    o.sections .state = some ls ∧ publicNumber v.name (e.share b) ∈ ls
  near : |100 * x.toRat - b| ≤ slack f.kind.shareUnit
  threshold : f.kind ≠ .antibot → |100 * x.toRat - b| ≤ 1 / 10 ^ 5
  positive : 0 < b
  bounded : ∃ p least most, f.parameter? v.parameter = some p ∧ p.min = some least ∧
    p.max = some most ∧ least.Hundredths f.kind.shareUnit ∧ f.kind.shareUnit ≤ b ∧
    b ≤ 100 * most.toRat

/-- Each number of a feature is written as it was chosen, save for what validation allows. -/
structure Spec.Rounds (s : Spec) (f : Feature) (selection : Selection) : Prop where
  covered : ∀ p ∈ f.parameters, p.type = .number →
    (∃ v ∈ f.kind.counts, v.parameter = p.id) ∨ ∃ v ∈ f.kind.shares, v.parameter = p.id
  counts : ∀ v ∈ f.kind.counts, ∃ x n, f.WritesCount selection v x n ∧
    ∀ settings art, Catalog.standard.generate s settings = .ok art →
      "    " ++ v.line n ∈ Text.lines art.sourceText
  shares : ∀ v ∈ f.kind.shares, ∃ x b, f.WritesShare selection v x b ∧
    ∀ settings art, Catalog.standard.generate s settings = .ok art →
      s.shareLine v b ∈ Text.lines art.sourceText
  capped : f.kind = .tax → ∀ settings art, Catalog.standard.generate s settings = .ok art →
    "        " ++ Tax.capLine ∈ Text.lines art.sourceText

theorem FeatureKind.covered (k : FeatureKind) : ∀ p ∈ k.feature.parameters, p.type = .number →
    (∃ v ∈ k.counts, v.parameter = p.id) ∨ ∃ v ∈ k.shares, v.parameter = p.id := by
  cases k <;> decide +kernel

theorem FeatureKind.shareUnit_of_ne {k : FeatureKind} (h : k ≠ .antibot) : k.shareUnit = 1 := by
  cases k with
  | antibot => exact absurd rfl h
  | tax | reflection | autoLiquidity | timelock => rfl

theorem slack_one_le : slack 1 ≤ 1 / 10 ^ 5 := by
  norm_num [slack]

theorem Feature.of_parameter? {f : Feature} {id : String} {p : Parameter}
    (h : f.parameter? id = some p) : p ∈ f.parameters ∧ p.id = id := by
  have hid := List.find?_some h
  exact ⟨List.mem_of_find?_eq_some h, beq_iff_eq.mp hid⟩

namespace Catalog

variable {c : Catalog} {s : Spec} {f : Feature} {selection : Selection}

theorem Sound.exists_accepted (hc : c.Sound) (hs : c.validate s = .ok ()) (hf : f ∈ c.features)
    (hselection : s.selection? f.id = some selection) {id : String} {p : Parameter}
    (hp : f.parameter? id = some p) (haccepts : p.AcceptsDefault) :
    ∃ x, (Resolved.ofSelection f selection).number id = .ok x ∧ p.numberObjection? x = none := by
  obtain ⟨hmem, rfl⟩ := Feature.of_parameter? hp
  have hvalid := (violations_eq_nil_iff.mp (validate_eq_ok_iff.mp hs)).2 f hf selection hselection
  obtain ⟨x, hx, haccepted⟩ := haccepts.exists_number (hvalid p hmem)
  have hread : (Resolved.valueOf p selection).asNumber? = some x := by rw [hx]; rfl
  exact ⟨x, Resolved.get_eq_ok
    (Resolved.find?_ofSelection (hc.features f hf).distinct hmem) hread, haccepted⟩

theorem Regular.exists_writesCount (hc : c.Regular) (hs : c.validate s = .ok ())
    (hf : f ∈ c.features) (hselection : s.selection? f.id = some selection) {v : CountVariable}
    (hv : v ∈ f.kind.counts) :
    ∃ x n, f.WritesCount selection v x n := by
  obtain ⟨p, least, most, hp, haccepts, hwhole⟩ := f.kind.exists_whole v hv
  rw [hc.kinds f hf] at hp
  obtain ⟨x, hx, haccepted⟩ := hc.sound.exists_accepted hs hf hselection hp haccepts
  obtain ⟨hnear, hlow, hhigh⟩ := hwhole.near_word haccepted
  have hnatural : (Resolved.ofSelection f selection).natural v.parameter = .ok x.toWord := by
    rw [Resolved.natural, hx]
    rfl
  have hroom {n : Nat} (hn : n ≤ most) : n < 2 ^ 53 := (hn.trans hwhole.small).trans_lt (by decide)
  refine ⟨x, x.toWord, hx, ?_, fun e ↦ ?_, hnear, ?_, ?_⟩
  · exact (Parameter.of_numberObjection? haccepted).1
  · obtain ⟨o, ho⟩ := hc.exists_output hs hf hselection e
    obtain ⟨n, ls, hn, hls, hl⟩ := FeatureKind.exists_count_of_output ho hv
    obtain rfl := Except.ok.inj (hnatural.symm.trans hn)
    exact ⟨o, ls, ho, hls, hl⟩
  · refine ⟨p, _, _, hp, hwhole.min, hwhole.max, ?_, ?_⟩
    · rw [(Binary64.ofNat_spec (hroom hwhole.ordered)).2]
      exact_mod_cast hlow
    · rw [(Binary64.ofNat_spec (hroom le_rfl)).2]
      exact_mod_cast hhigh
  · intro hkind hrate
    have hmax := Tax.max_of_mem_rates v.parameter hrate
    have hfeature : Tax.feature = f := by rw [← hc.kinds f hf, hkind]; rfl
    rw [hfeature, hp, Option.bind_some, hwhole.max, Option.some.injEq] at hmax
    have hmost := congrArg Binary64.toRat hmax
    rw [(Binary64.ofNat_spec (hroom le_rfl)).2,
      (Binary64.ofNat_spec (a := Tax.maxPercent) (by decide)).2, Nat.cast_inj] at hmost
    exact hhigh.trans_eq hmost

theorem Regular.exists_writesShare (hc : c.Regular) (hs : c.validate s = .ok ())
    (hf : f ∈ c.features) (hselection : s.selection? f.id = some selection) {v : ShareVariable}
    (hv : v ∈ f.kind.shares) :
    ∃ x b, f.WritesShare selection v x b := by
  obtain ⟨p, most, hp, haccepts, hgraded⟩ := f.kind.exists_graded v hv
  rw [hc.kinds f hf] at hp
  obtain ⟨x, hx, haccepted⟩ := hc.sound.exists_accepted hs hf hselection hp haccepts
  obtain ⟨hnear, hlow, hhigh⟩ := hgraded.near_word haccepted
  have hpoints : (Resolved.ofSelection f selection).basisPoints v.parameter =
      .ok (x * 100).toWord := by
    rw [Resolved.basisPoints, hx]
    rfl
  have hroom : most < 2 ^ 53 := hgraded.small.trans_lt (by decide)
  obtain ⟨least, hleast, -, hunit⟩ := hgraded.step
  refine ⟨x, (x * 100).toWord, hx, ?_, fun e ↦ ?_, hnear, fun hkind ↦ ?_, ?_, ?_⟩
  · exact (Parameter.of_numberObjection? haccepted).1
  · obtain ⟨o, ho⟩ := hc.exists_output hs hf hselection e
    obtain ⟨b, ls, hgives, hls, hl⟩ := FeatureKind.exists_share_of_output ho hv
    obtain rfl := Except.ok.inj (hpoints.symm.trans hgives.given)
    exact ⟨o, ls, ho, hls, hl⟩
  · rw [FeatureKind.shareUnit_of_ne hkind] at hnear
    exact hnear.trans slack_one_le
  · exact hgraded.positive.trans_le hlow
  · refine ⟨p, least, _, hp, hleast, hgraded.max, hunit, hlow, ?_⟩
    rw [(Binary64.ofNat_spec hroom).2]
    exact_mod_cast hhigh

/-- Validation leaves nothing to round but what its own check of a step allows. -/
theorem rounds_of_validate (hs : standard.validate s = .ok ()) (hf : f ∈ standard.features)
    (hselection : s.selection? f.id = some selection) : s.Rounds f selection where
  covered := by
    have hcovered := f.kind.covered
    rwa [regular_standard.kinds f hf] at hcovered
  counts := by
    intro v hv
    obtain ⟨x, n, hwrites⟩ := regular_standard.exists_writesCount hs hf hselection hv
    refine ⟨x, n, hwrites, fun settings art h ↦ ?_⟩
    obtain ⟨p, -, hp, -⟩ := exists_assemble_of_generate h
    obtain ⟨o, ls, ho, hls, hl⟩ := hwrites.written (s.environment p)
    obtain ⟨hopening, hclosing, hblank⟩ := f.kind.unbroken_counts v hv
    exact stateLine_mem_lines h hp (regular_standard.sound.last_planned hp hf hselection) ho hls hl
      (CountVariable.unbroken_line hopening hclosing n) (CountVariable.blank_line hblank n)
  shares := by
    intro v hv
    obtain ⟨x, b, hwrites⟩ := regular_standard.exists_writesShare hs hf hselection hv
    refine ⟨x, b, hwrites, fun settings art h ↦ ?_⟩
    obtain ⟨p, -, hp, -⟩ := exists_assemble_of_generate h
    obtain ⟨o, ls, ho, hls, hl⟩ := hwrites.written (s.environment p)
    have hshare := Solidity.unbroken_publicNumber (f.kind.unbroken_shares v hv)
      ((supplied_of_validate hs).unbroken_share b)
    rw [Spec.share_environment] at hl
    exact stateLine_mem_lines h hp (regular_standard.sound.last_planned hp hf hselection) ho hls hl
      hshare (Solidity.blank_publicNumber _ _)
  capped := by
    intro hkind settings art h
    obtain ⟨p, -, hp, -⟩ := exists_assemble_of_generate h
    obtain ⟨o, ho⟩ := regular_standard.exists_output hs hf hselection (s.environment p)
    have hsetter : Tax.rateSetter "setBuyTax" "buyTax" ∈ o.setters := by
      rw [(FeatureKind.ofKind_of_output ho).setters, hkind]
      exact List.mem_cons_self
    have hlast := regular_standard.sound.last_planned hp hf hselection
    exact setterLine_mem_lines h hp hlast ho hsetter (Tax.capLine_mem_body _ _) (by decide)
      (by decide)

def single (f : Feature) (parameters : Dict Value) : Spec :=
  { guardedTax with features := Dict.ofList [(f.id, ⟨true, parameters⟩)] }

def besides : Dict Value :=
  Dict.ofList [("buyTax", .number 4.9999995), ("sellTax", .number 25),
    ("liquidityShare", .number 50), ("marketingShare", .number 49.9999999),
    ("swapThreshold", .number 0.0100000001)]

theorem rounds_besides : standard.validate (single Tax.feature besides) = .ok () ∧
    Tax.feature ∈ standard.features ∧
    (single Tax.feature besides).selection? Tax.feature.id = some ⟨true, besides⟩ ∧
    (single Tax.feature besides).Rounds Tax.feature ⟨true, besides⟩ := by
  have hvalid : standard.validate (single Tax.feature besides) = .ok () :=
    validate_eq_ok_iff.mpr (by decide +kernel)
  have hmem : Tax.feature ∈ standard.features := List.mem_cons_self
  have hselection : (single Tax.feature besides).selection? Tax.feature.id = some ⟨true, besides⟩ :=
    rfl
  exact ⟨hvalid, hmem, hselection, rounds_of_validate hvalid hmem hselection⟩

def edges : Dict Value :=
  Dict.ofList [("maxTxAmount", .number 51.60000010000001), ("maxWalletAmount", .number 0.1)]

theorem number_edge : (Resolved.ofSelection Antibot.feature ⟨true, edges⟩).number "maxTxAmount" =
    .ok (.ofDecimal false 5160000010000001 (.negSucc 13)) := by
  decide +kernel

/-- The doubles of the check let a number pass that is further off than the millionth of its step,
and the double for a tenth is above it. -/
theorem beyond_edges : standard.validate (single Antibot.feature edges) = .ok () ∧
    (∃ x, (Resolved.ofSelection Antibot.feature ⟨true, edges⟩).number "maxTxAmount" = .ok x ∧
      (Resolved.ofSelection Antibot.feature ⟨true, edges⟩).basisPoints "maxTxAmount" = .ok 5160 ∧
      1 / 10 ^ 5 < |100 * x.toRat - 5160|) ∧
    (∃ p least, Antibot.feature.parameter? "maxWalletAmount" = some p ∧ p.min = some least ∧
      (Resolved.ofSelection Antibot.feature ⟨true, edges⟩).basisPoints "maxWalletAmount" = .ok 10 ∧
      10 < 100 * least.toRat) ∧
    ∃ art, standard.generate (single Antibot.feature edges) {} = .ok art ∧
      "    uint256 public maxTxAmount = (1000000 * 10 ** 18) * 5160 / 10000;" ∈
        Text.lines art.sourceText ∧
      "    uint256 public maxWalletAmount = (1000000 * 10 ** 18) * 10 / 10000;" ∈
        Text.lines art.sourceText := by
  have hvalid : standard.validate (single Antibot.feature edges) = .ok () :=
    validate_eq_ok_iff.mpr (by decide +kernel)
  have hmem : Antibot.feature ∈ standard.features := List.mem_cons_of_mem _ List.mem_cons_self
  have hselection : (single Antibot.feature edges).selection? Antibot.feature.id =
      some ⟨true, edges⟩ := rfl
  have htx : Antibot.feature.kind.Gives (.ofSelection Antibot.feature ⟨true, edges⟩)
      ⟨"maxTxAmount", "maxTxAmount"⟩ 5160 := ⟨by decide, by decide +kernel⟩
  have hwallet : Antibot.feature.kind.Gives (.ofSelection Antibot.feature ⟨true, edges⟩)
      ⟨"maxWalletAmount", "maxWalletAmount"⟩ 10 := ⟨by decide, by decide +kernel⟩
  refine ⟨hvalid, ⟨_, number_edge, htx.given, ?_⟩, ⟨_, 0.1, rfl, rfl, hwallet.given, ?_⟩, ?_⟩
  · have hbelow := Binary64.le_toRat_ofDecimal (d := 5160000010000001) (e := 13)
      (a := 1000000000000000) (b := 51600000100000005) (by decide +kernel) (by decide)
      (by decide +kernel)
    refine lt_of_lt_of_le ?_ (le_abs_self _)
    norm_num at hbelow ⊢
    linarith
  · have hbelow := Binary64.le_toRat_ofDecimal (d := 1) (e := 0) (a := 36028797018963968)
      (b := 3602879701896397) (by decide +kernel) (by decide) (by decide +kernel)
    have htenth : (0.1 : Binary64) = .ofDecimal false 1 (.negSucc 0) := rfl
    rw [htenth]
    norm_num at hbelow ⊢
    linarith
  · have hgen :
        (standard.generate (single Antibot.feature edges) {}).toOption.any fun _ ↦ true := by
      decide +kernel
    obtain ⟨art, hgen, -⟩ := Results.exists_ok_of_any hgen
    have hlinetx : (single Antibot.feature edges).shareLine ⟨"maxTxAmount", "maxTxAmount"⟩ 5160 =
        "    uint256 public maxTxAmount = (1000000 * 10 ** 18) * 5160 / 10000;" := by
      decide +kernel
    have hlinewallet :
        (single Antibot.feature edges).shareLine ⟨"maxWalletAmount", "maxWalletAmount"⟩ 10 =
          "    uint256 public maxWalletAmount = (1000000 * 10 ** 18) * 10 / 10000;" := by
      decide +kernel
    have hsound := regular_standard.sound
    exact ⟨art, hgen, hlinetx ▸ hsound.shareLine_mem_lines hgen hmem hselection htx,
      hlinewallet ▸ hsound.shareLine_mem_lines hgen hmem hselection hwallet⟩

end Catalog

end TokenContract
