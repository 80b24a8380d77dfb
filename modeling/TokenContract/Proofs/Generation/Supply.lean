import TokenContract.Proofs.Generation.Resupply
import TokenContract.Proofs.Generation.Values
import TokenContract.Proofs.Number.Words

namespace TokenContract

open Results
open Solidity (IsNumeral IsPositive constant? numeral publicNumber)
open Text (mem_lines_endLines trim)

namespace Catalog

variable {c : Catalog} {s : Spec} {settings : Settings} {art : Artifact}

theorem mintLine_mem_lines (h : c.generate s settings = .ok art) :
    s.mintLine ∈ Text.lines art.sourceText := by
  obtain ⟨p, a, -, ha, -, hlines⟩ := exists_lines_of_generate h
  have hsupplied := supplied_of_validate (validate_of_generate h)
  have hline : a.header.mintLine = s.mintLine := by
    rw [Plan.header_of_assemble ha, Spec.mintLine_header]
  have hmem : a.header.mintLine ∈ a.back :=
    List.mem_append_left _ (List.mem_append_left _ List.mem_cons_self)
  rw [hline] at hmem
  have hmint := mem_lines_endLines hmem hsupplied.isLine_mintLine
  rw [hlines]
  exact List.mem_append_right _ (List.mem_cons_of_mem _ hmint)

theorem shareLine_mem_lines (h : c.generate s settings = .ok art) {p : Plan} (hp : c.plan s = .ok p)
    {f : PlannedFeature} (hf : p.Last f) {v : ShareVariable} (hv : v ∈ f.kind.shares) :
    ∃ b, f.kind.Gives f.parameters v b ∧ s.shareLine v b ∈ Text.lines art.sourceText := by
  obtain ⟨_, a, hp', ha, -⟩ := exists_lines_of_generate h
  rw [hp] at hp'
  cases hp'
  have hsupplied := supplied_of_validate (validate_of_generate h)
  obtain ⟨o, ho⟩ := (Plan.complete_of_assemble ha).written f hf.mem
  obtain ⟨b, ls, hgives, hls, hl⟩ := FeatureKind.exists_share_of_output ho hv
  rw [Spec.share_environment] at hl
  have hshare := Solidity.unbroken_publicNumber (f.kind.unbroken_shares v hv)
    (hsupplied.unbroken_share b)
  exact ⟨b, hgives,
    stateLine_mem_lines h hp hf ho hls hl hshare (Solidity.blank_publicNumber _ _)⟩

theorem Sound.shareLine_mem_lines (hc : c.Sound) (h : c.generate s settings = .ok art) {f : Feature}
    (hf : f ∈ c.features) {selection : Selection} (hselection : s.selection? f.id = some selection)
    {v : ShareVariable} {b : Nat} (hgives : f.kind.Gives (.ofSelection f selection) v b) :
    s.shareLine v b ∈ Text.lines art.sourceText := by
  obtain ⟨p, -, hp, -⟩ := exists_assemble_of_generate h
  have hlast := hc.last_planned hp hf hselection
  obtain ⟨b', hgives', hline⟩ := Catalog.shareLine_mem_lines h hp hlast hgives.mem
  obtain rfl : b = b' := Except.ok.inj (hgives.given.symm.trans hgives'.given)
  exact hline

end Catalog

namespace Parameter

variable {p : Parameter} {v : Value}

/-- A parameter that is a number of a hundredth or more, also if it is left to its default. -/
def fromHundredth (p : Parameter) : Bool :=
  p.type == .number && (p.min.any fun m ↦ m.isFinite && !decide (m < 0.01)) &&
    p.default.asNumber?.any fun x ↦ x.isFinite && p.inBounds x

theorem fits_default_of_fromHundredth (h : p.fromHundredth) : p.Fits p.default := by
  simp only [fromHundredth, Bool.and_eq_true, beq_iff_eq, Option.any_eq_true] at h
  obtain ⟨⟨htype, -⟩, x, hx, hfinite, hbounds⟩ := h
  obtain hdefault := Value.asNumber?_eq_some_iff.mp hx
  refine ⟨by simp [admits, htype, hdefault], fun y hy ↦ ?_⟩
  rw [hdefault] at hy
  cases hy
  exact ⟨hfinite, hbounds⟩

theorem exists_of_fromHundredth (h : p.fromHundredth) (hv : p.Fits v) :
    ∃ x, v.asNumber? = some x ∧ 0 < (x * 100).toWord := by
  simp only [fromHundredth, Bool.and_eq_true, beq_iff_eq, Option.any_eq_true,
    Bool.not_eq_true', decide_eq_false_iff_not] at h
  obtain ⟨⟨htype, m, hmin, hm, hle⟩, -⟩ := h
  obtain ⟨x, hx⟩ := p.exists_number htype hv.1
  obtain ⟨hfinite, hbounds⟩ := hv.2 x (Value.asNumber?_eq_some_iff.mp hx)
  have hlow := (inBounds_iff.mp hbounds).1 m hmin
  have hhundredth : (0.01 : Binary64).isFinite = true := by decide +kernel
  refine ⟨x, hx, Binary64.toWord_mul_hundred_pos hfinite ?_⟩
  exact Binary64.not_lt_trans hfinite hm hhundredth hlow hle

end Parameter

theorem FeatureKind.exists_parameter_of_share (k : FeatureKind) :
    ∀ v ∈ k.shares, ∃ p ∈ k.feature.parameters, p.id = v.parameter ∧ p.fromHundredth := by
  cases k <;> decide +kernel

namespace Catalog

variable {c : Catalog} {s : Spec} {f : Feature} {selection : Selection}

theorem Regular.basisPoints_pos (hc : c.Regular) (hs : c.validate s = .ok ()) (hf : f ∈ c.features)
    (hselection : s.selection? f.id = some selection) {v : ShareVariable} {b : Nat}
    (h : f.kind.Gives (.ofSelection f selection) v b) : 0 < b := by
  obtain ⟨p, hp, hid, hfrom⟩ := f.kind.exists_parameter_of_share v h.mem
  rw [hc.kinds f hf] at hp
  have hsound := hc.sound.features f hf
  have hobjection := (violations_eq_nil_iff.mp (validate_eq_ok_iff.mp hs)).2 f hf selection
    hselection p hp
  have hfits : p.Fits (Resolved.valueOf p selection) :=
    (Parameter.fits_valueOf_iff (hsound.parameters p hp) hobjection).mpr fun hleft ↦
      hleft.1.not_fits (Parameter.fits_default_of_fromHundredth hfrom)
  obtain ⟨x, hx, hpos⟩ := Parameter.exists_of_fromHundredth hfrom hfits
  have hnumber : (Resolved.ofSelection f selection).number p.id = .ok x :=
    Resolved.get_eq_ok (Resolved.find?_ofSelection hsound.distinct hp) hx
  have hgiven := h.given
  rw [← hid, Resolved.basisPoints, hnumber] at hgiven
  cases hgiven
  exact hpos

theorem Regular.exists_output (hc : c.Regular) (hs : c.validate s = .ok ()) (hf : f ∈ c.features)
    (hselection : s.selection? f.id = some selection) (e : Environment) :
    ∃ o, f.kind.output (.ofSelection f selection) e = .ok o := by
  have hvalid := (violations_eq_nil_iff.mp (validate_eq_ok_iff.mp hs)).2 f hf selection hselection
  refine FeatureKind.exists_output ?_ e
  rw [hc.kinds f hf]
  exact Resolved.conforms_ofSelection (hc.sound.features f hf).distinct (hc.defaults f hf) hvalid

end Catalog

/-- The share of the supply that a feature gives a variable. It is a positive whole number if and
only if the division by ten thousand leaves no rest, as with enough decimals it never does. -/
structure Spec.Shares (s : Spec) (f : Feature) (selection : Selection) (v : ShareVariable)
    (b : Nat) : Prop where
  given : f.kind.Gives (.ofSelection f selection) v b
  positive : 0 < b
  value : constant? (s.share b) = some ((s.units * b : Nat) / 10000 : ℚ)
  whole : IsPositive (s.share b) ↔ 10000 ∣ s.units * b
  enough : 4 ≤ s.decimals.toNat → IsPositive (s.share b)

namespace Catalog

variable {s : Spec} {f : Feature} {selection : Selection}

/-- Each variable that is meant to start with a share of the supply is written with one. -/
theorem shares_of_validate (hs : standard.validate s = .ok ()) (hf : f ∈ standard.features)
    (hselection : s.selection? f.id = some selection) : ∀ v ∈ f.kind.shares, ∃ b,
      s.Shares f selection v b ∧
      (∀ swapRouter, ∃ o ls,
        f.kind.output (.ofSelection f selection) ⟨s.supplyExpression, swapRouter⟩ = .ok o ∧
          o.sections .state = some ls ∧ publicNumber v.name (s.share b) ∈ ls) ∧
      ∀ settings art, standard.generate s settings = .ok art →
        s.shareLine v b ∈ Text.lines art.sourceText := by
  intro v hv
  have hsupplied := supplied_of_validate hs
  have houtput (swapRouter : Bool) := regular_standard.exists_output hs hf hselection
    ⟨s.supplyExpression, swapRouter⟩
  -- The share is known from one output; each other one gives the same.
  obtain ⟨o, ho⟩ := houtput false
  obtain ⟨b, -, hgives, -⟩ := FeatureKind.exists_share_of_output ho hv
  have hpos := regular_standard.basisPoints_pos hs hf hselection hgives
  refine ⟨b, ⟨hgives, hpos, hsupplied.constant?_share b, hsupplied.isPositive_share_iff hpos,
    fun hdecimals ↦ hsupplied.isPositive_share hdecimals hpos⟩, fun swapRouter ↦ ?_,
    fun settings art h ↦ regular_standard.sound.shareLine_mem_lines h hf hselection hgives⟩
  obtain ⟨o, ho⟩ := houtput swapRouter
  obtain ⟨b', ls, hgives', hls, hl⟩ := FeatureKind.exists_share_of_output ho hv
  obtain rfl : b = b' := Except.ok.inj (hgives.given.symm.trans hgives'.given)
  exact ⟨o, ls, ho, hls, hl⟩

def taxToken (totalSupply : String) (decimals : UInt8) : Spec :=
  { (⟨[Tax.feature]⟩ : Catalog).token with totalSupply, decimals }

def taxSelection : Selection :=
  ⟨true, Dict.ofList (Tax.feature.parameters.map fun p ↦ (p.id, p.default))⟩

theorem selection?_taxToken (totalSupply : String) (decimals : UInt8) :
    (taxToken totalSupply decimals).selection? Tax.feature.id = some taxSelection :=
  rfl

theorem shares_taxToken : standard.validate (taxToken "1000000" 18) = .ok () ∧
    Tax.feature ∈ standard.features ∧
    (taxToken "1000000" 18).selection? Tax.feature.id = some taxSelection ∧
    ∀ v ∈ Tax.feature.kind.shares, ∃ b,
      (taxToken "1000000" 18).Shares Tax.feature taxSelection v b ∧
      (∀ swapRouter, ∃ o ls, Tax.feature.kind.output (.ofSelection Tax.feature taxSelection)
        ⟨(taxToken "1000000" 18).supplyExpression, swapRouter⟩ = .ok o ∧
          o.sections .state = some ls ∧
          publicNumber v.name ((taxToken "1000000" 18).share b) ∈ ls) ∧
      ∀ settings art, standard.generate (taxToken "1000000" 18) settings = .ok art →
        (taxToken "1000000" 18).shareLine v b ∈ Text.lines art.sourceText := by
  have hvalid : standard.validate (taxToken "1000000" 18) = .ok () :=
    validate_eq_ok_iff.mpr (by decide +kernel)
  have hmem : Tax.feature ∈ standard.features := List.mem_cons_self
  have hselection := selection?_taxToken "1000000" 18
  exact ⟨hvalid, hmem, hselection, shares_of_validate hvalid hmem hselection⟩

theorem gives_taxToken :
    Tax.feature.kind.Gives (.ofSelection Tax.feature taxSelection)
      ⟨"swapTokensAtAmount", "swapThreshold"⟩ 5 :=
  ⟨by decide, by decide +kernel⟩

theorem fraction_taxToken : standard.validate (taxToken "1" 0) = .ok () ∧
    ∃ art, standard.generate (taxToken "1" 0) {} = .ok art ∧
      "    uint256 public swapTokensAtAmount = (1 * 10 ** 0) * 5 / 10000;" ∈
        Text.lines art.sourceText ∧
      constant? "(1 * 10 ** 0) * 5 / 10000" = some (1 / 2000) ∧
      ¬IsPositive "(1 * 10 ** 0) * 5 / 10000" := by
  have hvalid : standard.validate (taxToken "1" 0) = .ok () :=
    validate_eq_ok_iff.mpr (by decide +kernel)
  have hgen : (standard.generate (taxToken "1" 0) {}).toOption.any fun _ ↦ true := by decide +kernel
  obtain ⟨art, hgen, -⟩ := exists_ok_of_any hgen
  have hline := regular_standard.sound.shareLine_mem_lines hgen List.mem_cons_self
    (selection?_taxToken "1" 0) gives_taxToken
  have htext : (taxToken "1" 0).shareLine ⟨"swapTokensAtAmount", "swapThreshold"⟩ 5 =
      "    uint256 public swapTokensAtAmount = (1 * 10 ** 0) * 5 / 10000;" := by decide +kernel
  have hshare : (taxToken "1" 0).share 5 = "(1 * 10 ** 0) * 5 / 10000" := by decide +kernel
  refine ⟨hvalid, art, hgen, htext ▸ hline, by decide +kernel, ?_⟩
  rw [← hshare, (supplied_of_validate hvalid).isPositive_share_iff (by decide)]
  decide +kernel

end Catalog

/-- How the supply of a token is written. It is the digits that were given times a power of ten,
which is a numeral of the language unless a zero stands at the front; so it is minted, so variables
start with shares of it, and no other line depends on it. -/
structure Catalog.WritesSupply (c : Catalog) (s : Spec) (settings : Settings) : Prop where
  form : s.supplyExpression = trim s.totalSupply ++ " * 10 ** " ++ toString s.decimals.toNat
  digits : ∀ ch ∈ (trim s.totalSupply).toList, ch.isDigit
  positive : 0 < numeral (trim s.totalSupply).toList
  value : constant? s.supplyExpression =
    some ((numeral (trim s.totalSupply).toList * 10 ^ s.decimals.toNat : Nat) : ℚ)
  legal : IsNumeral (trim s.totalSupply).toList ↔ (trim s.totalSupply).toList.head? ≠ some '0'
  minted : ∀ art, c.generate s settings = .ok art → s.mintLine ∈ Text.lines art.sourceText
  shared : ∀ art p, c.generate s settings = .ok art → c.plan s = .ok p → ∀ f, p.Last f →
    ∀ v ∈ f.kind.shares, ∃ b, f.kind.Gives f.parameters v b ∧
      s.shareLine v b ∈ Text.lines art.sourceText
  elsewhere : ∀ t art art', s.name = t.name → s.symbol = t.symbol → s.decimals = t.decimals →
    s.features = t.features → c.generate s settings = .ok art → c.generate t settings = .ok art' →
      ∃ p, c.plan s = .ok p ∧ List.Forall₂ (Text.AlikeBut (p.TellSupply s t))
        (Text.lines art.sourceText) (Text.lines art'.sourceText)

namespace Catalog

variable {c : Catalog} {s : Spec}

theorem writesSupply_of_validate (h : c.validate s = .ok ()) (settings : Settings) :
    c.WritesSupply s settings := by
  have hsupplied := supplied_of_validate h
  exact {
    form := rfl
    digits := hsupplied.digits
    positive := hsupplied.positive
    value := hsupplied.constant?_supplyExpression
    legal := hsupplied.isNumeral_iff
    minted := fun _ ↦ mintLine_mem_lines
    shared := fun _ _ hgen hp _ hf _ hv ↦ shareLine_mem_lines hgen hp hf hv
    elsewhere := fun _ _ _ hname hsymbol hdecimals hfeatures hgen hgen' ↦
      resupplied_of_generate hname hsymbol hdecimals hfeatures hgen hgen' }

theorem writesSupply_taxToken : standard.validate (taxToken " 25 " 9) = .ok () ∧
    standard.WritesSupply (taxToken " 25 " 9) {} := by
  have hvalid : standard.validate (taxToken " 25 " 9) = .ok () :=
    validate_eq_ok_iff.mpr (by decide +kernel)
  exact ⟨hvalid, writesSupply_of_validate hvalid {}⟩

/-- Zeros at the front of a supply are not counted when it is validated, but they are written. -/
theorem zeros_taxToken : standard.validate (taxToken "007" 18) = .ok () ∧
    (taxToken "007" 18).supplyExpression = "007 * 10 ** 18" ∧ ¬IsNumeral "007".toList ∧
    ∃ art, standard.generate (taxToken "007" 18) {} = .ok art ∧
      "        _mint(msg.sender, 007 * 10 ** 18);" ∈ Text.lines art.sourceText ∧
      "    uint256 public swapTokensAtAmount = (007 * 10 ** 18) * 5 / 10000;" ∈
        Text.lines art.sourceText := by
  have hvalid : standard.validate (taxToken "007" 18) = .ok () :=
    validate_eq_ok_iff.mpr (by decide +kernel)
  have hgen : (standard.generate (taxToken "007" 18) {}).toOption.any fun _ ↦ true := by
    decide +kernel
  obtain ⟨art, hgen, -⟩ := exists_ok_of_any hgen
  have hmint : (taxToken "007" 18).mintLine = "        _mint(msg.sender, 007 * 10 ** 18);" := by
    decide +kernel
  have hshare : (taxToken "007" 18).shareLine ⟨"swapTokensAtAmount", "swapThreshold"⟩ 5 =
      "    uint256 public swapTokensAtAmount = (007 * 10 ** 18) * 5 / 10000;" := by decide +kernel
  have hline := regular_standard.sound.shareLine_mem_lines hgen List.mem_cons_self
    (selection?_taxToken "007" 18) gives_taxToken
  have hillegal : ¬IsNumeral "007".toList := fun h ↦ absurd (h.front (by decide)) (by decide)
  refine ⟨hvalid, by decide +kernel, hillegal, art, hgen, ?_, hshare ▸ hline⟩
  rw [← hmint]
  exact mintLine_mem_lines hgen

end Catalog

end TokenContract
