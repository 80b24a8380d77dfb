import TokenContract.Proofs.Feature.Braces
import TokenContract.Proofs.Generation.Timelock
import TokenContract.Proofs.Source.Braces

namespace TokenContract

open Results Solidity Text

namespace Plan

variable {p : Plan} {c : Catalog} {s : Spec} {settings : Settings} {a : Assembly}

theorem braced_of_offers {e : Environment} (he : sift isBrace e.supply = []) {x : Contributor} {st : Setter}
    (h : p.Offers e x st) : st.Braced := by
  cases x with
  | base => exact Setter.braced_of_mem_inherited st h
  | capability cap owner => exact absurd h not_false
  | feature id =>
    obtain ⟨f, -, -, o, ho, hst⟩ := h
    exact (FeatureKind.braced_of_output he ho).setters st hst

theorem Follows.balanced_fragment (hc : c.Sound) (hp : p.Follows c s)
    (he : sift isBrace (s.environment p).supply = []) (ha : p.assemble s settings = .ok a) {x : Fragment}
    (hx : x ∈ a.fragments) :
    Balanced (sift isBrace x.text) ∧ (x.hook = .imports → sift isBrace x.text = []) := by
  by_cases hadmin : x.hook = .admin
  · obtain ⟨b, -, st, hoffers, -, htext, -⟩ := (assembled_of_assemble hc hp ha).renders hx hadmin
    rw [htext]
    refine ⟨(braced_of_offers he hoffers).render b.timelocked, ?_⟩
    intro himports
    rw [hadmin] at himports
    cases himports
  · rcases hp.writer_of_fragment hc ha hx hadmin with
      ⟨cap, id, ls, -, -, hls, htext⟩ | ⟨f, -, -, o, ho, htext⟩
    · cases cap
      rw [htext, sift_joinLines]
      refine ⟨Router.balanced_section hls, ?_⟩
      intro himports
      rw [himports] at hls
      cases hls
      exact Router.siftAll_imports
    · have hbraced := FeatureKind.braced_of_output he ho
      obtain ⟨ls, hls, htext⟩ := Option.map_eq_some_iff.mp htext
      rw [← htext, sift_joinLines]
      refine ⟨hbraced.sections x.hook ls hls, ?_⟩
      intro himports
      rw [himports] at hls
      exact hbraced.imports ls hls

end Plan

namespace Catalog

variable {c : Catalog} {s : Spec} {settings : Settings} {art : Artifact}

theorem sift_contractName (s : Spec) : sift isBrace s.contractName = [] :=
  sift_isBrace_of_forall isNameChar_of_mem_identifierOf (by decide) (by decide)

theorem braced_of_generate (hc : c.verify = .ok ()) (h : c.generate s settings = .ok art)
    (hname : sift isBrace s.name = []) (hlicense : sift isBrace settings.license = []) :
    ∃ p a, c.plan s = .ok p ∧ p.assemble s settings = .ok a ∧ art = .ofAssembly a ∧ a.Braced := by
  have hs := admissible_of_generate h
  obtain ⟨p, a, hp, ha, hart⟩ := exists_assemble_of_generate h
  refine ⟨p, a, hp, ha, hart, ?_⟩
  have hsymbol : sift isBrace (Text.trim s.symbol) = [] :=
    sift_isBrace_of_forall hs.symbol.alphanum (by decide) (by decide)
  have hexpression : sift isBrace s.supplyExpression = [] := by
    rw [sift_supplyExpression]
    exact sift_isBrace_of_forall hs.totalSupply.digits (by decide) (by decide)
  have hfragments {x : Fragment} (hx : x ∈ a.fragments) :=
    (Plan.follows_of_plan hp).balanced_fragment (verify_eq_ok_iff.mp hc) hexpression ha hx
  have hheader := Plan.header_of_assemble ha
  constructor
  · rw [hheader]
    simp only [List.forall_mem_cons, List.not_mem_nil, false_imp_iff, implies_true, and_true]
    exact ⟨hlicense, sift_contractName s, sift_trim hname, hsymbol, hexpression⟩
  · intro t ht
    obtain ⟨x, hx, rfl⟩ := List.mem_map.mp ht
    obtain ⟨hx, hhook⟩ := List.mem_filter.mp hx
    exact (hfragments hx).2 (beq_iff_eq.mp hhook)
  · intro x hx
    exact (hfragments hx).1

/-- A contract is nested as its members are, if no brace comes in by the name of the token, the licence
or the values that the stages of its transfer share. -/
theorem nested_of_generate (hc : c.verify = .ok ()) (h : c.generate s settings = .ok art)
    (hname : Braceless s.name) (hlicense : Braceless settings.license)
    (hvalues : ∀ f ∈ c.features, s.enables f → ∀ stage, f.transferStage = some stage →
      ∀ v ∈ stage.produces ++ stage.consumes, Braceless v.name ∧ Braceless v.solidityType) :
    ∃ p a, c.plan s = .ok p ∧ p.assemble s settings = .ok a ∧ art = .ofAssembly a ∧
      a.Nested art.sourceText := by
  rw [← sift_isBrace_eq_nil_iff] at hname hlicense
  obtain ⟨p, a, hp, ha, rfl, hbraced⟩ := braced_of_generate hc h hname hlicense
  refine ⟨p, a, hp, ha, rfl, Assembly.nested_sourceText hbraced ?_⟩
  have hframe : a.frame = p.frame := by
    obtain ⟨_, -, _, -, rfl⟩ := Plan.assemble_eq_ok_iff.mp ha
    rfl
  apply List.flatMap_eq_nil_iff.mpr
  intro d hd
  rw [hframe, (Plan.follows_of_plan hp).mem_declarations_iff] at hd
  obtain ⟨f, hf, hs, stage, hstage, v, hv, rfl⟩ := hd
  obtain ⟨hvname, htype⟩ := hvalues f hf hs stage hstage v hv
  rw [← sift_isBrace_eq_nil_iff] at hvname htype
  have hspace : sift isBrace " " = [] := sift_of_eq rfl
  have hend : sift isBrace ";" = [] := sift_of_eq rfl
  simp [SharedValue.declaration, hvname, htype, hspace, hend]

theorem nested_paired : standard.verify = .ok () ∧ ∃ art,
    standard.generate paired.token {} = .ok art ∧ ∃ p a, standard.plan paired.token = .ok p ∧
      p.assemble paired.token {} = .ok a ∧ art = .ofAssembly a ∧ a.Nested art.sourceText := by
  have hgen : (standard.generate paired.token {}).toOption.any fun _ ↦ true := by decide +kernel
  obtain ⟨art, hgen, -⟩ := exists_ok_of_any hgen
  have hvalues : ∀ f ∈ standard.features, ∀ stage ∈ f.transferStage,
      ∀ v ∈ stage.produces ++ stage.consumes, Braceless v.name ∧ Braceless v.solidityType := by
    decide +kernel
  refine ⟨verify_standard, art, hgen, ?_⟩
  exact nested_of_generate verify_standard hgen (by decide +kernel) (by decide +kernel)
    fun f hf _ stage hstage ↦ hvalues f hf stage hstage

def unclosed : Catalog :=
  ⟨[{ Tax.feature with transferStage := some ⟨200, [.feeAmount, ⟨"rest\x7b", "uint256"⟩], []⟩ }]⟩

/-- The brace in the name of a shared value is left open at the end of the contract. -/
theorem depth_unclosed : unclosed.verify = .ok () ∧ ∃ art,
    unclosed.generate unclosed.token {} = .ok art ∧ Braceless unclosed.token.name ∧
      Braceless ({} : Settings).license ∧ depth art.sourceText.toList = 1 := by
  have hverify : unclosed.verify = .ok () := verify_of_defect? (by decide +kernel)
  have hname : Braceless unclosed.token.name := by decide +kernel
  have hlicense : Braceless ({} : Settings).license := by decide +kernel
  have hvs : unclosed.violations unclosed.token = [] := by decide +kernel
  have hall : (unclosed.plan unclosed.token).toOption.any fun p ↦
      (p.assemble unclosed.token {}).toOption.any fun a ↦
        a.textsAt .transfer != [] &&
          a.frame.declarations == ["uint256 feeAmount;", "uint256 rest\x7b;"] := by
    decide +kernel
  obtain ⟨p, hp, hall⟩ := exists_ok_of_any hall
  obtain ⟨a, ha, hframe⟩ := exists_ok_of_any hall
  obtain ⟨hstages, hframe⟩ := Bool.and_eq_true_iff.mp hframe
  have hgen := generate_of_assemble hvs hp ha
  refine ⟨hverify, _, hgen, hname, hlicense, ?_⟩
  rw [← sift_isBrace_eq_nil_iff] at hname hlicense
  obtain ⟨q, b, hq, hb, -, hbraced⟩ := braced_of_generate hverify hgen hname hlicense
  obtain rfl : p = q := Except.ok.inj (hp.symm.trans hq)
  obtain rfl : a = b := Except.ok.inj (ha.symm.trans hb)
  have hdepth := Assembly.depth_sourceText hbraced (bne_iff_ne.mp hstages)
  rw [beq_iff_eq.mp hframe] at hdepth
  exact hdepth.trans (by decide +kernel)

end Catalog

end TokenContract
