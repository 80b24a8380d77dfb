import TokenContract.Generation
import TokenContract.Proofs.Plan.Selection

namespace TokenContract

variable {c : Catalog} {s t : Spec} {settings : Settings}

theorem Catalog.plan_congr (hknown : c.checkKnown s = c.checkKnown t)
    (hresolved : c.resolved s = c.resolved t) : c.plan s = c.plan t := by
  have henabled : c.enabled s = c.enabled t := by
    rw [← map_fst_resolved, hresolved, map_fst_resolved]
  have hfeatures : c.plannedFeatures s = c.plannedFeatures t := by
    rw [plannedFeatures, hresolved]
    rfl
  have hplanOf : c.planOf s = c.planOf t := by
    funext transfer scope setters
    simp only [planOf, hfeatures, henabled]
  simp only [plan_eq, hknown, henabled, hfeatures, hresolved, hplanOf]

theorem Plan.assemble_congr (hheader : s.header settings = t.header settings) (p : Plan) :
    p.assemble s settings = p.assemble t settings := by
  have hsupply : s.supplyExpression = t.supplyExpression := congrArg Header.supply hheader
  have henvironment : s.environment p = t.environment p := by
    rw [Spec.environment, Spec.environment, hsupply]
  rw [Plan.assemble, Plan.assemble, henvironment, hheader]

theorem Catalog.generate_congr (hviolations : c.violations s = c.violations t)
    (hknown : c.checkKnown s = c.checkKnown t)
    (hresolved : c.violations s = [] → c.resolved s = c.resolved t)
    (hheader : s.header settings = t.header settings) :
    c.generate s settings = c.generate t settings := by
  unfold generate validate
  rw [← hviolations]
  cases hs : c.violations s with
  | cons v vs => rfl
  | nil =>
    have hassembly : c.assembly s settings = c.assembly t settings := by
      rw [assembly, assembly, plan_congr hknown (hresolved hs)]
      simp only [Plan.assemble_congr hheader]
    rw [hassembly]

end TokenContract
