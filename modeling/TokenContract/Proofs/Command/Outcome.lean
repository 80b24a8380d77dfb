import TokenContract.Command.Run
import TokenContract.Proofs.Generation.Outcome

namespace TokenContract

namespace Command

variable {m : Type → Type} [Monad m] {h : Host m} {settings : Settings} {s : Spec}

/-- How the two commands end on a specification, by what is generated for it. -/
structure Agree (h : Host m) (settings : Settings) (s : Spec) : Prop where
  accepted : ∀ a, Catalog.standard.generate s settings = .ok a →
    runValidate h s = h.print ((validationReport []).pretty ++ "\n") ∧
    ∀ out format, runGenerate h settings s out format = h.write out (a.written format)
  rejected : ∀ vs, Catalog.standard.generate s settings = .error (.invalid vs) →
    runValidate h s = (do
      h.print ((validationReport vs).pretty ++ "\n")
      throw (.rejected vs.length)) ∧
    ∀ out format, runGenerate h settings s out format = (do
      vs.forM fun v ↦ h.report ("  " ++ v.display)
      throw (.rejected vs.length))
  refused : ∀ d, Catalog.standard.generate s settings = .error (.defect d) →
    runValidate h s = throw (.defect d) ∧
    ∀ out format, runGenerate h settings s out format = throw (.defect d)

theorem generate_empty (settings : Settings) (s : Spec) :
    (History.generate {} .standard settings s).1 = Catalog.standard.generate s settings :=
  rfl

theorem runGenerate_of_ok {a : Artifact} (ha : Catalog.standard.generate s settings = .ok a)
    (out : Option String) (format : OutputFormat) :
    runGenerate h settings s out format = h.write out (a.written format) := by
  rw [runGenerate, generate_empty, ha]

theorem runGenerate_of_invalid {vs : List Violation}
    (hvs : Catalog.standard.generate s settings = .error (.invalid vs)) (out : Option String)
    (format : OutputFormat) : runGenerate h settings s out format = (do
      vs.forM fun v ↦ h.report ("  " ++ v.display)
      throw (.rejected vs.length)) := by
  rw [runGenerate, generate_empty, hvs]

theorem runGenerate_of_defect {d : Defect}
    (hd : Catalog.standard.generate s settings = .error (.defect d)) (out : Option String)
    (format : OutputFormat) : runGenerate h settings s out format = throw (.defect d) := by
  rw [runGenerate, generate_empty, hd]

theorem runValidate_of_ne_nil (hvs : Catalog.standard.violations s ≠ []) :
    runValidate h s = (do
      h.print ((validationReport (Catalog.standard.violations s)).pretty ++ "\n")
      throw (.rejected (Catalog.standard.violations s).length)) := by
  simp [runValidate, hvs]

variable [LawfulMonad m]

theorem runValidate_of_plan (hvs : Catalog.standard.violations s = []) {p : Plan}
    (hp : Catalog.standard.plan s = .ok p) :
    runValidate h s = h.print ((validationReport []).pretty ++ "\n") := by
  simp [runValidate, hvs, hp]

theorem runValidate_of_defect (hvs : Catalog.standard.violations s = []) {d : Defect}
    (hd : Catalog.standard.plan s = .error d) : runValidate h s = throw (.defect d) := by
  simp [runValidate, hvs, hd]

theorem agree (h : Host m) (settings : Settings) (s : Spec) : Agree h settings s := by
  have hcases := Catalog.regular_standard.generate_cases s settings
  constructor
  · intro a ha
    refine ⟨?_, runGenerate_of_ok ha⟩
    rw [ha] at hcases
    rcases hcases with ⟨-, hgen⟩ | ⟨-, k, -, hgen⟩ | ⟨hvs, -, ⟨p, hp⟩, -⟩
    · cases hgen
    · cases hgen
    · exact runValidate_of_plan hvs hp
  · intro vs hvs
    refine ⟨?_, runGenerate_of_invalid hvs⟩
    rw [hvs] at hcases
    rcases hcases with ⟨hne, hgen⟩ | ⟨-, k, -, hgen⟩ | ⟨-, -, -, a, hgen⟩
    · cases hgen
      exact runValidate_of_ne_nil hne
    · cases hgen
    · cases hgen
  · intro d hd
    refine ⟨?_, runGenerate_of_defect hd⟩
    rw [hd] at hcases
    rcases hcases with ⟨-, hgen⟩ | ⟨hvs, k, hk, hgen⟩ | ⟨-, -, -, a, hgen⟩
    · cases hgen
    · cases hgen
      exact runValidate_of_defect hvs hk.plan_eq
    · cases hgen

/-- With the standard catalog a specification is rejected with its violations, refused for its first
unknown feature or generated, and both commands end accordingly. -/
theorem decides_and_agree (h : Host m) (settings : Settings) (s : Spec) :
    Catalog.standard.Decides s settings ∧ Agree h settings s :=
  ⟨Catalog.regular_standard.decides s settings, agree h settings s⟩

def transcript : Host (StateM (List String)) where
  textOf _ := pure none
  input := pure none
  save _ _ := pure false
  print text := modify (· ++ [text])
  report text := modify (· ++ [text])

theorem decides_and_agree_guardedTax : LawfulMonad (StateM (List String)) ∧
    Catalog.standard.Decides guardedTax {} ∧ Agree transcript {} guardedTax :=
  ⟨inferInstance, decides_and_agree transcript {} guardedTax⟩

end Command

end TokenContract
