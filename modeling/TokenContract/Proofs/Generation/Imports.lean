import TokenContract.Proofs.Generation.Naming
import TokenContract.Proofs.Generation.References
import TokenContract.Proofs.Source.Imports

namespace TokenContract

open Results
open Solidity (importOf)
open Text (joinLines lines_joinLines trim)

namespace Solidity

/-- A line that imports the type of a name, which is that of its file. -/
def ImportsType (line typeName : String) : Prop :=
  ∃ directory, line = importOf (directory ++ "/" ++ typeName ++ ".sol")

theorem eq_of_append_cons_eq {α : Type} {c : α} {xs ys as bs : List α} (has : c ∉ as) (hbs : c ∉ bs)
    (h : xs ++ c :: as = ys ++ c :: bs) : as = bs := by
  rcases List.append_eq_append_iff.mp h with ⟨zs, -, hzs⟩ | ⟨zs, -, hzs⟩
  · cases zs with
    | nil => exact (List.cons.inj hzs).2
    | cons z zs =>
      refine absurd ?_ has
      rw [(List.cons.inj hzs).2]
      simp
  · cases zs with
    | nil => exact (List.cons.inj hzs).2.symm
    | cons z zs =>
      refine absurd ?_ hbs
      rw [(List.cons.inj hzs).2]
      simp

theorem importsType_importOf_iff {directory typeName name : String} (htype : '/' ∉ typeName.toList)
    (hname : '/' ∉ name.toList) :
    ImportsType (importOf (directory ++ "/" ++ typeName ++ ".sol")) name ↔ name = typeName := by
  constructor
  · intro h
    obtain ⟨other, h⟩ := h
    have hslash : "/".toList = ['/'] := rfl
    have htail : '/' ∉ ".sol".toList ++ "\";".toList := by decide +kernel
    have hfile {s : String} (hs : '/' ∉ s.toList) :
        '/' ∉ s.toList ++ (".sol".toList ++ "\";".toList) := by
      rw [List.mem_append]
      exact not_or.mpr ⟨hs, htail⟩
    have hlist := congrArg String.toList h
    simp only [importOf, String.toList_append, List.append_assoc, List.append_cancel_left_eq,
      hslash, List.cons_append, List.nil_append] at hlist
    have hfiles := eq_of_append_cons_eq (hfile htype) (hfile hname) hlist
    exact String.toList_inj.mp (List.append_cancel_right hfiles).symm
  · rintro rfl
    exact ⟨directory, rfl⟩

end Solidity

theorem exists_reserved_of_mem_imports : ∀ l ∈ baseImports ++ Router.imports,
    ∃ directory, ∃ typeName ∈ reservedNames,
      l = importOf (directory ++ "/" ++ typeName ++ ".sol") := by
  simp only [baseImports, Router.imports, List.cons_append, List.nil_append, List.forall_mem_cons,
    List.not_mem_nil, false_imp_iff, implies_true, and_true]
  refine ⟨?_, ?_, ?_, ?_⟩
  · exact ⟨"@openzeppelin/contracts/token/ERC20", "ERC20", by decide, by decide +kernel⟩
  · exact ⟨"@openzeppelin/contracts/access", "Ownable", by decide, by decide +kernel⟩
  · exact ⟨"@uniswap/v2-core/contracts/interfaces", "IUniswapV2Factory", by decide,
      by decide +kernel⟩
  · exact ⟨"@uniswap/v2-periphery/contracts/interfaces", "IUniswapV2Router02", by decide,
      by decide +kernel⟩

namespace Reflection

def mathImport : String :=
  importOf ("@openzeppelin/contracts/utils/math" ++ "/" ++ "Math" ++ ".sol")

theorem imports_of_output {r : Resolved} {e : Environment} {o : Output} (h : output r e = .ok o) :
    o.sections .imports = some [mathImport] := by
  have hpath : "@openzeppelin/contracts/utils/math/Math.sol" =
      "@openzeppelin/contracts/utils/math" ++ "/" ++ "Math" ++ ".sol" := by decide +kernel
  obtain ⟨_, -, h⟩ := bind_eq_ok_iff.mp h
  cases h
  change some [importOf "@openzeppelin/contracts/utils/math/Math.sol"] = _
  rw [hpath, mathImport]

theorem lines_mathImport : Text.lines (joinLines [mathImport]) = [mathImport] :=
  lines_joinLines (by decide +kernel) (by decide +kernel)

theorem trim_mathImport : trim mathImport = mathImport ∧ mathImport ≠ "" := by
  decide +kernel

end Reflection

theorem FeatureKind.eq_reflection_of_imports {k : FeatureKind} {r : Resolved} {e : Environment}
    {o : Output} (h : k.output r e = .ok o) {ls : List String}
    (hls : o.sections .imports = some ls) : k = .reflection := by
  have hhook := (((ofKind_of_output h).sections .imports).mp (Option.isSome_of_eq_some hls)).1
  revert hhook
  cases k with
  | tax | antibot | autoLiquidity | timelock => decide
  | reflection => exact fun _ ↦ rfl

theorem Assembly.mem_imports_iff {a : Assembly} {l : String} : l ∈ a.imports ↔ l ∈ baseImports ∨
    ∃ x ∈ a.fragments, x.hook = .imports ∧ ∃ m ∈ Text.lines x.text, trim m = l ∧ l ≠ "" := by
  simp only [imports, List.mem_eraseDups, List.mem_append, List.mem_filter, List.mem_map,
    List.mem_flatMap, textsAt]
  refine or_congr_right ⟨fun h ↦ ?_, fun h ↦ ?_⟩
  · obtain ⟨⟨m, ⟨_, ⟨x, ⟨hx, hhook⟩, rfl⟩, hm⟩, rfl⟩, hne⟩ := h
    exact ⟨x, hx, beq_iff_eq.mp hhook, m, hm, rfl, by simpa using hne⟩
  · obtain ⟨x, hx, hhook, m, hm, rfl, hne⟩ := h
    exact ⟨⟨m, ⟨_, ⟨x, ⟨hx, beq_iff_eq.mpr hhook⟩, rfl⟩, hm⟩, rfl⟩, by simpa using hne⟩

namespace Plan

variable {p : Plan} {c : Catalog} {s : Spec} {settings : Settings} {a : Assembly}

theorem imports_of_write {f : PlannedFeature} {o : Output} (h : p.write s f = .ok o)
    (hkind : f.kind = .reflection) : o.sections .imports = some [Reflection.mathImport] := by
  rw [write, hkind] at h
  exact Reflection.imports_of_output (e := s.environment p) h

theorem Follows.mem_imports (hc : c.Sound) (hp : p.Follows c s) (ha : p.assemble s settings = .ok a)
    {l : String} (hl : l ∈ a.imports) : l ∈ baseImports ++ Router.imports ∨
      l = Reflection.mathImport ∧ ∃ f ∈ c.features, s.enables f ∧ f.kind = .reflection := by
  have hrouter : Text.lines (joinLines Router.imports) = Router.imports :=
    lines_joinLines (by decide +kernel) (by decide +kernel)
  have htrim : ∀ m ∈ Router.imports, trim m = m := by decide +kernel
  rcases Assembly.mem_imports_iff.mp hl with hl | ⟨x, hx, hhook, m, hm, rfl, -⟩
  · exact .inl (List.mem_append_left _ hl)
  · rcases hp.writer_of_fragment hc ha hx (by rw [hhook]; decide) with
      ⟨cap, id, ls, -, -, hls, htext⟩ | ⟨f, hf, -, o, ho, htext⟩
    · cases cap
      rw [hhook] at hls
      cases hls
      rw [htext, hrouter] at hm
      rw [htrim m hm]
      exact .inl (List.mem_append_right _ hm)
    · obtain ⟨ls, hls, htext⟩ := Option.map_eq_some_iff.mp htext
      rw [hhook] at hls
      have hkind := FeatureKind.eq_reflection_of_imports ho hls
      rw [imports_of_write ho hkind] at hls
      cases hls
      rw [← htext, Reflection.lines_mathImport] at hm
      obtain rfl := List.mem_singleton.mp hm
      rw [Reflection.trim_mathImport.1]
      exact .inr ⟨rfl, (hp.exists_feature_iff fun _ k ↦ k = .reflection).mp ⟨f, hf, hkind⟩⟩

theorem Follows.mathImport_mem_imports (hc : c.Sound) (hp : p.Follows c s)
    (ha : p.assemble s settings = .ok a)
    (h : ∃ f ∈ c.features, s.enables f ∧ f.kind = .reflection) :
    Reflection.mathImport ∈ a.imports := by
  obtain ⟨f, hf, hkind⟩ := (hp.exists_feature_iff fun _ k ↦ k = .reflection).mpr h
  obtain ⟨o, ho⟩ := (complete_of_assemble ha).written f hf
  have htext : o.text? .imports = some (joinLines [Reflection.mathImport]) := by
    rw [Output.text?, imports_of_write ho hkind]
    rfl
  have hlast := last_of_nodup (hp.features ▸ hc.nodup_planned s) hf
  have hmem := section_mem_fragments hlast ha ho htext
  have hline : Reflection.mathImport ∈ Text.lines (joinLines [Reflection.mathImport]) := by
    rw [Reflection.lines_mathImport]
    exact List.mem_cons_self
  exact Assembly.mem_imports_iff.mpr
    (.inr ⟨_, hmem, rfl, Reflection.mathImport, hline, Reflection.trim_mathImport⟩)

end Plan

namespace Catalog

open Solidity (ImportsType importsType_importOf_iff)

variable {c : Catalog} {s : Spec} {settings : Settings} {art : Artifact}

theorem importsType_contractName_iff (hc : c.Sound) (h : c.generate s settings = .ok art) :
    (∃ l ∈ Text.lines art.sourceText, ImportsType l s.contractName) ↔
      (∃ l ∈ Text.lines ("// SPDX-License-Identifier: " ++ settings.license ++ "\n"),
        ImportsType l s.contractName) ∨
      s.contractName = "Math" ∧ ∃ f ∈ c.features, s.enables f ∧ f.kind = .reflection := by
  obtain ⟨p, a, hplan, ha, rfl⟩ := exists_assemble_of_generate h
  have hp := Plan.follows_of_plan hplan
  have hheader := Plan.header_of_assemble ha
  have hfeedless : a.header.Feedless := by
    rw [hheader]
    exact feedless_header (validate_of_generate h) settings
  have hlicense : a.header.license = settings.license := by rw [hheader, Spec.header]
  have hlines := Assembly.importOf_mem_lines_iff hfeedless
  rw [hlicense] at hlines
  have hslash : '/' ∉ s.contractName.toList := by
    intro hmem
    exact absurd (isNameChar_of_mem_identifierOf _ hmem) (by decide)
  have hmath : ImportsType Reflection.mathImport s.contractName ↔ s.contractName = "Math" :=
    importsType_importOf_iff (by decide) hslash
  constructor
  · intro hex
    obtain ⟨l, hl, directory, rfl⟩ := hex
    rcases (hlines _).mp hl with hl | hl
    · exact .inl ⟨_, hl, directory, rfl⟩
    · rcases hp.mem_imports hc ha hl with hl | ⟨hl, hreflection⟩
      · obtain ⟨other, typeName, hreserved, he⟩ := exists_reserved_of_mem_imports _ hl
        have hfree : ∀ r ∈ reservedNames, '/' ∉ r.toList := by decide +kernel
        have hname := (importsType_importOf_iff (hfree typeName hreserved) hslash).mp
          ⟨directory, he.symm⟩
        rw [← hname] at hreserved
        exact absurd hreserved (notMem_reservedNames_identifierOf s.name)
      · exact .inr ⟨hmath.mp ⟨directory, hl.symm⟩, hreflection⟩
  · intro hex
    rcases hex with ⟨l, hl, directory, rfl⟩ | ⟨hname, hreflection⟩
    · exact ⟨_, (hlines _).mpr (.inl hl), directory, rfl⟩
    · have himport := hp.mathImport_mem_imports hc ha hreflection
      exact ⟨_, (hlines _).mpr (.inr himport), hmath.mpr hname⟩

end Catalog

/-- When a contract has the name of a type that it imports: it does if a feature brings `Math` along
and the contract is named so, or if its licence makes up a line of its own that reads so. -/
structure Artifact.Shadows (art : Artifact) (s : Spec) (settings : Settings) : Prop where
  reserved : art.contractName ∉ reservedNames
  imported : (∃ l ∈ Text.lines art.sourceText, Solidity.ImportsType l art.contractName) ↔
    (∃ l ∈ Text.lines ("// SPDX-License-Identifier: " ++ settings.license ++ "\n"),
      Solidity.ImportsType l art.contractName) ∨
    art.contractName = "Math" ∧ s.enables Reflection.feature
  license : '\n' ∉ settings.license.toList →
    ¬∃ l ∈ Text.lines ("// SPDX-License-Identifier: " ++ settings.license ++ "\n"),
      Solidity.ImportsType l art.contractName

namespace Catalog

variable {s : Spec} {settings : Settings} {art : Artifact}

theorem contractName_of_generate {c : Catalog} (h : c.generate s settings = .ok art) :
    art.contractName = s.contractName := by
  obtain ⟨p, a, -, ha, rfl⟩ := exists_assemble_of_generate h
  change a.header.contractName = _
  rw [Plan.header_of_assemble ha, Spec.header]

theorem not_importsType_license {license : String} (h : '\n' ∉ license.toList) (name : String) :
    ¬∃ l ∈ Text.lines ("// SPDX-License-Identifier: " ++ license ++ "\n"),
      Solidity.ImportsType l name := by
  intro hex
  obtain ⟨_, hl, directory, rfl⟩ := hex
  have hfeedless : ∀ m ∈ ["// SPDX-License-Identifier: " ++ license], '\n' ∉ m.toList :=
    List.forall_mem_singleton.mpr
      (Text.notMem_append.mpr ⟨Text.notMem_of_eq rfl (by decide), h⟩)
  rw [← Text.endLines_singleton] at hl
  obtain ⟨m, hm, cs, hcs⟩ := Text.exists_prefix_of_mem_lines_endLines hfeedless hl
  obtain rfl := List.mem_singleton.mp hm
  have hhead := congrArg List.head? hcs
  have hslash : "// SPDX-License-Identifier: ".toList.head? = some '/' := rfl
  rw [List.head?_append, Solidity.head?_importOf, String.toList_append, List.head?_append, hslash,
    Option.some_or, Option.some_or] at hhead
  exact absurd hhead (by decide)

theorem shadows_of_generate (h : standard.generate s settings = .ok art) :
    art.Shadows s settings := by
  have hname := contractName_of_generate h
  have hreflection : (∃ f ∈ standard.features, s.enables f ∧ f.kind = .reflection) ↔
      s.enables Reflection.feature := by
    simp [standard, Tax.feature, Antibot.feature, Reflection.feature, AutoLiquidity.feature,
      Timelock.feature]
  constructor
  · rw [hname]
    exact notMem_reservedNames_identifierOf s.name
  · rw [hname, importsType_contractName_iff regular_standard.sound h, hreflection]
  · exact fun hfeed ↦ not_importsType_license hfeed _

def rewarding (name : String) : Spec :=
  { (⟨[Reflection.feature]⟩ : Catalog).token with name }

theorem shadows_rewarding : ∃ art, standard.generate (rewarding "ERC20") {} = .ok art ∧
    art.Shadows (rewarding "ERC20") {} := by
  have hgen : (standard.generate (rewarding "ERC20") {}).toOption.any fun _ ↦ true := by
    decide +kernel
  obtain ⟨art, hgen, -⟩ := exists_ok_of_any hgen
  exact ⟨art, hgen, shadows_of_generate hgen⟩

/-- The library for products is imported by a contract of its name. -/
theorem math_rewarding : ∃ art, standard.generate (rewarding "Math") {} = .ok art ∧
    art.contractName = "Math" ∧
    "contract Math is ERC20, Ownable \x7b" ∈ Text.lines art.sourceText ∧
    ∃ l ∈ Text.lines art.sourceText, Solidity.ImportsType l art.contractName := by
  have hgen : (standard.generate (rewarding "Math") {}).toOption.any fun _ ↦ true := by
    decide +kernel
  obtain ⟨art, hgen, -⟩ := exists_ok_of_any hgen
  have hname : (rewarding "Math").contractName = "Math" := by decide +kernel
  have hart := (contractName_of_generate hgen).trans hname
  refine ⟨art, hgen, hart, ?_, ?_⟩
  · obtain ⟨p, a, -, ha, hnamed, hlines⟩ := exists_lines_of_generate hgen
    have hhead : a.header.contractLine = "contract Math is ERC20, Ownable \x7b" := by
      rw [hnamed.head, hname]
      decide +kernel
    rw [hlines, ← hhead]
    exact List.mem_append_left _ (List.mem_append_right _ List.mem_cons_self)
  · rw [hart, ← hname, importsType_contractName_iff regular_standard.sound hgen]
    exact .inr ⟨hname, Reflection.feature, by simp [standard], by decide +kernel, rfl⟩

end Catalog

end TokenContract
