import TokenContract.Proofs.Feature.References
import TokenContract.Proofs.Generation.Timelock

namespace TokenContract

open Results Text

/-- A contract that declares the names of the router. -/
def Assembly.DeclaresRouter (a : Assembly) : Prop :=
  ∀ d ∈ Router.declarations, ∃ x ∈ a.fragments, x.hook = d.1 ∧ d.2 ∈ Text.lines x.text

def Assembly.FeeDeclared (a : Assembly) : Prop :=
  (∃ x ∈ a.fragments, x.hook = .transfer ∧ Mentions x.text "feeAmount") →
    "uint256 feeAmount;" ∈ a.frame.declarations

/-- If a name of the router is used, there is a router in the plan and in the contract. -/
def Plan.RouterDeclared (p : Plan) (a : Assembly) : Prop :=
  (∃ x ∈ a.fragments, ∃ n ∈ Router.names, Mentions x.text n) →
    p.hasCapability .swapRouter ∧ a.DeclaresRouter

namespace Catalog

/-- A feature whose text uses the router is only enabled along with one that asks for it. -/
def CoversRouter (c : Catalog) (s : Spec) : Prop :=
  (∃ f ∈ c.features, s.enables f ∧ f.kind.usesRouter) →
    ∃ f ∈ c.features, s.enables f ∧ .swapRouter ∈ f.capabilities

/-- A feature whose text uses the fee is only enabled along with one that shares it. -/
def CoversFee (c : Catalog) (s : Spec) : Prop :=
  (∃ f ∈ c.features, s.enables f ∧ f.kind.usesFee) →
    ∃ f ∈ c.features, s.enables f ∧ ∃ stage, f.transferStage = some stage ∧
      .feeAmount ∈ stage.produces ++ stage.consumes

end Catalog

namespace SharedValue

theorem toList_declaration (v : SharedValue) :
    v.declaration.toList = v.solidityType.toList ++ ' ' :: (v.name.toList ++ [';']) := by
  have hspace : " ".toList = [' '] := rfl
  have hend : ";".toList = [';'] := rfl
  rw [declaration, String.toList_append, String.toList_append, String.toList_append, hspace, hend,
    List.append_assoc, List.append_assoc]
  rfl

theorem declaration_eq_iff {v : SharedValue} :
    v.declaration = "uint256 feeAmount;" ↔ v = .feeAmount := by
  have hfee : feeAmount.declaration = "uint256 feeAmount;" := rfl
  rw [← hfee]
  constructor
  · intro h
    have hone : ' ' ∉ "uint256".toList ∧ ' ' ∉ "feeAmount".toList ++ [';'] := by decide
    have hchars := congrArg String.toList h.symm
    rw [toList_declaration, toList_declaration] at hchars
    obtain ⟨htype, -, hname⟩ := (List.append_cons_inj_of_notMem hone.1 hone.2).mp hchars
    have htype := String.toList_inj.mp htype
    have hname := String.toList_inj.mp (List.append_cancel_right hname)
    exact congr (congrArg SharedValue.mk hname.symm) htype.symm
  · rintro rfl
    rfl

end SharedValue

namespace Plan

variable {p : Plan} {c : Catalog} {s : Spec} {settings : Settings} {a : Assembly}

theorem Follows.hasCapability_iff (hp : p.Follows c s) {cap : Capability} :
    p.hasCapability cap ↔ ∃ f ∈ c.features, s.enables f ∧ cap ∈ f.capabilities := by
  rw [hasCapability, hp.capabilities]
  exact isSome_ownerOf?_iff

theorem Follows.capability_mem_fragments (hc : c.Sound) (hp : p.Follows c s)
    (ha : p.assemble s settings = .ok a) {cap : Capability} {id : FeatureId}
    (hid : p.capabilities cap = some id) {h : Hook} {ls : List String}
    (hls : cap.section? h = some ls) : ⟨h, .capability cap id, joinLines ls⟩ ∈ a.fragments := by
  obtain ⟨os, hos, fss, hfss, rfl⟩ := assemble_eq_ok_iff.mp ha
  obtain ⟨_, harranged⟩ := exists_arranged hc hp h
  have hh : h ∈ cap.hooks := (cap.isSome_section? h).mp (Option.isSome_of_eq_some hls)
  apply (mem_fragments_iff hfss).mpr
  refine ⟨h, _, harranged.mem_capability_iff.mpr ⟨hh, hid⟩, _, ?_, List.mem_singleton_self _⟩
  rw [fragmentsOf, hls]

theorem Follows.declaresRouter (hc : c.Sound) (hp : p.Follows c s)
    (ha : p.assemble s settings = .ok a) (h : p.hasCapability .swapRouter) : a.DeclaresRouter := by
  obtain ⟨id, hid⟩ := Option.isSome_iff_exists.mp h
  intro d hd
  obtain ⟨ls, hls, hm⟩ := Router.mem_section d hd
  obtain ⟨hunbroken, hne⟩ := Router.unbroken_declarations d hd
  exact ⟨_, hp.capability_mem_fragments hc ha hid hls, rfl, mem_lines_joinLines hm hunbroken hne⟩

theorem Follows.lacks_router (hc : c.Sound) (hp : p.Follows c s)
    (ha : p.assemble s settings = .ok a) (he : sift isTelling s.supplyExpression = [])
    (hrouter : p.hasCapability .swapRouter = false)
    (hkinds : ∀ f ∈ p.features, f.kind.usesRouter = false) {x : Fragment} (hx : x ∈ a.fragments) :
    Lacks isTelling (sift isTelling x.text) Router.names := by
  by_cases hadmin : x.hook = .admin
  · obtain ⟨b, -, st, hoffers, -, htext, -⟩ := (assembled_of_assemble hc hp ha).renders hx hadmin
    rw [htext]
    cases hb : b.contributor with
    | base =>
      rw [hb] at hoffers
      exact Setter.lacks_inherited b.timelocked st hoffers
    | capability cap owner =>
      rw [hb] at hoffers
      exact absurd hoffers not_false
    | feature id =>
      rw [hb] at hoffers
      obtain ⟨f, hf, -, o, ho, hst⟩ := hoffers
      exact FeatureKind.lacks_setters ho (hkinds f hf) hst b.timelocked
  · rcases hp.writer_of_fragment hc ha hx hadmin with
      ⟨cap, id, ls, -, hid, -, -⟩ | ⟨f, hf, -, o, ho, htext⟩
    · cases cap
      rw [hasCapability, hid] at hrouter
      cases hrouter
    · obtain ⟨ls, hls, htext⟩ := Option.map_eq_some_iff.mp htext
      rw [← htext, sift_joinLines]
      exact FeatureKind.lacks_router ho (hkinds f hf) he hrouter hls

theorem Follows.routerDeclared_iff (hc : c.Sound) (hp : p.Follows c s)
    (ha : p.assemble s settings = .ok a) (he : sift isTelling s.supplyExpression = []) :
    p.RouterDeclared a ↔ c.CoversRouter s := by
  have huses := hp.exists_feature_iff fun _ kind ↦ kind.usesRouter
  have hd : (p.features.map (·.id)).Nodup := hp.features ▸ hc.nodup_planned s
  constructor
  · intro h hkinds
    obtain ⟨f, hf, hkind⟩ := huses.mpr hkinds
    obtain ⟨o, ho⟩ := (complete_of_assemble ha).written f hf
    obtain ⟨text, htext, hm⟩ := FeatureKind.mentions_router ho hkind
    have hx := section_mem_fragments (last_of_nodup hd hf) ha ho htext
    exact hp.hasCapability_iff.mp (h ⟨_, hx, _, by decide +kernel, hm⟩).1
  · intro hcovers hm
    obtain ⟨x, hx, n, hn, hm⟩ := hm
    have hrouter : p.hasCapability .swapRouter := by
      by_cases hkinds : ∃ f ∈ p.features, f.kind.usesRouter
      · exact hp.hasCapability_iff.mpr (hcovers (huses.mp hkinds))
      · by_contra hnot
        have hlacks := hp.lacks_router hc ha he (by simpa using hnot) (by simpa using hkinds) hx
        exact hlacks.not_mentions n hn hm
    exact ⟨hrouter, hp.declaresRouter hc ha hrouter⟩

theorem Follows.feeDeclared_iff (hc : c.Sound) (hp : p.Follows c s)
    (ha : p.assemble s settings = .ok a) : a.FeeDeclared ↔ c.CoversFee s := by
  have huses := hp.exists_feature_iff fun _ kind ↦ kind.usesFee
  have hd : (p.features.map (·.id)).Nodup := hp.features ▸ hc.nodup_planned s
  have hdeclared : "uint256 feeAmount;" ∈ a.frame.declarations ↔
      ∃ f ∈ c.features, s.enables f ∧ ∃ stage, f.transferStage = some stage ∧
        .feeAmount ∈ stage.produces ++ stage.consumes := by
    have hframe : a.frame = p.frame := by
      obtain ⟨_, -, _, -, rfl⟩ := assemble_eq_ok_iff.mp ha
      rfl
    rw [hframe, hp.mem_declarations_iff]
    simp only [SharedValue.declaration_eq_iff, exists_eq_right]
  rw [Assembly.FeeDeclared, hdeclared, Catalog.CoversFee, ← huses]
  apply imp_congr_left
  constructor
  · intro h
    obtain ⟨x, hx, hhook, hm⟩ := h
    by_contra hnone
    rcases hp.writer_of_fragment hc ha hx (by rw [hhook]; decide) with
      ⟨cap, id, ls, -, -, hls, -⟩ | ⟨f, hf, -, o, ho, htext⟩
    · cases cap
      rw [hhook] at hls
      cases hls
    · obtain ⟨ls, hls, htext⟩ := Option.map_eq_some_iff.mp htext
      rw [hhook] at hls
      have hkind : f.kind.usesFee = false := by
        rw [Bool.eq_false_iff]
        exact fun hkind ↦ hnone ⟨f, hf, hkind⟩
      have hlacks := FeatureKind.lacks_fee ho hkind hls
      rw [← sift_joinLines, htext] at hlacks
      exact hlacks.not_mentions _ (List.mem_singleton_self _) hm
  · intro h
    obtain ⟨f, hf, hkind⟩ := h
    obtain ⟨o, ho⟩ := (complete_of_assemble ha).written f hf
    obtain ⟨text, htext, hm⟩ := FeatureKind.mentions_fee ho hkind
    exact ⟨_, section_mem_fragments (last_of_nodup hd hf) ha ho htext, rfl, hm⟩

end Plan

namespace Catalog

variable {c : Catalog} {s : Spec} {settings : Settings} {art : Artifact}

theorem sift_isTelling_supplyExpression (h : c.generate s settings = .ok art) :
    sift isTelling s.supplyExpression = [] := by
  have hdigits := (admissible_of_generate h).totalSupply.digits
  rw [sift_supplyExpression]
  apply sift_layout String.ofList_toList.symm
  rw [List.all_eq_true]
  intro ch hch
  rw [isLayout, hdigits ch hch, Bool.or_true]
  rfl

/-- The names of the router and the fee are declared where they are used, exactly if the enabled
features ask for the router and share the fee. -/
theorem declared_iff_of_generate (hc : c.verify = .ok ()) (h : c.generate s settings = .ok art) :
    ∃ p a, c.plan s = .ok p ∧ p.assemble s settings = .ok a ∧ art = .ofAssembly a ∧
      (p.RouterDeclared a ↔ c.CoversRouter s) ∧ (a.FeeDeclared ↔ c.CoversFee s) := by
  obtain ⟨p, a, hp, ha, hart⟩ := exists_assemble_of_generate h
  have hsound := verify_eq_ok_iff.mp hc
  have hfollows := Plan.follows_of_plan hp
  refine ⟨p, a, hp, ha, hart, ?_, hfollows.feeDeclared_iff hsound ha⟩
  exact hfollows.routerDeclared_iff hsound ha (sift_isTelling_supplyExpression h)

theorem declared_iff_paired : standard.verify = .ok () ∧ ∃ art,
    standard.generate paired.token {} = .ok art ∧ ∃ p a, standard.plan paired.token = .ok p ∧
      p.assemble paired.token {} = .ok a ∧ art = .ofAssembly a ∧
      (p.RouterDeclared a ↔ standard.CoversRouter paired.token) ∧
      (a.FeeDeclared ↔ standard.CoversFee paired.token) := by
  have hgen : (standard.generate paired.token {}).toOption.any fun _ ↦ true := by decide +kernel
  obtain ⟨art, hgen, -⟩ := exists_ok_of_any hgen
  exact ⟨verify_standard, art, hgen, declared_iff_of_generate verify_standard hgen⟩

theorem coversRouter_of_forall
    (h : ∀ f ∈ c.features, f.kind.usesRouter → .swapRouter ∈ f.capabilities) (s : Spec) :
    c.CoversRouter s := by
  intro huses
  obtain ⟨f, hf, hs, hkind⟩ := huses
  exact ⟨f, hf, hs, h f hf hkind⟩

theorem coversFee_of_forall (h : ∀ f ∈ c.features, f.kind.usesFee →
    ∃ stage ∈ f.transferStage, .feeAmount ∈ stage.produces ++ stage.consumes) (s : Spec) :
    c.CoversFee s := by
  intro huses
  obtain ⟨f, hf, hs, hkind⟩ := huses
  exact ⟨f, hf, hs, h f hf hkind⟩

theorem declared_standard (h : standard.generate s settings = .ok art) :
    ∃ p a, standard.plan s = .ok p ∧ p.assemble s settings = .ok a ∧ art = .ofAssembly a ∧
      p.RouterDeclared a ∧ a.FeeDeclared := by
  obtain ⟨p, a, hp, ha, hart⟩ := exists_assemble_of_generate h
  have hsound := verify_eq_ok_iff.mp verify_standard
  have hfollows := Plan.follows_of_plan hp
  refine ⟨p, a, hp, ha, hart, ?_, ?_⟩
  · rw [hfollows.routerDeclared_iff hsound ha (sift_isTelling_supplyExpression h)]
    exact coversRouter_of_forall (by decide +kernel) s
  · rw [hfollows.feeDeclared_iff hsound ha]
    exact coversFee_of_forall (by decide +kernel) s

def unrouted : Catalog :=
  ⟨[{ Tax.feature with capabilities := [] }]⟩

def unshared : Catalog :=
  ⟨[{ Tax.feature with transferStage := some ⟨200, [], []⟩ }]⟩

/-- Contracts are generated that use the router or the fee without a declaration. -/
theorem used_undeclared :
    (unrouted.verify = .ok () ∧ ∃ p a, unrouted.plan unrouted.token = .ok p ∧
      p.assemble unrouted.token {} = .ok a ∧
      unrouted.generate unrouted.token {} = .ok (.ofAssembly a) ∧ ¬p.RouterDeclared a) ∧
    unshared.verify = .ok () ∧ ∃ p a, unshared.plan unshared.token = .ok p ∧
      p.assemble unshared.token {} = .ok a ∧
      unshared.generate unshared.token {} = .ok (.ofAssembly a) ∧ ¬a.FeeDeclared := by
  constructor
  · have hverify : unrouted.verify = .ok () := verify_of_defect? (by decide +kernel)
    have hgen : (unrouted.generate unrouted.token {}).toOption.any fun _ ↦ true := by decide +kernel
    obtain ⟨art, hgen, -⟩ := exists_ok_of_any hgen
    obtain ⟨p, a, hp, ha, rfl⟩ := exists_assemble_of_generate hgen
    refine ⟨hverify, p, a, hp, ha, hgen, ?_⟩
    rw [(Plan.follows_of_plan hp).routerDeclared_iff (verify_eq_ok_iff.mp hverify) ha
      (sift_isTelling_supplyExpression hgen), CoversRouter]
    decide +kernel
  · have hverify : unshared.verify = .ok () := verify_of_defect? (by decide +kernel)
    have hgen : (unshared.generate unshared.token {}).toOption.any fun _ ↦ true := by decide +kernel
    obtain ⟨art, hgen, -⟩ := exists_ok_of_any hgen
    obtain ⟨p, a, hp, ha, rfl⟩ := exists_assemble_of_generate hgen
    refine ⟨hverify, p, a, hp, ha, hgen, ?_⟩
    rw [(Plan.follows_of_plan hp).feeDeclared_iff (verify_eq_ok_iff.mp hverify) ha, CoversFee]
    simp only [← Option.mem_def]
    decide +kernel

end Catalog

end TokenContract
