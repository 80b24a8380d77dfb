import TokenContract.Proofs.Source.Completeness

namespace TokenContract

open Results

/-- The output of a feature is what its declaration and the plan foresee. -/
structure Plan.Agrees (p : Plan) (d : Feature) (o : Output) : Prop where
  sections : ∀ h, (o.sections h).isSome ↔ h ∈ d.hooks ∧ h ≠ .admin
  setters : ∀ name, name ∈ o.setters.map (·.name) ↔
    name ∈ (p.settersOf (.feature d.id)).map (·.name)

namespace Plan

variable {p : Plan} {c : Catalog} {s : Spec} {e : Environment} {os : Dict Output} {o : Output}

theorem Follows.ids_features (hp : p.Follows c s) :
    p.features.map (·.id) = (c.enabled s).map (·.id) := by
  have hids := congrArg (List.map Prod.fst) (hp.features ▸ Catalog.ids_plannedFeatures c s)
  rw [List.map_map, List.map_map] at hids
  exact hids

theorem Follows.exists_feature (hp : p.Follows c s) {f : PlannedFeature} (hf : f ∈ p.features) :
    ∃ d ∈ c.features, s.enables d ∧ d.id = f.id := by
  have hm : f.id ∈ (c.enabled s).map (·.id) := hp.ids_features ▸ List.mem_map_of_mem hf
  obtain ⟨d, hd, hid⟩ := List.mem_map.mp hm
  obtain ⟨hcat, hs⟩ := Catalog.mem_enabled_iff.mp hd
  exact ⟨d, hcat, hs, hid⟩

theorem Follows.exists_planned (hp : p.Follows c s) {d : Feature} (hd : d ∈ c.features)
    (hs : s.enables d) : ∃ f ∈ p.features, f.id = d.id := by
  have hm : d.id ∈ p.features.map (·.id) :=
    hp.ids_features ▸ List.mem_map_of_mem (Catalog.mem_enabled_iff.mpr ⟨hd, hs⟩)
  exact List.mem_map.mp hm

theorem agrees_of_assemble (hc : c.Sound) (hp : p.Follows c s) (hos : p.outputs e = .ok os)
    (hall : ∀ h, ∀ x ∈ p.contributors h, ∃ fs, p.fragmentsOf os h x = .ok fs)
    {f : PlannedFeature} (hf : f ∈ p.features) {d : Feature} (hd : d ∈ c.features)
    (hs : s.enables d) (hid : d.id = f.id) (hout : f.kind.output f.parameters e = .ok o)
    (hplan : p.unexpected? f.id o = none) : p.Agrees d o := by
  have hnodup : (p.features.map (·.id)).Nodup := hp.features ▸ hc.nodup_planned s
  have hfind : os.find? d.id = some o := by
    rw [hid]
    exact (last_of_nodup hnodup hf).find?_outputs hos hout
  obtain ⟨hsections, hsetters⟩ := unexpected?_eq_none_iff.mp hplan
  have hneeds {h : Hook} (hx : .feature d.id ∈ p.contributors h) :
      (h ≠ .admin → (o.sections h).isSome) ∧
        (h = .admin → ∀ b ∈ p.settersOf (.feature d.id), (o.setter? b.name).isSome) := by
    obtain ⟨o', ho', hneeds⟩ := (exists_fragmentsOf_iff hc hp hx).mp (hall h _ hx) d.id rfl
    rw [hfind] at ho'
    cases ho'
    exact hneeds
  refine ⟨fun h ↦ ⟨fun ho ↦ ?_, fun ⟨hh, hadmin⟩ ↦ ?_⟩, fun name ↦ ⟨fun hm ↦ ?_, fun hm ↦ ?_⟩⟩
  · have hadmin : h ≠ .admin := by
      rintro rfl
      rw [FeatureKind.sections_admin hout] at ho
      cases ho
    obtain ⟨g, hg, hgid, -, hh, -⟩ := (hp.mem_feature_iff hc h).mp (hsections h ho hadmin)
    obtain rfl := hc.eq_of_id_eq hg hd (hgid.trans hid.symm)
    exact ⟨hh, hadmin⟩
  · have hx : .feature d.id ∈ p.contributors h :=
      (hp.mem_feature_iff hc h).mpr ⟨d, hd, rfl, hs, hh, fun he ↦ absurd he hadmin⟩
    exact (hneeds hx).1 hadmin
  · rw [hid]
    exact hsetters name hm
  · obtain ⟨b, hb, rfl⟩ := List.mem_map.mp hm
    have hx := hp.mem_admin_iff.mpr ⟨b, (mem_settersOf_iff.mp hb).1, (mem_settersOf_iff.mp hb).2⟩
    exact isSome_setter?_iff.mp ((hneeds hx).2 rfl b hb)

theorem Agrees.unexpected? (hc : c.Sound) (hp : p.Follows c s) {d : Feature}
    (hd : d ∈ c.features) (hs : s.enables d) (ha : p.Agrees d o) :
    p.unexpected? d.id o = none := by
  refine unexpected?_eq_none_iff.mpr ⟨fun h ho hadmin ↦ ?_, fun name hm ↦ (ha.setters name).mp hm⟩
  have hh := ((ha.sections h).mp ho).1
  exact (hp.mem_feature_iff hc h).mpr ⟨d, hd, rfl, hs, hh, fun he ↦ absurd he hadmin⟩

theorem exists_assemble_iff_agrees (hc : c.Sound) (hp : p.Follows c s) {settings : Settings} :
    (∃ a, p.assemble s settings = .ok a) ↔ ∀ f ∈ p.features, ∃ d ∈ c.features, d.id = f.id ∧
      ∃ o, f.kind.output f.parameters (s.environment p) = .ok o ∧ p.Agrees d o := by
  rw [exists_assemble_iff]
  constructor
  · intro hok f hf
    obtain ⟨os, hos, hall⟩ := hok
    obtain ⟨d, hd, hs, hid⟩ := hp.exists_feature hf
    obtain ⟨x, hx⟩ := exists_outputs_iff.mp ⟨os, hos⟩ f hf
    obtain ⟨o, hout, hplan, -⟩ := outputOf_eq_ok_iff.mp hx
    exact ⟨d, hd, hid, o, hout, agrees_of_assemble hc hp hos hall hf hd hs hid hout hplan⟩
  · intro hagrees
    have houtput {f : PlannedFeature} (hf : f ∈ p.features) {d : Feature} (hd : d ∈ c.features)
        (hs : s.enables d) (hid : d.id = f.id) :
        ∃ o, f.kind.output f.parameters (s.environment p) = .ok o ∧
          p.unexpected? f.id o = none ∧ p.Agrees d o := by
      obtain ⟨d', hd', hid', o, hout, ha⟩ := hagrees f hf
      obtain rfl := hc.eq_of_id_eq hd' hd (hid'.trans hid.symm)
      have hplan := ha.unexpected? hc hp hd hs
      rw [hid] at hplan
      exact ⟨o, hout, hplan, ha⟩
    obtain ⟨os, hos⟩ := exists_outputs_iff.mpr fun f hf ↦ by
      obtain ⟨d, hd, hs, hid⟩ := hp.exists_feature hf
      obtain ⟨o, hout, hplan, -⟩ := houtput hf hd hs hid
      exact ⟨_, outputOf_eq_ok_iff.mpr ⟨o, hout, hplan, rfl⟩⟩
    refine ⟨os, hos, fun h x hx ↦ (exists_fragmentsOf_iff hc hp hx).mpr ?_⟩
    rintro id rfl
    obtain ⟨d, hd, rfl, hs, hh, -⟩ := (hp.mem_feature_iff hc h).mp hx
    obtain ⟨f, hf, hid⟩ := hp.exists_planned hd hs
    obtain ⟨o, hout, -, ha⟩ := houtput hf hd hs hid.symm
    have hnodup : (p.features.map (·.id)).Nodup := hp.features ▸ hc.nodup_planned s
    have hfind := (last_of_nodup hnodup hf).find?_outputs hos hout
    refine ⟨o, hid ▸ hfind, fun hadmin ↦ ?_, fun _ b hb ↦ ?_⟩
    · exact (ha.sections h).mpr ⟨hh, hadmin⟩
    · exact isSome_setter?_iff.mpr ((ha.setters _).mpr (List.mem_map_of_mem hb))

theorem Follows.slots_admin (hc : c.Sound) (hp : p.Follows c s) :
    p.slots.filter (·.hook == .admin) = p.setters.map fun b ↦ ⟨.admin, b.contributor, some b⟩ := by
  have hat (h : Hook) : ((p.contributors h).flatMap (p.slotsOf h)).filter (·.hook == .admin) =
      if h = .admin then (p.contributors .admin).flatMap (p.slotsOf .admin) else [] := by
    by_cases hadmin : h = .admin
    · subst hadmin
      rw [if_pos rfl, List.filter_eq_self]
      intro slot hslot
      obtain ⟨x, -, hslot⟩ := List.mem_flatMap.mp hslot
      rw [slotsOf, if_pos rfl] at hslot
      obtain ⟨b, -, rfl⟩ := List.mem_map.mp hslot
      rfl
    · rw [if_neg hadmin, List.filter_eq_nil_iff]
      intro slot hslot
      obtain ⟨x, -, hslot⟩ := List.mem_flatMap.mp hslot
      rw [slotsOf_of_ne hadmin] at hslot
      obtain rfl := List.mem_singleton.mp hslot
      simpa using hadmin
  have hslots : p.slotsOf .admin = fun x ↦
      (p.settersOf x).map fun b ↦ ⟨.admin, b.contributor, some b⟩ := by
    funext x
    rw [slotsOf, if_pos rfl]
    refine List.map_congr_left fun b hb ↦ ?_
    rw [(mem_settersOf_iff.mp hb).2]
  have hsetters : (p.contributors .admin).flatMap p.settersOf = p.setters := by
    have hadmin : p.contributors .admin = (p.setters.map (·.contributor)).eraseDups :=
      hp.contributors .admin
    rw [hadmin, hp.setters_eq]
    unfold settersOf
    rw [hp.setters_eq]
    exact (groups_resolved hc s p.scope).flatMap_filter_eq
  rw [slots, List.filter_flatMap]
  simp only [hat, Hook.all, List.flatMap_cons, List.flatMap_nil, reduceCtorEq, if_false, if_true,
    List.nil_append, List.append_nil]
  rw [hslots, ← List.map_flatMap, hsetters]

/-- A contract that was assembled for a plan: its fragments are those of the contributors of each
hook in turn, with one for each setter of a contributor to the owner's functions, and the latter are
the texts of the setters of the plan in their order. -/
structure Assembled (p : Plan) (s : Spec) (a : Assembly) : Prop where
  places : a.fragments.map (fun x ↦ (x.hook, x.origin)) =
    Hook.all.flatMap fun h ↦ (p.contributors h).flatMap fun x ↦
      if h = .admin then (p.settersOf x).map fun _ ↦ (h, x) else [(h, x)]
  setters : List.Forall₂ (fun b x ↦ x.origin = b.contributor ∧ p.Renders (s.environment p) b x.text)
    p.setters (a.fragments.filter (·.hook == .admin))

theorem Assembled.renders {a : Assembly} (h : p.Assembled s a) {x : Fragment}
    (hx : x ∈ a.fragments) (hadmin : x.hook = .admin) :
    ∃ b ∈ p.setters, p.Renders (s.environment p) b x.text := by
  obtain ⟨b, hb, -, hrenders⟩ := exists_of_forall₂ h.setters
    (List.mem_filter.mpr ⟨hx, beq_iff_eq.mpr hadmin⟩)
  exact ⟨b, hb, hrenders⟩

theorem assembled_of_assemble (hc : c.Sound) (hp : p.Follows c s) {settings : Settings}
    {a : Assembly} (h : p.assemble s settings = .ok a) : p.Assembled s a := by
  have hfills := fills_of_assemble hc hp h
  constructor
  · have hplaces : a.fragments.map (fun x ↦ (x.hook, x.origin)) =
        p.slots.map fun slot ↦ (slot.hook, slot.origin) := by
      rw [← List.forall₂_eq_eq_eq, List.forall₂_map_left_iff, List.forall₂_map_right_iff]
      refine hfills.flip.imp fun x slot hx ↦ ?_
      rw [hx.hook, hx.origin]
    rw [hplaces, slots, List.map_flatMap]
    refine List.flatMap_congr fun h _ ↦ ?_
    rw [List.map_flatMap]
    refine List.flatMap_congr fun x _ ↦ ?_
    rw [slotsOf, apply_ite (List.map _), List.map_map]
    rfl
  · have hadmin : List.Forall₂ (p.Fills (s.environment p)) (p.slots.filter (·.hook == .admin))
        (a.fragments.filter (·.hook == .admin)) :=
      List.rel_filter (fun slot x hx ↦ by simp only [hx.hook]) hfills
    rw [hp.slots_admin hc, List.forall₂_map_left_iff] at hadmin
    exact hadmin.imp fun b x hx ↦ ⟨hx.origin, hx.text b rfl⟩

/-- Assembling a plan of a sound catalog succeeds exactly if every feature writes what the catalog
declares and the plan binds, and then nothing is lost, repeated, moved or made up. -/
theorem assemble_iff_agreement (hc : c.verify = .ok ()) (hplan : c.plan s = .ok p)
    (settings : Settings) :
    ((∃ a, p.assemble s settings = .ok a) ↔ ∀ f ∈ p.features, ∃ d ∈ c.features, d.id = f.id ∧
      ∃ o, f.kind.output f.parameters (s.environment p) = .ok o ∧ p.Agrees d o) ∧
    ∀ a, p.assemble s settings = .ok a → p.Assembled s a := by
  have hsound := Catalog.verify_eq_ok_iff.mp hc
  have hp := follows_of_plan hplan
  exact ⟨exists_assemble_iff_agrees hsound hp, fun a ↦ assembled_of_assemble hsound hp⟩

theorem assembled_guardedTax :
    Catalog.standard.verify = .ok () ∧ ∃ p, Catalog.standard.plan guardedTax = .ok p ∧
      ∃ a, p.assemble guardedTax {} = .ok a ∧ p.Assembled guardedTax a := by
  have hok : ((Catalog.standard.plan guardedTax).bind (·.assemble guardedTax {})).isOk = true := by
    decide +kernel
  cases hplan : Catalog.standard.plan guardedTax with
  | error d =>
    rw [hplan] at hok
    cases hok
  | ok p =>
    have hboth := assemble_iff_agreement Catalog.verify_standard hplan {}
    cases ha : p.assemble guardedTax {} with
    | error d =>
      rw [hplan] at hok
      simp only [Except.bind, ha] at hok
      cases hok
    | ok a => exact ⟨Catalog.verify_standard, p, rfl, a, ha, hboth.2 a ha⟩

end Plan

end TokenContract
