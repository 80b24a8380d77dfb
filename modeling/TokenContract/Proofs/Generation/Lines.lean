import TokenContract.Proofs.Generation.Naming

namespace TokenContract

open Text (Unbroken blank endLines joinLines margin mem_indent mem_lines_endLines
  mem_lines_joinLines unbroken_append unbroken_of_eq)

theorem margin_state : margin Hook.state.level = "    " := by
  simp [margin, Hook.level, Text.tab]

theorem margin_admin : margin Hook.admin.level = "    " :=
  margin_state

theorem Setter.mem_lines {st : Setter} {l : String} (h : l ∈ st.body) (timelocked : Bool) :
    "    " ++ l ∈ st.lines timelocked := by
  refine List.mem_append_left _ (List.mem_cons_of_mem _ ?_)
  exact List.mem_map_of_mem (List.mem_append_right _ h)

namespace Assembly

variable {a : Assembly}

theorem exists_member {h : Hook} {x : Contributor} {ls : List String}
    (hfragment : ⟨h, x, joinLines ls⟩ ∈ a.fragments) {l : String} (hl : l ∈ ls)
    (hunbroken : Unbroken l.toList) (hblank : blank l = false) :
    ∃ m ∈ a.members h, margin h.level ++ l ∈ m := by
  have hne : l ≠ "" := by
    rintro rfl
    cases hblank
  refine ⟨_, List.mem_map_of_mem ?_, mem_indent (mem_lines_joinLines hl hunbroken hne) hblank⟩
  exact List.mem_map.mpr ⟨_, List.mem_filter.mpr ⟨hfragment, beq_self_eq_true h⟩, rfl⟩

theorem mem_back {m : List String} (hm : m ∈ a.members .admin) {l : String} (hl : l ∈ m) :
    l ∈ a.back := by
  refine List.mem_append_left _ (List.mem_append_right _ (List.mem_flatMap.mpr ⟨m, ?_, ?_⟩))
  · exact List.mem_append_left _ (List.mem_append_right _ hm)
  · exact List.mem_cons_of_mem _ hl

end Assembly

namespace Plan

variable {p : Plan} {s : Spec} {settings : Settings} {a : Assembly} {f : PlannedFeature}
  {o : Output} {l : String}

theorem Last.mem_middle (hf : p.Last f) (ha : p.assemble s settings = .ok a)
    (ho : p.write s f = .ok o) {ls : List String} (hls : o.sections .state = some ls)
    (hl : l ∈ ls) (hunbroken : Unbroken l.toList) (hblank : blank l = false) :
    "    " ++ l ∈ a.middle := by
  have htext : o.text? .state = some (joinLines ls) := by rw [Output.text?, hls]; rfl
  have hfragment := section_mem_fragments hf ha ho htext
  obtain ⟨m, hm, hmem⟩ := Assembly.exists_member hfragment hl hunbroken hblank
  rw [margin_state] at hmem
  exact List.mem_flatMap.mpr ⟨m, hm, List.mem_append_left _ hmem⟩

theorem Last.mem_back {c : Catalog} (hp : p.Follows c s) (hf : p.Last f)
    (ha : p.assemble s settings = .ok a) (ho : p.write s f = .ok o) {st : Setter}
    (hst : st ∈ o.setters) (hl : l ∈ st.body) (hunbroken : Unbroken l.toList)
    (hblank : blank l = false) : "        " ++ l ∈ a.back := by
  have hcomplete := complete_of_assemble ha
  obtain ⟨b, hb, hx, hname⟩ := hcomplete.bound f hf.mem o ho st hst
  have hlisted := hp.mem_admin_iff.mpr ⟨b, hb, hx⟩
  have hfragment := hcomplete.setters f hf.mem o ho hlisted st hst b hb hx hname
  have hdeeper : Unbroken ("    " ++ l).toList := by
    rw [unbroken_append]
    exact ⟨unbroken_of_eq rfl (by decide), hunbroken⟩
  have hvisible : blank ("    " ++ l) = false := by
    rw [Text.blank_append, hblank, Bool.and_false]
  obtain ⟨m, hm, hmem⟩ :=
    Assembly.exists_member hfragment (Setter.mem_lines hl b.timelocked) hdeeper hvisible
  have htabs : "    " ++ ("    " ++ l) = "        " ++ l := by
    rw [← String.append_assoc]
    rfl
  rw [margin_admin, htabs] at hmem
  exact Assembly.mem_back hm hmem

end Plan

namespace Catalog

variable {c : Catalog} {s : Spec} {settings : Settings} {art : Artifact} {p : Plan}
  {f : PlannedFeature} {o : Output} {l : String}

theorem stateLine_mem_lines (h : c.generate s settings = .ok art) (hp : c.plan s = .ok p)
    (hf : p.Last f) (ho : p.write s f = .ok o) {ls : List String}
    (hls : o.sections .state = some ls) (hl : l ∈ ls) (hunbroken : Unbroken l.toList)
    (hblank : blank l = false) : "    " ++ l ∈ Text.lines art.sourceText := by
  obtain ⟨_, a, hp', ha, -, hlines⟩ := exists_lines_of_generate h
  rw [hp] at hp'
  cases hp'
  have hline : Unbroken ("    " ++ l).toList := by
    rw [unbroken_append]
    exact ⟨unbroken_of_eq rfl (by decide), hunbroken⟩
  have hmem := mem_lines_endLines (hf.mem_middle ha ho hls hl hunbroken hblank) hline.isLine
  rw [hlines]
  exact List.mem_append_left _ (List.mem_append_right _ (List.mem_cons_of_mem _ hmem))

theorem setterLine_mem_lines (h : c.generate s settings = .ok art) (hp : c.plan s = .ok p)
    (hf : p.Last f) (ho : p.write s f = .ok o) {st : Setter} (hst : st ∈ o.setters)
    (hl : l ∈ st.body) (hunbroken : Unbroken l.toList) (hblank : blank l = false) :
    "        " ++ l ∈ Text.lines art.sourceText := by
  obtain ⟨_, a, hp', ha, -, hlines⟩ := exists_lines_of_generate h
  rw [hp] at hp'
  cases hp'
  have hline : Unbroken ("        " ++ l).toList := by
    rw [unbroken_append]
    exact ⟨unbroken_of_eq rfl (by decide), hunbroken⟩
  have hback := hf.mem_back (Plan.follows_of_plan hp) ha ho hst hl hunbroken hblank
  have hmem := mem_lines_endLines hback hline.isLine
  rw [hlines]
  exact List.mem_append_right _ (List.mem_cons_of_mem _ hmem)

theorem Sound.last_planned (hc : c.Sound) (hp : c.plan s = .ok p) {f : Feature}
    (hf : f ∈ c.features) {selection : Selection}
    (hselection : s.selection? f.id = some selection) :
    p.Last (plannedFeature f (.ofSelection f selection)) := by
  have hfeatures := (Plan.follows_of_plan hp).features
  refine Plan.last_of_nodup (hfeatures ▸ hc.nodup_planned s) ?_
  rw [hfeatures]
  exact List.mem_map_of_mem (mem_resolved_iff.mpr ⟨hf, selection, hselection, rfl⟩)

end Catalog

end TokenContract
