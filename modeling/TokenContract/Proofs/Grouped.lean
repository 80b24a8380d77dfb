import Mathlib.Data.List.Nodup

namespace TokenContract.Grouped

variable {α κ : Type}

/-- Groups with different keys, each of elements with its key. -/
structure Groups (key : α → κ) (gs : List (κ × List α)) : Prop where
  distinct : (gs.map Prod.fst).Nodup
  keys : ∀ g ∈ gs, ∀ a ∈ g.2, key a = g.1

variable {key : α → κ} {gs : List (κ × List α)}

theorem Groups.tail {g : κ × List α} (h : Groups key (g :: gs)) : Groups key gs :=
  ⟨(List.nodup_cons.mp h.distinct).2, fun f hf ↦ h.keys f (List.mem_cons_of_mem _ hf)⟩

theorem Groups.key_ne {g : κ × List α} (h : Groups key (g :: gs)) {a : α}
    (ha : a ∈ gs.flatMap Prod.snd) : key a ≠ g.1 := by
  obtain ⟨f, hf, ha⟩ := List.mem_flatMap.mp ha
  rw [h.tail.keys f hf a ha]
  intro he
  exact (List.nodup_cons.mp h.distinct).1 (he ▸ List.mem_map_of_mem hf)

theorem filter_flatMap {β : Type} {l : List α} {g : α → List β} {p : α → Bool} {q : β → Bool}
    (h : ∀ a ∈ l, ∀ b ∈ g a, q b = p a) : (l.flatMap g).filter q = (l.filter p).flatMap g := by
  induction l with
  | nil => rfl
  | cons a l ih =>
    rw [List.flatMap_cons, List.filter_append, ih fun b hb ↦ h b (List.mem_cons_of_mem a hb)]
    have ha := h a List.mem_cons_self
    cases hp : p a with
    | false =>
      rw [List.filter_cons_of_neg (by simp [hp]), List.filter_eq_nil_iff.mpr fun b hb ↦ by
        simp [ha b hb, hp], List.nil_append]
    | true =>
      rw [List.filter_cons_of_pos hp, List.flatMap_cons, List.filter_eq_self.mpr fun b hb ↦ by
        rw [ha b hb, hp]]

variable [DecidableEq κ]

theorem Groups.filter_eq (h : Groups key gs) {g : κ × List α} (hg : g ∈ gs) :
    (gs.flatMap Prod.snd).filter (key · == g.1) = g.2 := by
  induction gs with
  | nil => simp at hg
  | cons f gs ih =>
    rw [List.flatMap_cons, List.filter_append]
    rcases List.mem_cons.mp hg with rfl | hg
    · have hself : g.2.filter (key · == g.1) = g.2 :=
        List.filter_eq_self.mpr fun a ha ↦ by simpa using h.keys g List.mem_cons_self a ha
      have hrest : (gs.flatMap Prod.snd).filter (key · == g.1) = [] :=
        List.filter_eq_nil_iff.mpr fun a ha ↦ by simpa using h.key_ne ha
      rw [hself, hrest, List.append_nil]
    · have hfirst : f.2.filter (key · == g.1) = [] := by
        refine List.filter_eq_nil_iff.mpr fun a ha ↦ ?_
        rw [h.keys f List.mem_cons_self a ha]
        have hne : f.1 ≠ g.1 := fun he ↦
          (List.nodup_cons.mp h.distinct).1 (he ▸ List.mem_map_of_mem hg)
        simpa using hne
      rw [hfirst, List.nil_append, ih h.tail hg]

theorem eraseDups_of_forall_eq {k : κ} {ks : List κ} (h : ∀ j ∈ ks, j = k) :
    ks.eraseDups = if ks = [] then [] else [k] := by
  cases ks with
  | nil => rfl
  | cons j ks =>
    obtain rfl := h j List.mem_cons_self
    have hrest : (ks.filter fun i ↦ !i == j) = [] :=
      List.filter_eq_nil_iff.mpr fun i hi ↦ by simpa using h i (List.mem_cons_of_mem _ hi)
    rw [List.eraseDups_cons, hrest]
    simp

theorem Groups.eraseDups_eq (h : Groups key gs) :
    ((gs.flatMap Prod.snd).map key).eraseDups = (gs.filter (!·.2.isEmpty)).map Prod.fst := by
  induction gs with
  | nil => rfl
  | cons g gs ih =>
    have hfirst : (g.2.map key).eraseDups = if g.2.map key = [] then [] else [g.1] := by
      refine eraseDups_of_forall_eq fun k hk ↦ ?_
      obtain ⟨a, ha, rfl⟩ := List.mem_map.mp hk
      exact h.keys g List.mem_cons_self a ha
    have hrest : ((gs.flatMap Prod.snd).map key).removeAll (g.2.map key) =
        (gs.flatMap Prod.snd).map key := by
      refine List.filter_eq_self.mpr fun k hk ↦ ?_
      obtain ⟨a, ha, rfl⟩ := List.mem_map.mp hk
      have hne : key a ∉ g.2.map key := fun hm ↦ by
        obtain ⟨b, hb, he⟩ := List.mem_map.mp hm
        exact h.key_ne ha (he ▸ h.keys g List.mem_cons_self b hb)
      simpa using hne
    rw [List.flatMap_cons, List.map_append, List.eraseDups_append, hfirst, hrest, ih h.tail]
    by_cases hg : g.2 = []
    · simp [hg]
    · simp [hg]

theorem Groups.flatMap_filter_eq (h : Groups key gs) :
    (((gs.flatMap Prod.snd).map key).eraseDups.flatMap fun k ↦
      (gs.flatMap Prod.snd).filter (key · == k)) = gs.flatMap Prod.snd := by
  rw [h.eraseDups_eq, List.flatMap_map]
  have hgroups : ((gs.filter (!·.2.isEmpty)).flatMap fun g ↦
      (gs.flatMap Prod.snd).filter (key · == g.1)) = (gs.filter (!·.2.isEmpty)).flatMap Prod.snd :=
    List.flatMap_congr fun g hg ↦ h.filter_eq (List.mem_of_mem_filter hg)
  rw [hgroups]
  clear h hgroups
  induction gs with
  | nil => rfl
  | cons g gs ih =>
    by_cases hg : g.2 = []
    · simp [hg, ih]
    · simp [hg, ih]

end TokenContract.Grouped
