import Mathlib.Data.List.Forall2

namespace TokenContract.Results

variable {ε α β : Type}

theorem bind_eq_ok_iff {x : Except ε α} {f : α → Except ε β} {b : β} :
    x >>= f = .ok b ↔ ∃ a, x = .ok a ∧ f a = .ok b := by
  cases x with
  | error e => simp [bind, Except.bind]
  | ok a => simp [bind, Except.bind]

theorem bind_eq_error_iff {x : Except ε α} {f : α → Except ε β} {e : ε} :
    x >>= f = .error e ↔ x = .error e ∨ ∃ a, x = .ok a ∧ f a = .error e := by
  cases x with
  | error d => simp [bind, Except.bind]
  | ok a => simp [bind, Except.bind]

theorem exists_ok_of_any {x : Except ε α} {q : α → Bool} (h : x.toOption.any q) :
    ∃ a, x = .ok a ∧ q a := by
  cases x with
  | error e => cases h
  | ok a => exact ⟨a, rfl, h⟩

theorem map_eq_ok_iff {x : Except ε α} {f : α → β} {b : β} :
    x.map f = .ok b ↔ ∃ a, x = .ok a ∧ f a = b := by
  cases x with
  | error e => simp [Except.map]
  | ok a => simp [Except.map]

theorem map_eq_error_iff {x : Except ε α} {f : α → β} {e : ε} :
    x.map f = .error e ↔ x = .error e := by
  cases x with
  | error d => simp [Except.map]
  | ok a => simp [Except.map]

theorem mapM_eq_ok_iff {f : α → Except ε β} {as : List α} {bs : List β} :
    as.mapM f = .ok bs ↔ List.Forall₂ (fun a b ↦ f a = .ok b) as bs := by
  induction as generalizing bs with
  | nil => simp [pure, Except.pure, eq_comm]
  | cons a as ih =>
    rw [List.mapM_cons, bind_eq_ok_iff]
    constructor
    · intro hx
      obtain ⟨b, hb, h⟩ := hx
      obtain ⟨cs, hcs, h⟩ := bind_eq_ok_iff.mp h
      cases h
      exact .cons hb (ih.mp hcs)
    · rintro (_ | ⟨hb, hbs⟩)
      exact ⟨_, hb, bind_eq_ok_iff.mpr ⟨_, ih.mpr hbs, rfl⟩⟩

theorem exists_mapM_iff {f : α → Except ε β} {as : List α} :
    (∃ bs, as.mapM f = .ok bs) ↔ ∀ a ∈ as, ∃ b, f a = .ok b := by
  induction as with
  | nil => simp [pure, Except.pure]
  | cons a as ih =>
    simp only [List.mapM_cons, bind_eq_ok_iff, List.forall_mem_cons, ← ih]
    constructor
    · intro hx
      obtain ⟨_, b, hb, bs, hbs, -⟩ := hx
      exact ⟨⟨b, hb⟩, bs, hbs⟩
    · intro hx
      obtain ⟨⟨b, hb⟩, bs, hbs⟩ := hx
      exact ⟨_, b, hb, bs, hbs, rfl⟩

theorem mem_iff_of_mapM {f : α → Except ε β} {as : List α} {bs : List β} (h : as.mapM f = .ok bs)
    {b : β} : b ∈ bs ↔ ∃ a ∈ as, f a = .ok b := by
  have hparts := mapM_eq_ok_iff.mp h
  clear h
  induction hparts with
  | nil => simp
  | cons ha _ ih => simp [ih, ha, eq_comm]

theorem exists_mem_of_mapM_error {f : α → Except ε β} {as : List α} {e : ε}
    (h : as.mapM f = .error e) : ∃ a ∈ as, f a = .error e := by
  induction as with
  | nil => cases h
  | cons a as ih =>
    rw [List.mapM_cons, bind_eq_error_iff] at h
    rcases h with ha | ⟨b, -, h⟩
    · exact ⟨a, List.mem_cons_self, ha⟩
    · rcases bind_eq_error_iff.mp h with has | ⟨bs, -, hbs⟩
      · obtain ⟨a', hm, ha'⟩ := ih has
        exact ⟨a', List.mem_cons_of_mem a hm, ha'⟩
      · cases hbs

theorem exists_of_forall₂ {R : α → β → Prop} {as : List α} {bs : List β} (h : List.Forall₂ R as bs)
    {b : β} (hb : b ∈ bs) : ∃ a ∈ as, R a b := by
  induction h with
  | nil => exact absurd hb List.not_mem_nil
  | cons hr _ ih =>
    rcases List.mem_cons.mp hb with rfl | hb
    · exact ⟨_, List.mem_cons_self, hr⟩
    · obtain ⟨a, ha, hr⟩ := ih hb
      exact ⟨a, List.mem_cons_of_mem _ ha, hr⟩

theorem forall₂_flatten {γ : Type} {R : γ → β → Prop} {f : α → Except ε (List β)}
    {g : α → List γ} {as : List α} {bss : List (List β)} (h : as.mapM f = .ok bss)
    (hf : ∀ a ∈ as, ∀ bs, f a = .ok bs → List.Forall₂ R (g a) bs) :
    List.Forall₂ R (as.flatMap g) bss.flatten := by
  have hparts := mapM_eq_ok_iff.mp h
  clear h
  induction hparts with
  | nil => exact .nil
  | cons hb hbs ih =>
    rw [List.flatMap_cons, List.flatten_cons]
    refine List.rel_append (hf _ List.mem_cons_self _ hb) (ih fun a ha ↦ ?_)
    exact hf a (List.mem_cons_of_mem _ ha)

theorem flatten_of_mapM {f : α → Except ε (List β)} {as : List α} {bss : List (List β)}
    (h : as.mapM f = .ok bss) : bss.flatten = as.flatMap fun a ↦ (f a).toOption.getD [] := by
  have hparts := mapM_eq_ok_iff.mp h
  clear h
  induction hparts with
  | nil => rfl
  | cons hb _ ih =>
    rw [List.flatten_cons, List.flatMap_cons, ih, hb]
    rfl

theorem forall₂_flatMap {γ : Type} {R : β → γ → Prop} {f : α → List β} {g : α → List γ}
    {as : List α} (h : ∀ a ∈ as, List.Forall₂ R (f a) (g a)) :
    List.Forall₂ R (as.flatMap f) (as.flatMap g) := by
  induction as with
  | nil => exact .nil
  | cons a as ih =>
    obtain ⟨ha, has⟩ := List.forall_mem_cons.mp h
    exact List.rel_append ha (ih has)

theorem forall₂_filterMap {f : α → Option β} {as : List α} (h : ∀ a ∈ as, (f a).isSome) :
    List.Forall₂ (fun a b ↦ f a = some b) as (as.filterMap f) := by
  induction as with
  | nil => exact .nil
  | cons a as ih =>
    obtain ⟨ha, has⟩ := List.forall_mem_cons.mp h
    obtain ⟨b, hb⟩ := Option.isSome_iff_exists.mp ha
    rw [List.filterMap_cons_some hb]
    exact .cons hb (ih has)

theorem forall₂_of_common {γ : Type} {R : α → β → Prop} {S : α → γ → Prop} {T : β → γ → Prop}
    {as : List α} {bs : List β} {cs : List γ} (hr : List.Forall₂ R as bs)
    (hs : List.Forall₂ S as cs) (ht : ∀ a b c, R a b → S a c → T b c) : List.Forall₂ T bs cs := by
  induction hr generalizing cs with
  | nil =>
    cases hs
    exact .nil
  | cons hab _ ih =>
    cases hs with
    | cons hac hs => exact .cons (ht _ _ _ hab hac) (ih hs)

theorem foldlM_preserves {f : β → α → Except ε β} {P : β → Prop} {as : List α} {b c : β}
    (hstep : ∀ b, ∀ a ∈ as, ∀ c, P b → f b a = .ok c → P c) (hb : P b)
    (h : as.foldlM f b = .ok c) : P c := by
  induction as generalizing b with
  | nil =>
    cases h
    exact hb
  | cons a as ih =>
    rw [List.foldlM_cons] at h
    obtain ⟨d, hd, h⟩ := bind_eq_ok_iff.mp h
    refine ih (fun b a' ha' ↦ ?_) (hstep b a List.mem_cons_self d hb hd) h
    exact hstep b a' (List.mem_cons_of_mem a ha')

end TokenContract.Results
