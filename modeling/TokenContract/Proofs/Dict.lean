import TokenContract.Dict
import Mathlib.Data.List.Nodup

namespace TokenContract.Dict

variable {α : Type}

theorem find?_foldl_insert {es : List (String × α)} (h : (es.map Prod.fst).Nodup) (d : Dict α)
    (k : String) (v : α) :
    (es.foldl (fun d e ↦ d.insert e.1 e.2) d).find? k = some v ↔
      (k, v) ∈ es ∨ k ∉ es.map Prod.fst ∧ d.find? k = some v := by
  induction es generalizing d with
  | nil => simp
  | cons e es ih =>
    obtain ⟨j, w⟩ := e
    obtain ⟨hj, hd⟩ := List.nodup_cons.mp h
    rw [List.foldl_cons, ih hd, find?_insert, List.mem_cons, List.map_cons, List.mem_cons,
      Prod.mk.injEq]
    by_cases hk : j = k
    · subst hk
      have hnot : (j, v) ∉ es := fun hm ↦ hj (List.mem_map.mpr ⟨(j, v), hm, rfl⟩)
      simp [hnot, hj, eq_comm]
    · have hk' : ¬k = j := fun he ↦ hk he.symm
      simp [hk, hk']

theorem find?_ofList_iff {es : List (String × α)} (h : (es.map Prod.fst).Nodup) {k : String}
    {v : α} : (ofList es).find? k = some v ↔ (k, v) ∈ es := by
  rw [ofList, find?_foldl_insert h]
  simp [find?, empty]

theorem find?_foldl_insert_of_notMem {es : List (String × α)} {k : String}
    (h : k ∉ es.map Prod.fst) (d : Dict α) :
    (es.foldl (fun d e ↦ d.insert e.1 e.2) d).find? k = d.find? k := by
  induction es generalizing d with
  | nil => rfl
  | cons e es ih =>
    rw [List.map_cons, List.mem_cons, not_or] at h
    rw [List.foldl_cons, ih h.2, find?_insert, if_neg (Ne.symm h.1)]

theorem find?_ofList_append_cons {es fs : List (String × α)} {k : String} {v : α}
    (h : k ∉ fs.map Prod.fst) : (ofList (es ++ (k, v) :: fs)).find? k = some v := by
  rw [ofList, List.foldl_append, List.foldl_cons, find?_foldl_insert_of_notMem h, find?_insert,
    if_pos rfl]

theorem ofList_entries (d : Dict α) : ofList d.entries = d := by
  refine ext_find? fun k ↦ Option.ext fun v ↦ ?_
  have hnodup : (d.entries.map Prod.fst).Nodup := d.ascending.imp fun hlt ↦ String.ne_of_lt hlt
  rw [find?_ofList_iff hnodup, mem_entries_iff]

theorem mem_of_mem_place {k : String} {v : α} {es : List (String × α)} {e : String × α}
    (h : e ∈ place k v es) : e = (k, v) ∨ e ∈ es := by
  induction es with
  | nil => exact .inl (List.mem_singleton.mp h)
  | cons f es ih =>
    obtain ⟨j, w⟩ := f
    rw [place] at h
    split at h
    · exact List.mem_cons.mp h
    · split at h
      · exact (List.mem_cons.mp h).imp_right (List.mem_cons_of_mem _)
      · rcases List.mem_cons.mp h with rfl | h
        · exact .inr List.mem_cons_self
        · exact (ih h).imp_right (List.mem_cons_of_mem _)

theorem mem_of_mem_foldl_insert {es : List (String × α)} {d : Dict α} {e : String × α}
    (h : e ∈ (es.foldl (fun d e ↦ d.insert e.1 e.2) d).entries) : e ∈ es ∨ e ∈ d.entries := by
  induction es generalizing d with
  | nil => exact .inr h
  | cons f es ih =>
    rcases ih h with h | h
    · exact .inl (List.mem_cons_of_mem _ h)
    · refine (mem_of_mem_place h).imp_left fun he ↦ ?_
      rw [he]
      exact List.mem_cons_self

theorem mem_of_mem_ofList {es : List (String × α)} {e : String × α} (h : e ∈ (ofList es).entries) :
    e ∈ es :=
  (mem_of_mem_foldl_insert h).resolve_right List.not_mem_nil

theorem exists_of_mem_getD {o : Option (Dict α)} {e : String × α}
    (h : e ∈ (o.getD .empty).entries) : ∃ d ∈ o, e ∈ d.entries := by
  cases o with
  | none => exact absurd h List.not_mem_nil
  | some d => exact ⟨d, rfl, h⟩

theorem keys_pairwise {d : Dict α} {k : String} {l m : List String} (h : d.keys = l ++ k :: m) :
    (∀ j ∈ l, j < k) ∧ ∀ j ∈ m, k < j := by
  have hascending := d.ascending
  rw [← keys, h] at hascending
  obtain ⟨-, hm, hl⟩ := List.pairwise_append.mp hascending
  exact ⟨fun j hj ↦ hl j hj k List.mem_cons_self, (List.pairwise_cons.mp hm).1⟩

end TokenContract.Dict
