import TokenContract.Proofs.Text.Breaks

namespace TokenContract.Text

/-- A line that is empty or set off from the margin. -/
structure Inset (l : String) : Prop where
  feedless : '\n' ∉ l.toList
  front : ∀ c ∈ l.toList.head?, c = ' '

theorem inset_empty : Inset "" :=
  ⟨List.not_mem_nil, fun _ hc ↦ nomatch hc⟩

theorem inset_tab {l : String} (h : '\n' ∉ l.toList) : Inset (tab ++ l) := by
  refine ⟨notMem_append.mpr ⟨notMem_of_eq rfl (by decide), h⟩, fun c hc ↦ ?_⟩
  have htab : tab.toList = [' ', ' ', ' ', ' '] := rfl
  rw [String.toList_append, htab] at hc
  exact (Option.some.inj hc).symm

theorem inset_padLine {level : Nat} (hlevel : 0 < level) {l : String} (h : '\n' ∉ l.toList) :
    Inset (padLine level l) := by
  obtain ⟨n, rfl⟩ := Nat.exists_eq_add_one_of_ne_zero hlevel.ne'
  cases hb : blank l with
  | true =>
    rw [padLine, if_pos hb]
    exact inset_empty
  | false =>
    have hmargin : margin (n + 1) = tab ++ margin n := by
      rw [margin, List.replicate_succ, String.join_cons, margin]
    rw [padLine_of_not_blank hb, hmargin, String.append_assoc]
    exact inset_tab (notMem_append.mpr ⟨notMem_margin n, h⟩)

theorem inset_of_mem_indent {level : Nat} (hlevel : 0 < level) {s : String} :
    ∀ l ∈ indent level s, Inset l := by
  intro l hl
  rw [indent] at hl
  split at hl
  · obtain rfl := List.mem_singleton.mp hl
    exact inset_empty
  · obtain ⟨m, hm, rfl⟩ := List.mem_map.mp hl
    exact inset_padLine hlevel (notMem_of_mem_lines hm)

theorem exists_splitLines_append_feed {cs : List Char} (h : '\n' ∉ cs) :
    ∃ l, splitLines (cs ++ ['\n']) = [l] ∧ l <+: cs := by
  induction cs with
  | nil => exact ⟨[], rfl, List.nil_prefix⟩
  | cons c cs ih =>
    rw [List.mem_cons, not_or] at h
    -- A return at the end makes one end of line with the feed.
    by_cases hreturn : c = '\r' ∧ cs = []
    · obtain ⟨rfl, rfl⟩ := hreturn
      exact ⟨[], rfl, List.nil_prefix⟩
    · obtain ⟨l, hl, hprefix⟩ := ih h.2
      have hnext : c = '\r' → (cs ++ ['\n']).head? ≠ some '\n' := by
        intro hc hhead
        cases cs with
        | nil => exact hreturn ⟨hc, rfl⟩
        | cons d ds => exact h.2 (by simpa using Or.inl (Option.some.inj hhead).symm)
      refine ⟨c :: l, ?_, List.cons_prefix_cons.mpr ⟨rfl, hprefix⟩⟩
      rw [List.cons_append, splitLines_cons (Ne.symm h.1) hnext, hl]
      rfl

theorem exists_prefix_of_mem_lines_endLines {ls : List String} (h : ∀ m ∈ ls, '\n' ∉ m.toList)
    {l : String} (hl : l ∈ lines (endLines ls)) : ∃ m ∈ ls, l.toList <+: m.toList := by
  induction ls with
  | nil => exact absurd hl List.not_mem_nil
  | cons m ls ih =>
    obtain ⟨hm, hls⟩ := List.forall_mem_cons.mp h
    rw [lines_endLines_cons, List.mem_append] at hl
    rcases hl with hl | hl
    · obtain ⟨k, hk, hprefix⟩ := exists_splitLines_append_feed hm
      rw [endLines_singleton, lines, String.toList_append, toList_feed, hk] at hl
      obtain rfl := List.mem_singleton.mp hl
      exact ⟨m, List.mem_cons_self, by rwa [String.toList_ofList]⟩
    · obtain ⟨k, hk, hprefix⟩ := ih hls hl
      exact ⟨k, List.mem_cons_of_mem m hk, hprefix⟩

end TokenContract.Text
