import TokenContract.Proofs.Text.Blank
import TokenContract.Proofs.Text.Lines

namespace TokenContract.Text

/-- A text whose only breaks are bare feeds: no return stands right before a feed, nor before one
that comes after the text. -/
def FeedsOnly (cs : List Char) : Prop :=
  ¬['\r', '\n'] <:+: cs ++ ['\n']

instance (cs : List Char) : Decidable (FeedsOnly cs) :=
  inferInstanceAs (Decidable ¬_)

theorem feedsOnly_cons_iff {c : Char} {cs : List Char} :
    FeedsOnly (c :: cs) ↔ (c = '\r' → cs ≠ [] ∧ cs.head? ≠ some '\n') ∧ FeedsOnly cs := by
  rw [FeedsOnly, FeedsOnly, List.cons_append, List.infix_cons_iff, not_or]
  apply and_congr_left
  intro _
  rw [List.cons_prefix_cons, not_and, eq_comm]
  apply forall_congr'
  intro _
  cases cs with
  | nil => decide
  | cons d ds => simp [List.cons_prefix_cons, eq_comm]

theorem IsLine.cons_of_ne {c : Char} {cs : List Char} (hc : c ≠ '\n') (h : IsLine cs)
    (hreturn : c = '\r' → cs ≠ []) : IsLine (c :: cs) := by
  refine ⟨by simp [h.1, Ne.symm hc], ?_⟩
  cases cs with
  | nil =>
    intro hlast
    exact hreturn (by simpa using hlast) rfl
  | cons d ds =>
    rw [List.getLast?_cons_cons]
    exact h.2

theorem IsLine.append {cs ds : List Char} (hcs : '\n' ∉ cs) (h : IsLine ds) (hne : ds ≠ []) :
    IsLine (cs ++ ds) := by
  refine ⟨by simp [hcs, h.1], ?_⟩
  rw [List.getLast?_append_of_ne_nil cs hne]
  exact h.2

theorem head?_of_splitLines {cs : List Char} {ls : List (List Char)} (h : FeedsOnly cs)
    (hls : splitLines cs = [] :: ls) : cs.head? = some '\n' := by
  cases cs with
  | nil => simp [splitLines] at hls
  | cons c cs =>
    by_cases hc : c = '\n'
    · rw [hc]
      rfl
    · rw [splitLines_cons hc fun hr ↦ ((feedsOnly_cons_iff.mp h).1 hr).2] at hls
      cases hls

theorem isLine_of_mem_splitLines {cs l : List Char} (h : FeedsOnly cs)
    (hl : l ∈ splitLines cs) : IsLine l := by
  induction cs generalizing l with
  | nil => exact absurd hl List.not_mem_nil
  | cons c cs ih =>
    obtain ⟨hreturn, hcs⟩ := feedsOnly_cons_iff.mp h
    by_cases hc : c = '\n'
    · rw [hc, splitLines] at hl
      rcases List.mem_cons.mp hl with rfl | hl
      · decide
      · exact ih hcs hl
    · rw [splitLines_cons hc fun hr ↦ (hreturn hr).2] at hl
      cases hsplit : splitLines cs with
      | nil =>
        rw [hsplit] at hl
        have hnil : cs = [] := by
          cases cs with
          | nil => rfl
          | cons d ds =>
            obtain ⟨m, ms, hm⟩ := exists_splitLines d ds
            rw [hsplit] at hm
            cases hm
        obtain rfl := List.mem_singleton.mp hl
        apply IsLine.cons_of_ne hc (by decide)
        intro hr
        exact absurd hnil (hreturn hr).1
      | cons m ms =>
        rw [hsplit] at hl ih
        rcases List.mem_cons.mp hl with rfl | hl
        · apply IsLine.cons_of_ne hc (ih hcs List.mem_cons_self)
          -- An empty line before the feed would take the return with it.
          intro hr hm
          exact (hreturn hr).2 (head?_of_splitLines hcs (by rw [hsplit]; exact congrArg (· :: ms) hm))
        · exact ih hcs (List.mem_cons_of_mem m hl)

theorem exists_splitLines_feed {cs : List Char} (h : FeedsOnly cs) :
    ∃ ls, splitLines (cs ++ ['\n']) = splitLines cs ++ ls ∧ ∀ l ∈ ls, l = [] := by
  induction cs with
  | nil => exact ⟨[[]], rfl, by simp⟩
  | cons c cs ih =>
    obtain ⟨hreturn, hcs⟩ := feedsOnly_cons_iff.mp h
    obtain ⟨ls, hls, hempty⟩ := ih hcs
    by_cases hc : c = '\n'
    · refine ⟨ls, ?_, hempty⟩
      rw [hc, List.cons_append, splitLines, splitLines, hls]
      rfl
    · cases cs with
      | nil =>
        have hr : c ≠ '\r' := fun hr ↦ (hreturn hr).1 rfl
        refine ⟨[], ?_, by simp⟩
        rw [List.cons_append, splitLines_cons hc fun h ↦ absurd h hr,
          splitLines_cons hc fun h ↦ absurd h hr]
        rfl
      | cons d ds =>
        have hnext : c = '\r' → d ≠ '\n' := by simpa using fun hr ↦ (hreturn hr).2
        obtain ⟨m, ms, hm⟩ := exists_splitLines d ds
        refine ⟨ls, ?_, hempty⟩
        rw [List.cons_append, splitLines_cons hc (by simpa using hnext),
          splitLines_cons hc (by simpa using hnext), hls, hm]
        rfl

def nonblank (ls : List String) : List String :=
  ls.filter fun l ↦ !blank l

def endLines (ls : List String) : String :=
  String.join (ls.map (· ++ "\n"))

theorem endLines_cons (l : String) (ls : List String) :
    endLines (l :: ls) = l ++ "\n" ++ endLines ls := by
  rw [endLines, List.map_cons, String.join_cons]
  rfl

theorem endLines_append (ls ms : List String) :
    endLines (ls ++ ms) = endLines ls ++ endLines ms := by
  rw [endLines, List.map_append, String.join_append]
  rfl

theorem toList_feed : "\n".toList = ['\n'] := by
  decide +kernel

theorem endLines_singleton (l : String) : endLines [l] = l ++ "\n" := by
  rw [endLines_cons, endLines, List.map_nil, String.join_nil, String.append_empty]

theorem lines_endLines_cons (l : String) (ls : List String) :
    lines (endLines (l :: ls)) = lines (endLines [l]) ++ lines (endLines ls) := by
  rw [endLines_singleton, endLines_cons, lines, lines, lines]
  simp only [String.toList_append, toList_feed, List.append_assoc, List.singleton_append]
  rw [splitLines_append_feed, List.map_append]

theorem lines_endLines_append (ls ms : List String) :
    lines (endLines (ls ++ ms)) = lines (endLines ls) ++ lines (endLines ms) := by
  induction ls with
  | nil => rfl
  | cons l ls ih =>
    rw [List.cons_append, lines_endLines_cons, ih, lines_endLines_cons l ls, List.append_assoc]

theorem lines_endLines_singleton {l : String} (h : IsLine l.toList) : lines (endLines [l]) = [l] := by
  rw [endLines_singleton, lines, String.toList_append, toList_feed, splitLines_line_feed h,
    List.map_singleton, String.ofList_toList]

theorem lines_endLines {ls : List String} (h : ∀ l ∈ ls, IsLine l.toList) :
    lines (endLines ls) = ls := by
  induction ls with
  | nil => rfl
  | cons l ls ih =>
    obtain ⟨hl, hls⟩ := List.forall_mem_cons.mp h
    rw [lines_endLines_cons, lines_endLines_singleton hl, ih hls]
    rfl

theorem mem_lines_endLines {l : String} {ls : List String} (hl : l ∈ ls) (h : IsLine l.toList) :
    l ∈ lines (endLines ls) := by
  obtain ⟨before, after, rfl⟩ := List.append_of_mem hl
  rw [lines_endLines_append, lines_endLines_cons, lines_endLines_singleton h]
  exact List.mem_append_right _ (List.mem_append_left _ (List.mem_singleton_self l))

theorem blank_of_eq {s : String} {cs : List Char} (h : s = String.ofList cs) :
    blank s = cs.all isBlank := by
  rw [blank, h, String.toList_ofList]

theorem blank_append (s t : String) : blank (s ++ t) = (blank s && blank t) := by
  rw [blank, String.toList_append, List.all_append]
  rfl

theorem nonblank_append (ls ms : List String) : nonblank (ls ++ ms) = nonblank ls ++ nonblank ms :=
  List.filter_append ls ms

theorem nonblank_cons (l : String) (ls : List String) :
    nonblank (l :: ls) = if blank l then nonblank ls else l :: nonblank ls := by
  rw [nonblank, List.filter_cons]
  cases blank l <;> rfl

theorem nonblank_map_empty {ls : List (List Char)} (h : ∀ l ∈ ls, l = []) :
    nonblank (ls.map String.ofList) = [] := by
  rw [nonblank, List.filter_eq_nil_iff]
  intro l hl
  obtain ⟨cs, hcs, rfl⟩ := List.mem_map.mp hl
  rw [h cs hcs]
  decide

theorem nonblank_lines_joinLines {ds : List String} (h : ∀ d ∈ ds, FeedsOnly d.toList) :
    nonblank (lines (joinLines ds)) = ds.flatMap fun d ↦ nonblank (lines d) := by
  induction ds with
  | nil => rfl
  | cons d ds ih =>
    obtain ⟨hd, hds⟩ := List.forall_mem_cons.mp h
    cases ds with
    | nil => simp [joinLines]
    | cons e ds =>
      obtain ⟨ls, hls, hempty⟩ := exists_splitLines_feed hd
      rw [List.flatMap_cons, ← ih hds, lines, toList_joinLines_cons_cons, splitLines_append_feed, hls,
        List.map_append, List.map_append, nonblank_append, nonblank_append,
        nonblank_map_empty hempty, List.append_nil]
      rfl

theorem isLine_of_mem_lines_joinLines {ds : List String} (h : ∀ d ∈ ds, FeedsOnly d.toList) :
    ∀ l ∈ lines (joinLines ds), IsLine l.toList := by
  intro l hl
  obtain ⟨cs, hcs, rfl⟩ := List.mem_map.mp hl
  rw [String.toList_ofList]
  clear hl
  induction ds with
  | nil => exact absurd hcs List.not_mem_nil
  | cons d ds ih =>
    obtain ⟨hd, hds⟩ := List.forall_mem_cons.mp h
    cases ds with
    | nil =>
      rw [joinLines, String.intercalate_singleton] at hcs
      exact isLine_of_mem_splitLines hd hcs
    | cons e ds =>
      obtain ⟨ls, hls, hempty⟩ := exists_splitLines_feed hd
      rw [toList_joinLines_cons_cons, splitLines_append_feed, hls, List.append_assoc,
        List.mem_append, List.mem_append] at hcs
      rcases hcs with hcs | hcs | hcs
      · exact isLine_of_mem_splitLines hd hcs
      · rw [hempty cs hcs]
        decide
      · exact ih hds hcs

theorem notMem_of_mem_splitLines {cs l : List Char} (hl : l ∈ splitLines cs) : '\n' ∉ l := by
  induction cs using splitLines.induct generalizing l with
  | case1 => exact absurd hl List.not_mem_nil
  | case2 cs ih | case3 cs ih =>
    rw [splitLines] at hl
    rcases List.mem_cons.mp hl with rfl | hl
    · exact List.not_mem_nil
    · exact ih hl
  | case4 c cs hfeed hreturn hnil ih =>
    rw [splitLines, hnil] at hl
    · obtain rfl := List.mem_singleton.mp hl
      simpa using Ne.symm hfeed
    · exact hfeed
    · exact hreturn
  | case5 c cs hfeed hreturn m ms hsplit ih =>
    rw [splitLines, hsplit] at hl
    · rw [hsplit] at ih
      rcases List.mem_cons.mp hl with rfl | hl
      · exact List.not_mem_cons_of_ne_of_not_mem (Ne.symm hfeed) (ih List.mem_cons_self)
      · exact ih (List.mem_cons_of_mem m hl)
    · exact hfeed
    · exact hreturn

theorem notMem_of_mem_lines {s l : String} (hl : l ∈ lines s) : '\n' ∉ l.toList := by
  obtain ⟨cs, hcs, rfl⟩ := List.mem_map.mp hl
  rw [String.toList_ofList]
  exact notMem_of_mem_splitLines hcs

theorem isLine_of_mem_lines {s l : String} (h : FeedsOnly s.toList) (hl : l ∈ lines s) :
    IsLine l.toList := by
  obtain ⟨cs, hcs, rfl⟩ := List.mem_map.mp hl
  rw [String.toList_ofList]
  exact isLine_of_mem_splitLines h hcs

def margin (level : Nat) : String :=
  String.join (List.replicate level tab)

theorem blank_margin (level : Nat) : blank (margin level) = true := by
  induction level with
  | zero => decide
  | succ n ih =>
    rw [margin, List.replicate_succ, String.join_cons, blank_append]
    exact Bool.and_eq_true_iff.mpr ⟨by decide +kernel, ih⟩

theorem padLine_of_not_blank {level : Nat} {l : String} (h : blank l = false) :
    padLine level l = margin level ++ l := by
  rw [padLine, h]
  rfl

theorem blank_padLine (level : Nat) (l : String) : blank (padLine level l) = blank l := by
  cases h : blank l with
  | true =>
    rw [padLine, h]
    rfl
  | false => rw [padLine_of_not_blank h, blank_append, blank_margin, h, Bool.true_and]

theorem nonblank_map_padLine (level : Nat) (ls : List String) :
    nonblank (ls.map (padLine level)) = (nonblank ls).map (margin level ++ ·) := by
  rw [nonblank, List.filter_map]
  have hblank : (fun l ↦ !blank l) ∘ padLine level = fun l ↦ !blank l := by
    funext l
    rw [Function.comp_apply, blank_padLine]
  rw [hblank, nonblank]
  apply List.map_congr_left
  intro l hl
  exact padLine_of_not_blank (by simpa using (List.mem_filter.mp hl).2)

theorem nonblank_indent (level : Nat) (s : String) :
    nonblank (indent level s) = (nonblank (lines s)).map (margin level ++ ·) := by
  rw [← nonblank_map_padLine, indent]
  split
  · rename_i hnil
    rw [hnil]
    rfl
  · rfl

theorem mem_indent {level : Nat} {l s : String} (hl : l ∈ lines s) (hb : blank l = false) :
    margin level ++ l ∈ indent level s := by
  rw [← padLine_of_not_blank hb, indent]
  split
  · rename_i hnil
    rw [hnil] at hl
    exact absurd hl List.not_mem_nil
  · exact List.mem_map_of_mem hl

theorem notMem_margin (level : Nat) : '\n' ∉ (margin level).toList := by
  induction level with
  | zero => decide
  | succ n ih =>
    rw [margin, List.replicate_succ, String.join_cons, String.toList_append, List.mem_append, not_or]
    exact ⟨by decide +kernel, ih⟩

theorem isLine_padLine {level : Nat} {l : String} (h : IsLine l.toList) :
    IsLine (padLine level l).toList := by
  cases hb : blank l with
  | true =>
    rw [padLine, if_pos hb]
    decide
  | false =>
    rw [padLine_of_not_blank hb, String.toList_append]
    apply h.append (notMem_margin level)
    intro hnil
    rw [String.toList_eq_nil_iff.mp hnil] at hb
    cases hb

theorem isLine_of_mem_indent {level : Nat} {s : String} (h : ∀ l ∈ lines s, IsLine l.toList) :
    ∀ l ∈ indent level s, IsLine l.toList := by
  intro l hl
  rw [indent] at hl
  split at hl
  · obtain rfl := List.mem_singleton.mp hl
    decide
  · obtain ⟨m, hm, rfl⟩ := List.mem_map.mp hl
    exact isLine_padLine (h m hm)

theorem isLine_trim {s : String} (h : '\n' ∉ s.toList) : IsLine (trim s).toList := by
  rw [toList_trim]
  exact ⟨fun hfeed ↦ h (mem_of_mem_trimChars hfeed), getLast?_trimChars_ne (by decide)⟩

theorem notMem_append {c : Char} {s t : String} :
    c ∉ (s ++ t).toList ↔ c ∉ s.toList ∧ c ∉ t.toList := by
  rw [String.toList_append, List.mem_append, not_or]

theorem isLine_append {s t : String} (hs : '\n' ∉ s.toList) (ht : IsLine t.toList) (hne : t ≠ "") :
    IsLine (s ++ t).toList := by
  rw [String.toList_append]
  apply ht.append hs
  intro hnil
  exact hne (String.toList_eq_nil_iff.mp hnil)

theorem isLine_tab {s : String} (h : IsLine s.toList) (hne : s ≠ "") : IsLine (tab ++ s).toList :=
  isLine_append (notMem_of_eq rfl (by decide)) h hne

end TokenContract.Text
