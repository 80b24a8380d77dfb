import TokenContract.Text.Lines
import Mathlib.Data.List.Basic

namespace TokenContract.Text

theorem toList_joinLines_cons_cons (l m : String) (ls : List String) :
    (joinLines (l :: m :: ls)).toList = l.toList ++ '\n' :: (joinLines (m :: ls)).toList := by
  have hfeed : "\n".toList = ['\n'] := rfl
  rw [joinLines, String.intercalate_cons_cons, String.toList_append, String.toList_append, hfeed,
    List.append_assoc]
  rfl

theorem exists_toList_joinLines (l : String) (ls : List String) :
    ∃ cs, (joinLines (l :: ls)).toList = l.toList ++ cs := by
  cases ls with
  | nil => exact ⟨[], by simp [joinLines]⟩
  | cons m ls => exact ⟨_, toList_joinLines_cons_cons l m ls⟩

def Unbroken (cs : List Char) : Prop :=
  ∀ ch ∈ cs, ch ≠ '\n' ∧ ch ≠ '\r'

instance (cs : List Char) : Decidable (Unbroken cs) :=
  decidable_of_iff (cs.all fun ch ↦ ch != '\n' && ch != '\r') (by simp [Unbroken])

/-- A literal is compared with its characters, which is faster than to decode its bytes. -/
theorem unbroken_of_eq {s : String} {cs : List Char} (h : s = String.ofList cs)
    (hcs : Unbroken cs) : Unbroken s.toList := by
  rw [h, String.toList_ofList]
  exact hcs

theorem unbroken_append {s t : String} :
    Unbroken (s ++ t).toList ↔ Unbroken s.toList ∧ Unbroken t.toList := by
  rw [String.toList_append]
  exact List.forall_mem_append

theorem unbroken_of_digits {cs : List Char} (h : ∀ c ∈ cs, c.isDigit) : Unbroken cs := by
  intro c hc
  constructor
  · rintro rfl
    exact absurd (h _ hc) (by decide)
  · rintro rfl
    exact absurd (h _ hc) (by decide)

theorem notMem_of_eq {c : Char} {s : String} {cs : List Char} (h : s = String.ofList cs)
    (hcs : c ∉ cs) : c ∉ s.toList := by
  rw [h, String.toList_ofList]
  exact hcs

theorem splitLines_cons {c : Char} {cs : List Char} (hfeed : c ≠ '\n')
    (hreturn : c = '\r' → cs.head? ≠ some '\n') :
    splitLines (c :: cs) = (c :: (splitLines cs).headD []) :: (splitLines cs).tail := by
  rw [splitLines]
  · cases splitLines cs with
    | nil => rfl
    | cons l ls => rfl
  · exact hfeed
  · rintro ds hc rfl
    exact hreturn hc rfl

theorem exists_splitLines (c : Char) (cs : List Char) :
    ∃ l ls, splitLines (c :: cs) = l :: ls := by
  unfold splitLines
  split
  · contradiction
  · exact ⟨_, _, rfl⟩
  · exact ⟨_, _, rfl⟩
  · split
    · exact ⟨_, _, rfl⟩
    · exact ⟨_, _, rfl⟩

theorem splitLines_append_feed (cs ds : List Char) :
    splitLines (cs ++ '\n' :: ds) = splitLines (cs ++ ['\n']) ++ splitLines ds := by
  induction cs using splitLines.induct with
  | case1 => simp [splitLines]
  | case2 cs ih => simp [splitLines, ih]
  | case3 cs ih => simp [splitLines, ih]
  | case4 c cs hfeed hreturn _ ih | case5 c cs hfeed hreturn _ _ _ ih =>
    cases cs with
    | nil =>
      -- A return right before the feed belongs to the break.
      by_cases hc : c = '\r'
      · simp [hc, splitLines]
      · rw [List.cons_append, splitLines_cons hfeed fun h ↦ absurd h hc, List.cons_append,
          splitLines_cons hfeed fun h ↦ absurd h hc]
        simp [splitLines]
    | cons d cs =>
      have hnext : c = '\r' → d ≠ '\n' := by
        rintro hc rfl
        exact hreturn cs hc rfl
      obtain ⟨l, ls, hls⟩ := exists_splitLines d (cs ++ ['\n'])
      simp only [List.cons_append] at ih ⊢
      rw [splitLines_cons hfeed (by simpa using hnext), splitLines_cons hfeed (by simpa using hnext),
        ih, hls]
      rfl

theorem splitLines_unbroken {cs : List Char} (h : Unbroken cs) (hne : cs ≠ []) :
    splitLines cs = [cs] := by
  induction cs with
  | nil => exact absurd rfl hne
  | cons c cs ih =>
    obtain ⟨⟨hfeed, hreturn⟩, hcs⟩ := List.forall_mem_cons.mp h
    rw [splitLines_cons hfeed fun hc ↦ absurd hc hreturn]
    cases cs with
    | nil => rfl
    | cons d cs =>
      rw [ih hcs (List.cons_ne_nil d cs)]
      rfl

/-- A text without a break, whose last character is not lost to a feed after it. -/
def IsLine (cs : List Char) : Prop :=
  '\n' ∉ cs ∧ cs.getLast? ≠ some '\r'

instance (cs : List Char) : Decidable (IsLine cs) :=
  inferInstanceAs (Decidable (_ ∧ _))

theorem isLine_of_eq {s : String} {cs : List Char} (h : s = String.ofList cs) (hcs : IsLine cs) :
    IsLine s.toList := by
  rw [h, String.toList_ofList]
  exact hcs

theorem splitLines_line_feed {cs : List Char} (h : IsLine cs) :
    splitLines (cs ++ ['\n']) = [cs] := by
  induction cs with
  | nil => rfl
  | cons c cs ih =>
    obtain ⟨hfeed, hlast⟩ := h
    rw [List.mem_cons, not_or] at hfeed
    obtain ⟨hc, hfeed⟩ := hfeed
    cases cs with
    | nil =>
      have hreturn : c ≠ '\r' := by simpa using hlast
      rw [List.cons_append, splitLines_cons (Ne.symm hc) fun h ↦ absurd h hreturn]
      rfl
    | cons d ds =>
      rw [List.getLast?_cons_cons] at hlast
      have hnext : d ≠ '\n' := fun h ↦ hfeed (h ▸ List.mem_cons_self)
      rw [List.cons_append, splitLines_cons (Ne.symm hc) (by simp [hnext]), ih ⟨hfeed, hlast⟩]
      rfl

theorem Unbroken.isLine {cs : List Char} (h : Unbroken cs) : IsLine cs := by
  refine ⟨fun hfeed ↦ (h _ hfeed).1 rfl, ?_⟩
  intro hlast
  exact (h _ (List.mem_of_getLast? hlast)).2 rfl

theorem lines_joinLines {ls : List String} (h : ∀ l ∈ ls, Unbroken l.toList)
    (hlast : ls.getLast? ≠ some "") : lines (joinLines ls) = ls := by
  suffices hsplit : splitLines (joinLines ls).toList = ls.map String.toList by
    rw [lines, hsplit, List.map_map]
    refine (List.map_congr_left fun l _ ↦ ?_).trans (List.map_id ls)
    exact String.ofList_toList
  induction ls with
  | nil => rfl
  | cons l ls ih =>
    obtain ⟨hl, hls⟩ := List.forall_mem_cons.mp h
    cases ls with
    | nil =>
      have hne : l.toList ≠ [] := fun h ↦ hlast (congrArg some (String.toList_eq_nil_iff.mp h))
      rw [joinLines, String.intercalate_singleton, splitLines_unbroken hl hne]
      rfl
    | cons m ls =>
      rw [List.getLast?_cons_cons] at hlast
      rw [toList_joinLines_cons_cons, splitLines_append_feed, splitLines_line_feed hl.isLine,
        ih hls hlast]
      rfl

theorem mem_lines_joinLines {l : String} {ls : List String} (hl : l ∈ ls)
    (h : Unbroken l.toList) (hne : l ≠ "") : l ∈ lines (joinLines ls) := by
  have hne : l.toList ≠ [] := fun h ↦ hne (String.toList_eq_nil_iff.mp h)
  have hback : String.ofList l.toList = l := String.ofList_toList
  rw [← hback]
  apply List.mem_map_of_mem
  induction ls with
  | nil => exact absurd hl List.not_mem_nil
  | cons m ls ih =>
    cases ls with
    | nil =>
      rw [List.mem_singleton] at hl
      rw [← hl, joinLines, String.intercalate_singleton, splitLines_unbroken h hne]
      exact List.mem_singleton_self _
    | cons n ls =>
      rw [toList_joinLines_cons_cons, splitLines_append_feed]
      rcases List.mem_cons.mp hl with rfl | hl
      · rw [splitLines_line_feed h.isLine]
        exact List.mem_append_left _ (List.mem_singleton_self _)
      · exact List.mem_append_right _ (ih hl)

end TokenContract.Text
