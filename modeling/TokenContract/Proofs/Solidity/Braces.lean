import TokenContract.Proofs.Text.Sift

namespace TokenContract.Solidity

open Text

def depth (cs : List Char) : Int :=
  cs.count '{' - cs.count '}'

/-- Every brace that is closed was opened before, and all are closed at the end. -/
structure Balanced (cs : List Char) : Prop where
  nonneg : ∀ ds, ds <+: cs → 0 ≤ depth ds
  closed : depth cs = 0

theorem depth_append (cs ds : List Char) : depth (cs ++ ds) = depth cs + depth ds := by
  rw [depth, depth, depth, List.count_append, List.count_append]
  omega

theorem depth_nil : depth [] = 0 :=
  rfl

theorem depth_cons (c : Char) (cs : List Char) : depth (c :: cs) = depth [c] + depth cs :=
  depth_append [c] cs

theorem depth_open : depth ['{'] = 1 := by
  decide

theorem depth_close : depth ['}'] = -1 := by
  decide

theorem depth_wrap (cs : List Char) : depth ('{' :: cs ++ ['}']) = depth cs := by
  rw [depth_append, depth_cons, depth_open, depth_close]
  omega

namespace Balanced

variable {cs ds : List Char}

theorem nil : Balanced [] := by
  refine ⟨?_, rfl⟩
  intro ds h
  rw [List.prefix_nil.mp h]
  decide

theorem append (hcs : Balanced cs) (hds : Balanced ds) : Balanced (cs ++ ds) := by
  refine ⟨?_, by rw [depth_append, hcs.closed, hds.closed, Int.add_zero]⟩
  intro es h
  rcases List.prefix_or_prefix_of_prefix h (List.prefix_append cs ds) with hes | ⟨fs, rfl⟩
  · exact hcs.nonneg es hes
  · rw [depth_append, hcs.closed, Int.zero_add]
    exact hds.nonneg fs ((List.prefix_append_right_inj cs).mp h)

theorem flatMap {α : Type} {f : α → List Char} {xs : List α} (h : ∀ x ∈ xs, Balanced (f x)) :
    Balanced (xs.flatMap f) := by
  induction xs with
  | nil => exact nil
  | cons x xs ih =>
    obtain ⟨hx, hxs⟩ := List.forall_mem_cons.mp h
    exact hx.append (ih hxs)

theorem one_le_depth (h : Balanced cs) {es : List Char} (hes : es <+: cs) : 1 ≤ depth ('{' :: es) := by
  have hdepth := h.nonneg es hes
  rw [depth_cons, depth_open]
  omega

theorem wrap (h : Balanced cs) : Balanced ('{' :: cs ++ ['}']) := by
  have hclosed : depth ('{' :: cs ++ ['}']) = 0 := by rw [depth_wrap, h.closed]
  refine ⟨?_, hclosed⟩
  intro es hes
  rcases List.prefix_concat_iff.mp hes with rfl | hes
  · exact Int.le_of_eq hclosed.symm
  · cases es with
    | nil => decide
    | cons e es =>
      obtain ⟨rfl, hprefix⟩ := List.cons_prefix_cons.mp hes
      have hone := h.one_le_depth hprefix
      omega

end Balanced

/-- Reads a text with a number of open braces, and tells whether it ends with all of them closed. -/
def closes : Nat → List Char → Bool
  | n, [] => n == 0
  | n, c :: cs =>
    if c = '{' then closes (n + 1) cs
    else if c = '}' then 0 < n && closes (n - 1) cs
    else closes n cs

theorem depth_of_closes {n : Nat} {cs : List Char} (h : closes n cs) :
    (∀ ds, ds <+: cs → 0 ≤ n + depth ds) ∧ n + depth cs = 0 := by
  induction cs generalizing n with
  | nil =>
    have hzero : n = 0 := beq_iff_eq.mp h
    subst hzero
    refine ⟨?_, rfl⟩
    intro ds hds
    rw [List.prefix_nil.mp hds]
    decide
  | cons c cs ih =>
    have hstep {m : Nat} (hm : (n : Int) + depth [c] = m) (hcloses : closes m cs) :
        (∀ ds, ds <+: c :: cs → 0 ≤ n + depth ds) ∧ n + depth (c :: cs) = 0 := by
      obtain ⟨hnonneg, hclosed⟩ := ih hcloses
      rw [depth_cons]
      refine ⟨?_, by omega⟩
      intro ds hds
      cases ds with
      | nil => exact Int.add_nonneg (Int.natCast_nonneg n) (by decide)
      | cons d ds =>
        obtain ⟨rfl, hprefix⟩ := List.cons_prefix_cons.mp hds
        have hds := hnonneg ds hprefix
        rw [depth_cons]
        omega
    rw [closes] at h
    split at h
    · rename_i hopen
      exact hstep (by rw [hopen, depth_open]; rfl) h
    · split at h
      · rename_i hclose
        obtain ⟨hpos, hcloses⟩ := Bool.and_eq_true_iff.mp h
        have hpos := of_decide_eq_true hpos
        exact hstep (by rw [hclose, depth_close]; omega) hcloses
      · rename_i hopen hclose
        have hnone : depth [c] = 0 := by simp [depth, hopen, hclose]
        exact hstep (by rw [hnone, Int.add_zero]) h

theorem Balanced.of_closes {cs : List Char} (h : closes 0 cs) : Balanced cs := by
  obtain ⟨hnonneg, hclosed⟩ := depth_of_closes h
  exact ⟨by simpa using hnonneg, by simpa using hclosed⟩

def isBrace (c : Char) : Bool :=
  c == '{' || c == '}'

def Braceless (s : String) : Prop :=
  '{' ∉ s.toList ∧ '}' ∉ s.toList

instance (s : String) : Decidable (Braceless s) :=
  inferInstanceAs (Decidable ('{' ∉ s.toList ∧ '}' ∉ s.toList))

theorem isBrace_eq_false_of {q : Char → Bool} (hopen : ¬q '{') (hclose : ¬q '}') {c : Char}
    (h : q c) : isBrace c = false := by
  rw [Bool.eq_false_iff]
  intro hbrace
  rcases Bool.or_eq_true_iff.mp hbrace with he | he
  · exact hopen (beq_iff_eq.mp he ▸ h)
  · exact hclose (beq_iff_eq.mp he ▸ h)

instance : Blind isBrace where
  of_isLayout _ := isBrace_eq_false_of (by decide) (by decide)

theorem sift_isBrace_eq_nil_iff {s : String} : sift isBrace s = [] ↔ Braceless s := by
  rw [sift_eq_nil_iff]
  constructor
  · intro h
    exact ⟨fun hopen ↦ h _ hopen rfl, fun hclose ↦ h _ hclose rfl⟩
  · rintro ⟨hopen, hclose⟩ c hc hbrace
    rcases Bool.or_eq_true_iff.mp hbrace with he | he
    · exact hopen (beq_iff_eq.mp he ▸ hc)
    · exact hclose (beq_iff_eq.mp he ▸ hc)

theorem sift_isBrace_of_forall {s : String} {q : Char → Bool} (hs : ∀ c ∈ s.toList, q c)
    (hopen : ¬q '{') (hclose : ¬q '}') : sift isBrace s = [] :=
  sift_eq_nil_of_forall fun c hc ↦ isBrace_eq_false_of hopen hclose (hs c hc)

theorem depth_filter_isBrace (cs : List Char) : depth (cs.filter isBrace) = depth cs := by
  rw [depth, List.count_filter rfl, List.count_filter rfl, depth]

theorem depth_toList (s : String) : depth s.toList = depth (sift isBrace s) :=
  (depth_filter_isBrace s.toList).symm

theorem balanced_of_sift {s : String} (h : Balanced (sift isBrace s)) : Balanced s.toList := by
  refine ⟨?_, by rw [depth_toList, h.closed]⟩
  intro ds hds
  rw [← depth_filter_isBrace]
  exact h.nonneg _ (hds.filter isBrace)

theorem sift_isBrace_open : sift isBrace "\x7b" = ['{'] :=
  sift_of_eq rfl

theorem sift_isBrace_close : sift isBrace "\x7d" = ['}'] :=
  sift_of_eq rfl

end TokenContract.Solidity
