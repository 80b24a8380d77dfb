import TokenContract.Proofs.Number.Text
import TokenContract.Proofs.Solidity.Block
import TokenContract.Source.Assembly

namespace TokenContract

namespace Text

/-- The characters of a class in a text, one after another. -/
def sift (q : Char → Bool) (s : String) : List Char :=
  s.toList.filter q

def siftAll (q : Char → Bool) (ls : List String) : List Char :=
  ls.flatMap (sift q)

variable {q : Char → Bool}

theorem sift_eq_nil_iff {s : String} : sift q s = [] ↔ ∀ c ∈ s.toList, ¬q c :=
  List.filter_eq_nil_iff

theorem sift_eq_nil_of_forall {s : String} (h : ∀ c ∈ s.toList, q c = false) : sift q s = [] := by
  rw [sift_eq_nil_iff]
  intro c hc
  rw [h c hc]
  exact Bool.false_ne_true

theorem sift_of_eq {s : String} {cs : List Char} (h : s = String.ofList cs) :
    sift q s = cs.filter q := by
  rw [sift, h, String.toList_ofList]

theorem isInfix_sift {s t : String} (h : s.toList <:+: t.toList) : sift q s <:+: sift q t :=
  h.filter q

theorem sift_trim {s : String} (h : sift q s = []) : sift q (trim s) = [] := by
  rw [sift_eq_nil_iff] at h ⊢
  intro c hc
  rw [toList_trim] at hc
  exact h c (mem_of_mem_trimChars hc)

@[simp] theorem sift_empty : sift q "" = [] :=
  sift_of_eq rfl

@[simp] theorem sift_append (s t : String) : sift q (s ++ t) = sift q s ++ sift q t := by
  rw [sift, String.toList_append, List.filter_append]
  rfl

@[simp] theorem sift_toString (s : String) : sift q (toString s) = sift q s :=
  congrArg (sift q) rfl

@[simp] theorem siftAll_nil : siftAll q [] = [] := by
  rw [siftAll, List.flatMap_nil]

@[simp] theorem siftAll_cons (l : String) (ls : List String) :
    siftAll q (l :: ls) = sift q l ++ siftAll q ls :=
  rfl

@[simp] theorem siftAll_append (ls ms : List String) :
    siftAll q (ls ++ ms) = siftAll q ls ++ siftAll q ms :=
  List.flatMap_append

theorem siftAll_map {f : String → String} (h : ∀ l, sift q (f l) = sift q l) (ls : List String) :
    siftAll q (ls.map f) = siftAll q ls := by
  rw [siftAll, List.flatMap_map, siftAll]
  apply List.flatMap_congr
  intro l _
  exact h l

/-- The characters that lay out a text, write a number, part arguments or count. -/
def isLayout (c : Char) : Bool :=
  isBlank c || c.isDigit || c ∈ ['(', ')', ',', ';', '*', '/']

/-- A class of characters that have nothing to do with the layout. -/
class Blind (q : Char → Bool) : Prop where
  of_isLayout : ∀ c, isLayout c → q c = false

section Blind

variable [Blind q]

theorem sift_layout {s : String} {cs : List Char} (h : s = String.ofList cs)
    (hcs : cs.all isLayout = true) : sift q s = [] := by
  rw [sift_of_eq h, List.filter_eq_nil_iff]
  intro c hc
  rw [Blind.of_isLayout (q := q) c (List.all_eq_true.mp hcs c hc)]
  exact Bool.false_ne_true

theorem sift_blank {l : String} (h : blank l = true) : sift q l = [] := by
  apply sift_eq_nil_of_forall
  intro c hc
  apply Blind.of_isLayout
  rw [isLayout, List.all_eq_true.mp h c hc]
  rfl

@[simp] theorem sift_repr (n : Nat) : sift q n.repr = [] := by
  apply sift_eq_nil_of_forall
  intro c hc
  apply Blind.of_isLayout
  rw [isLayout, isDigit_of_mem_toString hc, Bool.or_true]
  rfl

@[simp] theorem sift_tab : sift q tab = [] :=
  sift_layout rfl (by decide)

@[simp] theorem siftAll_deeper (ls : List String) : siftAll q (deeper ls) = siftAll q ls := by
  apply siftAll_map
  intro l
  rw [sift_append, sift_tab, List.nil_append]

theorem filter_splitLines (cs : List Char) :
    (splitLines cs).flatMap (List.filter q) = cs.filter q := by
  have hfeed : q '\n' = false := Blind.of_isLayout _ rfl
  have hreturn : q '\r' = false := Blind.of_isLayout _ rfl
  induction cs using splitLines.induct with
  | case1 => rfl
  | case2 cs ih => simp [splitLines, ih, hfeed]
  | case3 cs ih => simp [splitLines, ih, hfeed, hreturn]
  | case4 c cs hc hnext _ ih | case5 c cs hc hnext _ _ _ ih =>
    have hhead : c = '\r' → cs.head? ≠ some '\n' := by
      intro hr hhead
      obtain ⟨ds, rfl⟩ := List.head?_eq_some_iff.mp hhead
      exact hnext ds hr rfl
    have hfirst : (c :: (splitLines cs).headD []).filter q ++
        (splitLines cs).tail.flatMap (List.filter q) = [c].filter q ++
          (splitLines cs).flatMap (List.filter q) := by
      rw [← List.singleton_append, List.filter_append, List.append_assoc]
      cases splitLines cs with
      | nil => rfl
      | cons l ls => rfl
    rw [splitLines_cons hc hhead, List.flatMap_cons, hfirst, ih, ← List.filter_append]
    rfl

@[simp] theorem siftAll_lines (s : String) : siftAll q (lines s) = sift q s := by
  rw [siftAll, lines, List.flatMap_map, sift, ← filter_splitLines]
  apply List.flatMap_congr
  intro cs _
  rw [sift, String.toList_ofList]

@[simp] theorem sift_joinLines (ls : List String) : sift q (joinLines ls) = siftAll q ls := by
  induction ls with
  | nil => exact sift_empty
  | cons l ls ih =>
    cases ls with
    | nil => simp [joinLines]
    | cons m ls =>
      rw [siftAll_cons, ← ih, sift, toList_joinLines_cons_cons, List.filter_append,
        List.filter_cons_of_neg (by simp [Blind.of_isLayout (q := q) '\n' rfl])]
      rfl

@[simp] theorem sift_padLine (level : Nat) (l : String) : sift q (padLine level l) = sift q l := by
  cases hl : blank l with
  | true => rw [padLine, if_pos hl, sift_blank hl, sift_empty]
  | false =>
    rw [padLine_of_not_blank hl, sift_append, sift_blank (blank_margin level), List.nil_append]

@[simp] theorem siftAll_map_padLine (level : Nat) (ls : List String) :
    siftAll q (ls.map (padLine level)) = siftAll q ls :=
  siftAll_map (sift_padLine level) ls

@[simp] theorem siftAll_indent (level : Nat) (s : String) :
    siftAll q (indent level s) = sift q s := by
  rw [← siftAll_lines, indent]
  split
  · rename_i hnil
    rw [hnil, siftAll_cons, sift_empty]
    rfl
  · exact siftAll_map_padLine level _

@[simp] theorem sift_endLines (ls : List String) : sift q (endLines ls) = siftAll q ls := by
  have hfeed : sift q "\n" = [] := sift_layout rfl (by decide)
  induction ls with
  | nil => exact sift_empty
  | cons l ls ih =>
    rw [endLines_cons, sift_append, sift_append, hfeed, ih, List.append_nil, siftAll_cons]

end Blind

end Text

namespace Solidity

open Text

variable {q : Char → Bool}

@[simp] theorem siftAll_spaced (pieces : List (List String)) :
    siftAll q (spaced pieces) = pieces.flatMap (siftAll q) := by
  cases pieces with
  | nil => rfl
  | cons p ps =>
    have hrest : siftAll q (ps.flatMap ("" :: ·)) = ps.flatMap (siftAll q) := by
      rw [siftAll, List.flatMap_assoc]
      apply List.flatMap_congr
      intro r _
      rw [List.flatMap_cons, sift_empty]
      rfl
    rw [spaced_cons, siftAll_append, hrest, List.flatMap_cons]

@[simp] theorem sift_importOf (path : String) :
    sift q (importOf path) = sift q "import \"" ++ sift q path ++ sift q "\";" := by
  rw [importOf, sift_append, sift_append]

variable [Blind q]

@[simp] theorem sift_publicNumber (name value : String) :
    sift q (publicNumber name value) =
      sift q "uint256 public " ++ sift q name ++ sift q " = " ++ sift q value := by
  have hend : sift q ";" = [] := sift_layout rfl (by decide)
  have h : publicNumber name value =
      "uint256 public " ++ name ++ " = " ++ value ++ ";" := rfl
  rw [h, sift_append, sift_append, sift_append, sift_append, hend, List.append_nil]

theorem sift_brace : sift q " \x7b" = sift q "\x7b" := by
  have hspace : " \x7b" = " " ++ "\x7b" := by simp
  rw [hspace, sift_append, sift_layout rfl (by decide), List.nil_append]

@[simp] theorem siftAll_block (head : String) (body : List String) :
    siftAll q (block head body) =
      sift q head ++ sift q "\x7b" ++ siftAll q body ++ sift q "\x7d" := by
  simp [block, sift_brace]

@[simp] theorem siftAll_blockElse (head otherwise : String) (body other : List String) :
    siftAll q (blockElse head body otherwise other) =
      siftAll q (block head body) ++ sift q "else" ++ siftAll q (block otherwise other) := by
  have helse : sift q "\x7d else " = sift q "\x7d" ++ sift q "else" := by
    have hspaces : "\x7d else " = "\x7d" ++ " " ++ "else" ++ " " := by simp
    have hspace : sift q " " = [] := sift_layout rfl (by decide)
    rw [hspaces, sift_append, sift_append, sift_append, hspace, List.append_nil, List.append_nil]
  simp [blockElse, sift_brace, helse]

@[simp] theorem siftAll_arguments (args : List String) :
    siftAll q (arguments args) = siftAll q args := by
  have hcomma : sift q "," = [] := sift_layout rfl (by decide)
  induction args using arguments.induct with
  | case1 => rfl
  | case2 a => rfl
  | case3 a as hne ih =>
    rw [arguments, siftAll_cons, siftAll_cons, sift_append, hcomma, ih, List.append_nil]
    exact hne

@[simp] theorem siftAll_call (head : String) (args : List String) :
    siftAll q (call head args) = sift q head ++ siftAll q args := by
  have hopen : sift q "(" = [] := sift_layout rfl (by decide)
  have hclose : sift q ");" = [] := sift_layout rfl (by decide)
  simp [call, hopen, hclose]

end Solidity

open Text

variable {q : Char → Bool} [Blind q]

@[simp] theorem sift_share (e : Environment) (basisPoints : Nat) :
    sift q (e.share basisPoints) = sift q e.supply := by
  have hopen : sift q "(" = [] := sift_layout rfl (by decide)
  have htimes : sift q ") * " = [] := sift_layout rfl (by decide)
  have hparts : sift q " / 10000" = [] := sift_layout rfl (by decide)
  simp [Environment.share, hopen, htimes, hparts]

@[simp] theorem sift_supplyExpression (s : Spec) :
    sift q s.supplyExpression = sift q (trim s.totalSupply) := by
  have hpower : sift q " * 10 ** " = [] := sift_layout rfl (by decide)
  simp [Spec.supplyExpression, hpower]

end TokenContract
