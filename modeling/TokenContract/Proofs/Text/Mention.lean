import TokenContract.Proofs.Text.Sift

namespace TokenContract.Text

def Mentions (text name : String) : Prop :=
  name.toList <:+: text.toList

/-- Characters of a class among which none of the names is found. -/
def Lacks (q : Char → Bool) (cs : List Char) (names : List String) : Prop :=
  ∀ n ∈ names, ¬sift q n <:+: cs

theorem Lacks.not_mentions {q : Char → Bool} {text : String} {names : List String}
    (h : Lacks q (sift q text) names) : ∀ n ∈ names, ¬Mentions text n := by
  intro n hn hm
  exact h n hn (isInfix_sift hm)

theorem mentions_of_eq {text name : String} {cs ds : List Char} (htext : text = String.ofList cs)
    (hname : name = String.ofList ds) (h : ds <:+: cs) : Mentions text name := by
  rw [Mentions, htext, hname, String.toList_ofList, String.toList_ofList]
  exact h

theorem mentions_append {s name : String} (h : Mentions s name) (t : String) :
    Mentions (s ++ t) name := by
  rw [Mentions, String.toList_append]
  exact h.trans (List.prefix_append _ _).isInfix

theorem mentions_joinLines {l name : String} {ls : List String} (hl : l ∈ ls)
    (h : Mentions l name) : Mentions (joinLines ls) name := by
  induction ls with
  | nil => exact absurd hl List.not_mem_nil
  | cons m ls ih =>
    rcases List.mem_cons.mp hl with rfl | hl
    · obtain ⟨cs, hcs⟩ := exists_toList_joinLines l ls
      rw [Mentions, hcs]
      exact h.trans (List.prefix_append _ _).isInfix
    · cases ls with
      | nil => exact absurd hl List.not_mem_nil
      | cons k ls =>
        rw [Mentions, toList_joinLines_cons_cons, List.append_cons]
        exact (ih hl).trans (List.suffix_append _ _).isInfix

end TokenContract.Text
