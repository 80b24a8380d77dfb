import TokenContract.Artifact
import TokenContract.Proofs.Solidity.Block

namespace TokenContract.Assembly

open Text (endLines endLines_append)
open Solidity (spaced spaced_append_cons)

def front (a : Assembly) : List String :=
  ["// SPDX-License-Identifier: " ++ a.header.license, languageVersion, ""] ++ a.imports ++ [""]

def before (a : Assembly) (ps : List (List String)) : String :=
  endLines (a.front ++ a.header.contractLine :: ps.flatMap (· ++ [""]))

def after (qs : List (List String)) : String :=
  endLines (qs.flatMap ("" :: ·) ++ ["\x7d"])

theorem lines_eq_front (a : Assembly) :
    a.lines = a.front ++ a.header.contractLine :: spaced a.body ++ ["\x7d"] := by
  rw [lines, front]
  simp only [List.append_assoc, List.cons_append, List.nil_append]

theorem sourceText_eq_of_body {a : Assembly} {ps qs : List (List String)} {q : List String}
    (h : a.body = ps ++ q :: qs) : a.sourceText = a.before ps ++ endLines q ++ after qs := by
  have htext : a.sourceText = endLines a.lines := rfl
  rw [htext, lines_eq_front, h, spaced_append_cons, before, after, ← endLines_append,
    ← endLines_append]
  simp only [List.append_assoc, List.cons_append]

end TokenContract.Assembly
