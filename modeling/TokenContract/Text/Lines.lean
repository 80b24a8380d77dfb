import TokenContract.Text.Blank

namespace TokenContract.Text

/-- A line feed ends a line, together with the carriage return right before it; the text after the
last line feed is a line only if there is any. -/
def splitLines : List Char → List (List Char)
  | [] => []
  | '\n' :: cs => [] :: splitLines cs
  | '\r' :: '\n' :: cs => [] :: splitLines cs
  | c :: cs =>
    match splitLines cs with
    | [] => [[c]]
    | l :: ls => (c :: l) :: ls

def lines (s : String) : List String :=
  (splitLines s.toList).map String.ofList

/-- A text with one line per entry; only a further line is set off by a line feed. -/
def joinLines (ls : List String) : String :=
  "\n".intercalate ls

def tab : String := "    "

def deeper (ls : List String) : List String :=
  ls.map (tab ++ ·)

def padLine (level : Nat) (l : String) : String :=
  if blank l then "" else String.join (List.replicate level tab) ++ l

/-- The lines of a text at a level of indentation. A text without lines still takes up one, which
is empty. -/
def indent (level : Nat) (s : String) : List String :=
  match lines s with
  | [] => [""]
  | ls => ls.map (padLine level)

end TokenContract.Text
