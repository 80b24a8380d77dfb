import TokenContract.Command.Program

namespace TokenContract

partial def readLines (input : IO.FS.Stream) (before : String) : IO String := do
  let line ← input.getLine
  if line.isEmpty then return before
  readLines input (before ++ line)

def attempt {α : Type} (action : IO α) : IO (Option α) :=
  try some <$> action catch _ => return none

def systemHost : Host IO where
  textOf path := attempt (IO.FS.readFile path)
  input := attempt (do readLines (← IO.getStdin) "")
  save path text := return (← attempt (IO.FS.writeFile path text)).isSome
  print text := do (← IO.getStdout).putStr text
  report line := IO.eprintln line

end TokenContract

def main (args : List String) : IO UInt32 := do
  TokenContract.runProgram TokenContract.systemHost args (← IO.getEnv "TOKENFORGE_CONFIG")
