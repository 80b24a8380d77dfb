import TokenContract.Command.Arguments
import TokenContract.Command.Run

namespace TokenContract

def programVersion : String := "tokenforge 0.1.3"

def usage : List String := [
  "Usage: tokenforge [OPTIONS] <COMMAND>",
  "",
  "Commands:",
  "  generate <SPEC> [--out <OUT>] [--format <source|json>]",
  "  validate <SPEC>",
  "  catalog",
  "",
  "Options:",
  "  -c, --config <CONFIG>  settings in TOML [env: TOKENFORGE_CONFIG]",
  "  -v, --verbose",
  "  -h, --help",
  "  -V, --version"]

/-- Runs the program. The exit code is zero for a success, one for a failure, and two for arguments
that ask for nothing. -/
def runProgram {m : Type → Type} [Monad m] (h : Host m) (args : List String)
    (environment : Option String) : m UInt32 := do
  match Request.ofArguments args environment with
  | .error e =>
    h.report ("error: " ++ e.message)
    usage.forM h.report
    return 2
  | .ok .version =>
    h.print (programVersion ++ "\n")
    return 0
  | .ok .help =>
    usage.forM fun line ↦ h.print (line ++ "\n")
    return 0
  | .ok (.run i) =>
    match ← i.run h with
    | .ok _ => return 0
    | .error f =>
      h.report ("Error: " ++ f.diagnostic)
      return 1

end TokenContract
