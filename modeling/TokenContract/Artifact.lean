import TokenContract.Digest.Blake3
import TokenContract.Source.Layout

namespace TokenContract

structure Artifact where
  contractName : String
  sourceText : String
  enabled : List FeatureId
  sourceHash : String
deriving DecidableEq, Repr

namespace Artifact

def ofAssembly (a : Assembly) : Artifact :=
  let source := a.sourceText
  ⟨a.header.contractName, source, a.enabled, Digest.Blake3.hexOf source⟩

def lineCount (a : Artifact) : Nat :=
  (Text.lines a.sourceText).length

end Artifact

end TokenContract
