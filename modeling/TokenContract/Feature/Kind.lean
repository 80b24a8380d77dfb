import TokenContract.Feature.Antibot
import TokenContract.Feature.AutoLiquidity
import TokenContract.Feature.Reflection
import TokenContract.Feature.Tax
import TokenContract.Feature.Timelock

namespace TokenContract.FeatureKind

def label : FeatureKind → String
  | .tax => "tax"
  | .antibot => "antibot"
  | .reflection => "reflection"
  | .autoLiquidity => "auto-liquidity"
  | .timelock => "timelock"

def output : FeatureKind → Resolved → Environment → Except Defect Output
  | .tax => Tax.output
  | .antibot => Antibot.output
  | .reflection => Reflection.output
  | .autoLiquidity => AutoLiquidity.output
  | .timelock => Timelock.output

end TokenContract.FeatureKind
