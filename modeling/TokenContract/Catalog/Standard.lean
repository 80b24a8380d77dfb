import TokenContract.Catalog.Check
import TokenContract.Feature.Antibot
import TokenContract.Feature.AutoLiquidity
import TokenContract.Feature.Reflection
import TokenContract.Feature.Tax
import TokenContract.Feature.Timelock

namespace TokenContract.Catalog

def standard : Catalog :=
  ⟨[Tax.feature, Antibot.feature, Reflection.feature, AutoLiquidity.feature, Timelock.feature]⟩

end TokenContract.Catalog
