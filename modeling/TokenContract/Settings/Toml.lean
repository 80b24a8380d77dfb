import TokenContract.Settings
import TokenContract.Toml.Reader

namespace TokenContract.Settings

def parseToml? (s : String) : Option Settings :=
  (Toml.read? s).bind fun entries ↦
    (decode .value (.object (Toml.jsonEntries entries))).toOption

end TokenContract.Settings
