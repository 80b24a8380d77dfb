import TokenContract.Spec.Format
import TokenContract.Yaml.Reader
import TokenContract.Yaml.Value

namespace TokenContract

def Selection.ofYaml (document : Yaml) : Yaml → Json :=
  document.asDict fun
    | "enabled" => document.asBool
    | "parameters" => document.asDict fun _ ↦ document.asValue
    | _ => fun _ ↦ .null

namespace Spec

/-- The fields are those of JSON, but where a text is expected any scalar will do. -/
def ofYaml (document : Yaml) : Yaml → Json :=
  document.asDict fun
    | "name" | "symbol" => document.asText
    | "totalSupply" => document.asValue
    | "decimals" => document.asNat
    | "features" => document.asDict fun _ ↦ Selection.ofYaml document
    | _ => fun _ ↦ .null

def parseYaml? (s : String) : Option Spec :=
  (Yaml.read? s).bind fun y ↦ (decode .value (ofYaml y y)).toOption

end Spec

end TokenContract
